import Mathlib.Algebra.Order.Group.Int
import Ganesha.RWLock.Common

/-!
# The counting semaphore

`semaphore_P` and `semaphore_V` of `SemN/SemN.c`. Each section under the mutex is one step, and
`pthread_cond_wait` cuts `semaphore_P` in two as it does for the readers-writer lock. `count` is an
`int`, whose overflow is not defined: it is an integer here.
-/

namespace Ganesha.SemN
open RWLock (pthreadCondSignal)

variable {Thread : Type} [DecidableEq Thread]

/-- `semaphore_t`, with the threads that are blocked on `cond`. -/
structure Semaphore (Thread : Type) where
  count : ℤ
  cond : List Thread
  deriving DecidableEq

def semaphoreInit (value : ℤ) : Semaphore Thread := ⟨value, []⟩

/-- The `while` of `semaphore_P`: the thread blocks, or leaves with a token. -/
def waitLoop (sem : Semaphore Thread) (t : Thread) : Semaphore Thread × Bool :=
  if sem.count < 0 then ({ sem with cond := sem.cond ++ [t] }, false) else (sem, true)

/-- `semaphore_P` up to its end, or up to `pthread_cond_wait`. -/
def semaphoreP (sem : Semaphore Thread) (t : Thread) : Semaphore Thread × Bool :=
  waitLoop { sem with count := sem.count - 1 } t

/-- `semaphore_V`; `u` is the thread a signal wakes. -/
def semaphoreV (sem : Semaphore Thread) (u : Thread) : Option (Semaphore Thread) :=
  let sem := { sem with count := sem.count + 1 }
  -- if a thread was waiting, it is to get a token
  if sem.count ≤ 0 then (pthreadCondSignal sem.cond u).map fun q => { sem with cond := q }
  else some sem

/-- The semaphore, the threads that are woken but not back in the section yet, and the numbers of
calls of `semaphore_P` that have returned and of calls of `semaphore_V`. -/
structure State (Thread : Type) where
  sem : Semaphore Thread
  woken : List Thread
  completed : ℕ
  released : ℕ
  deriving DecidableEq

/-- The semaphore just initialised, every thread outside it. -/
def initialState (value : ℤ) : State Thread := ⟨semaphoreInit value, [], 0, 0⟩

/-- What can happen next. `semaphorePReturn` is the return from `pthread_cond_wait`, `wake` is a
spurious wake-up. -/
inductive Event (Thread : Type)
  | semaphoreP (t : Thread)
  | semaphorePReturn (t : Thread)
  | semaphoreV (u : Thread)
  | wake (t : Thread)

/-- The state after the `while` of `semaphore_P`. -/
def State.leave (s : State Thread) (r : Semaphore Thread × Bool) : State Thread :=
  { s with sem := r.1, completed := s.completed + r.2.toNat }

/-- The state after the semaphore has become `sem`, with `u` woken if a thread was taken off
`cond`. -/
def State.awaken (s : State Thread) (sem : Semaphore Thread) (u : Thread) : State Thread :=
  { s with sem := sem, woken := if sem.cond = s.sem.cond then s.woken else u :: s.woken }

/-- One step. A thread enters `semaphore_P` only from outside. -/
def step (s : State Thread) : Event Thread → Option (State Thread)
  | .semaphoreP t =>
    if t ∈ s.sem.cond ∨ t ∈ s.woken then none else some (s.leave (semaphoreP s.sem t))
  | .semaphorePReturn t =>
    if t ∈ s.woken then some ({ s with woken := s.woken.erase t }.leave (waitLoop s.sem t)) else none
  | .semaphoreV u =>
    (semaphoreV s.sem u).map fun sem => { s.awaken sem u with released := s.released + 1 }
  | .wake t =>
    if t ∈ s.sem.cond then some (s.awaken { s.sem with cond := s.sem.cond.erase t } t) else none

end Ganesha.SemN
