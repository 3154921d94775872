import Ganesha.Library.Transition

/-!
# The readers-writer lock

The functions of `RW_Lock/RW_Lock.c`. Each section between `P(mutexProtect)` and
`V(mutexProtect)` is one step. A condition variable is the list of the threads blocked on it, and
`pthread_cond_wait` cuts a function in two steps: the first blocks the thread, the second is taken
once the thread is off the list and has the mutex again.
-/

namespace Ganesha.RWLock

variable {Thread : Type} [DecidableEq Thread]

/-- `rw_lock_t`, the mutex being implicit in the atomicity of the steps. The counters are `unsigned
int`s in the source, the same for fewer than 2^32 threads. -/
structure RwLock (Thread : Type) where
  nbrActive : ℕ
  nbrWaiting : ℕ
  nbwActive : ℕ
  nbwWaiting : ℕ
  condWrite : List Thread
  condRead : List Thread
  deriving DecidableEq, Repr

def rwLockInit : RwLock Thread where
  nbrActive := 0
  nbrWaiting := 0
  nbwActive := 0
  nbwWaiting := 0
  condWrite := []
  condRead := []

/-- `pthread_cond_signal` wakes a blocked thread, the one named by `u`, if there is any. Waking
more than one is this followed by spurious wake-ups. -/
def pthreadCondSignal (cond : List Thread) (u : Thread) : Option (List Thread) :=
  if cond = [] then some [] else if u ∈ cond then some (cond.erase u) else none

/-- Where a thread stands: outside the lock, inside `P_r` or `P_w` at `pthread_cond_wait`, or
holding the lock. -/
inductive Pc
  | idle
  | waitRead
  | reading
  | waitWrite
  | writing
  deriving DecidableEq, Repr

/-- The end of `P_r`, from the `if` on. -/
def pRGrant (l : RwLock Thread) : RwLock Thread :=
  { l with nbrWaiting := l.nbrWaiting - 1, nbrActive := l.nbrActive + 1 }

/-- `P_r` up to its end, or up to `pthread_cond_wait`. -/
def pR (l : RwLock Thread) (t : Thread) : RwLock Thread × Pc :=
  let l := { l with nbrWaiting := l.nbrWaiting + 1 }
  -- no new read lock is granted if writers are waiting or active
  if l.nbwActive > 0 ∨ l.nbwWaiting > 0 then
    ({ l with condRead := l.condRead ++ [t] }, .waitRead)
  else
    (pRGrant l, .reading)

/-- `V_r`; `u` is the thread a signal wakes. -/
def vR (l : RwLock Thread) (u : Thread) : Option (RwLock Thread) :=
  let l := { l with nbrActive := l.nbrActive - 1 }
  if l.nbrActive = 0 ∧ l.nbwWaiting > 0 then
    (pthreadCondSignal l.condWrite u).map fun q => { l with condWrite := q }
  else
    some l

/-- The `while` of `P_w` and what follows it: the thread blocks or gets the lock. -/
def pWLoop (l : RwLock Thread) (t : Thread) : RwLock Thread × Pc :=
  if l.nbrActive > 0 ∨ l.nbwActive > 0 then
    ({ l with condWrite := l.condWrite ++ [t] }, .waitWrite)
  else
    ({ l with nbwWaiting := l.nbwWaiting - 1, nbwActive := l.nbwActive + 1 }, .writing)

/-- `P_w` up to its end, or up to `pthread_cond_wait`. -/
def pW (l : RwLock Thread) (t : Thread) : RwLock Thread × Pc :=
  pWLoop { l with nbwWaiting := l.nbwWaiting + 1 } t

/-- `V_w`; `u` is the thread a signal wakes. -/
def vW (l : RwLock Thread) (u : Thread) : Option (RwLock Thread) :=
  let l := { l with nbwActive := l.nbwActive - 1 }
  if l.nbwWaiting > 0 then
    (pthreadCondSignal l.condWrite u).map fun q => { l with condWrite := q }
  else if l.nbrWaiting > 0 then
    some { l with condRead := [] }
  else
    some l

def rwLockDowngrade (l : RwLock Thread) : RwLock Thread :=
  let l := { l with nbwActive := l.nbwActive - 1 }
  let l := if l.nbrWaiting > 0 then { l with condRead := [] } else l
  { l with nbrActive := l.nbrActive + 1 }

/-- The lock and where each thread stands. -/
structure State (Thread : Type) where
  lock : RwLock Thread
  pc : Thread → Pc

/-- The lock just initialised, every thread outside it. -/
def initialState : State Thread where
  lock := rwLockInit
  pc _ := .idle

/-- What a thread can do next. `pRReturn` and `pWReturn` are the returns from
`pthread_cond_wait`, `wake` is a spurious wake-up. -/
inductive Event (Thread : Type)
  | pR (t : Thread)
  | pRReturn (t : Thread)
  | vR (t u : Thread)
  | pW (t : Thread)
  | pWReturn (t : Thread)
  | vW (t u : Thread)
  | rwLockDowngrade (t : Thread)
  | wake (t : Thread)

/-- The state after thread `t` has left the lock as `l` and stands at `pc`. -/
def State.move (s : State Thread) (t : Thread) (l : RwLock Thread) (pc : Pc) : State Thread where
  lock := l
  pc := Function.update s.pc t pc

/-- One step. A thread takes the lock only when it is outside, and releases or downgrades only
what it holds; it returns from `pthread_cond_wait` only when it is not blocked any more. -/
def step (s : State Thread) : Event Thread → Option (State Thread)
  | .pR t =>
    if s.pc t = .idle then some (s.move t (pR s.lock t).1 (pR s.lock t).2) else none
  | .pRReturn t =>
    -- the source has an `if`, so the guard is not looked at again
    if s.pc t = .waitRead ∧ t ∉ s.lock.condRead then some (s.move t (pRGrant s.lock) .reading)
    else none
  | .vR t u =>
    if s.pc t = .reading then (vR s.lock u).map fun l => s.move t l .idle else none
  | .pW t =>
    if s.pc t = .idle then some (s.move t (pW s.lock t).1 (pW s.lock t).2) else none
  | .pWReturn t =>
    if s.pc t = .waitWrite ∧ t ∉ s.lock.condWrite then
      some (s.move t (pWLoop s.lock t).1 (pWLoop s.lock t).2)
    else none
  | .vW t u =>
    if s.pc t = .writing then (vW s.lock u).map fun l => s.move t l .idle else none
  | .rwLockDowngrade t =>
    if s.pc t = .writing then some (s.move t (rwLockDowngrade s.lock) .reading) else none
  | .wake t =>
    some { s with lock := { s.lock with
      condRead := s.lock.condRead.erase t, condWrite := s.lock.condWrite.erase t } }

end Ganesha.RWLock
