import Mathlib.Data.List.Basic
import Mathlib.Tactic.Common

/-!
# Lock steps of an operation

An operation on objects with readers-writer locks is seen as the sequence of the steps that it does
on the locks, together with its result. What it does depends on what it is told, so it is a value of
the monad `Locking`, and the steps are run one after the other.
-/

namespace Library.LockTrace

/-- How a lock is taken. -/
inductive Mode
  | read
  | write
  deriving DecidableEq

/-- A step on the lock of an object; `retire` gives the object back to its allocator, `renew` gets
it from there, and `fault` uses an object that is none. -/
inductive Step (ι : Type)
  | acquire (e : ι) (m : Mode)
  | free (e : ι) (m : Mode)
  | destroy (e : ι)
  | retire (e : ι)
  | renew (e : ι)
  | fault
  deriving DecidableEq

/-- An operation with the steps that it does. -/
structure Locking (ι α : Type) where
  steps : List (Step ι)
  result : α

namespace Locking

variable {ι α β : Type}

instance : Monad (Locking ι) where
  pure a := ⟨[], a⟩
  bind m f := ⟨m.steps ++ (f m.result).steps, (f m.result).result⟩

/-- One step. -/
def step (s : Step ι) : Locking ι Unit := ⟨[s], ()⟩

/-- An operation that is done only if `b` says so. -/
def doIf (b : Bool) (m : Locking ι Unit) : Locking ι Unit :=
  if b then m else pure ()

@[simp]
lemma pure_steps (a : α) : (pure a : Locking ι α).steps = [] := rfl

@[simp]
lemma pure_result (a : α) : (pure a : Locking ι α).result = a := rfl

end Locking

end Library.LockTrace
