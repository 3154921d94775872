import Mathlib.Data.Nat.Notation
import Mathlib.Logic.Basic

/-!
# Computations that open and close resources

A computation on a state may fail; failing stands for the use of a resource that is not open. `Safe` is the weakest
precondition of a computation over the list of the open resources: it does not fail, whatever else the state is.
-/

namespace Ganesha.Scope

/-- The resources of a state: those that are open, and what is always true. -/
structure Resources (W : Type) where
  live : W → List ℕ
  inv : W → Prop

variable {W α β : Type} {R : Resources W}

/-- From each state with the open resources `l`, the computation does not fail and ends with `post`. -/
def Safe (R : Resources W) (l : List ℕ) (m : StateT W Option α) (post : α → List ℕ → Prop) : Prop :=
  ∀ w, R.inv w → R.live w = l → ∃ a w', m w = some (a, w') ∧ R.inv w' ∧ post a (R.live w')

variable {l : List ℕ} {m : StateT W Option α} {f : α → StateT W Option β} {post post' : α → List ℕ → Prop}
  {post₂ : β → List ℕ → Prop}

lemma Safe.pure {a : α} (h : post a l) : Safe R l (pure a : StateT W Option α) post := by
  intro w hinv hl
  refine ⟨a, w, rfl, hinv, ?_⟩
  rw [hl]
  exact h

lemma Safe.mono (h : Safe R l m post) (hpost : ∀ a l', post a l' → post' a l') : Safe R l m post' := by
  intro w hinv hl
  obtain ⟨a, w', hm, hinv', ha⟩ := h w hinv hl
  exact ⟨a, w', hm, hinv', hpost _ _ ha⟩

/-- One computation after the other. -/
lemma Safe.bind (h : Safe R l m fun a l' => Safe R l' (f a) post₂) : Safe R l (m >>= f) post₂ := by
  intro w hinv hl
  obtain ⟨a, w', hm, hinv', hsafe⟩ := h w hinv hl
  obtain ⟨b, w'', hf, hinv'', hb⟩ := hsafe w' hinv' rfl
  refine ⟨b, w'', ?_, hinv'', hb⟩
  show (m w).bind (fun p => f p.1 p.2) = some (b, w'')
  rw [hm]
  exact hf

end Ganesha.Scope
