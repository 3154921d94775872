import Mathlib.Data.Multiset.Replicate
import Mathlib.Data.Int.Notation
import Mathlib.Tactic.Common

/-!
# Reference counts

Objects that are allocated with some references and are given back when the last reference is
dropped. The references that exist are a multiset.
-/

namespace Library.RefCount

variable {α : Type*} [DecidableEq α]

/-- The counts are those of the references in `refs`, and the objects that were given back are those
to which there is none. -/
structure Counted (allocated : α → Prop) (refs : Multiset α) (count : α → ℤ) (freed : List α) :
    Prop where
  refs_allocated : ∀ p ∈ refs, allocated p
  freed_allocated : ∀ p ∈ freed, allocated p
  freed_nodup : freed.Nodup
  freed_iff : ∀ p, allocated p → (p ∈ freed ↔ p ∉ refs)
  count_eq : ∀ p ∈ refs, count p = refs.count p

variable {allocated allocated' : α → Prop} {refs : Multiset α} {count : α → ℤ} {freed : List α} {p : α}

lemma Counted.congr (h : Counted allocated refs count freed) (hiff : ∀ p, allocated' p ↔ allocated p) :
    Counted allocated' refs count freed := by
  have heq : allocated' = allocated := funext fun p => propext (hiff p)
  rw [heq]
  exact h

lemma Counted.not_mem_freed (h : Counted allocated refs count freed) (hp : p ∈ refs) : p ∉ freed :=
  fun hfreed => (h.freed_iff p (h.refs_allocated p hp)).mp hfreed hp

/-- One reference more. -/
lemma Counted.inc (h : Counted allocated refs count freed) (hp : p ∈ refs) :
    Counted allocated (p ::ₘ refs) (Function.update count p (count p + 1)) freed where
  refs_allocated := by
    intro q hq
    rcases Multiset.mem_cons.mp hq with rfl | hq
    · exact h.refs_allocated q hp
    · exact h.refs_allocated q hq
  freed_allocated := h.freed_allocated
  freed_nodup := h.freed_nodup
  freed_iff := by
    intro q hq
    rw [h.freed_iff q hq, Multiset.mem_cons, not_or]
    refine ⟨fun hnot => ⟨fun heq => hnot (heq ▸ hp), hnot⟩, And.right⟩
  count_eq := by
    intro q hq
    by_cases heq : q = p
    · rw [heq, Function.update_self, Multiset.count_cons_self, h.count_eq p hp]
      rfl
    · rw [Function.update_of_ne heq, Multiset.count_cons_of_ne heq]
      exact h.count_eq q ((Multiset.mem_cons.mp hq).resolve_left heq)

/-- One reference less, and the last one frees. -/
lemma Counted.dec (h : Counted allocated (p ::ₘ refs) count freed) :
    Counted allocated refs (Function.update count p (count p - 1))
      (if count p - 1 = 0 then p :: freed else freed) := by
  have hcount : count p - 1 = refs.count p := by
    rw [h.count_eq p (Multiset.mem_cons_self p refs), Multiset.count_cons_self]
    omega
  have hlast : count p - 1 = 0 ↔ p ∉ refs := by
    rw [hcount, ← Multiset.count_eq_zero]
    omega
  have hp : allocated p := h.refs_allocated p (Multiset.mem_cons_self p refs)
  have hnot : p ∉ freed := h.not_mem_freed (Multiset.mem_cons_self p refs)
  refine ⟨fun q hq => h.refs_allocated q (Multiset.mem_cons_of_mem hq), fun q hq => ?_, ?_, fun q hq => ?_,
    fun q hq => ?_⟩
  · split_ifs at hq
    · rcases List.mem_cons.mp hq with rfl | hq
      · exact hp
      · exact h.freed_allocated q hq
    · exact h.freed_allocated q hq
  · split_ifs
    · exact List.nodup_cons.mpr ⟨hnot, h.freed_nodup⟩
    · exact h.freed_nodup
  · by_cases heq : q = p
    · rw [heq]
      split_ifs with hzero
      · exact iff_of_true List.mem_cons_self (hlast.mp hzero)
      · exact iff_of_false hnot fun hp => hzero (hlast.mpr hp)
    · have hold : q ∈ freed ↔ q ∉ refs := by
        rw [h.freed_iff q hq, Multiset.mem_cons, or_iff_right heq]
      split_ifs
      · rw [List.mem_cons, or_iff_right heq, hold]
      · exact hold
  · by_cases heq : q = p
    · rw [heq, Function.update_self, hcount]
    · rw [Function.update_of_ne heq, h.count_eq q (Multiset.mem_cons_of_mem hq),
        Multiset.count_cons_of_ne heq]

/-- A new object with its references. -/
lemma Counted.alloc {n : ℕ} (h : Counted allocated refs count freed) (hp : ¬ allocated p) (hn : n ≠ 0) :
    Counted (fun q => allocated q ∨ q = p) (Multiset.replicate n p + refs)
      (Function.update count p n) freed := by
  have hrefs : p ∉ refs := fun hmem => hp (h.refs_allocated p hmem)
  have hmem : ∀ q, q ∈ Multiset.replicate n p + refs ↔ q = p ∨ q ∈ refs := by
    intro q
    rw [Multiset.mem_add, Multiset.mem_replicate]
    simp [hn]
  refine ⟨fun q hq => ?_, fun q hq => Or.inl (h.freed_allocated q hq), h.freed_nodup, fun q hq => ?_,
    fun q hq => ?_⟩
  · exact ((hmem q).mp hq).symm.imp_left (h.refs_allocated q)
  · rw [hmem q]
    by_cases heq : q = p
    · rw [heq]
      exact iff_of_false (fun hfreed => hp (h.freed_allocated p hfreed)) (by simp)
    · rw [or_iff_right heq]
      exact h.freed_iff q (hq.resolve_right heq)
  · rw [Multiset.count_add, Multiset.count_replicate]
    by_cases heq : q = p
    · rw [heq, Function.update_self, if_pos rfl, Multiset.count_eq_zero.mpr hrefs, Nat.add_zero]
    · rw [Function.update_of_ne heq, if_neg (Ne.symm heq), Nat.zero_add]
      exact h.count_eq q (((hmem q).mp hq).resolve_left heq)

end Library.RefCount
