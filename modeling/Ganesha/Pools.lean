import Mathlib.Data.List.Nodup
import Mathlib.Data.Set.Insert
import Ganesha.HashTable.Common

/-!
# Pools of preallocated objects

`Spare pool arrays U`: the objects of the pool and of the arrays that the allocator gives are all
different, and none of them is in use. `GET_PREALLOC` then gives an object that is not in use
(`Spare.get`), and one that is no longer in use may be released (`Spare.release`).

`Accounted given n pool arrays used`: of the arrays `given`, `n` have been given, and each of their
objects is once in the pool or in use.
-/

namespace Ganesha.Pools
open Ganesha.Hash (getPrealloc releasePrealloc)

variable {α : Type} {pool pool' : List α} {arrays arrays' : ℕ → List α} {U V : Set α}
  {p : α}

/-- The objects that are not in use. -/
structure Spare (pool : List α) (arrays : ℕ → List α) (U : Set α) : Prop where
  pool_nodup : pool.Nodup
  pool_free : ∀ p ∈ pool, p ∉ U
  nodup : ∀ k, (arrays k).Nodup
  free : ∀ k, ∀ p ∈ arrays k, p ∉ U ∧ p ∉ pool
  disjoint : ∀ k k', k ≠ k' → (arrays k).Disjoint (arrays k')

lemma Spare.mono (h : Spare pool arrays U) (hsub : V ⊆ U) : Spare pool arrays V where
  pool_nodup := h.pool_nodup
  pool_free p hp hV := h.pool_free p hp (hsub hV)
  nodup := h.nodup
  free k p hp := ⟨fun hV => (h.free k p hp).1 (hsub hV), (h.free k p hp).2⟩
  disjoint := h.disjoint

lemma Spare.drop (h : Spare pool arrays U) : Spare [] arrays U where
  pool_nodup := List.nodup_nil
  pool_free _ hp := absurd hp List.not_mem_nil
  nodup := h.nodup
  free k p hp := ⟨(h.free k p hp).1, List.not_mem_nil⟩
  disjoint := h.disjoint

lemma Spare.refill (h : Spare [] arrays U) : Spare (arrays 0) (fun k => arrays (k + 1)) U where
  pool_nodup := h.nodup 0
  pool_free p hp := (h.free 0 p hp).1
  nodup k := h.nodup (k + 1)
  free k p hp := ⟨(h.free (k + 1) p hp).1, fun hp0 => h.disjoint (k + 1) 0 (by omega) hp hp0⟩
  disjoint k k' hne := h.disjoint (k + 1) (k' + 1) (by omega)

/-- The first of the pool goes into use. -/
lemma Spare.take (h : Spare (p :: pool) arrays U) : p ∉ U ∧ Spare pool arrays (insert p U) := by
  have hnd := List.nodup_cons.mp h.pool_nodup
  refine ⟨h.pool_free p List.mem_cons_self, hnd.2, ?_, h.nodup, ?_, h.disjoint⟩
  · rintro q hq (rfl | hU)
    · exact hnd.1 hq
    · exact h.pool_free q (List.mem_cons_of_mem p hq) hU
  · intro k q hq
    obtain ⟨hU, hpool⟩ := h.free k q hq
    refine ⟨?_, fun hmem => hpool (List.mem_cons_of_mem p hmem)⟩
    rintro (rfl | hmem)
    · exact hpool List.mem_cons_self
    · exact hU hmem

/-- What `GET_PREALLOC` leaves, with or without an object. -/
theorem Spare.get (h : Spare pool arrays U) (nb : UInt32) :
    match getPrealloc nb pool arrays with
    | (none, pool', arrays') => Spare pool' arrays' U
    | (some p, pool', arrays') => p ∉ U ∧ Spare pool' arrays' (insert p U) := by
  unfold getPrealloc
  cases pool with
  | nil =>
    by_cases hnb : nb = 0
    · simpa [hnb] using h
    · have hrefill := h.refill
      simp only [List.isEmpty_nil, ne_eq, hnb, not_false_eq_true, and_self, if_true]
      cases harr : arrays 0 with
      | nil =>
        rw [harr] at hrefill
        exact hrefill
      | cons p pool =>
        rw [harr] at hrefill
        exact hrefill.take
  | cons p pool => exact h.take

/-- `RELEASE_PREALLOC` of an object that was in use. -/
theorem Spare.release (h : Spare pool arrays U) (hp : p ∈ U) :
    Spare (releasePrealloc p pool) arrays (U \ {p}) where
  pool_nodup := List.nodup_cons.mpr ⟨fun hmem => h.pool_free p hmem hp, h.pool_nodup⟩
  pool_free q hq := by
    rcases List.mem_cons.mp hq with rfl | hq
    · exact fun hmem => hmem.2 rfl
    · exact fun hmem => h.pool_free q hq hmem.1
  nodup := h.nodup
  free k q hq := by
    refine ⟨fun hmem => (h.free k q hq).1 hmem.1, fun hmem => ?_⟩
    rcases List.mem_cons.mp hmem with rfl | hmem
    · exact (h.free k q hq).1 hp
    · exact (h.free k q hq).2 hmem
  disjoint := h.disjoint

/-- Objects that were in use are released one after the other. -/
theorem Spare.releaseAll {ps : List α} (h : Spare pool arrays U) (hnd : ps.Nodup)
    (hps : ∀ p ∈ ps, p ∈ U) : Spare (ps.reverse ++ pool) arrays (U \ {p | p ∈ ps}) := by
  induction ps generalizing pool U with
  | nil => exact h.mono Set.sdiff_subset
  | cons p ps ih =>
    have hnd := List.nodup_cons.mp hnd
    have hrec := ih (h.release (hps p List.mem_cons_self)) hnd.2 fun q hq =>
      ⟨hps q (List.mem_cons_of_mem p hq), fun heq => hnd.1 (heq ▸ hq)⟩
    rw [List.reverse_cons, List.append_assoc]
    refine hrec.mono fun q hq => ?_
    exact ⟨⟨hq.1, fun heq => hq.2 (heq ▸ List.mem_cons_self)⟩,
      fun hmem => hq.2 (List.mem_cons_of_mem p hmem)⟩

/-- The object is in the pool or in an array that the allocator is going to give. -/
def Stocked (pool : List α) (arrays : ℕ → List α) (p : α) : Prop :=
  p ∈ pool ∨ ∃ k, p ∈ arrays k

/-- `GET_PREALLOC` takes out of the stock what it gives, and nothing else. -/
theorem stocked_get (pool : List α) (arrays : ℕ → List α) (nb : UInt32) :
    match getPrealloc nb pool arrays with
    | (none, pool', arrays') => ∀ q, Stocked pool arrays q ↔ Stocked pool' arrays' q
    | (some p, pool', arrays') => ∀ q, Stocked pool arrays q ↔ q = p ∨ Stocked pool' arrays' q := by
  unfold getPrealloc
  cases pool with
  | cons p pool =>
    intro q
    simp only [Stocked, List.tail_cons, List.mem_cons, or_assoc]
  | nil =>
    by_cases hnb : nb = 0
    · simp [hnb]
    · -- the first array becomes the pool
      have hmem : ∀ q, Stocked [] arrays q ↔ Stocked (arrays 0) (fun k => arrays (k + 1)) q := by
        intro q
        constructor
        · rintro (hq | ⟨k, hk⟩)
          · cases hq
          · cases k with
            | zero => exact .inl hk
            | succ k => exact .inr ⟨k, hk⟩
        · rintro (hq | ⟨k, hk⟩)
          · exact .inr ⟨0, hq⟩
          · exact .inr ⟨k + 1, hk⟩
      simp only [List.isEmpty_nil, ne_eq, hnb, not_false_eq_true, and_self, if_true]
      cases harr : arrays 0 with
      | nil =>
        rw [harr] at hmem
        exact hmem
      | cons p pool =>
        intro q
        rw [hmem q, harr, Stocked, List.mem_cons, or_assoc]
        rfl

/-! ## Accounts -/

section Accounts
variable {given : ℕ → List α} {n : ℕ} {used : List α}

/-- The objects of the first `n` arrays. -/
def handedOut (given : ℕ → List α) (n : ℕ) : List α := (List.range n).flatMap given

/-- Each object that the allocator gave is in the pool or in use, and there once. -/
structure Accounted (given : ℕ → List α) (n : ℕ) (pool : List α) (arrays : ℕ → List α)
    (used : List α) : Prop where
  arrays : arrays = fun k => given (n + k)
  perm : (pool ++ used).Perm (handedOut given n)

lemma handedOut_succ : handedOut given (n + 1) = handedOut given n ++ given n := by
  rw [handedOut, handedOut, List.range_succ, List.flatMap_append, List.flatMap_singleton]

/-- One array more. -/
lemma Accounted.refill (h : Accounted given n [] arrays used) :
    Accounted given (n + 1) (arrays 0) (fun k => arrays (k + 1)) used where
  arrays := by
    rw [h.arrays]
    funext k
    rw [Nat.add_comm k 1, Nat.add_assoc]
  perm := by
    have hzero : arrays 0 = given n := congrFun h.arrays 0
    rw [handedOut_succ, hzero]
    exact List.perm_append_comm.trans (h.perm.append_right (given n))

lemma Accounted.take (h : Accounted given n (p :: pool) arrays used) :
    Accounted given n pool arrays (used ++ [p]) where
  arrays := h.arrays
  perm := by
    refine List.Perm.trans ?_ h.perm
    rw [← List.append_assoc]
    exact List.perm_append_singleton p (pool ++ used)

/-- What `GET_PREALLOC` leaves. -/
theorem Accounted.get (h : Accounted given n pool arrays used) (nb : UInt32) :
    match getPrealloc nb pool arrays with
    | (none, pool', arrays') => ∃ n', Accounted given n' pool' arrays' used
    | (some p, pool', arrays') => ∃ n', Accounted given n' pool' arrays' (used ++ [p]) := by
  unfold getPrealloc
  cases pool with
  | nil =>
    by_cases hnb : nb = 0
    · simpa [hnb] using ⟨n, h⟩
    · have hrefill := h.refill
      simp only [List.isEmpty_nil, ne_eq, hnb, not_false_eq_true, and_self, if_true]
      cases harr : arrays 0 with
      | nil =>
        rw [harr] at hrefill
        exact ⟨n + 1, hrefill⟩
      | cons p pool =>
        rw [harr] at hrefill
        exact ⟨n + 1, hrefill.take⟩
  | cons p pool => exact ⟨n, h.take⟩

/-- Objects in use go back to the pool one after the other. -/
theorem Accounted.releaseAll [DecidableEq α] {ps : List α}
    (h : Accounted given n pool arrays used) (hused : used.Nodup) (hnd : ps.Nodup)
    (hps : ∀ p ∈ ps, p ∈ used) :
    Accounted given n (ps.reverse ++ pool) arrays (used.filter fun p => p ∉ ps) where
  arrays := h.arrays
  perm := by
    -- the objects released are those of `used` that are in `ps`
    have hout : ps.reverse.Perm (used.filter fun p => p ∈ ps) := by
      apply (List.reverse_perm ps).trans
      rw [List.perm_ext_iff_of_nodup hnd (hused.filter _)]
      intro p
      rw [List.mem_filter, decide_eq_true_eq]
      exact ⟨fun hp => ⟨hps p hp, hp⟩, fun hp => hp.2⟩
    have hsplit : ((used.filter fun p => p ∈ ps) ++ used.filter fun p => p ∉ ps).Perm used := by
      have hperm := List.filter_append_perm (fun p => decide (p ∈ ps)) used
      simpa only [decide_not] using hperm
    refine List.Perm.trans ?_ h.perm
    calc (ps.reverse ++ pool ++ used.filter fun p => p ∉ ps).Perm
          (pool ++ ps.reverse ++ used.filter fun p => p ∉ ps) :=
        List.perm_append_comm.append_right _
      _ = pool ++ (ps.reverse ++ used.filter fun p => p ∉ ps) := List.append_assoc ..
      _ |>.Perm (pool ++ used) := ((hout.append_right _).trans hsplit).append_left pool

end Accounts

end Ganesha.Pools
