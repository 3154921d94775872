import Mathlib.Data.List.Nodup
import Mathlib.Data.List.Perm.Basic

/-!
# Things given out and taken back

Things are given out at places, one at a time at each place, and a place is used again once what was
there has been taken back. Every thing gets a number, so that two things at the same place are told
apart. A thing is first returned by whoever has it, then waits at its place, and is taken back last.
-/

namespace Library

/-- What happened so far. A thing that is taken back at a place where nothing is out has no
number. -/
structure Ledger (α : Type*) where
  next : ℕ := 0
  out : List (ℕ × α) := []
  returned : List ℕ := []
  taken : List (Option ℕ) := []

namespace Ledger

variable {α : Type*} [DecidableEq α] {t : Ledger α} {n : ℕ} {p q : α} {l l' : List α}

/-- The number of the thing that is out at a place. -/
def numberAt (t : Ledger α) (p : α) : Option ℕ := (t.out.find? (·.2 = p)).map Prod.fst

/-- The place of a thing that is out. -/
def placeOf (t : Ledger α) (n : ℕ) : Option α := (t.out.find? (·.1 = n)).map Prod.snd

/-- A thing is given out. -/
def give (t : Ledger α) (p : α) : Ledger α :=
  { t with next := t.next + 1, out := (t.next, p) :: t.out }

/-- A thing is returned. -/
def giveBack (t : Ledger α) (n : ℕ) : Ledger α := { t with returned := n :: t.returned }

/-- What is at a place is taken back. -/
def takeBack (t : Ledger α) (p : α) : Ledger α :=
  { t with taken := t.numberAt p :: t.taken, out := t.out.filter (·.2 ≠ p) }

/-- Every thing is out or was taken back, and every thing returned was taken back or waits at one of
the places `l`, exactly once. -/
structure Ok (t : Ledger α) (l : List α) : Prop where
  places : (t.out.map Prod.snd).Nodup
  issued : (t.out.map (some ·.1) ++ t.taken).Perm ((List.range t.next).map some)
  returned : t.returned.Nodup
  waiting : l.Nodup
  present : ∀ p ∈ l, p ∈ t.out.map Prod.snd
  once : (t.taken ++ l.map t.numberAt).Perm (t.returned.map some)

omit [DecidableEq α] in
/-- The place of a number. -/
lemma placeOf_mem (h : t.placeOf n = some p) : (n, p) ∈ t.out := by
  rw [placeOf, Option.map_eq_some_iff] at h
  obtain ⟨x, hfind, rfl⟩ := h
  have hn := List.find?_some hfind
  rw [decide_eq_true_eq] at hn
  rw [← hn]
  exact List.mem_of_find?_eq_some hfind

/-- The number at a place is the one paired with it. -/
lemma numberAt_of_mem (h : (t.out.map Prod.snd).Nodup) (hmem : (n, p) ∈ t.out) :
    t.numberAt p = some n := by
  rw [numberAt, Option.map_eq_some_iff]
  cases hfind : t.out.find? (·.2 = p) with
  | none =>
    have hnone := List.find?_eq_none.mp hfind _ hmem
    simp at hnone
  | some x =>
    have hp := List.find?_some hfind
    rw [decide_eq_true_eq] at hp
    have heq : x = (n, p) := List.inj_on_of_nodup_map h (List.mem_of_find?_eq_some hfind) hmem hp
    exact ⟨x, rfl, by rw [heq]⟩

/-- Other places keep their numbers. -/
lemma numberAt_takeBack (h : q ≠ p) : (t.takeBack p).numberAt q = t.numberAt q := by
  rw [numberAt, takeBack, List.find?_filter, numberAt]
  congr 1
  congr 1
  funext x
  by_cases hx : x.2 = q
  · simp [hx, h]
  · simp [hx]

lemma Ok.perm (h : t.Ok l) (hperm : l'.Perm l) : t.Ok l' where
  places := h.places
  issued := h.issued
  returned := h.returned
  waiting := hperm.nodup_iff.mpr h.waiting
  present p hp := h.present p (hperm.subset hp)
  once := ((hperm.map _).append_left _).trans h.once

lemma Ok.mem_returned (h : t.Ok l) (hmem : (n, p) ∈ t.out) (hp : p ∈ l) : n ∈ t.returned := by
  have hwait : some n ∈ t.taken ++ l.map t.numberAt := by
    refine List.mem_append_right _ (List.mem_map.mpr ⟨p, hp, ?_⟩)
    exact numberAt_of_mem h.places hmem
  obtain ⟨m, hm, heq⟩ := List.mem_map.mp (h.once.subset hwait)
  exact Option.some.inj heq ▸ hm

/-- A thing is given out at a place where nothing is out. -/
theorem Ok.give (h : t.Ok l) (hp : p ∉ t.out.map Prod.snd) : (t.give p).Ok l where
  places := List.nodup_cons.mpr ⟨hp, h.places⟩
  issued := by
    have hrange : (List.range (t.next + 1)).map some =
        (List.range t.next).map some ++ [some t.next] := by
      rw [List.range_succ, List.map_append]
      rfl
    simp only [Ledger.give, hrange, List.map_cons, List.cons_append]
    exact (h.issued.cons _).trans (List.perm_append_singleton _ _).symm
  returned := h.returned
  waiting := h.waiting
  present q hq := List.mem_cons_of_mem _ (h.present q hq)
  once := by
    have hsame : l.map (t.give p).numberAt = l.map t.numberAt := by
      refine List.map_congr_left fun q hq => ?_
      have hne : p ≠ q := fun heq => hp (heq ▸ h.present q hq)
      rw [numberAt, Ledger.give, List.find?_cons_of_neg (by simpa using hne), numberAt]
    rw [hsame]
    exact h.once

/-- A thing that is out is returned for the first time. -/
theorem Ok.giveBack (h : t.Ok l) (hmem : (n, p) ∈ t.out) (hn : n ∉ t.returned) :
    (t.giveBack n).Ok (p :: l) where
  places := h.places
  issued := h.issued
  returned := List.nodup_cons.mpr ⟨hn, h.returned⟩
  waiting := List.nodup_cons.mpr ⟨fun hp => hn (h.mem_returned hmem hp), h.waiting⟩
  present := List.forall_mem_cons.mpr ⟨List.mem_map.mpr ⟨_, hmem, rfl⟩, h.present⟩
  once := by
    have hsame : (t.giveBack n).numberAt p = some n := numberAt_of_mem h.places hmem
    rw [List.map_cons, hsame]
    exact List.perm_middle.trans (h.once.cons _)

/-- What waits is taken back. -/
theorem Ok.takeBack (h : t.Ok (p :: l)) : (t.takeBack p).Ok l where
  places := h.places.sublist (List.filter_sublist.map _)
  issued := by
    obtain ⟨x, hx, rfl⟩ := List.mem_map.mp (h.present p List.mem_cons_self)
    have hnumber : t.numberAt x.2 = some x.1 := numberAt_of_mem h.places hx
    -- only this thing is at the place
    have hsplit : t.out.Perm (x :: t.out.filter (·.2 ≠ x.2)) := by
      have hnd : t.out.Nodup := h.places.of_map _
      refine (List.perm_ext_iff_of_nodup hnd (List.nodup_cons.mpr ⟨?_, hnd.filter _⟩)).mpr ?_
      · simp
      · intro y
        rw [List.mem_cons, List.mem_filter, decide_eq_true_eq]
        constructor
        · intro hy
          by_cases hyx : y.2 = x.2
          · exact .inl (List.inj_on_of_nodup_map h.places hy hx hyx)
          · exact .inr ⟨hy, hyx⟩
        · rintro (rfl | ⟨hy, -⟩)
          · exact hx
          · exact hy
    simp only [Ledger.takeBack, hnumber]
    refine List.perm_middle.trans ?_
    rw [← List.cons_append]
    exact ((hsplit.map _).symm.append_right _).trans h.issued
  returned := h.returned
  waiting := (List.nodup_cons.mp h.waiting).2
  present q hq := by
    have hne : q ≠ p := fun heq => (List.nodup_cons.mp h.waiting).1 (heq ▸ hq)
    obtain ⟨x, hx, rfl⟩ := List.mem_map.mp (h.present q (List.mem_cons_of_mem _ hq))
    exact List.mem_map.mpr ⟨x, List.mem_filter.mpr ⟨hx, by simpa using hne⟩, rfl⟩
  once := by
    have hsame : l.map (t.takeBack p).numberAt = l.map t.numberAt := by
      refine List.map_congr_left fun q hq => numberAt_takeBack fun heq => ?_
      exact (List.nodup_cons.mp h.waiting).1 (heq ▸ hq)
    rw [hsame]
    exact List.perm_middle.symm.trans h.once

/-- All that waits at the places `l` is taken back. -/
theorem Ok.takeBackAll (h : t.Ok (l ++ l')) : (l.foldl Ledger.takeBack t).Ok l' := by
  induction l generalizing t with
  | nil => exact h
  | cons p l ih => exact ih h.takeBack

/-- What is left after several came back. -/
lemma out_takeBackAll : (l.foldl Ledger.takeBack t).out = t.out.filter (·.2 ∉ l) := by
  induction l generalizing t with
  | nil => simp
  | cons p l ih =>
    rw [List.foldl_cons, ih, Ledger.takeBack, List.filter_filter]
    refine List.filter_congr fun x _ => ?_
    by_cases hx : x.2 = p
    · simp [hx]
    · simp [hx]

/-- When nothing is out, all that was returned has been taken back. -/
theorem Ok.taken_perm (h : t.Ok l) (hout : t.out = []) : t.taken.Perm (t.returned.map some) := by
  have hl : l = [] := by
    refine List.eq_nil_iff_forall_not_mem.mpr fun p hp => ?_
    have hmem := h.present p hp
    rw [hout] at hmem
    cases hmem
  have honce := h.once
  rw [hl, List.map_nil, List.append_nil] at honce
  exact honce

end Ledger

end Library
