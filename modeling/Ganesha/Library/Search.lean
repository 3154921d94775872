import Mathlib.Data.List.Basic
import Mathlib.Tactic.Common

/-!
# Searches that can be broken off

A search through a list that takes the first element it finds, but gives up at some elements.
-/

namespace Library.Search

/-- What the search makes of an element. -/
inductive Verdict
  | found
  | pass
  | stop
  deriving DecidableEq

variable {α : Type*} {verdict : α → Verdict} {P : α → Prop} {l pool : List α} {a : α}

/-- The first element that is found, unless one to stop at comes before. -/
def search (verdict : α → Verdict) : List α → Option α
  | [] => none
  | a :: l =>
    match verdict a with
    | .found => some a
    | .pass => search verdict l
    | .stop => none

/-- What is found was accepted. -/
lemma search_eq_some (h : search verdict l = some a) : a ∈ l ∧ verdict a = .found := by
  induction l with
  | nil => exact absurd h (by simp [search])
  | cons b l ih =>
    unfold search at h
    cases hb : verdict b with
    | found =>
      simp only [hb] at h
      rw [← Option.some.inj h]
      exact ⟨List.mem_cons_self, hb⟩
    | pass =>
      simp only [hb] at h
      exact ⟨List.mem_cons_of_mem _ (ih h).1, (ih h).2⟩
    | stop =>
      simp only [hb] at h
      exact absurd h (by simp)

/-- `a` is found, and those before it in the list are passed. -/
def First (verdict : α → Verdict) (l : List α) (a : α) : Prop :=
  ∃ l₁ l₂, l = l₁ ++ a :: l₂ ∧ (∀ b ∈ l₁, verdict b = .pass) ∧ verdict a = .found

/-- The search finds the first element that it comes upon. -/
lemma search_eq_some_iff : search verdict l = some a ↔ First verdict l a := by
  induction l with
  | nil =>
    refine iff_of_false (by simp [search]) ?_
    rintro ⟨l₁, l₂, hnil, -⟩
    exact absurd hnil (by simp)
  | cons b l ih =>
    unfold search
    constructor
    · intro h
      cases hb : verdict b with
      | found =>
        simp only [hb, Option.some.injEq] at h
        subst h
        exact ⟨[], l, rfl, by simp, hb⟩
      | pass =>
        simp only [hb] at h
        obtain ⟨l₁, l₂, rfl, hbefore, ha⟩ := ih.mp h
        refine ⟨b :: l₁, l₂, rfl, fun c hc => ?_, ha⟩
        rcases List.mem_cons.mp hc with rfl | hc
        · exact hb
        · exact hbefore c hc
      | stop => simp [hb] at h
    · rintro ⟨l₁, l₂, heq, hbefore, ha⟩
      cases l₁ with
      | nil =>
        obtain ⟨rfl, -⟩ := List.cons.inj heq
        simp only [ha]
      | cons c l₁ =>
        obtain ⟨rfl, rfl⟩ := List.cons.inj heq
        rw [hbefore b List.mem_cons_self]
        exact ih.mpr ⟨l₁, l₂, rfl, fun c hc => hbefore c (List.mem_cons_of_mem _ hc), ha⟩

/-- Without a stop the search finds what is there. -/
lemma search_isSome_iff (h : ∀ a ∈ l, verdict a ≠ .stop) :
    (search verdict l).isSome ↔ ∃ a ∈ l, verdict a = .found := by
  induction l with
  | nil => simp [search]
  | cons b l ih =>
    have hrest := ih fun a ha => h a (List.mem_cons_of_mem _ ha)
    unfold search
    cases hb : verdict b with
    | found => simp [hb]
    | pass => simp [hb, hrest]
    | stop => exact absurd hb (h b List.mem_cons_self)

/-- The search is right about `P` on every list that is made from elements of `pool`. -/
def Decides (verdict : α → Verdict) (P : α → Prop) (pool : List α) : Prop :=
  ∀ l : List α, (∀ a ∈ l, a ∈ pool) → ((search verdict l).isSome ↔ ∃ a ∈ l, P a)

/-- Such a search finds exactly the elements with `P`, and, if there is one to stop at, no element has
`P`. -/
theorem decides_iff : Decides verdict P pool ↔
    (∀ a ∈ pool, verdict a = .found ↔ P a) ∧ ((∃ a ∈ pool, verdict a = .stop) → ∀ a ∈ pool, ¬ P a) := by
  constructor
  · intro h
    refine ⟨fun a ha => ?_, ?_⟩
    · have hone := h [a] (by simpa using ha)
      rw [List.exists_mem_cons_iff] at hone
      unfold search at hone
      cases hv : verdict a <;> simpa [hv, search] using hone
    · rintro ⟨b, hb, hstop⟩ a ha hP
      have htwo := h [b, a] (by simp [ha, hb])
      have hfound : (search verdict [b, a]).isSome := htwo.mpr ⟨a, by simp, hP⟩
      simp [search, hstop] at hfound
  · rintro ⟨hfound, hstop⟩ l hl
    by_cases hex : ∃ b ∈ pool, verdict b = .stop
    · -- nothing is to be found, and nothing is
      have hnone : ∀ a ∈ l, ¬ P a := fun a ha => hstop hex a (hl a ha)
      refine ⟨fun hsome => ?_, fun ⟨a, ha, hP⟩ => absurd hP (hnone a ha)⟩
      obtain ⟨a, ha⟩ := Option.isSome_iff_exists.mp hsome
      obtain ⟨hmem, hv⟩ := search_eq_some ha
      exact absurd ((hfound a (hl a hmem)).mp hv) (hnone a hmem)
    · have hall : ∀ a ∈ l, verdict a ≠ .stop := fun a ha hv => hex ⟨a, hl a ha, hv⟩
      rw [search_isSome_iff hall]
      constructor
      · rintro ⟨a, ha, hv⟩
        exact ⟨a, ha, (hfound a (hl a ha)).mp hv⟩
      · rintro ⟨a, ha, hP⟩
        exact ⟨a, ha, (hfound a (hl a ha)).mpr hP⟩

end Library.Search
