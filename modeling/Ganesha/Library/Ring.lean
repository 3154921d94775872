import Mathlib.Data.List.Basic
import Mathlib.Data.List.Nodup

/-!
# Circular lists

Nodes with two pointers, which may be null, that form a ring from a head through the nodes of a list and back.
-/

namespace Library.Ring

/-- The two pointers of each node. -/
structure Links (α : Type) where
  next : α → Option α
  prev : α → Option α

variable {α : Type} {m m' : Links α} {a b c e h : α} {l l₁ l₂ : List α}

/-- From the node `a` through the nodes `l` to the node `e`, both ways. -/
def Segment (m : Links α) : α → List α → α → Prop
  | a, [], e => m.next a = some e ∧ m.prev e = some a
  | a, b :: l, e => m.next a = some b ∧ m.prev b = some a ∧ Segment m b l e

/-- The nodes `l` in a ring behind their head. -/
structure IsRing (m : Links α) (h : α) (l : List α) : Prop where
  segment : Segment m h l h
  nodup : (h :: l).Nodup

lemma Segment.append : Segment m a (l₁ ++ b :: l₂) e ↔ Segment m a l₁ b ∧ Segment m b l₂ e := by
  induction l₁ generalizing a with
  | nil => exact and_assoc.symm
  | cons c l₁ ih =>
    rw [List.cons_append, Segment, ih, Segment]
    tauto

lemma Segment.next_eq (hs : Segment m a l e) : m.next a = (l ++ [e]).head? := by
  cases l with
  | nil => exact hs.1
  | cons b l => exact hs.1

/-- Two segments that meet. -/
lemma Segment.join (hs : Segment m a l₁ c) (hb : m.next b = some c) (hs' : Segment m b l₂ e) :
    Segment m a (l₁ ++ l₂) e := by
  cases l₂ with
  | nil =>
    obtain rfl : c = e := Option.some.inj (hb.symm.trans hs'.1)
    rw [List.append_nil]
    exact hs
  | cons x l₂ =>
    obtain ⟨hbx, -, hs'⟩ := hs'
    obtain rfl : c = x := Option.some.inj (hb.symm.trans hbx)
    exact Segment.append.mpr ⟨hs, hs'⟩

/-- Links of other cells may change. -/
lemma Segment.congr (hs : Segment m a l e) (hnext : ∀ c ∈ a :: l, m'.next c = m.next c)
    (hprev : ∀ c ∈ l ++ [e], m'.prev c = m.prev c) : Segment m' a l e := by
  induction l generalizing a with
  | nil =>
    exact ⟨(hnext a List.mem_cons_self).trans hs.1, (hprev e (List.mem_singleton_self e)).trans hs.2⟩
  | cons b l ih =>
    obtain ⟨hab, hba, hs⟩ := hs
    refine ⟨(hnext a List.mem_cons_self).trans hab, (hprev b List.mem_cons_self).trans hba, ih hs ?_ ?_⟩
    · exact fun c hc => hnext c (List.mem_cons_of_mem _ hc)
    · exact fun c hc => hprev c (List.mem_cons_of_mem _ hc)

/-- The end of a segment may be replaced. -/
lemma Segment.retarget (hs : Segment m a l e) (hnodup : (a :: l).Nodup) : ∃ w ∈ a :: l, m.prev e = some w ∧
    m.next w = some e ∧ ∀ m' e', (∀ c ∈ a :: l, c ≠ w → m'.next c = m.next c) → (∀ c ∈ l, m'.prev c = m.prev c) →
      m'.next w = some e' → m'.prev e' = some w → Segment m' a l e' := by
  induction l generalizing a with
  | nil => exact ⟨a, List.mem_cons_self, hs.2, hs.1, fun m' e' _ _ hnext hprev => ⟨hnext, hprev⟩⟩
  | cons b l ih =>
    obtain ⟨hab, hba, hs⟩ := hs
    obtain ⟨hnot, hnodup⟩ := List.nodup_cons.mp hnodup
    obtain ⟨w, hw, hprev, hnext, hchange⟩ := ih hs hnodup
    refine ⟨w, List.mem_cons_of_mem _ hw, hprev, hnext, ?_⟩
    intro m' e' hnexts hprevs hnext' hprev'
    refine ⟨?_, (hprevs b List.mem_cons_self).trans hba, ?_⟩
    · rw [hnexts a List.mem_cons_self (fun heq => hnot (heq ▸ hw))]
      exact hab
    · exact hchange m' e' (fun c hc => hnexts c (List.mem_cons_of_mem _ hc))
        (fun c hc => hprevs c (List.mem_cons_of_mem _ hc)) hnext' hprev'

/-- The start of a segment may be replaced. -/
lemma Segment.restart (hs : Segment m a l e) (hnodup : (l ++ [e]).Nodup) : ∃ f ∈ l ++ [e], m.next a = some f ∧
    m.prev f = some a ∧ ∀ m' a', (∀ c ∈ l, m'.next c = m.next c) → (∀ c ∈ l ++ [e], c ≠ f → m'.prev c = m.prev c) →
      m'.next a' = some f → m'.prev f = some a' → Segment m' a' l e := by
  cases l with
  | nil => exact ⟨e, List.mem_singleton_self e, hs.1, hs.2, fun m' a' _ _ hnext hprev => ⟨hnext, hprev⟩⟩
  | cons b l =>
    obtain ⟨hab, hba, hs⟩ := hs
    refine ⟨b, List.mem_cons_self, hab, hba, ?_⟩
    intro m' a' hnexts hprevs hnext' hprev'
    refine ⟨hnext', hprev', hs.congr hnexts ?_⟩
    intro c hc
    refine hprevs c (List.mem_cons_of_mem _ hc) ?_
    rintro rfl
    exact (List.nodup_cons.mp hnodup).1 hc

/-- Two ends lead to one segment only. -/
lemma Segment.unique (hs : Segment m a l₁ e) (hs' : Segment m a l₂ e) (hnot : e ∉ l₁) (hnot' : e ∉ l₂) :
    l₁ = l₂ := by
  induction l₁ generalizing a l₂ with
  | nil =>
    cases l₂ with
    | nil => rfl
    | cons b l₂ =>
      obtain rfl : e = b := Option.some.inj (hs.1.symm.trans hs'.1)
      exact absurd List.mem_cons_self hnot'
  | cons b l₁ ih =>
    cases l₂ with
    | nil =>
      obtain rfl : e = b := Option.some.inj (hs'.1.symm.trans hs.1)
      exact absurd List.mem_cons_self hnot
    | cons b' l₂ =>
      obtain ⟨hab, -, hs⟩ := hs
      obtain ⟨hab', -, hs'⟩ := hs'
      rw [hab] at hab'
      cases hab'
      rw [ih hs hs' (fun h => hnot (List.mem_cons_of_mem _ h)) fun h => hnot' (List.mem_cons_of_mem _ h)]

lemma mem_append_singleton : c ∈ l ++ [h] ↔ c ∈ h :: l := by
  rw [List.mem_append, List.mem_singleton, List.mem_cons]
  exact or_comm

lemma nodup_append_singleton : (l ++ [h]).Nodup ↔ (h :: l).Nodup :=
  List.Perm.nodup_iff List.perm_append_comm

lemma IsRing.unique (hr : IsRing m h l₁) (hr' : IsRing m h l₂) : l₁ = l₂ :=
  hr.segment.unique hr'.segment (List.nodup_cons.mp hr.nodup).1 (List.nodup_cons.mp hr'.nodup).1

end Library.Ring
