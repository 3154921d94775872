import Mathlib.Data.List.Nodup

/-!
# Linked lists

`next` and `prev` are the pointers of the nodes, `Linked next prev none head l` says that `head`
starts the list of the nodes `l`, linked both ways. The edits, a node put at the head or the tail and
a node taken out, are stated on what the new pointers are, so that they apply to any way of writing
them.
-/

namespace Library.LinkedList

variable {α : Type*} {next prev next' prev' : α → Option α} {p h : Option α} {a b : α}
  {l l₁ l₂ : List α}

/-- The nodes from the pointer `h` on, the node before them being `p`. -/
def Linked (next prev : α → Option α) : Option α → Option α → List α → Prop
  | _, h, [] => h = none
  | p, h, a :: l => h = some a ∧ prev a = p ∧ Linked next prev (some a) (next a) l

/-- Links of other cells may change. -/
lemma Linked.congr (hl : Linked next prev p h l)
    (hsame : ∀ b ∈ l, next' b = next b ∧ prev' b = prev b) : Linked next' prev' p h l := by
  induction l generalizing p h with
  | nil => exact hl
  | cons a l ih =>
    rcases hl with ⟨hh, hp, hl⟩
    have ha := hsame a List.mem_cons_self
    refine ⟨hh, ha.2.trans hp, ?_⟩
    rw [ha.1]
    exact ih hl fun b hb => hsame b (List.mem_cons_of_mem a hb)

lemma Linked.head_eq (hl : Linked next prev p h l) : h = l.head? := by
  cases l with
  | nil => exact hl
  | cons a l => exact hl.1

/-- A head leads to one list only. -/
lemma Linked.unique {p' : Option α} (hl : Linked next prev p h l)
    (hl' : Linked next prev p' h l₁) : l = l₁ := by
  induction l generalizing p p' h l₁ with
  | nil =>
    rw [hl] at hl'
    cases l₁ with
    | nil => rfl
    | cons b l₁ => cases hl'.1
  | cons a l ih =>
    rcases hl with ⟨rfl, -, hl⟩
    cases l₁ with
    | nil => cases hl'
    | cons b l₁ =>
      rcases hl' with ⟨hb, -, hl'⟩
      cases hb
      rw [ih hl hl']

/-- A node put at the head. -/
theorem Linked.insert [DecidableEq α] (hl : Linked next prev none h l) (hnd : l.Nodup) (hnext : next' a = h)
    (hprev : prev' a = none) (hnexts : ∀ b ∈ l, next' b = next b)
    (hprevs : ∀ b ∈ l, prev' b = if h = some b then some a else prev b) :
    Linked next' prev' none (some a) (a :: l) := by
  refine ⟨rfl, hprev, ?_⟩
  rw [hnext]
  cases l with
  | nil => exact hl
  | cons b l =>
    rcases hl with ⟨rfl, hp, hl⟩
    refine ⟨rfl, ?_, ?_⟩
    · rw [hprevs b List.mem_cons_self, if_pos rfl]
    · rw [hnexts b List.mem_cons_self]
      refine hl.congr fun c hc => ⟨hnexts c (List.mem_cons_of_mem b hc), ?_⟩
      have hne : some b ≠ some c := fun heq =>
        (List.nodup_cons.mp hnd).1 (Option.some.inj heq ▸ hc)
      rw [hprevs c (List.mem_cons_of_mem b hc), if_neg hne]

/-- A node put at the tail. -/
theorem Linked.append [DecidableEq α] (hl : Linked next prev p h l) (hnd : l.Nodup) (hne : l ≠ [])
    (hnext : next' a = none) (hprev : prev' a = l.getLast?)
    (hnexts : ∀ b ∈ l, next' b = if l.getLast? = some b then some a else next b)
    (hprevs : ∀ b ∈ l, prev' b = prev b) : Linked next' prev' p h (l ++ [a]) := by
  induction l generalizing p h with
  | nil => exact absurd rfl hne
  | cons b l ih =>
    rcases hl with ⟨hh, hp, hl⟩
    refine ⟨hh, (hprevs b List.mem_cons_self).trans hp, ?_⟩
    rw [hnexts b List.mem_cons_self]
    cases l with
    | nil =>
      rw [List.getLast?_singleton, if_pos rfl]
      exact ⟨rfl, hprev, hnext⟩
    | cons c l =>
      rw [List.getLast?_cons_cons] at hprev hnexts ⊢
      have hb : (c :: l).getLast? ≠ some b := fun heq =>
        (List.nodup_cons.mp hnd).1 (List.mem_of_getLast? heq)
      rw [if_neg hb]
      exact ih hl (List.nodup_cons.mp hnd).2 (List.cons_ne_nil c l) hprev
        (fun d hd => hnexts d (List.mem_cons_of_mem b hd))
        fun d hd => hprevs d (List.mem_cons_of_mem b hd)

/-- The neighbour in front. -/
lemma Linked.prev_eq (hl : Linked next prev p h (l₁ ++ a :: l₂)) :
    prev a = if l₁ = [] then p else l₁.getLast? := by
  induction l₁ generalizing p h with
  | nil =>
    rw [if_pos rfl]
    exact hl.2.1
  | cons b l₁ ih =>
    rw [if_neg (List.cons_ne_nil b l₁), ih hl.2.2]
    cases l₁ with
    | nil => rfl
    | cons c l₁ => rfl

lemma Linked.next_eq (hl : Linked next prev p h (l₁ ++ a :: l₂)) : next a = l₂.head? := by
  induction l₁ generalizing p h with
  | nil => exact hl.2.2.head_eq
  | cons b l₁ ih => exact ih hl.2.2

/-- The head is the member without one in front. -/
lemma Linked.head_eq_some_iff (hl : Linked next prev none h l) (hnd : l.Nodup) (ha : a ∈ l) :
    h = some a ↔ prev a = none := by
  obtain ⟨l₁, l₂, rfl⟩ := List.append_of_mem ha
  rw [hl.prev_eq, hl.head_eq]
  cases l₁ with
  | nil => simp
  | cons b l₁ =>
    have hne : b ≠ a := fun heq => by
      rw [List.cons_append, List.nodup_cons] at hnd
      exact hnd.1 (heq ▸ List.mem_append_right l₁ List.mem_cons_self)
    simp [hne]

/-- A member is taken out: its neighbours point to each other. -/
lemma Linked.remove_aux [DecidableEq α] (hl : Linked next prev p h (l₁ ++ a :: l₂))
    (hnd : (l₁ ++ a :: l₂).Nodup) (hp : ∀ b ∈ l₁ ++ a :: l₂, p ≠ some b)
    (hnexts : ∀ b ∈ l₁ ++ l₂, next' b = if prev a = some b then next a else next b)
    (hprevs : ∀ b ∈ l₁ ++ l₂, prev' b = if next a = some b then prev a else prev b) :
    Linked next' prev' p (if l₁ = [] then next a else h) (l₁ ++ l₂) := by
  induction l₁ generalizing p h with
  | nil =>
    rcases hl with ⟨-, hpa, hl⟩
    rw [if_pos rfl, List.nil_append]
    simp only [List.nil_append, List.nodup_cons, List.mem_cons] at hnd hp hnexts hprevs
    cases l₂ with
    | nil => exact hl
    | cons b l₂ =>
      rcases hl with ⟨hb, hpb, hl⟩
      -- the cell in front is not the one behind
      have hbp : prev a ≠ some b := hpa ▸ hp b (.inr List.mem_cons_self)
      refine ⟨hb, ?_, ?_⟩
      · rw [hprevs b List.mem_cons_self, if_pos hb, hpa]
      · rw [hnexts b List.mem_cons_self, if_neg hbp]
        refine hl.congr fun c hc => ?_
        have hcp : prev a ≠ some c := hpa ▸ hp c (.inr (List.mem_cons_of_mem b hc))
        have hcb : next a ≠ some c := fun heq =>
          (List.nodup_cons.mp hnd.2).1 (Option.some.inj (hb.symm.trans heq) ▸ hc)
        rw [hnexts c (List.mem_cons_of_mem b hc), if_neg hcp, hprevs c (List.mem_cons_of_mem b hc),
          if_neg hcb]
        exact ⟨rfl, rfl⟩
  | cons b l₁ ih =>
    have hpa := hl.prev_eq
    have hna := hl.next_eq
    rcases hl with ⟨hh, hpb, hl⟩
    rw [if_neg (List.cons_ne_nil b l₁)] at hpa ⊢
    rw [List.cons_append, List.nodup_cons] at hnd
    have hprev : prev' b = prev b := by
      have hne : next a ≠ some b := fun heq => by
        rw [hna] at heq
        exact hnd.1 (List.mem_append_right l₁ (List.mem_cons_of_mem a (List.mem_of_head? heq)))
      rw [hprevs b List.mem_cons_self, if_neg hne]
    refine ⟨hh, hprev.trans hpb, ?_⟩
    have hrec := ih hl hnd.2 (fun c hc heq => hnd.1 (Option.some.inj heq ▸ hc))
      (fun c hc => hnexts c (List.mem_cons_of_mem b hc))
      (fun c hc => hprevs c (List.mem_cons_of_mem b hc))
    rw [hnexts b List.mem_cons_self, hpa]
    cases l₁ with
    | nil =>
      rw [if_pos rfl] at hrec
      rw [List.getLast?_singleton, if_pos rfl]
      exact hrec
    | cons c l₁ =>
      have hne : (b :: c :: l₁).getLast? ≠ some b := fun heq => by
        rw [List.getLast?_cons_cons] at heq
        exact hnd.1 (List.mem_append_left _ (List.mem_of_getLast? heq))
      rw [if_neg hne]
      rw [if_neg (List.cons_ne_nil c l₁)] at hrec
      exact hrec

/-- A node taken out. -/
theorem Linked.remove [DecidableEq α] (hl : Linked next prev none h l) (hnd : l.Nodup) (ha : a ∈ l)
    (hnexts : ∀ b ∈ l, b ≠ a → next' b = if prev a = some b then next a else next b)
    (hprevs : ∀ b ∈ l, b ≠ a → prev' b = if next a = some b then prev a else prev b) :
    Linked next' prev' none (if prev a = none then next a else h) (l.erase a) := by
  obtain ⟨l₁, l₂, rfl⟩ := List.append_of_mem ha
  have hmem : ∀ b ∈ l₁ ++ l₂, b ∈ l₁ ++ a :: l₂ ∧ b ≠ a := fun b hb => by
    rw [List.nodup_middle, List.nodup_cons] at hnd
    refine ⟨?_, fun heq => hnd.1 (heq ▸ hb)⟩
    rw [List.mem_append] at hb
    rw [List.mem_append, List.mem_cons]
    tauto
  have herase : (l₁ ++ a :: l₂).erase a = l₁ ++ l₂ := by
    have hl₁ : a ∉ l₁ := fun hin => (hmem a (List.mem_append_left l₂ hin)).2 rfl
    rw [List.erase_append_right _ hl₁, List.erase_cons_head]
  have hprev := hl.prev_eq
  have hcases : (prev a = none) = (l₁ = []) := by
    rw [hprev]
    split_ifs with hl₁
    · simp [hl₁]
    · simp [hl₁]
  rw [herase]
  have haux := hl.remove_aux hnd (fun _ _ => nofun) (fun b hb => hnexts b (hmem b hb).1 (hmem b hb).2)
    (fun b hb => hprevs b (hmem b hb).1 (hmem b hb).2)
  simp only [hcases]
  exact haux

/-! ## Lists that are linked one way -/

/-- The nodes from the pointer `h` on. -/
def Chain (next : α → Option α) : Option α → List α → Prop
  | h, [] => h = none
  | h, a :: l => h = some a ∧ Chain next (next a) l

/-- Links of other cells may change. -/
lemma Chain.congr (hl : Chain next h l) (hsame : ∀ b ∈ l, next' b = next b) : Chain next' h l := by
  induction l generalizing h with
  | nil => exact hl
  | cons a l ih =>
    refine ⟨hl.1, ?_⟩
    rw [hsame a List.mem_cons_self]
    exact ih hl.2 fun b hb => hsame b (List.mem_cons_of_mem a hb)

lemma Chain.head_eq (hl : Chain next h l) : h = l.head? := by
  cases l with
  | nil => exact hl
  | cons a l => exact hl.1

/-- A head leads to one chain only. -/
lemma Chain.unique (hl : Chain next h l) (hl' : Chain next h l₁) : l = l₁ := by
  induction l generalizing h l₁ with
  | nil =>
    rw [show h = none from hl] at hl'
    cases l₁ with
    | nil => rfl
    | cons b l₁ => cases hl'.1
  | cons a l ih =>
    obtain ⟨rfl, hl⟩ := hl
    cases l₁ with
    | nil => cases hl'
    | cons b l₁ =>
      obtain ⟨hb, hl'⟩ := hl'
      cases hb
      rw [ih hl hl']

/-- A node put at the tail. -/
theorem Chain.append (hl : Chain next h (l ++ [b])) (hb : next' b = some a) (hnext : next' a = none)
    (hsame : ∀ c ∈ l, next' c = next c) :
    Chain next' h (l ++ [b] ++ [a]) := by
  induction l generalizing h with
  | nil =>
    refine ⟨hl.1, ?_⟩
    rw [hb]
    exact ⟨rfl, hnext⟩
  | cons c l ih =>
    refine ⟨hl.1, ?_⟩
    rw [hsame c List.mem_cons_self]
    exact ih hl.2 fun d hd => hsame d (List.mem_cons_of_mem c hd)

end Library.LinkedList
