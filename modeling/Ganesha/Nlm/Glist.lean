import Ganesha.Library.Ring
import Mathlib.Logic.Function.Basic

/-!
# The lists of `nlm_list.h`

`struct glist_head` and the inline functions on it, as they write the pointers; to follow a null pointer is an error
(`none`). A list is a ring from its head (`IsRing`). `laws_iff` says that each function does what it is for, but that
`glist_add_list_tail` takes a list of one node for an empty one.
-/

namespace Ganesha.Glist

open Library.Ring

section Functions

variable {α : Type} [DecidableEq α] (m : Links α)

/-- Write the pointer `next` of a node. -/
def setNext (p : Option α) (v : Option α) : Option (Links α) :=
  p.map fun a => { m with next := Function.update m.next a v }

/-- Write the pointer `prev` of a node. -/
def setPrev (p : Option α) (v : Option α) : Option (Links α) :=
  p.map fun a => { m with prev := Function.update m.prev a v }

def initGlist (head : α) : Option (Links α) := do
  let m ← setNext m head head
  setPrev m head head

/-- `__glist_add`. -/
def glistAddBetween (left right : Option α) (new : α) : Option (Links α) := do
  let m ← setPrev m new left
  let m ← setNext m new right
  let m ← setNext m left new
  setPrev m right new

def glistAddTail (head new : α) : Option (Links α) := glistAddBetween m (m.prev head) head new

def glistAdd (head new : α) : Option (Links α) := glistAddBetween m head (m.next head) new

def glistDel (node : α) : Option (Links α) := do
  let left := m.prev node
  let right := m.next node
  let m ← setNext m left right
  let m ← setPrev m right left
  let m ← setNext m node none
  setPrev m node none

def glistAddListTail (list new : α) : Option (Links α) :=
  let first := m.next new
  let last := m.prev new
  -- nothing to add
  if m.next new = m.prev new then some m
  else do
    let m ← setPrev m first (m.prev list)
    let m ← setNext m (m.prev list) first
    let m ← setNext m last list
    setPrev m list last

/-- A body of a loop that deletes the node if `delete` says so. -/
def body (delete : α → Bool) (node : α) : Option (Links α) := if delete node then glistDel m node else some m

/-- The loop of `glist_for_each_safe`: the nodes that the body has had, and the pointers at the end. With no fuel left
it has not ended. -/
def forEachSafe (delete : α → Bool) (head : α) : ℕ → Links α → Option α → Option α → Option (List α × Links α)
  | 0, _, _, _ => none
  | fuel + 1, m, node, noden =>
    if node = some head then some ([], m)
    else do
      let current ← node
      let m ← body m delete current
      -- `node = noden, noden = node->next`
      let next ← noden
      let (visited, m) ← forEachSafe delete head fuel m noden (m.next next)
      return (current :: visited, m)

def glistForEachSafe (delete : α → Bool) (head : α) (fuel : ℕ) : Option (List α × Links α) := do
  let node ← m.next head
  forEachSafe delete head fuel m node (m.next node)

end Functions

/-! ## Writes -/

section Writes

variable {α : Type} [DecidableEq α] {m m' : Links α} {a b h new node : α} {l la lb l₁ l₂ : List α} {v : Option α}

lemma setNext_some : setNext m (some a) v = some { m with next := Function.update m.next a v } := rfl

lemma setPrev_some : setPrev m (some a) v = some { m with prev := Function.update m.prev a v } := rfl

lemma glistAddBetween_some {x y : α} : glistAddBetween m (some x) (some y) new =
    some ⟨Function.update (Function.update m.next new (some y)) x (some new),
      Function.update (Function.update m.prev new (some x)) y (some new)⟩ := rfl

lemma glistDel_some {x y : α} (hprev : m.prev node = some x) (hnext : m.next node = some y) : glistDel m node =
    some ⟨Function.update (Function.update m.next x (some y)) node none,
      Function.update (Function.update m.prev y (some x)) node none⟩ := by
  simp only [glistDel, hprev, hnext, setNext_some, setPrev_some, Option.bind_eq_bind, Option.bind_some]

/-! ## Adding a node -/

/-- What an operation that gets a ring leaves. -/
def Leaves (result : Option (Links α)) (m : Links α) (touched : List α) (h : α) (l : List α) : Prop :=
  ∃ m', result = some m' ∧ IsRing m' h l ∧ ∀ c ∉ touched, m'.next c = m.next c ∧ m'.prev c = m.prev c

/-- A new head is a ring of its own. -/
lemma initGlist_leaves : Leaves (initGlist m h) m [h] h [] := by
  refine ⟨⟨Function.update m.next h (some h), Function.update m.prev h (some h)⟩, rfl, ⟨⟨?_, ?_⟩, ?_⟩, ?_⟩
  · exact Function.update_self ..
  · exact Function.update_self ..
  · exact List.nodup_singleton h
  · intro c hc
    have hne : c ≠ h := fun heq => hc (List.mem_singleton.mpr heq)
    exact ⟨Function.update_of_ne hne .., Function.update_of_ne hne ..⟩

/-- A node is added at the head. -/
lemma glistAdd_leaves (hr : IsRing m h l) (hnew : new ∉ h :: l) :
    Leaves (glistAdd m h new) m (new :: h :: l) h (new :: l) := by
  obtain ⟨hnot, hnodup⟩ := List.nodup_cons.mp hr.nodup
  obtain ⟨f, hf, hnext, hprev, hrestart⟩ := hr.segment.restart (nodup_append_singleton.mpr hr.nodup)
  have hfmem : f ∈ h :: l := mem_append_singleton.mp hf
  have hne : ∀ c ∈ h :: l, c ≠ new := fun c hc heq => hnew (heq ▸ hc)
  refine ⟨_, (by rw [glistAdd, hnext]; exact glistAddBetween_some), ⟨⟨?_, ?_, ?_⟩, ?_⟩, ?_⟩
  · exact Function.update_self ..
  · dsimp only
    rw [Function.update_of_ne (Ne.symm (hne f hfmem)), Function.update_self]
  · apply hrestart
    · intro c hc
      have hch : c ≠ h := fun heq => hnot (heq ▸ hc)
      dsimp only
      rw [Function.update_of_ne hch, Function.update_of_ne (hne c (List.mem_cons_of_mem _ hc))]
    · intro c hc hcf
      dsimp only
      rw [Function.update_of_ne hcf, Function.update_of_ne (hne c (mem_append_singleton.mp hc))]
    · dsimp only
      rw [Function.update_of_ne (Ne.symm (hne h List.mem_cons_self)), Function.update_self]
    · exact Function.update_self ..
  · have hperm : (h :: new :: l).Perm (new :: h :: l) := List.Perm.swap ..
    exact hperm.nodup_iff.mpr (List.nodup_cons.mpr ⟨hnew, hr.nodup⟩)
  · intro c hc
    have hcnew : c ≠ new := fun heq => hc (heq ▸ List.mem_cons_self)
    have hcr : ∀ x ∈ h :: l, c ≠ x := fun x hx heq => hc (List.mem_cons_of_mem _ (heq ▸ hx))
    dsimp only
    rw [Function.update_of_ne (hcr h List.mem_cons_self), Function.update_of_ne hcnew,
      Function.update_of_ne (hcr f hfmem), Function.update_of_ne hcnew]
    exact ⟨rfl, rfl⟩

/-- A node is added at the tail. -/
lemma glistAddTail_leaves (hr : IsRing m h l) (hnew : new ∉ h :: l) :
    Leaves (glistAddTail m h new) m (new :: h :: l) h (l ++ [new]) := by
  obtain ⟨hnot, hnodup⟩ := List.nodup_cons.mp hr.nodup
  obtain ⟨w, hw, hprev, hnext, hretarget⟩ := hr.segment.retarget hr.nodup
  have hne : ∀ c ∈ h :: l, c ≠ new := fun c hc heq => hnew (heq ▸ hc)
  refine ⟨_, (by rw [glistAddTail, hprev]; exact glistAddBetween_some), ⟨?_, ?_⟩, ?_⟩
  · rw [Segment.append]
    refine ⟨hretarget _ _ ?_ ?_ ?_ ?_, ?_, ?_⟩
    · intro c hc hcw
      dsimp only
      rw [Function.update_of_ne hcw, Function.update_of_ne (hne c hc)]
    · intro c hc
      have hch : c ≠ h := fun heq => hnot (heq ▸ hc)
      dsimp only
      rw [Function.update_of_ne hch, Function.update_of_ne (hne c (List.mem_cons_of_mem _ hc))]
    · exact Function.update_self ..
    · dsimp only
      rw [Function.update_of_ne (Ne.symm (hne h List.mem_cons_self)), Function.update_self]
    · dsimp only
      rw [Function.update_of_ne (Ne.symm (hne w hw)), Function.update_self]
    · exact Function.update_self ..
  · have hperm : (h :: (l ++ [new])).Perm (new :: h :: l) := List.perm_append_singleton new (h :: l)
    exact hperm.nodup_iff.mpr (List.nodup_cons.mpr ⟨hnew, hr.nodup⟩)
  · intro c hc
    have hcnew : c ≠ new := fun heq => hc (heq ▸ List.mem_cons_self)
    have hcr : ∀ x ∈ h :: l, c ≠ x := fun x hx heq => hc (List.mem_cons_of_mem _ (heq ▸ hx))
    dsimp only
    rw [Function.update_of_ne (hcr w hw), Function.update_of_ne hcnew,
      Function.update_of_ne (hcr h List.mem_cons_self), Function.update_of_ne hcnew]
    exact ⟨rfl, rfl⟩

/-! ## Deleting a node -/

/-- A node is taken out. -/
lemma glistDel_leaves (hr : IsRing m h (l₁ ++ node :: l₂)) :
    Leaves (glistDel m node) m (h :: (l₁ ++ node :: l₂)) h (l₁ ++ l₂) := by
  obtain ⟨hs₁, hs₂⟩ := Segment.append.mp hr.segment
  have hperm : (h :: (l₁ ++ node :: l₂)).Perm (node :: h :: (l₁ ++ l₂)) :=
    (List.perm_middle.cons h).trans (List.Perm.swap ..)
  obtain ⟨hnot, hnodup⟩ := List.nodup_cons.mp (hperm.nodup_iff.mp hr.nodup)
  have hnodup₁ : (h :: l₁).Nodup := hnodup.sublist ((List.sublist_append_left l₁ l₂).cons_cons h)
  have hnodup₂ : (l₂ ++ [h]).Nodup :=
    nodup_append_singleton.mpr (hnodup.sublist ((List.sublist_append_right l₁ l₂).cons_cons h))
  -- the cells before the node are none of those after it
  have hdisjoint : ∀ c ∈ h :: l₁, c ∉ l₂ := by
    intro c hc hc₂
    obtain rfl | hc₁ := List.mem_cons.mp hc
    · exact (List.nodup_cons.mp hnodup).1 (List.mem_append_right _ hc₂)
    · exact (List.nodup_append.mp (List.nodup_cons.mp hnodup).2).2.2 c hc₁ c hc₂ rfl
  have hne : ∀ c ∈ h :: (l₁ ++ l₂), c ≠ node := fun c hc heq => hnot (heq ▸ hc)
  have hmem₁ : ∀ c ∈ h :: l₁, c ∈ h :: (l₁ ++ l₂) := fun c hc =>
    ((List.sublist_append_left l₁ l₂).cons_cons h).subset hc
  have hmem₂ : ∀ c ∈ l₂ ++ [h], c ∈ h :: (l₁ ++ l₂) := fun c hc =>
    ((List.sublist_append_right l₁ l₂).cons_cons h).subset (mem_append_singleton.mp hc)
  obtain ⟨w, hw, hprev, hwnext, hretarget⟩ := hs₁.retarget hnodup₁
  obtain ⟨f, hf, hnext, hfprev, hrestart⟩ := hs₂.restart hnodup₂
  refine ⟨_, glistDel_some hprev hnext, ⟨?_, hnodup⟩, ?_⟩
  · -- the part before the node ends where the part behind it begins
    have hnextw : (Function.update (Function.update m.next w (some f)) node none) w = some f := by
      rw [Function.update_of_ne (hne w (hmem₁ w hw)), Function.update_self]
    have hprevf : (Function.update (Function.update m.prev f (some w)) node none) f = some w := by
      rw [Function.update_of_ne (hne f (hmem₂ f hf)), Function.update_self]
    have hnexts : ∀ c ∈ h :: (l₁ ++ l₂), c ≠ w →
        (Function.update (Function.update m.next w (some f)) node none) c = m.next c := by
      intro c hc hcw
      rw [Function.update_of_ne (hne c hc), Function.update_of_ne hcw]
    have hprevs : ∀ c ∈ h :: (l₁ ++ l₂), c ≠ f →
        (Function.update (Function.update m.prev f (some w)) node none) c = m.prev c := by
      intro c hc hcf
      rw [Function.update_of_ne (hne c hc), Function.update_of_ne hcf]
    refine Segment.join (hretarget _ _ (fun c hc => hnexts c (hmem₁ c hc)) ?_ hnextw hprevf) hnextw
      (hrestart _ _ ?_ (fun c hc => hprevs c (hmem₂ c hc)) hnextw hprevf)
    · intro c hc
      apply hprevs c (hmem₁ c (List.mem_cons_of_mem _ hc))
      rintro rfl
      obtain hc₂ | hch := List.mem_append.mp hf
      · exact hdisjoint c (List.mem_cons_of_mem _ hc) hc₂
      · rw [List.mem_singleton.mp hch] at hc
        exact (List.nodup_cons.mp hnodup₁).1 hc
    · intro c hc
      apply hnexts c (hmem₂ c (List.mem_append_left _ hc))
      rintro rfl
      exact hdisjoint c hw hc
  · intro c hc
    have hcr : ∀ x ∈ node :: h :: (l₁ ++ l₂), c ≠ x := fun x hx heq => hc (hperm.mem_iff.mpr (heq ▸ hx))
    dsimp only
    rw [Function.update_of_ne (hcr node List.mem_cons_self),
      Function.update_of_ne (hcr w (List.mem_cons_of_mem _ (hmem₁ w hw))),
      Function.update_of_ne (hcr node List.mem_cons_self),
      Function.update_of_ne (hcr f (List.mem_cons_of_mem _ (hmem₂ f hf)))]
    exact ⟨rfl, rfl⟩

/-! ## Appending a list -/

/-- Two rings without a common node. -/
structure TwoRings (m : Links α) (a : α) (la : List α) (b : α) (lb : List α) : Prop where
  left : IsRing m a la
  right : IsRing m b lb
  disjoint : (a :: la).Disjoint (b :: lb)

/-- With one element at most nothing is added. -/
lemma glistAddListTail_of_length_le (hr : IsRing m b lb) (hlen : lb.length ≤ 1) : glistAddListTail m a b = some m := by
  have hsame : m.next b = m.prev b := by
    cases lb with
    | nil => exact hr.segment.1.trans hr.segment.2.symm
    | cons x lb =>
      obtain rfl : lb = [] := List.eq_nil_of_length_eq_zero (Nat.le_zero.mp (Nat.le_of_succ_le_succ hlen))
      exact hr.segment.1.trans hr.segment.2.2.2.symm
  rw [glistAddListTail, if_pos hsame]

/-- A list of two or more nodes is appended. -/
lemma glistAddListTail_leaves (h : TwoRings m a la b lb) (hlen : 2 ≤ lb.length) :
    Leaves (glistAddListTail m a b) m (a :: la ++ lb) a (la ++ lb) := by
  cases lb with
  | nil => cases hlen
  | cons y lb =>
    obtain ⟨hby, -, hs⟩ := h.right.segment
    obtain ⟨hbnot, hnodupb⟩ := List.nodup_cons.mp h.right.nodup
    obtain ⟨w, hw, hprev, hnext, hleft⟩ := h.left.segment.retarget h.left.nodup
    obtain ⟨z, hz, hbz, hzb, hright⟩ := hs.retarget hnodupb
    -- the two rings have no cell in common
    have hne : ∀ c ∈ a :: la, ∀ x ∈ y :: lb, c ≠ x := fun c hc x hx heq =>
      h.disjoint hc (List.mem_cons_of_mem _ (heq ▸ hx))
    have hya : y ≠ a := Ne.symm (hne a List.mem_cons_self y List.mem_cons_self)
    have hyz : y ≠ z := by
      rintro rfl
      cases lb with
      | nil => exact absurd hlen (Nat.not_succ_le_self 1)
      | cons x lb =>
        obtain rfl : x = b := Option.some.inj (hs.1.symm.trans hzb)
        exact hbnot (List.mem_cons_of_mem _ List.mem_cons_self)
    have hrun : glistAddListTail m a b = some
        ⟨Function.update (Function.update m.next w (some y)) z (some a),
          Function.update (Function.update m.prev y (some w)) a (some z)⟩ := by
      have hdiff : ¬m.next b = m.prev b := by
        rw [hby, hbz]
        exact fun heq => hyz (Option.some.inj heq)
      have hprev' : Function.update m.prev y (some w) a = some w := by
        rw [Function.update_of_ne (Ne.symm hya)]
        exact hprev
      rw [glistAddListTail, if_neg hdiff]
      simp only [hby, hbz, hprev, hprev', setNext_some, setPrev_some, Option.bind_eq_bind, Option.bind_some]
    refine ⟨_, hrun, ⟨Segment.append.mpr ⟨hleft _ _ ?_ ?_ ?_ ?_, hright _ _ ?_ ?_ ?_ ?_⟩, ?_⟩, ?_⟩
    · intro c hc hcw
      dsimp only
      rw [Function.update_of_ne (hne c hc z hz), Function.update_of_ne hcw]
    · intro c hc
      have hca : c ≠ a := fun heq => (List.nodup_cons.mp h.left.nodup).1 (heq ▸ hc)
      dsimp only
      rw [Function.update_of_ne hca, Function.update_of_ne (hne c (List.mem_cons_of_mem _ hc) y List.mem_cons_self)]
    · dsimp only
      rw [Function.update_of_ne (hne w hw z hz), Function.update_self]
    · dsimp only
      rw [Function.update_of_ne hya, Function.update_self]
    · intro c hc hcz
      dsimp only
      rw [Function.update_of_ne hcz, Function.update_of_ne (Ne.symm (hne w hw c hc))]
    · intro c hc
      have hcy : c ≠ y := fun heq => (List.nodup_cons.mp hnodupb).1 (heq ▸ hc)
      dsimp only
      rw [Function.update_of_ne (Ne.symm (hne a List.mem_cons_self c (List.mem_cons_of_mem _ hc))),
        Function.update_of_ne hcy]
    · exact Function.update_self ..
    · exact Function.update_self ..
    · exact List.nodup_append.mpr ⟨h.left.nodup, hnodupb, hne⟩
    · intro c hc
      have hcl : ∀ x ∈ a :: la, c ≠ x := fun x hx heq => hc (List.mem_append_left _ (heq ▸ hx))
      have hcr : ∀ x ∈ y :: lb, c ≠ x := fun x hx heq => hc (List.mem_append_right _ (heq ▸ hx))
      dsimp only
      rw [Function.update_of_ne (hcr z hz), Function.update_of_ne (hcl w hw),
        Function.update_of_ne (hcl a List.mem_cons_self), Function.update_of_ne (hcr y List.mem_cons_self)]
      exact ⟨rfl, rfl⟩

/-! ## The loop -/

/-- The loop has all nodes, whatever its body deletes. -/
lemma forEachSafe_eq (delete : α → Bool) (hr : IsRing m h (l₁ ++ l₂)) {fuel : ℕ} (hfuel : l₂.length < fuel) :
    ∃ m', forEachSafe delete h fuel m (l₂ ++ [h]).head? ((l₂ ++ [h]).head?.bind m.next) = some (l₂, m') ∧
      IsRing m' h (l₁ ++ l₂.filter fun a => !delete a) := by
  induction l₂ generalizing m l₁ fuel with
  | nil =>
    obtain ⟨fuel, rfl⟩ := Nat.exists_eq_succ_of_ne_zero (Nat.ne_zero_of_lt hfuel)
    exact ⟨m, if_pos rfl, hr⟩
  | cons x l₂ ih =>
    obtain ⟨fuel, rfl⟩ := Nat.exists_eq_succ_of_ne_zero (Nat.ne_zero_of_lt hfuel)
    have hfuel' : l₂.length < fuel := Nat.lt_of_succ_lt_succ hfuel
    have hxh : ¬some x = some h := by
      intro heq
      have hmem : x ∈ l₁ ++ x :: l₂ := List.mem_append_right _ List.mem_cons_self
      rw [Option.some.inj heq] at hmem
      exact (List.nodup_cons.mp hr.nodup).1 (Option.some.inj heq ▸ hmem)
    have hnext : m.next x = (l₂ ++ [h]).head? := (Segment.append.mp hr.segment).2.next_eq
    obtain ⟨f, hf⟩ : ∃ f, (l₂ ++ [h]).head? = some f := by
      cases l₂ with
      | nil => exact ⟨h, rfl⟩
      | cons y l₂ => exact ⟨y, rfl⟩
    -- the body on this node, and the rest of the loop
    have hstep : ∀ m₁, body m delete x = some m₁ →
        ∀ m', forEachSafe delete h fuel m₁ (l₂ ++ [h]).head? ((l₂ ++ [h]).head?.bind m₁.next) = some (l₂, m') →
        forEachSafe delete h (fuel + 1) m ((x :: l₂) ++ [h]).head? (((x :: l₂) ++ [h]).head?.bind m.next) =
          some (x :: l₂, m') := by
      intro m₁ hbody m' hrest
      rw [hf] at hrest hnext
      simp only [forEachSafe, List.cons_append, List.head?_cons, if_neg hxh, Option.bind_some, Option.bind_eq_bind,
        hbody, hnext] at hrest ⊢
      rw [hrest]
      rfl
    cases hdelete : delete x with
    | true =>
      obtain ⟨m₁, hm₁, hr₁, -⟩ := glistDel_leaves hr
      obtain ⟨m', hloop, hr'⟩ := ih hr₁ hfuel'
      refine ⟨m', hstep m₁ ((if_pos hdelete).trans hm₁) m' hloop, ?_⟩
      rw [List.filter_cons_of_neg (by rw [hdelete]; decide)]
      exact hr'
    | false =>
      rw [List.append_cons] at hr
      obtain ⟨m', hloop, hr'⟩ := ih hr hfuel'
      refine ⟨m', hstep m (if_neg (by rw [hdelete]; decide)) m' hloop, ?_⟩
      rw [List.filter_cons_of_pos (by rw [hdelete]; decide), List.append_cons]
      exact hr'

/-- So does the whole iteration. -/
lemma glistForEachSafe_eq (delete : α → Bool) (hr : IsRing m h l) {fuel : ℕ} (hfuel : l.length < fuel) :
    ∃ m', glistForEachSafe m delete h fuel = some (l, m') ∧ IsRing m' h (l.filter fun a => !delete a) := by
  have hr₀ : IsRing m h ([] ++ l) := hr
  obtain ⟨m', hloop, hr'⟩ := forEachSafe_eq delete hr₀ hfuel
  refine ⟨m', ?_, hr'⟩
  have hnext := hr.segment.next_eq
  obtain ⟨f, hf⟩ : ∃ f, (l ++ [h]).head? = some f := by
    cases l with
    | nil => exact ⟨h, rfl⟩
    | cons y l => exact ⟨y, rfl⟩
  rw [hf] at hloop hnext
  rw [glistForEachSafe, hnext]
  exact hloop

/-! ## The laws -/

/-- What the functions on the list of the head `a` are for, `b` being the head of another one. -/
structure Laws (m : Links α) (a : α) (la : List α) (b : α) (lb : List α) : Prop where
  init : Leaves (initGlist m a) m [a] a []
  add : ∀ new ∉ a :: la, Leaves (glistAdd m a new) m (new :: a :: la) a (new :: la)
  addTail : ∀ new ∉ a :: la, Leaves (glistAddTail m a new) m (new :: a :: la) a (la ++ [new])
  del : ∀ l₁ node l₂, la = l₁ ++ node :: l₂ → Leaves (glistDel m node) m (a :: la) a (l₁ ++ l₂)
  addListTail : Leaves (glistAddListTail m a b) m (a :: la ++ lb) a (la ++ lb)
  forEachSafe : ∀ delete fuel, la.length < fuel → ∃ m', glistForEachSafe m delete a fuel = some (la, m') ∧
    IsRing m' a (la.filter fun c => !delete c)

end Writes

/-- The laws hold unless the list that is appended has one node. -/
theorem glist_laws_iff {α : Type} [DecidableEq α] (m : Links α) (a : α) (la : List α) (b : α) (lb : List α)
    (h : TwoRings m a la b lb) : Laws m a la b lb ↔ lb.length ≠ 1 := by
  constructor
  · intro hlaws hone
    obtain ⟨m', hrun, hr, -⟩ := hlaws.addListTail
    rw [glistAddListTail_of_length_le h.right (Nat.le_of_eq hone)] at hrun
    cases hrun
    have hlen := congrArg List.length (h.left.unique hr)
    rw [List.length_append, hone] at hlen
    omega
  · intro hone
    refine ⟨initGlist_leaves, fun new hnew => glistAdd_leaves h.left hnew, fun new hnew => glistAddTail_leaves h.left hnew, ?_, ?_, ?_⟩
    · intro l₁ node l₂ hla
      rw [hla]
      exact glistDel_leaves (hla ▸ h.left)
    · cases lb with
      | nil =>
        rw [List.append_nil, List.append_nil]
        exact ⟨m, glistAddListTail_of_length_le h.right (Nat.zero_le 1), h.left, fun _ _ => ⟨rfl, rfl⟩⟩
      | cons x lb =>
        have hlen : 2 ≤ (x :: lb).length := by
          rw [List.length_cons] at hone ⊢
          omega
        exact glistAddListTail_leaves h hlen
    · exact fun delete fuel hfuel => glistForEachSafe_eq delete h.left hfuel

/-- The list of 4 behind the head 0, and the list of 2 and 3 behind the head 1. -/
def samplePointers : Links ℕ where
  next n := if n = 0 then some 4 else if n = 1 then some 2 else if n = 2 then some 3 else if n = 3 then some 1 else some 0
  prev n := if n = 0 then some 4 else if n = 1 then some 3 else if n = 2 then some 1 else if n = 3 then some 2 else some 0

/-- Two nodes are appended to one. -/
theorem glist_laws_iff_sample : TwoRings samplePointers 0 [4] 1 [2, 3] ∧
    Laws samplePointers 0 [4] 1 [2, 3] := by
  have h : TwoRings samplePointers 0 [4] 1 [2, 3] :=
    ⟨⟨⟨rfl, rfl, rfl, rfl⟩, by decide⟩, ⟨⟨rfl, rfl, rfl, rfl, rfl, rfl⟩, by decide⟩,
      fun x hx => (show ∀ x ∈ [0, 4], x ∉ [1, 2, 3] by decide) x hx⟩
  exact ⟨h, (glist_laws_iff samplePointers 0 [4] 1 [2, 3] h).mpr (by decide)⟩

/-- The empty list of the head 0, and the list of 2 behind the head 1. -/
def singlePointers : Links ℕ where
  next n := if n = 1 then some 2 else if n = 2 then some 1 else some 0
  prev n := if n = 1 then some 2 else if n = 2 then some 1 else some 0

/-- One node is not appended. -/
theorem not_glist_laws_of_single :
    TwoRings singlePointers 0 [] 1 [2] ∧ ¬Laws singlePointers 0 [] 1 [2] := by
  refine ⟨⟨⟨⟨rfl, rfl⟩, by decide⟩, ⟨⟨rfl, rfl, rfl, rfl⟩, by decide⟩, List.singleton_disjoint.mpr (by decide)⟩, ?_⟩
  intro hlaws
  obtain ⟨m', hrun, hr, -⟩ := hlaws.addListTail
  have hsame : glistAddListTail singlePointers 0 1 = some singlePointers := rfl
  rw [hsame] at hrun
  cases hrun
  exact absurd hr.segment.1 (by decide)

end Ganesha.Glist
