import Mathlib.Data.List.Infix
import Mathlib.Data.List.Nodup

/-!
# Trees of paths

A tree is the list of the paths to its nodes, in the order in which the nodes were made: the number of
a node is its place in the list.
-/

namespace Library.PathTree

variable {α : Type*} {nodes : List (List α)} {p q l : List α} {a : α} {i j : ℕ}

/-- Paths that form a tree, the root first. -/
structure Tree (nodes : List (List α)) : Prop where
  nodup : nodes.Nodup
  root : nodes[0]? = some []
  closed : ∀ q a, q ++ [a] ∈ nodes → q ∈ nodes

lemma Tree.single : Tree ([[]] : List (List α)) where
  nodup := List.nodup_singleton []
  root := rfl
  closed q a h := by
    rw [List.mem_singleton] at h
    exact absurd h (List.append_ne_nil_of_right_ne_nil q (List.cons_ne_nil a []))

lemma Tree.root_mem (h : Tree nodes) : [] ∈ nodes := List.mem_of_getElem? h.root

lemma Tree.index_unique (h : Tree nodes) (hi : nodes[i]? = some p) (hj : nodes[j]? = some p) : i = j := by
  obtain ⟨hlt, hi⟩ := List.getElem?_eq_some_iff.mp hi
  obtain ⟨hlt', hj⟩ := List.getElem?_eq_some_iff.mp hj
  exact (h.nodup.getElem_inj_iff).mp (hi.trans hj.symm)

/-- A tree holds the prefixes of its paths. -/
lemma Tree.mem_of_prefix (h : Tree nodes) (hq : q ∈ nodes) (hp : p <+: q) : p ∈ nodes := by
  obtain ⟨s, rfl⟩ := hp
  induction s using List.reverseRecOn with
  | nil => rwa [List.append_nil] at hq
  | append_singleton s a ih =>
    rw [← List.append_assoc] at hq
    exact ih (h.closed _ a hq)

section Grow
variable [DecidableEq α]

/-- The node at a path is added if it is missing. -/
def touch (nodes : List (List α)) (p : List α) : List (List α) :=
  if p ∈ nodes then nodes else nodes ++ [p]

/-- The nodes on the way from `p` along `l` are added. -/
def grow (nodes : List (List α)) (p : List α) : List α → List (List α)
  | [] => nodes
  | a :: l => grow (touch nodes (p ++ [a])) (p ++ [a]) l

lemma mem_touch : q ∈ touch nodes p ↔ q ∈ nodes ∨ q = p := by
  unfold touch
  split_ifs with hp
  · exact ⟨Or.inl, fun h => h.elim id fun heq => heq ▸ hp⟩
  · rw [List.mem_append, List.mem_singleton]

lemma mem_touch_self : p ∈ touch nodes p := mem_touch.mpr (Or.inr rfl)

lemma length_touch_le : nodes.length ≤ (touch nodes p).length := by
  unfold touch
  split_ifs
  · exact Nat.le_refl _
  · rw [List.length_append]
    exact Nat.le_add_right _ _

lemma length_grow_le : nodes.length ≤ (grow nodes p l).length := by
  induction l generalizing nodes p with
  | nil => exact Nat.le_refl _
  | cons a l ih => exact Nat.le_trans length_touch_le ih

lemma getElem?_touch (h : nodes[i]? = some q) : (touch nodes p)[i]? = some q := by
  unfold touch
  split_ifs
  · exact h
  · obtain ⟨hlt, _⟩ := List.getElem?_eq_some_iff.mp h
    rw [List.getElem?_append_left hlt, h]

/-- A son is added below a node. -/
lemma Tree.touch (h : Tree nodes) (hp : p ∈ nodes) : Tree (touch nodes (p ++ [a])) where
  nodup := by
    unfold PathTree.touch
    split_ifs with hmem
    · exact h.nodup
    · exact List.nodup_append.mpr ⟨h.nodup, List.nodup_singleton _, fun x hx y hy heq =>
        hmem (by rwa [← List.mem_singleton.mp hy, ← heq])⟩
  root := getElem?_touch h.root
  closed q b hq := by
    rw [mem_touch] at hq ⊢
    rcases hq with hq | hq
    · exact Or.inl (h.closed q b hq)
    · exact Or.inl ((List.append_inj' hq rfl).1 ▸ hp)

lemma Tree.grow (h : Tree nodes) (hp : p ∈ nodes) : Tree (grow nodes p l) := by
  induction l generalizing nodes p with
  | nil => exact h
  | cons a l ih => exact ih (h.touch hp) mem_touch_self

/-- The nodes that are added lie on the path. -/
theorem mem_grow : q ∈ grow nodes p l ↔ q ∈ nodes ∨ ∃ s, s ≠ [] ∧ s <+: l ∧ q = p ++ s := by
  induction l generalizing nodes p with
  | nil =>
    refine ⟨Or.inl, fun h => h.elim id ?_⟩
    rintro ⟨s, hne, hs, -⟩
    exact absurd (List.prefix_nil.mp hs) hne
  | cons a l ih =>
    rw [grow, ih, mem_touch, or_assoc]
    refine or_congr Iff.rfl ?_
    constructor
    · rintro (rfl | ⟨s, -, hs, rfl⟩)
      · exact ⟨[a], List.cons_ne_nil a [], ⟨l, rfl⟩, rfl⟩
      · exact ⟨a :: s, List.cons_ne_nil a s, List.cons_prefix_cons.mpr ⟨rfl, hs⟩,
          (List.append_cons p a s).symm⟩
    · rintro ⟨s, hne, hs, rfl⟩
      cases s with
      | nil => exact absurd rfl hne
      | cons b s =>
        obtain ⟨rfl, hs'⟩ := List.cons_prefix_cons.mp hs
        by_cases hnil : s = []
        · exact Or.inl (by rw [hnil])
        · exact Or.inr ⟨s, hnil, hs', List.append_cons p b s⟩

/-! ## Sons -/

/-- The path leads to a son of `p`. -/
def isSon (p q : List α) : Bool := q ≠ [] && q.dropLast = p

/-- A son is one name longer. -/
lemma isSon_iff : isSon p q = true ↔ ∃ a, q = p ++ [a] := by
  rw [isSon, Bool.and_eq_true, decide_eq_true_eq, decide_eq_true_eq]
  constructor
  · rintro ⟨hne, rfl⟩
    exact ⟨q.getLast hne, (List.dropLast_append_getLast hne).symm⟩
  · rintro ⟨a, rfl⟩
    exact ⟨List.append_ne_nil_of_right_ne_nil p (List.cons_ne_nil a []), List.dropLast_concat⟩

/-- The numbers of the sons of a node, in the order in which they were made. -/
def sons (nodes : List (List α)) (p : List α) : List ℕ :=
  (List.range nodes.length).filter fun j => (nodes[j]?).any (isSon p)

/-- The sons of a node. -/
lemma mem_sons : j ∈ sons nodes p ↔ ∃ a, nodes[j]? = some (p ++ [a]) := by
  rw [sons, List.mem_filter, List.mem_range, Option.any_eq_true]
  constructor
  · rintro ⟨_, q, hq, hson⟩
    obtain ⟨a, rfl⟩ := isSon_iff.mp hson
    exact ⟨a, hq⟩
  · rintro ⟨a, ha⟩
    exact ⟨(List.getElem?_eq_some_iff.mp ha).1, _, ha, isSon_iff.mpr ⟨a, rfl⟩⟩

lemma nodup_sons : (sons nodes p).Nodup := List.nodup_range.filter _

/-- A new node is the last son of its parent. -/
theorem sons_concat :
    sons (nodes ++ [q]) p = sons nodes p ++ if isSon p q then [nodes.length] else [] := by
  rw [sons, sons, List.length_append, List.length_singleton, List.range_succ, List.filter_append]
  congr 1
  · apply List.filter_congr
    intro j hj
    rw [List.getElem?_append_left (List.mem_range.mp hj)]
  · rw [List.filter_cons, List.filter_nil, List.getElem?_append_right (Nat.le_refl _), Nat.sub_self]
    rfl

end Grow

end Library.PathTree
