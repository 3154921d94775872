import Ganesha.Rbt.Represents

/-!
# Well-formed trees and searches
-/

namespace Ganesha.Rbt
open Library.RedBlack

variable {ι π : Type}

/-- The head and the memory hold the red-black tree `tree`, in the order of the values, and the
head is up to date. That every `parent` and `anchor` designates the link that holds the node is
part of `Represents`. -/
structure Wf (t : RbTree ι π) (tree : CTree ι) : Prop where
  represents : Represents t tree
  ordered : tree.toList.Pairwise fun i j => (t.mem i).rbtValue ≤ (t.mem j).rbtValue
  root_black : tree.isRed = false
  noRedRed : tree.NoRedRed
  balanced : ∃ n, tree.BlackHeight n
  leftmost : t.head.leftmost = tree.toList.head?
  rightmost : t.head.rightmost = tree.toList.getLast?
  num : t.head.rbtNumNode = tree.toList.length

variable {tree : CTree ι}

lemma Wf.rb {t : RbTree ι π} (h : Wf t tree) : ∃ n, tree.RB n := by
  rcases h.balanced with ⟨n, hn⟩
  exact ⟨n, h.noRedRed, hn⟩

/-- A new tree is empty. -/
lemma wf_rbtHeadInit (mem : ι → RbtNode ι π) : Wf ⟨rbtHeadInit, mem⟩ .nil where
  represents := ⟨rfl, trivial, List.nodup_nil⟩
  ordered := List.Pairwise.nil
  root_black := rfl
  noRedRed := trivial
  balanced := ⟨0, rfl⟩
  leftmost := rfl
  rightmost := rfl
  num := rfl

/-- Nodes outside the tree may change. -/
lemma Wf.congr {t t' : RbTree ι π} (h : Wf t tree) (hhead : t'.head = t.head)
    (hmem : ∀ i ∈ tree.toList, t'.mem i = t.mem i) : Wf t' tree where
  represents := h.represents.congr (by rw [hhead]) hmem
  ordered := by
    refine h.ordered.imp_of_mem fun {i j} hi hj hij => ?_
    rw [hmem i hi, hmem j hj]
    exact hij
  root_black := h.root_black
  noRedRed := h.noRedRed
  balanced := h.balanced
  leftmost := by rw [hhead, h.leftmost]
  rightmost := by rw [hhead, h.rightmost]
  num := by rw [hhead, h.num]

variable {ctx : List (Frame ι)}

lemma Wf.ctxRB {t : RbTree ι π} {x : CTree ι} (h : Wf t (plug x ctx)) :
    ∃ n, x.RB n ∧ CtxRB ctx n ∧ (x.isRed = true → UnderBlack ctx) := by
  rcases h.rb with ⟨n, hn⟩
  exact ctxRB_of_RB_plug hn h.root_black

variable {i : ι}

/-- A node of the tree with the context around it. -/
lemma exists_plug_of_mem (h : i ∈ tree.toList) : ∃ c l r ctx, tree = plug (CTree.node c l i r) ctx := by
  induction tree with
  | nil => cases h
  | node c l j r ihl ihr =>
    simp only [CTree.toList, List.mem_append, List.mem_cons] at h
    rcases h with hl | rfl | hr
    · obtain ⟨c', l', r', ctx, rfl⟩ := ihl hl
      refine ⟨c', l', r', ctx ++ [⟨.left, c, j, r⟩], ?_⟩
      rw [plug_append]
      rfl
    · exact ⟨c, l, r, [], rfl⟩
    · obtain ⟨c', l', r', ctx, rfl⟩ := ihr hr
      refine ⟨c', l', r', ctx ++ [⟨.right, c, j, l⟩], ?_⟩
      rw [plug_append]
      rfl

/-! ## Running down one side -/

/-- The walk along one side ends at the last node of that side. -/
lemma extreme_spec {t : RbTree ι π} {p : Option ι} {a : Link ι} {s : Side} {c : Bool} {l r : CTree ι}
    {fuel : ℕ} (h : Embeds t.mem p a (CTree.mk s c i l r)) (hfuel : (CTree.mk s c i l r).toList.length ≤ fuel) :
    ∃ c' y o ctx, CTree.mk s c i l r = plug (CTree.mk s c' y .nil o) ctx ∧
      (∀ f ∈ ctx, f.side = s) ∧ t.extreme s fuel i = some y := by
  induction fuel generalizing c i l r p a with
  | zero =>
    rw [(toList_mk_perm s c i l r).length_eq] at hfuel
    simp at hfuel
  | succ fuel ih =>
    rw [embeds_mk] at h
    have hchild := h.1.child
    rw [(toList_mk_perm s c i l r).length_eq] at hfuel
    simp only [List.cons_append, List.length_cons, List.length_append] at hfuel
    rcases CTree.eq_nil_or_mk s l with rfl | ⟨c', j, l', r', rfl⟩
    · refine ⟨c, i, r, [], rfl, (fun f hf => by cases hf), ?_⟩
      simp only [RbTree.extreme, hchild, CTree.root_nil]
    · obtain ⟨d, y, o, ctx, hl, hside, hrun⟩ := ih h.2.1 (by omega)
      refine ⟨d, y, o, ctx ++ [⟨s, c, i, r⟩], ?_, fun f hf => ?_, ?_⟩
      · rw [plug_append, ← hl]
        rfl
      · rw [List.mem_append, List.mem_singleton] at hf
        rcases hf with hf | rfl
        · exact hside f hf
        · rfl
      · rw [CTree.root_mk] at hchild
        simp only [RbTree.extreme, hchild]
        exact hrun

lemma before_eq_nil (h : ∀ f ∈ ctx, f.side = .left) : before ctx = [] := by
  induction ctx with
  | nil => rfl
  | cons f ctx ih =>
    rw [before, h f List.mem_cons_self]
    exact ih fun g hg => h g (List.mem_cons_of_mem f hg)

lemma after_eq_nil (h : ∀ f ∈ ctx, f.side = .right) : after ctx = [] := by
  induction ctx with
  | nil => rfl
  | cons f ctx ih =>
    rw [after, h f List.mem_cons_self]
    exact ih fun g hg => h g (List.mem_cons_of_mem f hg)

/-! ## RBT_FIND -/

/-- What `RBT_FIND` of `val` promises about the node it gives: it has the value, or it is above an
empty place where the value belongs. -/
def FoundAt (t : RbTree ι π) (tree : CTree ι) (val : ℤ) (par : Option ι) : Prop :=
  ∃ x ctx, tree = plug x ctx ∧
    (∀ j ∈ before ctx, (t.mem j).rbtValue ≤ val) ∧ (∀ j ∈ after ctx, val ≤ (t.mem j).rbtValue) ∧
    ((∃ c l i r, x = .node c l i r ∧ par = some i ∧ (t.mem i).rbtValue = val) ∨
      (x = .nil ∧ par = parentOf ctx ∧ ∀ f ∈ ctx.head?,
        (f.side = .left → val < (t.mem f.a).rbtValue) ∧
        (f.side = .right → (t.mem f.a).rbtValue < val)))

/-- What a search found stays found. -/
lemma FoundAt.congr {t t' : RbTree ι π} {val : ℤ} {par : Option ι} (h : FoundAt t tree val par)
    (hmem : ∀ i ∈ tree.toList, t'.mem i = t.mem i) : FoundAt t' tree val par := by
  obtain ⟨x, ctx, rfl, hbefore, hafter, hfound⟩ := h
  have hin : ∀ i, i ∈ before ctx ∨ i ∈ x.toList ∨ i ∈ after ctx → t'.mem i = t.mem i :=
    fun i hi => hmem i (by rw [toList_plug]; simpa [or_assoc] using hi)
  refine ⟨x, ctx, rfl, fun j hj => ?_, fun j hj => ?_, ?_⟩
  · rw [hin j (.inl hj)]
    exact hbefore j hj
  · rw [hin j (.inr (.inr hj))]
    exact hafter j hj
  · rcases hfound with ⟨c, l, i, r, rfl, hpar, hval⟩ | ⟨rfl, hpar, hturn⟩
    · refine .inl ⟨c, l, i, r, rfl, hpar, ?_⟩
      rw [hin i (.inr (.inl (by simp [CTree.toList])))]
      exact hval
    · refine .inr ⟨rfl, hpar, fun f hf => ?_⟩
      have hids : f.a ∈ ids ctx := by
        cases ctx with
        | nil => cases hf
        | cons g ctx =>
          obtain rfl : g = f := by simpa using hf
          exact mem_ids_cons.mpr (.inl rfl)
      rw [hmem f.a (mem_toList_plug.mpr (.inr hids))]
      exact hturn f hf

/-- The search down the tree, by induction on the fuel with the context it passed. -/
lemma rbtFindLoop_spec {t : RbTree ι π} {x : CTree ι} (ctx : List (Frame ι)) {val : ℤ} {fuel : ℕ}
    {node : Option ι} (hrep : Represents t tree)
    (hord : tree.toList.Pairwise fun i j => (t.mem i).rbtValue ≤ (t.mem j).rbtValue)
    (htree : tree = plug x ctx) (hnode : x = .nil → node = parentOf ctx)
    (hbefore : ∀ j ∈ before ctx, (t.mem j).rbtValue ≤ val)
    (hafter : ∀ j ∈ after ctx, val ≤ (t.mem j).rbtValue)
    (hturn : ∀ f ∈ ctx.head?, (f.side = .left → val < (t.mem f.a).rbtValue) ∧
        (f.side = .right → (t.mem f.a).rbtValue < val))
    (hfuel : x.toList.length < fuel) :
    ∃ par, rbtFindLoop t val fuel node x.root = some par ∧ FoundAt t tree val par := by
  induction fuel generalizing x ctx node with
  | zero => omega
  | succ fuel ih =>
    cases x with
    | nil =>
      exact ⟨node, rfl, .nil, ctx, htree, hbefore, hafter, .inr ⟨rfl, hnode rfl, hturn⟩⟩
    | node c l i r =>
      have hplaced : Placed (t.mem i) c (parentOf ctx) (linkOf ctx) .left l.root r.root :=
        Represents.placed (s := .left) (htree ▸ hrep)
      -- the list up to here, around the subtree
      have hlist : tree.toList = before ctx ++ (l.toList ++ i :: r.toList) ++ after ctx := by
        rw [htree, toList_plug]
        rfl
      rw [hlist] at hord
      simp only [CTree.toList, List.length_append, List.length_cons] at hfuel
      simp only [CTree.root, rbtFindLoop]
      by_cases hgt : (t.mem i).rbtValue > val
      · -- what follows `i` is not smaller than `i`
        rw [if_pos hgt, show (t.mem i).left = l.root from hplaced.child]
        refine ih (⟨.left, c, i, r⟩ :: ctx) htree (fun _ => rfl) hbefore ?_ ?_ (by omega)
        · intro j hj
          simp only [after, List.cons_append, List.mem_cons, List.mem_append] at hj
          rcases hj with rfl | hj | hj
          · omega
          · have hle : (t.mem i).rbtValue ≤ (t.mem j).rbtValue := by
              simp only [List.pairwise_append, List.pairwise_cons] at hord
              exact hord.1.2.1.2.1.1 j hj
            omega
          · exact hafter j hj
        · rintro f ⟨⟩
          exact ⟨fun _ => hgt, fun hs => by cases hs⟩
      · rw [if_neg hgt]
        by_cases hlt : (t.mem i).rbtValue < val
        · -- what precedes `i` is not greater than `i`
          rw [if_pos hlt, show (t.mem i).next = r.root from hplaced.child_other]
          refine ih (⟨.right, c, i, l⟩ :: ctx) htree (fun _ => rfl) ?_ hafter ?_ (by omega)
          · intro j hj
            simp only [before, List.mem_append, List.mem_singleton] at hj
            rcases hj with hj | hj | rfl
            · exact hbefore j hj
            · have hle : (t.mem j).rbtValue ≤ (t.mem i).rbtValue := by
                simp only [List.pairwise_append, List.mem_cons] at hord
                exact hord.1.2.1.2.2 j hj i (.inl rfl)
              omega
            · omega
          · rintro f ⟨⟩
            exact ⟨(fun hs => by cases hs), fun _ => hlt⟩
        · rw [if_neg hlt]
          refine ⟨some i, rfl, _, ctx, htree, hbefore, hafter, .inl ⟨c, l, i, r, rfl, rfl, ?_⟩⟩
          omega

/-- `RBT_FIND` on a well-formed tree. -/
theorem rbtFind_spec {t : RbTree ι π} (h : Wf t tree) (val : ℤ) :
    ∃ par, rbtFind t val = some par ∧ FoundAt t tree val par := by
  unfold rbtFind
  rw [h.represents.root, h.num]
  refine rbtFindLoop_spec [] h.represents h.ordered rfl ?_ ?_ ?_ ?_ (Nat.lt_succ_self _)
  · rintro rfl
    rfl
  · exact fun j hj => by cases hj
  · exact fun j hj => by cases hj
  · exact fun f hf => by cases hf

/-! ## RBT_FIND_LEFT -/

section FindLeft
variable {t : RbTree ι π} {val : ℤ} {p : Option ι} {a : Link ι} {c : Bool} {x : ι} {l r : CTree ι}
  {fuel : ℕ}

/-- The nodes of value `val`. -/
def RbTree.hasValue (t : RbTree ι π) (val : ℤ) (i : ι) : Bool := (t.mem i).rbtValue == val

/-- The values along a list do not decrease. -/
def Ordered (t : RbTree ι π) (l : List ι) : Prop :=
  l.Pairwise fun i j => (t.mem i).rbtValue ≤ (t.mem j).rbtValue

variable {l₁ : List ι}

lemma find?_skip_left {l₂ : List ι} (h : ∀ i ∈ l₁, (t.mem i).rbtValue < val) :
    (l₁ ++ l₂).find? (t.hasValue val) = l₂.find? (t.hasValue val) := by
  rw [List.find?_append, List.find?_eq_none.mpr, Option.none_or]
  intro i hi
  have hlt := h i hi
  simp only [RbTree.hasValue, beq_iff_eq]
  omega

/-- Larger values need not be searched. -/
lemma find?_skip_right {l₂ : List ι} (h : ∀ i ∈ l₂, val < (t.mem i).rbtValue) :
    (l₁ ++ l₂).find? (t.hasValue val) = l₁.find? (t.hasValue val) := by
  have hnone : l₂.find? (t.hasValue val) = none := by
    rw [List.find?_eq_none]
    intro i hi
    have hlt := h i hi
    simp only [RbTree.hasValue, beq_iff_eq]
    omega
  rw [List.find?_append, hnone, Option.or_none]

lemma find?_append_self (hx : (t.mem x).rbtValue = val) :
    (l₁ ++ [x]).find? (t.hasValue val) = (l₁.find? (t.hasValue val)).or (some x) := by
  rw [List.find?_append]
  simp [RbTree.hasValue, hx]

lemma Ordered.node (h : Ordered t (CTree.node c l x r).toList) :
    Ordered t l.toList ∧ Ordered t r.toList ∧
      (∀ i ∈ l.toList, (t.mem i).rbtValue ≤ (t.mem x).rbtValue) ∧
      (∀ i ∈ r.toList, (t.mem x).rbtValue ≤ (t.mem i).rbtValue) := by
  unfold Ordered CTree.toList at h
  rw [List.pairwise_append, List.pairwise_cons] at h
  exact ⟨h.1, h.2.1.2, fun i hi => h.2.2 i hi x List.mem_cons_self, h.2.1.1⟩

/-- From a node of the value down the left side: either the first node of the value is met, or a
smaller node `y`, and then the first one is under `y` or is the last one met. -/
lemma rbtFindLeftDown_spec (h : Embeds t.mem p a (.node c l x r)) (hx : (t.mem x).rbtValue = val)
    (hord : Ordered t (CTree.node c l x r).toList) (hfuel : l.toList.length < fuel) :
    (∃ n, rbtFindLeftDown t val fuel x x = some (none, n) ∧
      (l.toList ++ [x]).find? (t.hasValue val) = some n) ∨
    ∃ n cy yl y yr p' a', rbtFindLeftDown t val fuel x x = some (some y, n) ∧
      (t.mem y).rbtValue < val ∧ Embeds t.mem p' a' (.node cy yl y yr) ∧
      (CTree.node cy yl y yr).toList.Sublist l.toList ∧
      (l.toList ++ [x]).find? (t.hasValue val) =
        ((CTree.node cy yl y yr).toList.find? (t.hasValue val)).or (some n) := by
  induction fuel generalizing c l x r p a with
  | zero => omega
  | succ fuel ih =>
    rcases h with ⟨hplaced, hl, -⟩
    -- the search goes on in the left subtree
    have hleft : (t.mem x).left = l.root := hplaced.child
    obtain ⟨hol, -, hlow, -⟩ := hord.node
    cases l with
    | nil =>
      refine .inl ⟨x, ?_, ?_⟩
      · simp only [rbtFindLeftDown, hleft, CTree.root]
      · rw [find?_append_self hx]
        rfl
    | node cy yl y yr =>
      simp only [CTree.root] at hleft
      by_cases hlt : (t.mem y).rbtValue < val
      · refine .inr ⟨x, cy, yl, y, yr, _, _, ?_, hlt, hl, List.Sublist.refl _, find?_append_self hx⟩
        simp only [rbtFindLeftDown, hleft, if_pos hlt]
      · have hy : (t.mem y).rbtValue = val := by
          have hle := hlow y (by simp [CTree.toList])
          omega
        have hsub : (CTree.node cy yl y yr).toList ++ [x] = (yl.toList ++ [y]) ++ (yr.toList ++ [x]) := by
          simp [CTree.toList]
        simp only [CTree.toList, List.length_append, List.length_cons] at hfuel
        rcases ih hl hy hol (by omega) with ⟨n, hrun, hfind⟩ |
          ⟨n, cz, zl, z, zr, p', a', hrun, hz, hemb, hsub', hfind⟩
        · refine .inl ⟨n, ?_, ?_⟩
          · simp only [rbtFindLeftDown, hleft, if_neg hlt]
            exact hrun
          · rw [hsub, List.find?_append, hfind, Option.some_or]
        · refine .inr ⟨n, cz, zl, z, zr, p', a', ?_, hz, hemb, ?_, ?_⟩
          · simp only [rbtFindLeftDown, hleft, if_neg hlt]
            exact hrun
          · exact hsub'.trans (List.sublist_append_left _ _)
          · rw [hsub, List.find?_append, hfind, Option.or_assoc, Option.some_or]

/-- From a smaller node down the right side: either no node of the value is there, or one is met,
and the first one is not after it. -/
lemma rbtFindLeftNext_spec {cy : Bool} {yl yr : CTree ι} {y n : ι}
    (h : Embeds t.mem p a (.node cy yl y yr)) (hy : (t.mem y).rbtValue < val)
    (hord : Ordered t (CTree.node cy yl y yr).toList)
    (hle : ∀ i ∈ (CTree.node cy yl y yr).toList, (t.mem i).rbtValue ≤ val)
    (hfuel : yr.toList.length < fuel) :
    (rbtFindLeftNext t val fuel y n = some (none, n) ∧
      (CTree.node cy yl y yr).toList.find? (t.hasValue val) = none) ∨
    ∃ cz zl z zr p' a', rbtFindLeftNext t val fuel y n = some (some z, z) ∧
      (t.mem z).rbtValue = val ∧ Embeds t.mem p' a' (.node cz zl z zr) ∧
      (CTree.node cz zl z zr).toList.Sublist yr.toList ∧
      (CTree.node cy yl y yr).toList.find? (t.hasValue val) =
        (zl.toList ++ [z]).find? (t.hasValue val) := by
  induction fuel generalizing cy yl y yr p a with
  | zero => omega
  | succ fuel ih =>
    rcases h with ⟨hplaced, -, hr⟩
    have hnext : (t.mem y).next = yr.root := hplaced.child_other
    obtain ⟨-, hor, hlow, -⟩ := hord.node
    -- nothing of the value up to `y`
    have hskip : (CTree.node cy yl y yr).toList.find? (t.hasValue val) =
        yr.toList.find? (t.hasValue val) := by
      rw [CTree.toList, List.append_cons]
      refine find?_skip_left fun i hi => ?_
      rw [List.mem_append, List.mem_singleton] at hi
      rcases hi with hi | rfl
      · have hiy := hlow i hi
        omega
      · exact hy
    rw [hskip]
    cases yr with
    | nil =>
      refine .inl ⟨?_, rfl⟩
      simp only [rbtFindLeftNext, hnext, CTree.root]
    | node cz zl z zr =>
      simp only [CTree.root] at hnext
      have hzle : ∀ i ∈ (CTree.node cz zl z zr).toList, (t.mem i).rbtValue ≤ val := fun i hi =>
        hle i (by rw [CTree.toList]; exact List.mem_append_right _ (List.mem_cons_of_mem _ hi))
      by_cases hz : (t.mem z).rbtValue = val
      · refine .inr ⟨cz, zl, z, zr, _, _, ?_, hz, hr, List.Sublist.refl _, ?_⟩
        · simp only [rbtFindLeftNext, hnext, if_pos hz]
        · rw [CTree.toList, List.append_cons, List.find?_append, find?_append_self hz, Option.or_assoc,
            Option.some_or]
      · have hzlt : (t.mem z).rbtValue < val := by
          have hzz := hzle z (by simp [CTree.toList])
          omega
        have hlen : zr.toList.length < fuel := by
          simp only [CTree.toList, List.length_append, List.length_cons] at hfuel
          omega
        rcases ih hr hzlt hor hzle hlen with ⟨hrun, hfind⟩ |
          ⟨cw, wl, w, wr, p', a', hrun, hw, hemb, hsub, hfind⟩
        · refine .inl ⟨?_, hfind⟩
          simp only [rbtFindLeftNext, hnext, if_neg hz]
          exact hrun
        · refine .inr ⟨cw, wl, w, wr, p', a', ?_, hw, hemb, ?_, hfind⟩
          · simp only [rbtFindLeftNext, hnext, if_neg hz]
            exact hrun
          · rw [CTree.toList]
            exact hsub.trans ((List.sublist_cons_self z _).trans (List.sublist_append_right _ _))

/-- Equal values to the left are tried first. -/
lemma rbtFindLeftEq_spec {len : ℕ} (h : Embeds t.mem p a (.node c l x r))
    (hx : (t.mem x).rbtValue = val) (hord : Ordered t (CTree.node c l x r).toList)
    (hlen : l.toList.length < len) (hfuel : l.toList.length < fuel) :
    ∃ n, rbtFindLeftEq t val len fuel x x = some n ∧
      (l.toList ++ [x]).find? (t.hasValue val) = some n := by
  induction fuel generalizing c l x r p a with
  | zero => omega
  | succ fuel ih =>
    obtain ⟨hol, -, hlow, -⟩ := hord.node
    rcases rbtFindLeftDown_spec h hx hord hlen with ⟨n, hrun, hfind⟩ |
      ⟨n, cy, yl, y, yr, p', a', hrun, hy, hemb, hsub, hfind⟩
    · refine ⟨n, ?_, hfind⟩
      simp only [rbtFindLeftEq, hrun, Option.bind_some]
    · have hylen := hsub.length_le
      have hyle : ∀ i ∈ (CTree.node cy yl y yr).toList, (t.mem i).rbtValue ≤ val := fun i hi =>
        hx ▸ hlow i (hsub.subset hi)
      simp only [CTree.toList, List.length_append, List.length_cons] at hylen
      rcases rbtFindLeftNext_spec (n := n) hemb hy (hol.sublist hsub) hyle
          (show yr.toList.length < len by omega) with ⟨hrun', hnone⟩ |
          ⟨cz, zl, z, zr, p'', a'', hrun', hz, hemb', hsub', hfind'⟩
      · refine ⟨n, ?_, ?_⟩
        · simp only [rbtFindLeftEq, hrun, Option.bind_some, hrun']
        · rw [hfind, hnone, Option.none_or]
      · have hzlen := hsub'.length_le
        have hyr : yr.toList.Sublist (CTree.node cy yl y yr).toList := by
          rw [CTree.toList]
          exact (List.sublist_cons_self y _).trans (List.sublist_append_right _ _)
        simp only [CTree.toList, List.length_append, List.length_cons] at hzlen
        obtain ⟨m, hrun'', hfind''⟩ := ih hemb' hz (hol.sublist ((hsub'.trans hyr).trans hsub))
          (by omega) (by omega)
        refine ⟨m, ?_, ?_⟩
        · simp only [rbtFindLeftEq, hrun, Option.bind_some, hrun']
          exact hrun''
        · rw [hfind, hfind', hfind'', Option.some_or]

/-- The leftmost node with the value is the first of the list that has it. -/
lemma rbtFindLeftLoop_spec {len : ℕ} {x : CTree ι} (h : Embeds t.mem p a x)
    (hord : Ordered t x.toList) (hlen : x.toList.length < len) (hfuel : x.toList.length < fuel) :
    rbtFindLeftLoop t val len fuel x.root = some (x.toList.find? (t.hasValue val)) := by
  induction fuel generalizing x p a with
  | zero => omega
  | succ fuel ih =>
    cases x with
    | nil => rfl
    | node c l i r =>
      obtain ⟨hol, hor, hlow, hhigh⟩ := hord.node
      have hplaced := h.1
      have hleft : (t.mem i).left = l.root := hplaced.child
      have hnext : (t.mem i).next = r.root := hplaced.child_other
      simp only [CTree.toList, List.length_append, List.length_cons] at hlen hfuel
      simp only [CTree.root, rbtFindLeftLoop]
      by_cases hgt : (t.mem i).rbtValue > val
      · rw [if_pos hgt, hleft, ih h.2.1 hol (by omega) (by omega), CTree.toList,
          find?_skip_right fun j hj => ?_]
        rcases List.mem_cons.mp hj with rfl | hj
        · exact hgt
        · have hij := hhigh j hj
          omega
      · rw [if_neg hgt]
        by_cases hlt : (t.mem i).rbtValue < val
        · rw [if_pos hlt, hnext, ih h.2.2 hor (by omega) (by omega), CTree.toList, List.append_cons,
            find?_skip_left fun j hj => ?_]
          rw [List.mem_append, List.mem_singleton] at hj
          rcases hj with hj | rfl
          · have hij := hlow j hj
            omega
          · exact hlt
        · have hi : (t.mem i).rbtValue = val := by omega
          have hllen : l.toList.length < len := by omega
          obtain ⟨n, hrun, hfind⟩ := rbtFindLeftEq_spec h hi hord hllen hllen
          rw [if_neg hlt, hrun, Option.map_some, CTree.toList, List.append_cons, List.find?_append,
            hfind, Option.some_or]

/-- `RBT_FIND_LEFT` gives the first node of the value, in the order of the tree. -/
theorem rbtFindLeft_spec {tree : CTree ι} (h : Wf t tree) (val : ℤ) :
    rbtFindLeft t val = some (tree.toList.find? (t.hasValue val)) := by
  unfold rbtFindLeft
  rw [h.represents.root, h.num]
  exact rbtFindLeftLoop_spec h.represents.embeds h.ordered (Nat.lt_succ_self _) (Nat.lt_succ_self _)

end FindLeft

/-! ## RBT_INCREMENT -/

/-- Climbing up from a right son ends at the next node of the list. -/
lemma climb_spec [DecidableEq ι] {t : RbTree ι π} {x : CTree ι} {fuel : ℕ} (h : Represents t (plug x ctx))
    (hx : x.root = some i) (hfuel : ctx.length < fuel) : t.climb .right fuel i = some (after ctx).head? := by
  induction fuel generalizing x ctx i with
  | zero => omega
  | succ fuel ih =>
    have hparent := (h.root_placed hx).1
    cases ctx with
    | nil =>
      simp only [RbTree.climb, hparent, parentOf]
      rfl
    | cons f ctx =>
      rcases f with ⟨s, c, j, o⟩
      have habove := h.placed_above
      simp only [RbTree.climb, hparent, parentOf]
      cases s with
      | left =>
        have hne : (t.mem j).child .right ≠ some i := by
          rw [show (t.mem j).child .right = o.root from habove.child_other]
          exact h.sib_root_ne hx
        rw [if_neg hne]
        rfl
      | right =>
        have heq : (t.mem j).child .right = some i := habove.child.trans hx
        have h' : Represents t (plug (CTree.mk .right c j x o) ctx) := h
        rw [if_pos heq]
        simp only [List.length_cons] at hfuel
        have hrec := ih h' (CTree.root_mk _ _ _ _ _) (by omega)
        exact hrec

/-- `RBT_INCREMENT` gives the next node of the sequence. -/
theorem rbtIncrement_spec [DecidableEq ι] {t : RbTree ι π} {l₁ l₂ : List ι} (h : Wf t tree)
    (hlist : tree.toList = l₁ ++ i :: l₂) : rbtIncrement t i = some l₂.head? := by
  obtain ⟨c, l, r, ctx, rfl⟩ := exists_plug_of_mem (i := i) (by rw [hlist]; simp)
  have hplaced : Placed (t.mem i) c (parentOf ctx) (linkOf ctx) .left l.root r.root :=
    Represents.placed (s := .left) h.represents
  have hnum := h.num
  have hnd := h.represents.nodup
  have hlist' : (plug (CTree.node c l i r) ctx).toList =
      (before ctx ++ l.toList) ++ i :: (r.toList ++ after ctx) := by
    rw [toList_plug, CTree.toList]
    simp only [List.append_assoc, List.cons_append]
  obtain rfl : r.toList ++ after ctx = l₂ := by
    have hnd' := hnd
    rw [hlist] at hnd'
    rw [hlist'] at hnd hlist
    have hi : ∀ {k₁ k₂ : List ι}, (k₁ ++ i :: k₂).Nodup → i ∉ k₁ ∧ i ∉ k₂ := fun hk => by
      simp only [List.nodup_append, List.nodup_cons, List.mem_cons] at hk
      exact ⟨fun hmem => hk.2.2 i hmem i (.inl rfl) rfl, hk.2.1.1⟩
    exact ((List.append_cons_inj_of_notMem (hi hnd).1 (hi hnd).2).mp hlist).2.2
  have hchild : (t.mem i).child .right = r.root := hplaced.child_other
  rw [rbtIncrement, RbTree.move, hchild]
  rw [hlist', List.length_append, List.length_cons, List.length_append] at hnum
  rcases CTree.eq_nil_or_mk .left r with rfl | ⟨cr, j, jl, jr, rfl⟩
  · have hctx := length_le_length_toList_plug (CTree.node c l i .nil) ctx
    rw [hlist', List.length_append, List.length_cons, List.length_append] at hctx
    exact climb_spec h.represents rfl (by omega)
  · have hemb := ((embeds_mk (s := .left)).mp (represents_plug.mp h.represents).2.1).2.2
    have hfuel : (CTree.mk .left cr j jl jr).toList.length ≤ t.head.rbtNumNode + 1 := by
      rw [List.length_append] at hnum
      omega
    obtain ⟨d, y, o, ctx', hplug, hside, hrun⟩ := extreme_spec hemb hfuel
    rw [CTree.root_mk]
    simp only [Side.other, hrun, Option.map_some]
    rw [hplug, toList_plug, before_eq_nil hside]
    rfl

/-- `RBT_LOOP` with `RBT_INCREMENT` at the end of its body: the nodes it visits from `node` on. -/
def rbtLoopFrom [DecidableEq ι] (t : RbTree ι π) : ℕ → Option ι → Option (List ι)
  | 0, _ => none
  | _ + 1, none => some []
  | fuel + 1, some i =>
    (rbtIncrement t i).bind fun next => (rbtLoopFrom t fuel next).map fun l => i :: l

/-- The nodes `RBT_LOOP` visits. -/
def rbtLoop [DecidableEq ι] (t : RbTree ι π) : Option (List ι) :=
  rbtLoopFrom t (t.head.rbtNumNode + 1) t.head.leftmost

/-- The loop macro runs through the rest of the list. -/
lemma rbtLoopFrom_spec [DecidableEq ι] {t : RbTree ι π} {l₁ l₂ : List ι} {fuel : ℕ} (h : Wf t tree)
    (hlist : tree.toList = l₁ ++ l₂) (hfuel : l₂.length < fuel) : rbtLoopFrom t fuel l₂.head? = some l₂ := by
  induction fuel generalizing l₁ l₂ with
  | zero => omega
  | succ fuel ih =>
    cases l₂ with
    | nil => rfl
    | cons i l₂ =>
      simp only [List.length_cons] at hfuel
      have hrest : rbtLoopFrom t fuel l₂.head? = some l₂ := by
        have happend : tree.toList = (l₁ ++ [i]) ++ l₂ := by
          rw [hlist, List.append_assoc, List.singleton_append]
        exact ih happend (by omega)
      simp only [rbtLoopFrom, List.head?_cons]
      rw [rbtIncrement_spec h hlist, Option.bind_some, hrest, Option.map_some]

/-- `RBT_LOOP` visits the nodes of the tree in their order. -/
theorem rbtLoop_spec [DecidableEq ι] {t : RbTree ι π} (h : Wf t tree) : rbtLoop t = some tree.toList := by
  have hfuel : tree.toList.length < t.head.rbtNumNode + 1 := by
    rw [h.num]
    exact Nat.lt_succ_self _
  rw [rbtLoop, h.leftmost]
  exact rbtLoopFrom_spec h (List.nil_append _).symm hfuel

end Ganesha.Rbt
