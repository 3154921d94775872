import Ganesha.Rbt.Search

/-!
# Insertion

The loop of `RBT_INSERT` restores the red-black conditions (`rbtInsertLoop_rebalanced`), the search
finds a place in the order (`rbtFind_spec`), and the node is hung there (`rbtAttach_spec`).
-/

namespace Ganesha.Rbt
open Library.RedBlack

variable {ι π : Type}

/-- `t'` holds a red-black tree with the in-order sequence of `tree`, and nothing else has changed
since `t`. -/
def Rebalanced (t : RbTree ι π) (tree : CTree ι) (t' : RbTree ι π) : Prop :=
  ∃ tree', Recast t tree t' tree' ∧ tree'.isRed = false ∧ ∃ n, tree'.RB n

variable {t' : RbTree ι π}

lemma Recast.rebalanced_trans {t t₁ : RbTree ι π} {tree tree₁ : CTree ι} (h₁ : Recast t tree t₁ tree₁)
    (h : Rebalanced t₁ tree₁ t') : Rebalanced t tree t' := by
  obtain ⟨tree', hrec, hrb⟩ := h
  exact ⟨tree', h₁.trans hrec, hrb⟩

lemma Recast.rebalanced {t : RbTree ι π} {tree x : CTree ι} {ctx : List (Frame ι)} {n : ℕ}
    (h : Recast t tree t' (plug x ctx)) (hx : x.RB n) (hctx : CtxRB ctx n)
    (hred : x.isRed = true → UnderBlack ctx) : Rebalanced t tree t' :=
  ⟨_, h, RB_plug_of_ctxRB hx hctx hred⟩

section Loop
variable [DecidableEq ι] {t : RbTree ι π} {s s' : Side} {i p g q : ι} {l r X Y fs gs : CTree ι}
  {ctx : List (Frame ι)} {n : ℕ}

/-- The second rotation of the insertion, with its two colours. -/
lemma rbtInsertRotate_last
    (h : Represents t (plug (CTree.mk s true q X Y) (⟨s, false, g, gs⟩ :: ctx)))
    (hX : X.RB n) (hY : Y.RB n) (hYb : Y.isRed = false) (hgs : gs.RB n) (hgsb : gs.isRed = false)
    (hctx : CtxRB ctx (n + 1)) :
    ∃ t', (let t := t.setRed q false
        (t.mem q).parent.bind fun g => (t.setRed g true).rotate s.other g) = some t' ∧
      Rebalanced t (plug (CTree.mk s true q X Y) (⟨s, false, g, gs⟩ :: ctx)) t' := by
  have h₁ := h.setRed false
  have hparent := h₁.represents.placed.parent
  rw [plug_frame (CTree.mk s false q X Y)] at h₁
  have h₂ := h₁.trans (h₁.represents.setRed true)
  rw [← CTree.mk_other s true g, ← CTree.mk_other s false q] at h₂
  obtain ⟨t', hrot, hrec⟩ := h₂.represents.rotate
  refine ⟨t', ?_, (h₂.trans hrec).rebalanced (.black (.red hgs hgsb hY hYb) hX) hctx ?_⟩
  · simp only [hparent, parentOf, Option.bind_some]
    exact hrot
  · rw [CTree.isRed_mk]
    exact fun hr => Bool.noConfusion hr

/-- Inner and outer case of the rotations at the grandparent. -/
lemma rbtInsertRotate_rebalanced
    (h : Represents t (plug (CTree.mk s true i l r) (⟨s', true, p, fs⟩ :: ⟨s, false, g, gs⟩ :: ctx)))
    (hl : l.RB n) (hlb : l.isRed = false) (hr : r.RB n) (hrb : r.isRed = false)
    (hfs : fs.RB n) (hfsb : fs.isRed = false) (hgs : gs.RB n) (hgsb : gs.isRed = false)
    (hctx : CtxRB ctx (n + 1)) :
    ∃ t', rbtInsertRotate t s i = some t' ∧ Rebalanced t
      (plug (CTree.mk s true i l r) (⟨s', true, p, fs⟩ :: ⟨s, false, g, gs⟩ :: ctx)) t' := by
  have hparent := h.placed.parent
  have habove := h.placed_above
  simp only [parentOf] at hparent
  by_cases hs : s' = s
  · -- `x` is an outer grandchild: one rotation
    subst hs
    have hne : (t.mem p).child s'.other ≠ some i := by
      rw [habove.child_other]
      exact h.sib_root_ne (CTree.root_mk _ _ _ _ _)
    obtain ⟨t', hlast, hreb⟩ := rbtInsertRotate_last h (.red hl hlb hr hrb) hfs hfsb hgs hgsb hctx
    refine ⟨t', ?_, hreb⟩
    simp only [rbtInsertRotate, hparent, Option.bind_some, if_neg hne]
    exact hlast
  · -- `x` is an inner grandchild: a rotation makes its parent the outer one
    obtain rfl := Side.eq_other_of_ne hs
    have hchild : (t.mem p).child s.other = some i := by
      rw [habove.child, CTree.root_mk]
    rw [plug_frame, CTree.mk_other] at h ⊢
    obtain ⟨t₁, hrot, hrec⟩ := h.rotate
    have hfocus := hrec.represents
    rw [← plug_frame (CTree.mk s true p fs l)] at hfocus
    have hparent₁ : (t₁.mem p).parent = some i := hfocus.placed.parent
    obtain ⟨t', hlast, hreb⟩ := rbtInsertRotate_last hrec.represents (.red hfs hfsb hl hlb) hr hrb
      hgs hgsb hctx
    refine ⟨t', ?_, hrec.rebalanced_trans hreb⟩
    simp only [rbtInsertRotate, hparent, Option.bind_some, hchild, if_true, hrot, Option.map_some,
      hparent₁]
    exact hlast

/-- One turn of the loop where the parent is red. -/
lemma rbtInsertLoop_under_red {fuel : ℕ} {sg : Side}
    (h : Represents (t.setRed i true)
      (plug (CTree.mk s true i l r) (⟨s', true, p, fs⟩ :: ⟨sg, false, g, gs⟩ :: ctx)))
    (hparent : (t.mem i).parent = some p) :
    rbtInsertLoop (fuel + 1) t i = if gs.isRed = false then rbtInsertRotate (t.setRed i true) sg i
      else rbtInsertLoop fuel (((t.setRed i true).setRed p false).setBlack gs.root) g := by
  have hp := h.placed_above
  have hgrand : ((t.setRed i true).mem p).parent = some g := hp.parent
  rw [plug_frame] at h
  have hside := h.side_eq (.inl (by rw [CTree.root_mk]; exact Option.some_ne_none p))
  rw [CTree.root_mk] at hside
  simp only [eq_comm (a := some p)] at hside
  have huncle : ((t.setRed i true).mem g).child sg.other = gs.root := h.placed_above.child_other
  rw [plug_sib] at h
  simp only [rbtInsertLoop, hparent, hp.red, hgrand, Option.bind_some, hside, huncle, h.isRed_root]
  rfl

/-- The loop of `RBT_INSERT` at a node `i` that is still black and has to become red: it ends, and
the tree is a red-black tree again. -/
theorem rbtInsertLoop_rebalanced {fuel : ℕ}
    (h : Represents t (plug (CTree.mk s false i l r) ctx)) (hl : l.RB n) (hlb : l.isRed = false)
    (hr : r.RB n) (hrb : r.isRed = false) (hctx : CtxRB ctx n) (hfuel : ctx.length < fuel) :
    ∃ t', rbtInsertLoop fuel t i = some t' ∧
      Rebalanced t (plug (CTree.mk s false i l r) ctx) t' := by
  induction fuel generalizing t s i l r ctx n with
  | zero => omega
  | succ fuel ih =>
    have hparent := h.placed.parent
    cases ctx with
    | nil =>
      refine ⟨t, ?_, h.recast.rebalanced (.black hl hr) hctx fun hred => ?_⟩
      · simp only [rbtInsertLoop, hparent, parentOf]
      · rw [CTree.isRed_mk] at hred
        cases hred
    | cons f ctx =>
      rcases f with ⟨s', c, p, fs⟩
      have h₁ := h.setRed true
      rcases hctx with ⟨hfs, hf, hctx⟩
      cases c with
      | false =>
        refine ⟨t.setRed i true, ?_, h₁.rebalanced (.red hl hlb hr hrb) ⟨hfs, hf, hctx⟩ ?_⟩
        · simp only [rbtInsertLoop, hparent, parentOf, h₁.represents.placed_above.red, if_true]
        · exact fun _ => rfl
      | true =>
        -- the parent is red, so there is a grandparent and it is black
        obtain ⟨hfsb, hunder⟩ := hf rfl
        cases ctx with
        | nil => exact hunder.elim
        | cons g ctx =>
          rcases g with ⟨sg, c, g, gs⟩
          obtain rfl : c = false := hunder
          rcases hctx with ⟨hgs, -, hctx⟩
          rw [rbtInsertLoop_under_red h₁.represents hparent]
          cases hgsr : gs.isRed with
          | false =>
            -- a black uncle: `x` is seen from the side its parent is on, then rotations end it
            rw [if_pos rfl]
            obtain ⟨l', r', hview, hlr⟩ := CTree.mk_view sg s l r
            rw [hview true] at h₁
            have hsub : (l'.RB n ∧ l'.isRed = false) ∧ r'.RB n ∧ r'.isRed = false := by
              rcases hlr with ⟨rfl, rfl⟩ | ⟨rfl, rfl⟩
              · exact ⟨⟨hl, hlb⟩, hr, hrb⟩
              · exact ⟨⟨hr, hrb⟩, hl, hlb⟩
            obtain ⟨t', hrot, hreb⟩ := rbtInsertRotate_rebalanced h₁.represents hsub.1.1 hsub.1.2
              hsub.2.1 hsub.2.2 hfs hfsb hgs hgsr hctx
            exact ⟨t', hrot, h₁.rebalanced_trans hreb⟩
          | true =>
            -- a red uncle: the parent and the uncle become black, and the grandparent is next
            rw [if_neg (by decide)]
            rw [plug_frame (CTree.mk s true i l r)] at h₁
            have h₂ := h₁.trans (h₁.represents.setRed false)
            rw [plug_sib (CTree.mk s' false p _ fs)] at h₂
            have h₃ := h₂.trans h₂.represents.setBlack
            rw [← plug_sib _ sg, plug_frame _ sg] at h₃
            obtain ⟨t', hloop, hreb⟩ := ih h₃.represents (.black (.red hl hlb hr hrb) hfs)
              (CTree.isRed_mk _ _ _ _ _) (hgs.blacken hgsr) gs.isRed_blacken hctx
              (by simp only [List.length_cons] at hfuel; omega)
            exact ⟨t', hloop, h₃.rebalanced_trans hreb⟩

end Loop

/-! ## Hanging the new node -/

/-- What an update of the whole tree may change: the links and colours of the nodes of `nodes`. -/
structure Framed (nodes : List ι) (t t' : RbTree ι π) : Prop where
  value : ∀ i, (t'.mem i).rbtValue = (t.mem i).rbtValue
  opaq : ∀ i, (t'.mem i).rbtOpaq = (t.mem i).rbtOpaq
  frame : ∀ i, i ∉ nodes → t'.mem i = t.mem i

variable {nodes : List ι}

lemma Kept.framed {t : RbTree ι π} (h : Kept nodes t t') : Framed nodes t t' :=
  ⟨h.value, h.opaq, h.frame⟩

lemma Framed.trans {t t'' : RbTree ι π} (h : Framed nodes t t') (h' : Framed nodes t' t'') : Framed nodes t t'' where
  value i := (h'.value i).trans (h.value i)
  opaq i := (h'.opaq i).trans (h.opaq i)
  frame i hi := (h'.frame i hi).trans (h.frame i hi)

lemma Framed.mono {nodes' : List ι} {t : RbTree ι π} (h : Framed nodes t t') (hsub : ∀ i ∈ nodes, i ∈ nodes') :
    Framed nodes' t t' where
  value := h.value
  opaq := h.opaq
  frame i hi := h.frame i fun hmem => hi (hsub i hmem)

section Hang
variable [DecidableEq ι] {t : RbTree ι π} {ctx : List (Frame ι)} {node : ι}

/-- A new red leaf at an empty place. -/
lemma Represents.hang (h : Represents t (plug .nil ctx)) (hnode : node ∉ ids ctx)
    {m : RbtNode ι π} (hm : Placed m false (parentOf ctx) (linkOf ctx) .left none none) :
    Represents ((t.writeLink (linkOf ctx) (some node)).modify node fun _ => m)
      (plug (CTree.mk .left false node .nil .nil) ctx) := by
  have hnd := nodup_toList_plug.mp h.nodup
  rcases represents_plug.mp h with ⟨hctx, -, -⟩
  refine represents_plug.mpr ⟨?_, ?_, ?_⟩
  · rw [modify_head, CTree.root_mk]
    refine EmbedsCtx.congr (hctx.writeLink hnd.2.1) fun j hj => ?_
    exact modify_mem_of_ne _ fun heq => hnode (heq ▸ hj)
  · rw [embeds_mk, modify_mem_self]
    exact ⟨hm, trivial, trivial⟩
  · rw [nodup_toList_plug]
    refine ⟨by simp [CTree.mk, CTree.toList], hnd.2.1, fun i hi => ?_⟩
    rw [mem_toList_mk] at hi
    rcases hi with rfl | hi | hi
    · exact hnode
    · cases hi
    · cases hi

/-- The new node as `RBT_INSERT` leaves it before its loop, hung at the hole of `ctx`. -/
structure Attached (t t' : RbTree ι π) (node : ι) (ctx : List (Frame ι)) : Prop where
  represents : Represents t' (plug (CTree.mk .left false node .nil .nil) ctx)
  framed : Framed (node :: ids ctx) t t'
  leftmost : t'.head.leftmost = (before ctx ++ node :: after ctx).head?
  rightmost : t'.head.rightmost = (before ctx ++ node :: after ctx).getLast?
  num : t'.head.rbtNumNode = t.head.rbtNumNode

/-- The assignments of `RBT_INSERT` that hang `node` on side `s` of `y`, then set its fields; the
ends of the head may be moved in between. -/
def hangNode (t : RbTree ι π) (node : ι) (s : Side) (y : ι) (hd : RbtHead ι) : RbTree ι π :=
  let t := t.modify y fun n => n.setChild s (some node)
  let t := t.modify node fun n => { n with anchor := .child s y }
  ({ t with head := hd } : RbTree ι π).modify node fun n =>
    { n with red := false, parent := some y, left := none, next := none }

lemma hangNode_mem {s : Side} {y : ι} (hd : RbtHead ι) (hne : node ≠ y) :
    (hangNode t node s y hd).mem =
      ((t.writeLink (.child s y) (some node)).modify node fun _ => { t.mem node with
        anchor := .child s y, red := false, parent := some y, left := none, next := none }).mem := by
  funext j
  by_cases hj : j = node
  · subst hj
    simp [hangNode, RbTree.writeLink, RbTree.modify, hne]
  · simp [hangNode, RbTree.writeLink, RbTree.modify, hj]

lemma hangNode_represents {s : Side} {c : Bool} {y : ι} {o : CTree ι} {hd : RbtHead ι}
    (h : Represents t (plug .nil (⟨s, c, y, o⟩ :: ctx))) (hnode : node ∉ ids (⟨s, c, y, o⟩ :: ctx))
    (hroot : hd.root = t.head.root) :
    Represents (hangNode t node s y hd)
      (plug (CTree.mk .left false node .nil .nil) (⟨s, c, y, o⟩ :: ctx)) := by
  have hne : node ≠ y := fun heq => hnode (by simp [ids, heq])
  have hplaced : Placed { t.mem node with
      anchor := .child s y, red := false, parent := some y, left := none, next := none } false
      (some y) (.child s y) .left none none := ⟨rfl, rfl, rfl, rfl, rfl⟩
  exact (h.hang hnode hplaced).congr hroot fun j _ => congrFun (hangNode_mem hd hne) j

/-- Hanging a node writes it and its neighbour alone. -/
lemma hangNode_framed {s : Side} {y : ι} {nodes : List ι} {hd : RbtHead ι} (hne : node ≠ y)
    (hy : y ∈ nodes) : Framed (node :: nodes) t (hangNode t node s y hd) := by
  have hmem := hangNode_mem (t := t) (s := s) hd hne
  have hk : Kept [y] t (t.writeLink (.child s y) (some node)) := .writeLink fun s' i hl => by
    cases hl
    exact List.mem_singleton_self y
  refine ⟨fun j => ?_, fun j => ?_, fun j hj => ?_⟩ <;> rw [hmem]
  · by_cases hjn : j = node
    · rw [hjn, modify_mem_self]
    · rw [modify_mem_of_ne _ hjn]
      exact hk.value j
  · by_cases hjn : j = node
    · rw [hjn, modify_mem_self]
    · rw [modify_mem_of_ne _ hjn]
      exact hk.opaq j
  · rw [List.mem_cons, not_or] at hj
    rw [modify_mem_of_ne _ hj.1]
    exact writeLink_mem_of_ne fun s' hl => by
      injection hl with _ hyj
      exact hj.2 (hyj ▸ hy)

end Hang

/-! ## The new node in the order -/

variable {l₁ l₂ : List ι}

/-- The first node after an insertion before `y`. -/
lemma head?_insert_before [DecidableEq ι] {y : ι} (a : ι) (hnd : (l₁ ++ y :: l₂).Nodup) :
    (if some y = (l₁ ++ y :: l₂).head? then some a else (l₁ ++ y :: l₂).head?) =
      (l₁ ++ a :: y :: l₂).head? := by
  cases l₁ with
  | nil => simp
  | cons b l₁ =>
    have hyb : y ≠ b := by
      rintro rfl
      simp at hnd
    simp [hyb]

/-- The last node of the list after an insertion behind `y`. -/
lemma getLast?_insert_after [DecidableEq ι] {y : ι} (a : ι) (hnd : (l₁ ++ [y] ++ l₂).Nodup) :
    (if some y = (l₁ ++ [y] ++ l₂).getLast? then some a else (l₁ ++ [y] ++ l₂).getLast?) =
      (l₁ ++ [y] ++ a :: l₂).getLast? := by
  rcases List.eq_nil_or_concat l₂ with rfl | ⟨l, b, rfl⟩
  · simp
  · have hyb : y ≠ b := by
      rintro rfl
      simp [List.nodup_append] at hnd
    have hlast : ∀ l' : List ι, (l' ++ l.concat b).getLast? = some b := fun l' => by
      rw [List.getLast?_append, List.concat_eq_append]
      simp
    have h₁ := hlast (l₁ ++ [y])
    have h₂ : (l₁ ++ [y] ++ a :: l.concat b).getLast? = some b := by
      rw [List.append_cons]
      exact hlast _
    rw [h₁, h₂, if_neg fun heq => hyb (Option.some.inj heq)]

variable {a : ι}

lemma head?_insert (h : l₁ ≠ []) : (l₁ ++ a :: l₂).head? = (l₁ ++ l₂).head? := by
  cases l₁ with
  | nil => exact absurd rfl h
  | cons b l₁ => rfl

lemma getLast?_insert (h : l₂ ≠ []) : (l₁ ++ a :: l₂).getLast? = (l₁ ++ l₂).getLast? := by
  rw [List.getLast?_append, List.getLast?_append]
  cases l₂ with
  | nil => exact absurd rfl h
  | cons b l₂ => simp [List.getLast?_cons]

/-- An ordered list with one element more. -/
lemma pairwise_insert {r : ι → ι → Prop} (h : (l₁ ++ l₂).Pairwise r) (h₁ : ∀ j ∈ l₁, r j a)
    (h₂ : ∀ j ∈ l₂, r a j) : (l₁ ++ a :: l₂).Pairwise r := by
  rw [List.pairwise_append] at h ⊢
  obtain ⟨hl₁, hl₂, hcross⟩ := h
  refine ⟨hl₁, List.pairwise_cons.mpr ⟨h₂, hl₂⟩, fun i hi j hj => ?_⟩
  rcases List.mem_cons.mp hj with rfl | hj
  · exact h₁ i hi
  · exact hcross i hi j hj

section Attach
variable [DecidableEq ι] {t : RbTree ι π} {tree o : CTree ι} {ctx : List (Frame ι)} {node y : ι}
  {c : Bool}

/-- The branch of `RBT_INSERT` that hangs the new node at `next`: it is the new rightmost node when
the node it follows was. -/
lemma attached_right (hrep : Represents t (plug .nil (⟨.right, c, y, o⟩ :: ctx)))
    (hnode : node ∉ ids (⟨.right, c, y, o⟩ :: ctx))
    (hleft : t.head.leftmost = (plug .nil (⟨.right, c, y, o⟩ :: ctx)).toList.head?)
    (hright : t.head.rightmost = (plug .nil (⟨.right, c, y, o⟩ :: ctx)).toList.getLast?) :
    Attached t (hangNode t node .right y
      { t.head with
        rightmost := if some y = t.head.rightmost then some node else t.head.rightmost })
      node (⟨.right, c, y, o⟩ :: ctx) := by
  have hne : node ≠ y := fun heq => hnode (by simp [ids, heq])
  have hnd := hrep.nodup
  rw [toList_plug] at hleft hright hnd
  simp only [CTree.toList, List.append_nil, before, after, ← List.append_assoc] at hleft hright hnd
  refine ⟨hangNode_represents hrep hnode rfl, hangNode_framed hne (by simp [ids]), ?_, ?_, rfl⟩
  · rw [head?_insert (by simp [before])]
    simp only [before, after, ← List.append_assoc]
    exact hleft
  · simp only [before, after, ← List.append_assoc]
    rw [← getLast?_insert_after node hnd, ← hright]
    rfl

/-- A node hung to the left of its parent. -/
lemma attached_left (hrep : Represents t (plug .nil (⟨.left, c, y, o⟩ :: ctx)))
    (hnode : node ∉ ids (⟨.left, c, y, o⟩ :: ctx))
    (hleft : t.head.leftmost = (plug .nil (⟨.left, c, y, o⟩ :: ctx)).toList.head?)
    (hright : t.head.rightmost = (plug .nil (⟨.left, c, y, o⟩ :: ctx)).toList.getLast?) :
    Attached t (hangNode t node .left y
      { t.head with
        leftmost := if some y = t.head.leftmost then some node else t.head.leftmost })
      node (⟨.left, c, y, o⟩ :: ctx) := by
  have hne : node ≠ y := fun heq => hnode (by simp [ids, heq])
  have hnd := hrep.nodup
  rw [toList_plug] at hleft hright hnd
  simp only [CTree.toList, List.append_nil, before, after, List.cons_append] at hleft hright hnd
  refine ⟨hangNode_represents hrep hnode rfl, hangNode_framed hne (by simp [ids]), ?_, ?_, rfl⟩
  · simp only [before, after, List.cons_append]
    rw [← head?_insert_before node hnd, ← hleft]
    rfl
  · rw [getLast?_insert (by simp [after])]
    simp only [before, after, List.cons_append]
    exact hright

/-- The branch of `RBT_INSERT` for a value that is there and has two children: the new node follows
the predecessor, so no end moves. -/
lemma attached_inside (hrep : Represents t (plug .nil (⟨.right, c, y, o⟩ :: ctx)))
    (hnode : node ∉ ids (⟨.right, c, y, o⟩ :: ctx)) (hafter : after ctx ≠ [])
    (hleft : t.head.leftmost = (plug .nil (⟨.right, c, y, o⟩ :: ctx)).toList.head?)
    (hright : t.head.rightmost = (plug .nil (⟨.right, c, y, o⟩ :: ctx)).toList.getLast?) :
    Attached t (hangNode t node .right y t.head) node (⟨.right, c, y, o⟩ :: ctx) := by
  have hne : node ≠ y := fun heq => hnode (by simp [ids, heq])
  rw [toList_plug, CTree.toList, List.append_nil] at hleft hright
  refine ⟨hangNode_represents hrep hnode rfl, hangNode_framed hne (by simp [ids]), ?_, ?_, rfl⟩
  · rw [head?_insert (by simp [before])]
    exact hleft
  · rw [getLast?_insert (by simpa [after] using hafter)]
    exact hright

/-- The fields `RBT_INSERT` gives the new node under `y`. -/
def newFields (y : Option ι) (n : RbtNode ι π) : RbtNode ι π :=
  { n with red := false, parent := y, left := none, next := none }

/-- The first node of an empty tree. -/
lemma attached_root (t : RbTree ι π) (node : ι) : ∃ t₁, rbtAttach t node none = some (t₁, none) ∧
    Attached t (t₁.modify node (newFields none)) node [] := by
  refine ⟨_, rfl, ⟨⟨rfl, ?_, by simp [plug, CTree.mk, CTree.toList]⟩, ⟨?_, ?_, ?_⟩, rfl, rfl, rfl⟩⟩
  · show Embeds _ none .root (CTree.mk .left false node .nil .nil)
    rw [embeds_mk, modify_mem_self]
    refine ⟨?_, trivial, trivial⟩
    simp only [newFields]
    exact ⟨rfl, rfl, by simp [RbTree.modify], rfl, rfl⟩
  · intro i
    by_cases hi : i = node
    · simp [RbTree.modify, newFields, hi]
    · simp [RbTree.modify, hi]
  · intro i
    by_cases hi : i = node
    · simp [RbTree.modify, newFields, hi]
    · simp [RbTree.modify, hi]
  · intro i hi
    have hne : i ≠ node := fun heq => hi (by simp [heq])
    simp [RbTree.modify, hne]

lemma rbtAttach_left (t : RbTree ι π) (node y : ι)
    (hcond : ¬((t.mem node).rbtValue > (t.mem y).rbtValue ∨
      (t.mem node).rbtValue = (t.mem y).rbtValue ∧ (t.mem y).left ≠ none)) :
    ∃ t₁, rbtAttach t node (some y) = some (t₁, some y) ∧
      t₁.modify node (newFields (some y)) = hangNode t node .left y
        { t.head with
          leftmost := if some y = t.head.leftmost then some node else t.head.leftmost } := by
  have htwo : ¬((t.mem node).rbtValue = (t.mem y).rbtValue ∧ (t.mem y).next ≠ none ∧
      (t.mem y).left ≠ none) := fun h => hcond (.inr ⟨h.1, h.2.2⟩)
  simp only [rbtAttach, if_neg htwo, if_neg hcond]
  exact ⟨_, rfl, rfl⟩

lemma rbtAttach_right (t : RbTree ι π) (node y : ι)
    (htwo : ¬((t.mem node).rbtValue = (t.mem y).rbtValue ∧ (t.mem y).next ≠ none ∧
      (t.mem y).left ≠ none))
    (hcond : (t.mem node).rbtValue > (t.mem y).rbtValue ∨
      (t.mem node).rbtValue = (t.mem y).rbtValue ∧ (t.mem y).left ≠ none) :
    ∃ t₁, rbtAttach t node (some y) = some (t₁, some y) ∧
      t₁.modify node (newFields (some y)) = hangNode t node .right y
        { t.head with
          rightmost := if some y = t.head.rightmost then some node else t.head.rightmost } := by
  simp only [rbtAttach, if_neg htwo, if_pos hcond]
  exact ⟨_, rfl, rfl⟩

lemma rbtAttach_inside {i j : ι} (hval : (t.mem i).rbtValue = (t.mem node).rbtValue)
    (hleft : (t.mem i).left = some j) (hnext : (t.mem i).next ≠ none)
    (hrun : t.extreme .right (t.head.rbtNumNode + 1) j = some y) :
    ∃ t₁, rbtAttach t node (some i) = some (t₁, some y) ∧
      t₁.modify node (newFields (some y)) = hangNode t node .right y t.head := by
  have htwo : (t.mem node).rbtValue = (t.mem i).rbtValue ∧ (t.mem i).next ≠ none ∧
      (t.mem i).left ≠ none := ⟨hval.symm, hnext, by rw [hleft]; exact Option.some_ne_none j⟩
  simp only [rbtAttach, if_pos htwo]
  rw [hleft, Option.bind_some, hrun]
  exact ⟨_, rfl, rfl⟩

/-- `RBT_INSERT` up to its loop, with a father that `RBT_FIND` gave: the node is hung at an empty
place where its value belongs. -/
theorem rbtAttach_spec {par : Option ι} (hrep : Represents t tree) (hnode : node ∉ tree.toList)
    (hord : tree.toList.Pairwise fun i j => (t.mem i).rbtValue ≤ (t.mem j).rbtValue)
    (hleft : t.head.leftmost = tree.toList.head?) (hright : t.head.rightmost = tree.toList.getLast?)
    (hnum : tree.toList.length ≤ t.head.rbtNumNode)
    (hfound : FoundAt t tree (t.mem node).rbtValue par) :
    ∃ t₁ y ctx, rbtAttach t node par = some (t₁, y) ∧ tree = plug .nil ctx ∧
      (∀ j ∈ before ctx, (t.mem j).rbtValue ≤ (t.mem node).rbtValue) ∧
      (∀ j ∈ after ctx, (t.mem node).rbtValue ≤ (t.mem j).rbtValue) ∧
      Attached t (t₁.modify node (newFields y)) node ctx := by
  -- the new node is none of the tree
  have hids : ∀ ctx, tree = plug .nil ctx → node ∉ ids ctx := fun ctx htree hmem =>
    hnode (htree ▸ mem_toList_plug.mpr (.inr hmem))
  obtain ⟨x, ctx, htree, hbefore, hafter, hcase⟩ := hfound
  rcases hcase with ⟨c, l, i, r, rfl, rfl, hval⟩ | ⟨rfl, rfl, hturn⟩
  · -- a node of the same value
    have hplaced : Placed (t.mem i) c (parentOf ctx) (linkOf ctx) .left l.root r.root :=
      Represents.placed (s := .left) (htree ▸ hrep)
    have hl : (t.mem i).left = l.root := hplaced.child
    have hr : (t.mem i).next = r.root := hplaced.child_other
    have hlist : tree.toList = before ctx ++ (l.toList ++ i :: r.toList) ++ after ctx := by
      rw [htree, toList_plug]
      rfl
    have hlow : ∀ j ∈ l.toList, (t.mem j).rbtValue ≤ (t.mem node).rbtValue := fun j hj => by
      rw [hlist] at hord
      simp only [List.pairwise_append, List.mem_cons] at hord
      rw [← hval]
      exact hord.1.2.1.2.2 j hj i (.inl rfl)
    have hhigh : ∀ j ∈ r.toList, (t.mem node).rbtValue ≤ (t.mem j).rbtValue := fun j hj => by
      rw [hlist] at hord
      simp only [List.pairwise_append, List.pairwise_cons] at hord
      rw [← hval]
      exact hord.1.2.1.2.1.1 j hj
    rcases CTree.eq_nil_or_mk .right l with rfl | ⟨cl, j, jr, jl, rfl⟩
    · -- `left` is free
      obtain ⟨t₁, hatt, heq⟩ := rbtAttach_left t node i (by
        rw [hl, hval]
        simp)
      refine ⟨t₁, some i, ⟨.left, c, i, r⟩ :: ctx, hatt, htree, hbefore, fun j hj => ?_, ?_⟩
      · simp only [after, List.cons_append, List.mem_cons, List.mem_append] at hj
        rcases hj with rfl | hj | hj
        · exact hval.ge
        · exact hhigh j hj
        · exact hafter j hj
      · rw [heq]
        rw [htree] at hrep hleft hright
        exact attached_left hrep (hids _ htree) hleft hright
    · rcases CTree.eq_nil_or_mk .left r with rfl | ⟨cr, k, kl, kr, rfl⟩
      · -- only `next` is free
        obtain ⟨t₁, hatt, heq⟩ := rbtAttach_right t node i
          (by rw [hr]; simp) (.inr ⟨hval.symm, by rw [hl]; simp⟩)
        refine ⟨t₁, some i, ⟨.right, c, i, _⟩ :: ctx, hatt, htree, fun j hj => ?_, hafter, ?_⟩
        · simp only [before, List.mem_append, List.mem_singleton] at hj
          rcases hj with hj | hj | rfl
          · exact hbefore j hj
          · exact hlow j hj
          · exact hval.le
        · rw [heq]
          rw [htree] at hrep hleft hright
          exact attached_right hrep (hids _ htree) hleft hright
      · -- two children: the place after the predecessor
        have hfocus := hrep
        rw [htree, show CTree.node c (CTree.mk .right cl j jr jl) i (CTree.mk .left cr k kl kr) =
          CTree.mk .left c i (CTree.mk .right cl j jr jl) (CTree.mk .left cr k kl kr) from rfl,
          ← plug_frame] at hfocus
        have hfuel : (CTree.mk .right cl j jr jl).toList.length ≤ t.head.rbtNumNode + 1 := by
          rw [hlist] at hnum
          simp only [List.length_append] at hnum
          omega
        obtain ⟨c', y, o, ctx', hpre, hside, hrun⟩ := extreme_spec
          (represents_plug.mp hfocus).2.1 hfuel
        rw [CTree.root_mk] at hl hr
        obtain ⟨t₁, hatt, heq⟩ := rbtAttach_inside hval hl (by rw [hr]; simp) hrun
        set ctx₁ := ctx' ++ ⟨.left, c, i, CTree.mk .left cr k kl kr⟩ :: ctx with hctx₁
        have htree' : tree = plug .nil (⟨.right, c', y, o⟩ :: ctx₁) := by
          rw [plug_frame, hctx₁, plug_append, ← hpre]
          exact htree
        have hbef : before (⟨.right, c', y, o⟩ :: ctx₁) =
            before ctx ++ (CTree.mk .right cl j jr jl).toList := by
          rw [hpre, toList_plug, after_eq_nil hside, hctx₁]
          simp [before, before_append, CTree.mk, CTree.toList]
        have haft : after ctx₁ = i :: (CTree.mk .left cr k kl kr).toList ++ after ctx := by
          rw [hctx₁, after_append, after_eq_nil hside]
          rfl
        refine ⟨t₁, some y, _, hatt, htree', fun j' hj => ?_, fun j' hj => ?_, ?_⟩
        · rw [hbef, List.mem_append] at hj
          rcases hj with hj | hj
          · exact hbefore j' hj
          · exact hlow j' hj
        · rw [show after (⟨.right, c', y, o⟩ :: ctx₁) = after ctx₁ from rfl, haft,
            List.cons_append, List.mem_cons, List.mem_append] at hj
          rcases hj with rfl | hj | hj
          · exact hval.ge
          · exact hhigh j' hj
          · exact hafter j' hj
        · rw [heq]
          rw [htree'] at hrep hleft hright
          exact attached_inside hrep (hids _ htree') (by rw [haft]; simp) hleft hright
  · cases ctx with
    | nil =>
      obtain ⟨t₁, hatt, hatt'⟩ := attached_root t node
      exact ⟨t₁, none, [], hatt, htree, hbefore, hafter, hatt'⟩
    | cons f ctx =>
      rcases f with ⟨s, c, y, o⟩
      have hid := hids _ htree
      rw [htree] at hrep hleft hright
      obtain ⟨hturnl, hturnr⟩ := hturn ⟨s, c, y, o⟩ rfl
      cases s with
      | left =>
        have hlt : (t.mem node).rbtValue < (t.mem y).rbtValue := hturnl rfl
        obtain ⟨t₁, hatt, heq⟩ := rbtAttach_left t node y (by omega)
        refine ⟨t₁, some y, _, hatt, htree, hbefore, hafter, ?_⟩
        rw [heq]
        exact attached_left hrep hid hleft hright
      | right =>
        have hlt : (t.mem y).rbtValue < (t.mem node).rbtValue := hturnr rfl
        obtain ⟨t₁, hatt, heq⟩ := rbtAttach_right t node y (by omega)
          (.inl hlt)
        refine ⟨t₁, some y, _, hatt, htree, hbefore, hafter, ?_⟩
        rw [heq]
        exact attached_right hrep hid hleft hright

/-- `RBT_INSERT` of a node that is not in the tree, with a father that `RBT_FIND` gave: the tree
stays well-formed and the node is put somewhere in the sequence. -/
theorem rbtInsert_spec {par : Option ι} (h : Wf t tree) (hnode : node ∉ tree.toList)
    (hfound : FoundAt t tree (t.mem node).rbtValue par) :
    ∃ t' tree' l₁ l₂, rbtInsert t node par = some t' ∧ Wf t' tree' ∧
      tree.toList = l₁ ++ l₂ ∧ tree'.toList = l₁ ++ node :: l₂ ∧
      Framed (node :: tree.toList) t t' := by
  set t₀ : RbTree ι π :=
    { t with head := { t.head with rbtNumNode := t.head.rbtNumNode + 1 } } with ht₀
  have hrep₀ : Represents t₀ tree := h.represents.congr rfl fun _ _ => rfl
  obtain ⟨t₁, y, ctx, hatt, rfl, hbefore, hafter, hattached⟩ :=
    rbtAttach_spec hrep₀ hnode h.ordered h.leftmost h.rightmost
      (by rw [← h.num]; exact Nat.le_succ _) hfound
  set t₂ := t₁.modify node (newFields y) with ht₂
  obtain ⟨n, hn, hctx, -⟩ := h.ctxRB
  rw [CTree.RB_nil] at hn
  subst hn
  have hlist : (plug (.nil : CTree ι) ctx).toList = before ctx ++ after ctx := by
    rw [toList_plug, CTree.toList, List.append_nil]
  have hnum : t₂.head.rbtNumNode = (before ctx ++ after ctx).length + 1 := by
    rw [hattached.num, ← hlist, ← h.num]
  -- the depth is below the number of nodes
  have hfuel : ctx.length < t₂.head.rbtNumNode + 1 := by
    have hlen := length_le_length_toList_plug (.nil : CTree ι) ctx
    rw [hlist] at hlen
    omega
  obtain ⟨t', hloop, tree', hrec, hblack, hrb⟩ := rbtInsertLoop_rebalanced hattached.represents
    (CTree.RB_nil.mpr rfl) rfl (CTree.RB_nil.mpr rfl) rfl hctx hfuel
  have hlist' : tree'.toList = before ctx ++ node :: after ctx := by
    rw [hrec.toList, toList_plug]
    simp [CTree.mk, CTree.toList]
  have hframed : Framed (node :: (plug .nil ctx).toList) t t' := by
    have hmem : ∀ i, i ∈ (plug (CTree.mk .left false node .nil .nil) ctx).toList →
        i ∈ node :: (plug .nil ctx).toList := fun i hi => by
      rw [← hrec.toList, hlist'] at hi
      rw [hlist]
      simp only [List.mem_append, List.mem_cons] at hi ⊢
      tauto
    have hids : ∀ i ∈ node :: ids ctx, i ∈ node :: (plug .nil ctx).toList := fun i hi => by
      rcases List.mem_cons.mp hi with rfl | hi
      · exact List.mem_cons_self
      · exact List.mem_cons_of_mem _ (mem_toList_plug.mpr (.inr hi))
    have hfr := (hattached.framed.mono hids).trans (hrec.kept.framed.mono hmem)
    exact ⟨hfr.value, hfr.opaq, hfr.frame⟩
  refine ⟨t', tree', before ctx, after ctx, ?_, ?_, hlist, hlist', hframed⟩
  · simp only [rbtInsert]
    rw [← ht₀, hatt, Option.bind_some]
    exact hloop
  · rcases hrb with ⟨n, hred, hheight⟩
    refine ⟨hrec.represents, ?_, hblack, hred, ⟨n, hheight⟩, ?_, ?_, ?_⟩
    · rw [hlist']
      refine (pairwise_insert (hlist ▸ h.ordered) hbefore hafter).imp fun {i j} hij => ?_
      rw [hframed.value i, hframed.value j]
      exact hij
    · rw [hrec.kept.leftmost, hattached.leftmost, hlist']
    · rw [hrec.kept.rightmost, hattached.rightmost, hlist']
    · rw [hrec.kept.num, hnum, hlist']
      simp only [List.length_append, List.length_cons]
      omega

/-- `RBT_FIND` and then `RBT_INSERT` of a node whose fields have been set in between. -/
theorem rbtFind_rbtInsert_spec (h : Wf t tree) (hnode : node ∉ tree.toList)
    (f : RbtNode ι π → RbtNode ι π) (val : ℤ) (hval : (f (t.mem node)).rbtValue = val) :
    ∃ par, rbtFind t val = some par ∧ ∃ t' tree' l₁ l₂,
      rbtInsert (t.modify node f) node par = some t' ∧ Wf t' tree' ∧
      tree.toList = l₁ ++ l₂ ∧ tree'.toList = l₁ ++ node :: l₂ ∧
      Framed (node :: tree.toList) (t.modify node f) t' := by
  have hmem : ∀ i ∈ tree.toList, (t.modify node f).mem i = t.mem i := fun i hi =>
    modify_mem_of_ne f fun heq => hnode (heq ▸ hi)
  have hself : ((t.modify node f).mem node).rbtValue = val := by
    rw [modify_mem_self]
    exact hval
  obtain ⟨par, hfind, hfound⟩ := rbtFind_spec h val
  refine ⟨par, hfind, rbtInsert_spec (h.congr rfl hmem) hnode ?_⟩
  rw [hself]
  exact hfound.congr hmem

end Attach

end Ganesha.Rbt
