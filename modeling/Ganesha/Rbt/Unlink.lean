import Ganesha.Rbt.UnlinkLoop

/-!
# Removal

`RBT_UNLINK` takes a node with at most one child out of the tree directly, and a node with two
children by moving its successor into its place. The second is shown to be, in memory, the removal
of the successor followed by its replacement of the node (`Represents.replace_successor`).
-/

namespace Ganesha.Rbt
open Library.RedBlack

variable {ι π : Type} {t : RbTree ι π} {s : Side} {c d : Bool} {y z : ι}
  {x a b : CTree ι} {ctx : List (Frame ι)} {n : ℕ}

/-! ## The sequence without a node -/

/-- The first node after a removal. -/
lemma head?_remove {l₁ l₂ : List ι} {i : ι} (hnd : (l₁ ++ i :: l₂).Nodup) :
    ((l₁ ++ i :: l₂).head? = some i ↔ l₁ = []) ∧
      (l₁ ≠ [] → (l₁ ++ l₂).head? = (l₁ ++ i :: l₂).head?) := by
  cases l₁ with
  | nil => simp
  | cons j l₁ =>
    have hji : j ≠ i := by
      rintro rfl
      simp at hnd
    simp [hji]

/-- The last node after a removal. -/
lemma getLast?_remove {l₁ l₂ : List ι} {i : ι} (hnd : (l₁ ++ i :: l₂).Nodup) :
    ((l₁ ++ i :: l₂).getLast? = some i ↔ l₂ = []) ∧
      (l₂ ≠ [] → (l₁ ++ l₂).getLast? = (l₁ ++ i :: l₂).getLast?) := by
  refine ⟨⟨fun hlast => ?_, fun hl => by simp [hl]⟩, fun hl => (getLast?_insert hl).symm⟩
  rcases List.eq_nil_or_concat l₂ with hl | ⟨l, j, rfl⟩
  · exact hl
  · have hji : j ≠ i := by
      rintro rfl
      simp [List.nodup_append] at hnd
    rw [List.append_cons, List.getLast?_append, List.concat_eq_append] at hlast
    simp [hji] at hlast

/-- The list without a node that has one son. -/
lemma toList_splice (s : Side) (c : Bool) (i : ι) (x : CTree ι) (ctx : List (Frame ι)) :
    ∃ l₁ l₂, (plug (CTree.mk s c i x .nil) ctx).toList = l₁ ++ i :: l₂ ∧
      (plug x ctx).toList = l₁ ++ l₂ ∧ (l₁ = [] → before ctx = []) ∧ (l₂ = [] → after ctx = []) := by
  rw [toList_plug, toList_plug]
  cases s with
  | left =>
    refine ⟨before ctx ++ x.toList, after ctx, ?_, rfl, fun hl => ?_, id⟩
    · simp [CTree.mk, CTree.toList]
    · exact (List.append_eq_nil_iff.mp hl).1
  | right =>
    refine ⟨before ctx, x.toList ++ after ctx, ?_, by rw [List.append_assoc], id, fun hl => ?_⟩
    · simp [CTree.mk, CTree.toList]
    · exact (List.append_eq_nil_iff.mp hl).2

/-- With nothing before it a node's parent is next. -/
lemma head?_after {ctx : List (Frame ι)} (h : before ctx = []) : (after ctx).head? = parentOf ctx := by
  cases ctx with
  | nil => rfl
  | cons f ctx =>
    rcases f with ⟨s, c, a, sib⟩
    cases s with
    | left => rfl
    | right => simp [before] at h

/-- With nothing after it a node's parent is before. -/
lemma getLast?_before {ctx : List (Frame ι)} (h : after ctx = []) :
    (before ctx).getLast? = parentOf ctx := by
  cases ctx with
  | nil => rfl
  | cons f ctx =>
    rcases f with ⟨s, c, a, sib⟩
    cases s with
    | left => simp [after] at h
    | right => simp [before, parentOf]

variable [DecidableEq ι]

/-! ## Taking a node out -/

/-- The only son takes the place of its parent. -/
lemma Represents.splice {i : ι} (h : Represents t (plug (CTree.mk s c i x .nil) ctx)) :
    Represents ((t.reparent x.root (parentOf ctx) (linkOf ctx)).writeLink (linkOf ctx) x.root)
      (plug x ctx) := by
  have hnd := nodup_toList_plug.mp h.nodup
  have hndi := nodup_toList_mk.mp hnd.1
  have hsub : ∀ j ∈ x.toList, j ∉ ids ctx := fun j hj =>
    hnd.2.2 j (mem_toList_mk.mpr (.inr (.inl hj)))
  rcases represents_plug.mp h with ⟨hctx, hx, -⟩
  rw [embeds_mk] at hx
  refine represents_plug.mpr ⟨?_, ?_, nodup_toList_plug.mpr ⟨hndi.2.2.1, hnd.2.1, hsub⟩⟩
  · have hctx₁ : EmbedsCtx (t.reparent x.root (parentOf ctx) (linkOf ctx)).mem
        (t.reparent x.root (parentOf ctx) (linkOf ctx)).head.root ctx (some i) := by
      rw [reparent_head]
      rw [CTree.root_mk] at hctx
      refine hctx.congr fun j hj => reparent_mem_of_ne fun hr => ?_
      exact hsub j (CTree.root_mem_toList hr) hj
    exact hctx₁.writeLink hnd.2.1
  · refine (hx.2.1.reparent hndi.2.2.1).congr fun j hj => ?_
    exact writeLink_mem_of_ne fun s' hl => hsub j hj (mem_ids_of_linkOf hl)

/-- The node `y` gets the fields of `i`, and its children get it as their parent. -/
def RbTree.moveInto (t : RbTree ι π) (c : Bool) (i y : ι) : RbTree ι π :=
  let n := t.mem i
  let t := t.modify y fun m =>
    { m with red := c, parent := n.parent, anchor := n.anchor, left := n.left, next := n.next }
  let t := t.reparent n.left (some y) (.child .left y)
  t.reparent n.next (some y) (.child .right y)

/-- The node `y` takes the place of `i`. -/
def RbTree.replace (t : RbTree ι π) (c : Bool) (i y : ι) : RbTree ι π :=
  (t.moveInto c i y).writeLink (t.mem i).anchor (some y)

/-- One node takes the place of another. -/
lemma Represents.replace {i : ι} (h : Represents t (plug (CTree.node c a i b) ctx))
    (hy : y ∉ (plug (CTree.node c a i b) ctx).toList) :
    Represents (t.replace d i y) (plug (CTree.node d a y b) ctx) := by
  have hplaced : Placed (t.mem i) c (parentOf ctx) (linkOf ctx) .left a.root b.root :=
    Represents.placed (s := .left) h
  have hl : (t.mem i).left = a.root := hplaced.child
  have hr : (t.mem i).next = b.root := hplaced.child_other
  -- `y` is new, the children and the path share nothing
  obtain ⟨hndx, hndc, hxc⟩ := nodup_toList_plug.mp h.nodup
  obtain ⟨-, -, hnda, hndb, hab⟩ := (nodup_toList_mk (s := .left)).mp hndx
  have hac : ∀ j ∈ a.toList, j ∉ ids ctx := fun j hj =>
    hxc j ((mem_toList_mk (s := .left)).mpr (.inr (.inl hj)))
  have hbc : ∀ j ∈ b.toList, j ∉ ids ctx := fun j hj =>
    hxc j ((mem_toList_mk (s := .left)).mpr (.inr (.inr hj)))
  rw [mem_toList_plug, not_or, show CTree.node c a i b = CTree.mk .left c i a b from rfl,
    mem_toList_mk, not_or, not_or] at hy
  obtain ⟨⟨-, hya, hyb⟩, hyc⟩ := hy
  rcases represents_plug.mp h with ⟨hctx, hx, -⟩
  obtain ⟨-, ha, hb⟩ := (embeds_mk (s := .left)).mp hx
  set t₁ := t.modify y fun m => { m with
    red := d, parent := parentOf ctx, anchor := linkOf ctx, left := a.root, next := b.root } with ht₁
  set t₂ := t₁.reparent a.root (some y) (.child .left y) with ht₂
  set t₃ := t₂.reparent b.root (some y) (.child .right y) with ht₃
  have heq : t.replace d i y = t₃.writeLink (linkOf ctx) (some y) := by
    simp only [RbTree.replace, RbTree.moveInto, hl, hr, hplaced.parent, hplaced.anchor]
    rfl
  have hrest : ∀ j, j ≠ y → a.root ≠ some j → b.root ≠ some j → t₃.mem j = t.mem j :=
    fun j hjy hja hjb => by
      rw [ht₃, reparent_mem_of_ne hjb, ht₂, reparent_mem_of_ne hja, ht₁, modify_mem_of_ne _ hjy]
  have hlink : ∀ j, j ∉ ids ctx → (t₃.writeLink (linkOf ctx) (some y)).mem j = t₃.mem j :=
    fun j hj => writeLink_mem_of_ne fun s' hl => hj (mem_ids_of_linkOf hl)
  rw [heq, show CTree.node d a y b = CTree.mk .left d y a b from rfl]
  refine represents_plug.mpr ⟨?_, embeds_mk.mpr ⟨?_, ?_, ?_⟩, ?_⟩
  · have hctx₃ : EmbedsCtx t₃.mem t₃.head.root ctx (some i) := by
      rw [ht₃, reparent_head, ht₂, reparent_head, ht₁, modify_head, ← ht₁, ← ht₂, ← ht₃]
      refine EmbedsCtx.congr hctx fun j hj => hrest j (fun hjy => hyc (hjy ▸ hj)) ?_ ?_
      · exact fun hr => hac j (CTree.root_mem_toList hr) hj
      · exact fun hr => hbc j (CTree.root_mem_toList hr) hj
    rw [CTree.root_mk]
    exact hctx₃.writeLink hndc
  · have hay : a.root ≠ some y := fun hr => hya (CTree.root_mem_toList hr)
    have hby : b.root ≠ some y := fun hr => hyb (CTree.root_mem_toList hr)
    rw [hlink y hyc, ht₃, reparent_mem_of_ne hby, ht₂, reparent_mem_of_ne hay, ht₁, modify_mem_self]
    exact ⟨rfl, rfl, rfl, rfl, rfl⟩
  · have ha₁ : Embeds t₁.mem (some i) (.child .left i) a := ha.congr fun j hj => by
      have hjy : j ≠ y := fun heq => hya (heq ▸ hj)
      rw [ht₁, modify_mem_of_ne _ hjy]
    refine (ha₁.reparent hnda).congr fun j hj => ?_
    rw [hlink j (hac j hj), ht₃, reparent_mem_of_ne fun hr => hab j hj (CTree.root_mem_toList hr)]
  · have hb₂ : Embeds t₂.mem (some i) (.child .right i) b := hb.congr fun j hj => by
      have hjy : j ≠ y := fun heq => hyb (heq ▸ hj)
      have hja : a.root ≠ some j := fun hr => hab j (CTree.root_mem_toList hr) hj
      rw [ht₂, reparent_mem_of_ne hja, ht₁, modify_mem_of_ne _ hjy]
    exact (hb₂.reparent hndb).congr fun j hj => hlink j (hbc j hj)
  · rw [nodup_toList_plug, nodup_toList_mk]
    refine ⟨⟨hya, hyb, hnda, hndb, hab⟩, hndc, fun j hj => ?_⟩
    rcases mem_toList_mk.mp hj with rfl | hj | hj
    · exact hyc
    · exact hac j hj
    · exact hbc j hj

lemma modify_mem (i j : ι) (f : RbtNode ι π → RbtNode ι π) :
    (t.modify i f).mem j = if j = i then f (t.mem j) else t.mem j := by
  by_cases hj : j = i
  · rw [if_pos hj, hj, modify_mem_self]
  · rw [if_neg hj, modify_mem_of_ne f hj]

lemma reparent_mem (x p : Option ι) (a : Link ι) (j : ι) : (t.reparent x p a).mem j =
    if x = some j then { t.mem j with parent := p, anchor := a } else t.mem j := by
  cases x with
  | none => simp [RbTree.reparent]
  | some i =>
    rw [RbTree.reparent, modify_mem]
    exact if_congr ⟨fun h => congrArg some h.symm, fun h => (Option.some.inj h).symm⟩ rfl rfl

variable {t' : RbTree ι π}

lemma writeLink_mem_congr {j : ι} (l : Link ι) (q : Option ι) (h : t'.mem j = t.mem j) :
    (t'.writeLink l q).mem j = (t.writeLink l q).mem j := by
  cases l with
  | root => exact h
  | child s i => rw [RbTree.writeLink, RbTree.writeLink, modify_mem, modify_mem, h]

lemma swapRed_head (i y : ι) : (t.swapRed i y).head = t.head := by
  unfold RbTree.swapRed
  split <;> rfl

/-- Two nodes exchange their colours. -/
lemma swapRed_mem {i y : ι} (hiy : i ≠ y) (j : ι) : (t.swapRed i y).mem j =
    if j = i then { t.mem j with red := (t.mem y).red }
    else if j = y then { t.mem j with red := (t.mem i).red } else t.mem j := by
  have hnot : ∀ b b' : Bool, b ≠ b' → (!b) = b' := by decide
  unfold RbTree.swapRed
  by_cases hred : (t.mem i).red = (t.mem y).red
  · rw [if_neg (not_not.mpr hred)]
    by_cases hji : j = i
    · rw [if_pos hji, hji, ← hred]
    · by_cases hjy : j = y
      · rw [if_neg hji, if_pos hjy, hjy, hred]
      · rw [if_neg hji, if_neg hjy]
  · rw [if_pos hred]
    simp only [RbTree.setRed, modify_mem]
    by_cases hji : j = i
    · subst hji
      rw [if_neg hiy, if_pos rfl, if_pos rfl, hnot _ _ hred]
    · by_cases hjy : j = y
      · subst hjy
        rw [if_pos rfl, if_neg hji, if_neg hji, if_pos rfl, hnot _ _ (Ne.symm hred)]
      · rw [if_neg hjy, if_neg hji, if_neg hji, if_neg hjy]

section Agree
variable {i l r : ι} {q : Option ι}

/-- The memory after `RBT_UNLINK` has put the successor `y`, which is the child `next` of `i`, in
the place of `i`, before the link to `i` is written. -/
def unlinkNear (t : RbTree ι π) (i l y : ι) : RbTree ι π :=
  let t := t.swapRed i y
  let t := t.modify l fun n => { n with parent := some y, anchor := .child .left y }
  let t := t.modify y fun n => { n with left := some l }
  t.modify y fun n => { n with parent := (t.mem i).parent, anchor := (t.mem i).anchor }

/-- The writes where the replacement is the right son itself. -/
lemma unlinkNear_mem (hiy : i ≠ y) (hil : i ≠ l) (hyl : y ≠ l) (hqi : q ≠ some i) (hqy : q ≠ some y)
    (hql : q ≠ some l) (hleft : (t.mem i).left = some l) (hq : (t.mem y).next = q)
    (hpq : ∀ j, q = some j → (t.mem j).parent = some y ∧ (t.mem j).anchor = .child .right y)
    {j : ι} (hj : j ≠ i) : (unlinkNear t i l y).mem j =
      (((t.reparent q (some i) (.child .right i)).modify i fun n => n.setChild .right q).moveInto
        (t.mem i).red i y).mem j := by
  simp only [unlinkNear, RbTree.moveInto, modify_mem, reparent_mem, swapRed_mem hiy]
  by_cases hjy : j = y
  · subst hjy
    simp [RbtNode.setChild, hiy, hil, hyl, hj, hqi, hqy, hleft, hq, hyl.symm]
  by_cases hjl : j = l
  · subst hjl
    simp [RbtNode.setChild, hj, hjy, hqi, hql, hleft]
  by_cases hjq : q = some j
  · obtain ⟨hparent, hanchor⟩ := hpq j hjq
    have hlj : some l ≠ some j := fun h => hjl (Option.some.inj h).symm
    simp [RbtNode.setChild, hj, hjy, hjl, hjq, hleft, hlj, ← hparent, ← hanchor]
  · have hlj : l ≠ j := fun h => hjl h.symm
    simp [RbtNode.setChild, hj, hjy, hjl, hqi, hjq, hleft, hlj]

lemma unlinkNear_mem_self (hiy : i ≠ y) (hil : i ≠ l) :
    (unlinkNear t i l y).mem i = { t.mem i with red := (t.mem y).red } := by
  simp only [unlinkNear, modify_mem, swapRed_mem hiy]
  simp [hiy, hil]

/-- The same when the successor `y` is further down, under `z`; `r` is the child `next` of `i`. -/
def unlinkFar (t : RbTree ι π) (i l r y z : ι) (q : Option ι) : RbTree ι π :=
  let t := t.swapRed i y
  let t := t.modify l fun n => { n with parent := some y, anchor := .child .left y }
  let t := t.modify y fun n => { n with left := some l }
  let t := t.reparent q (some z) (.child .left z)
  let t := t.modify z fun n => { n with left := q }
  let t := t.modify y fun n => { n with next := some r }
  let t := t.modify r fun n => { n with parent := some y, anchor := .child .right y }
  t.modify y fun n => { n with parent := (t.mem i).parent, anchor := (t.mem i).anchor }

/-- The writes where the replacement is further down. -/
lemma unlinkFar_mem (hiy : i ≠ y) (hil : i ≠ l) (hir : i ≠ r) (hiz : i ≠ z) (hyl : y ≠ l)
    (hyr : y ≠ r) (hyz : y ≠ z) (hlr : l ≠ r) (hlz : l ≠ z) (hqi : q ≠ some i) (hqy : q ≠ some y)
    (hql : q ≠ some l) (hqr : q ≠ some r) (hqz : q ≠ some z) (hleft : (t.mem i).left = some l)
    (hnext : (t.mem i).next = some r) {j : ι} (hj : j ≠ i) : (unlinkFar t i l r y z q).mem j =
      (((t.reparent q (some z) (.child .left z)).modify z fun n => n.setChild .left q).moveInto
        (t.mem i).red i y).mem j := by
  simp only [unlinkFar, RbTree.moveInto, modify_mem, reparent_mem, swapRed_mem hiy]
  by_cases hjy : j = y
  · subst hjy
    simp [hiy, hil, hir, hiz, hyl, hyl.symm, hyr, hyr.symm, hyz, hj, hqi, hqy, hleft, hnext]
  by_cases hjl : j = l
  · subst hjl
    simp [hj, hjy, hiz, hqi, hql, hlr, hlr.symm, hlz, hleft, hnext]
  by_cases hjq : q = some j
  · have hjr : j ≠ r := fun h => hqr (h ▸ hjq)
    have hjz : j ≠ z := fun h => hqz (h ▸ hjq)
    simp [hiz, hj, hjy, hjl, Ne.symm hjl, hjq, hleft, hnext, hjr, hjr.symm, hjz]
  have hlj : l ≠ j := fun h => hjl h.symm
  by_cases hjr : j = r
  · subst hjr
    simp [RbtNode.setChild, hiz, hj, hjy, hjl, hlj, hqi, hjq, hleft, hnext]
  · have hrj : r ≠ j := fun h => hjr h.symm
    simp [RbtNode.setChild, hiz, hj, hjy, hjl, hlj, hqi, hjq, hleft, hnext, hjr, hrj]

lemma unlinkFar_mem_self (hiy : i ≠ y) (hil : i ≠ l) (hir : i ≠ r) (hiz : i ≠ z) (hqi : q ≠ some i) :
    (unlinkFar t i l r y z q).mem i = { t.mem i with red := (t.mem y).red } := by
  simp only [unlinkFar, modify_mem, reparent_mem, swapRed_mem hiy]
  simp [hiy, hil, hir, hiz, hqi]

end Agree

lemma writeLink_root_congr (l : Link ι) (q : Option ι) (h : t'.head.root = t.head.root) :
    (t'.writeLink l q).head.root = (t.writeLink l q).head.root := by
  cases l with
  | root => rfl
  | child s i => exact h

lemma moveInto_head (i : ι) : (t.moveInto c i y).head = t.head := by
  simp only [RbTree.moveInto, reparent_head, modify_head]

/-- Taking out the successor `y` of `i` and moving it into the place of `i`: any memory that agrees
with this apart from `i`, once the link to `i` is written. -/
lemma Represents.replace_successor {i : ι} {e : Bool} {yr : CTree ι} (rctx : List (Frame ι))
    (h : Represents t (plug (CTree.node c a i (plug (CTree.mk .left e y .nil yr) rctx)) ctx))
    (hroot : t'.head.root = t.head.root)
    (hmem : ∀ j, j ≠ i → t'.mem j = (((t.reparent yr.root
      (parentOf (rctx ++ ⟨.right, c, i, a⟩ :: ctx))
      (linkOf (rctx ++ ⟨.right, c, i, a⟩ :: ctx))).writeLink
      (linkOf (rctx ++ ⟨.right, c, i, a⟩ :: ctx)) yr.root).moveInto c i y).mem j) :
    Represents (t'.writeLink (linkOf ctx) (some y)) (plug yr (rctx ++ ⟨.right, c, y, a⟩ :: ctx)) := by
  have htree : plug (CTree.node c a i (plug (CTree.mk .left e y .nil yr) rctx)) ctx =
      plug (CTree.mk .right e y yr .nil) (rctx ++ ⟨.right, c, i, a⟩ :: ctx) := by
    rw [plug_append]
    rfl
  -- the subtree without its first node
  have hfill : ∀ j, plug yr (rctx ++ ⟨.right, c, j, a⟩ :: ctx) =
      plug (CTree.node c a j (plug yr rctx)) ctx := fun j => by
    rw [plug_append]
    rfl
  rw [htree] at h
  obtain ⟨hndy, -, hyctx⟩ := nodup_toList_plug.mp h.nodup
  have hsplice := h.splice
  set tA := (t.reparent yr.root (parentOf (rctx ++ ⟨.right, c, i, a⟩ :: ctx))
    (linkOf (rctx ++ ⟨.right, c, i, a⟩ :: ctx))).writeLink
    (linkOf (rctx ++ ⟨.right, c, i, a⟩ :: ctx)) yr.root with htA
  -- the node taken out is not in the tree any more
  have hyA : y ∉ (plug yr (rctx ++ ⟨.right, c, i, a⟩ :: ctx)).toList := by
    rw [mem_toList_plug, not_or]
    exact ⟨(nodup_toList_mk.mp hndy).1, hyctx y (mem_toList_mk.mpr (.inl rfl))⟩
  rw [hfill] at hsplice hyA
  have hrep := hsplice.replace (d := c) hyA
  have hanchor : (tA.mem i).anchor = linkOf ctx := (Represents.placed (s := .left) hsplice).anchor
  rw [RbTree.replace, hanchor] at hrep
  rw [hfill]
  refine hrep.congr (writeLink_root_congr _ _ ?_) fun j hj => writeLink_mem_congr _ _ (hmem j ?_)
  · rw [hroot, moveInto_head, htA]
    cases rctx <;> simp [linkOf, RbTree.writeLink]
  · -- `i` is not in the tree any more
    rintro rfl
    have hnd := nodup_toList_plug.mp hsplice.nodup
    have hndj := (nodup_toList_mk (s := .left)).mp hnd.1
    rw [mem_toList_plug, not_or] at hyA
    rcases mem_toList_plug.mp hj with hj | hj
    · rcases (mem_toList_mk (s := .left)).mp hj with rfl | hj | hj
      · exact hyA.1 ((mem_toList_mk (s := .left)).mpr (.inl rfl))
      · exact hndj.1 hj
      · exact hndj.2.1 hj
    · exact hnd.2.2 j ((mem_toList_mk (s := .left)).mpr (.inl rfl)) hj

variable {nodes : List ι}

lemma Kept.swapRed {i : ι} (hi : i ∈ nodes) (hy : y ∈ nodes) : Kept nodes t (t.swapRed i y) := by
  unfold RbTree.swapRed
  split
  · have h₁ : Kept nodes t (t.setRed i !(t.mem i).red) := .modify hi (fun _ => rfl) fun _ => rfl
    exact h₁.trans (.modify hy (fun _ => rfl) fun _ => rfl)
  · exact .refl _ _

lemma Kept.place {i : ι} (hi : i ∈ nodes) (p : Option ι) (a : Link ι) :
    Kept nodes t (t.modify i fun n => { n with parent := p, anchor := a }) :=
  .modify hi (fun _ => rfl) fun _ => rfl

lemma Kept.left {i : ι} (hi : i ∈ nodes) (q : Option ι) :
    Kept nodes t (t.modify i fun n => { n with left := q }) :=
  .modify hi (fun _ => rfl) fun _ => rfl

lemma Kept.next {i : ι} (hi : i ∈ nodes) (q : Option ι) :
    Kept nodes t (t.modify i fun n => { n with next := q }) :=
  .modify hi (fun _ => rfl) fun _ => rfl

lemma Kept.unlinkNear {i l : ι} (hi : i ∈ nodes) (hl : l ∈ nodes) (hy : y ∈ nodes) :
    Kept nodes t (unlinkNear t i l y) :=
  (((Kept.swapRed hi hy).trans (.place hl _ _)).trans (.left hy _)).trans (.place hy _ _)

lemma Kept.unlinkFar {i l r : ι} {q : Option ι} (hi : i ∈ nodes) (hl : l ∈ nodes) (hr : r ∈ nodes)
    (hy : y ∈ nodes) (hz : z ∈ nodes) (hq : ∀ j, q = some j → j ∈ nodes) :
    Kept nodes t (unlinkFar t i l r y z q) := by
  have h₁ := ((Kept.swapRed (t := t) hi hy).trans (.place hl (some y) (.child .left y))).trans
    (.left hy (some l))
  have h₂ := (h₁.trans (.reparent (p := some z) (a := .child .left z) hq)).trans (.left hz q)
  exact ((h₂.trans (.next hy _)).trans (.place hr _ _)).trans (.place hy _ _)

section Two
variable {i l r : ι} {e : Bool} {yr : CTree ι} {fuel : ℕ}

/-- Two sons, the right one without a left son. -/
lemma rbtUnlinkTwo_near
    (h : Represents t (plug (CTree.node c a i (CTree.mk .left e y .nil yr)) ctx))
    (ha : a.root = some l) (hrun : t.extreme .left fuel y = some y) :
    ∃ t', rbtUnlinkTwo t fuel i l y = some (t', yr.root, some y) ∧
      Represents t' (plug yr (⟨.right, c, y, a⟩ :: ctx)) ∧ (t'.mem i).red = e ∧
      Kept (plug (CTree.node c a i (CTree.mk .left e y .nil yr)) ctx).toList t t' := by
  -- the pointers involved are different
  obtain ⟨hndx, -, hxc⟩ := nodup_toList_plug.mp h.nodup
  obtain ⟨hia, hib, -, hndb, hab⟩ := (nodup_toList_mk (s := .left)).mp hndx
  obtain ⟨-, hyr, -, -, -⟩ := nodup_toList_mk.mp hndb
  rw [mem_toList_mk, not_or, not_or] at hib
  obtain ⟨hiy, -, hiyr⟩ := hib
  have hla := CTree.root_mem_toList ha
  have hil : i ≠ l := fun heq => hia (heq ▸ hla)
  have hyl : y ≠ l := fun heq => hab l hla (mem_toList_mk.mpr (.inl heq.symm))
  have hqi : yr.root ≠ some i := fun hr => hiyr (CTree.root_mem_toList hr)
  have hqy : yr.root ≠ some y := fun hr => hyr (CTree.root_mem_toList hr)
  have hql : yr.root ≠ some l := fun hr =>
    hab l hla (mem_toList_mk.mpr (.inr (.inr (CTree.root_mem_toList hr))))
  have hplaced : Placed (t.mem i) c (parentOf ctx) (linkOf ctx) .left a.root (some y) := by
    have hp := Represents.placed (s := .left) h
    rwa [CTree.root_mk] at hp
  have hleft : (t.mem i).left = some l := hplaced.child.trans ha
  have hfocus : Represents t (plug (CTree.mk .left e y .nil yr) (⟨.right, c, i, a⟩ :: ctx)) := h
  have hnext : (t.mem y).next = yr.root := hfocus.placed.child_other
  have hyrep : Represents t (plug yr (⟨.right, e, y, .nil⟩ :: ⟨.right, c, i, a⟩ :: ctx)) := h
  have hred : (t.mem i).red = c := hplaced.red
  refine ⟨(unlinkNear t i l y).writeLink (linkOf ctx) (some y), ?_, ?_, ?_, ?_⟩
  · have hanchor : ((unlinkNear t i l y).mem i).anchor = linkOf ctx := by
      rw [unlinkNear_mem_self hiy hil]
      exact hplaced.anchor
    have hx : ((t.swapRed i y).mem y).next = yr.root := by
      rw [swapRed_mem hiy, if_neg (Ne.symm hiy), if_pos rfl]
      exact hnext
    simp only [rbtUnlinkTwo, hrun, Option.bind_some, if_true, Option.map_some, hx]
    rw [← hanchor]
    rfl
  · refine Represents.replace_successor [] h ?_ fun j hj => ?_
    · simp only [unlinkNear, modify_head, swapRed_head]
    · have hagree := unlinkNear_mem hiy hil hyl hqi hqy hql hleft hnext
        (fun j hj => hyrep.root_placed hj) hj
      rw [hred] at hagree
      exact hagree
  · rw [writeLink_mem_of_ne fun s' hl => hxc i ((mem_toList_mk (s := .left)).mpr (.inl rfl))
      (mem_ids_of_linkOf hl), unlinkNear_mem_self hiy hil]
    exact hfocus.placed.red
  · have hmem : ∀ j, j = i ∨ j ∈ a.toList ∨ j = y ∨ j ∈ ids ctx →
        j ∈ (plug (CTree.node c a i (CTree.mk .left e y .nil yr)) ctx).toList := fun j hj => by
      rw [mem_toList_plug, show CTree.node c a i (CTree.mk .left e y .nil yr) =
        CTree.mk .left c i a (CTree.mk .left e y .nil yr) from rfl, mem_toList_mk, mem_toList_mk]
      tauto
    have hk := Kept.unlinkNear (t := t) (hmem i (.inl rfl)) (hmem l (.inr (.inl hla)))
      (hmem y (.inr (.inr (.inl rfl))))
    exact hk.trans (.writeLink fun s' j hj => hmem j (.inr (.inr (.inr (mem_ids_of_linkOf hj)))))

/-- Two sons, the replacement further down on the left. -/
lemma rbtUnlinkTwo_far {f : Frame ι} {rctx : List (Frame ι)}
    (h : Represents t (plug (CTree.node c a i (plug (CTree.mk .left e y .nil yr) (f :: rctx))) ctx))
    (hf : f.side = .left) (ha : a.root = some l)
    (hr : (plug (CTree.mk .left e y .nil yr) (f :: rctx)).root = some r)
    (hrun : t.extreme .left fuel r = some y) :
    ∃ t', rbtUnlinkTwo t fuel i l r = some (t', yr.root, some f.a) ∧
      Represents t' (plug yr (f :: rctx ++ ⟨.right, c, y, a⟩ :: ctx)) ∧ (t'.mem i).red = e ∧
      Kept (plug (CTree.node c a i (plug (CTree.mk .left e y .nil yr) (f :: rctx))) ctx).toList t t' := by
  have hfocus : Represents t (plug (CTree.mk .left e y .nil yr)
      (f :: rctx ++ ⟨.right, c, i, a⟩ :: ctx)) := by
    rw [plug_append]
    exact h
  -- the pointers involved are different
  obtain ⟨hndx, -, hxc⟩ := nodup_toList_plug.mp h.nodup
  obtain ⟨hia, hib, -, hndb, hab⟩ := (nodup_toList_mk (s := .left)).mp hndx
  obtain ⟨hndy, hndr, hyr⟩ := nodup_toList_plug.mp hndb
  rw [mem_toList_plug, not_or, mem_toList_mk, not_or, not_or] at hib
  obtain ⟨⟨hiy, -, hiyr⟩, hir⟩ := hib
  have hla := CTree.root_mem_toList ha
  have hzmem : f.a ∈ ids (f :: rctx) := mem_ids_cons.mpr (.inl rfl)
  have hrmem : r ∈ ids (f :: rctx) := by
    rw [root_plug_cons _ .nil] at hr
    simpa [mem_toList_plug, CTree.toList] using CTree.root_mem_toList hr
  have hmemb : ∀ j, j = y ∨ j ∈ yr.toList ∨ j ∈ ids (f :: rctx) →
      j ∈ (plug (CTree.mk .left e y .nil yr) (f :: rctx)).toList := fun j hj => by
    rw [mem_toList_plug, mem_toList_mk]
    tauto
  have hal : ∀ j, j = y ∨ j ∈ yr.toList ∨ j ∈ ids (f :: rctx) → l ≠ j := fun j hj heq =>
    hab l hla (heq ▸ hmemb j hj)
  have hil : i ≠ l := fun heq => hia (heq ▸ hla)
  have hyids : ∀ j ∈ ids (f :: rctx), y ≠ j := fun j hj heq =>
    hyr y (mem_toList_mk.mpr (.inl rfl)) (heq ▸ hj)
  have hqids : ∀ j ∈ ids (f :: rctx), yr.root ≠ some j := fun j hj hroot =>
    hyr j (mem_toList_mk.mpr (.inr (.inr (CTree.root_mem_toList hroot)))) hj
  have hiids : ∀ j ∈ ids (f :: rctx), i ≠ j := fun j hj heq => hir (heq ▸ hj)
  have hqi : yr.root ≠ some i := fun hroot => hiyr (CTree.root_mem_toList hroot)
  have hqy : yr.root ≠ some y := fun hroot =>
    (nodup_toList_mk.mp hndy).2.1 (CTree.root_mem_toList hroot)
  have hql : yr.root ≠ some l := fun hroot =>
    hal l (.inr (.inl (CTree.root_mem_toList hroot))) rfl
  have hplaced : Placed (t.mem i) c (parentOf ctx) (linkOf ctx) .left a.root (some r) := by
    have hp := Represents.placed (s := .left) h
    rwa [hr] at hp
  have hred : (t.mem i).red = c := hplaced.red
  have hleft : (t.mem i).left = some l := hplaced.child.trans ha
  have hnext : (t.mem i).next = some r := hplaced.child_other
  have hynext : (t.mem y).next = yr.root := hfocus.placed.child_other
  have hyparent : (t.mem y).parent = some f.a := hfocus.placed.parent
  refine ⟨(unlinkFar t i l r y f.a yr.root).writeLink (linkOf ctx) (some y), ?_, ?_, ?_, ?_⟩
  · have hanchor : ((unlinkFar t i l r y f.a yr.root).mem i).anchor = linkOf ctx := by
      rw [unlinkFar_mem_self hiy hil (hiids r hrmem) (hiids f.a hzmem) hqi]
      exact hplaced.anchor
    have hx : ((t.swapRed i y).mem y).next = yr.root := by
      rw [swapRed_mem hiy, if_neg (Ne.symm hiy), if_pos rfl]
      exact hynext
    have hz : ((((t.swapRed i y).modify l fun n =>
        { n with parent := some y, anchor := .child .left y }).modify y fun n =>
        { n with left := some l }).mem y).parent = some f.a := by
      rw [modify_mem_self, modify_mem_of_ne _ (Ne.symm (hal y (.inl rfl))), swapRed_mem hiy,
        if_neg (Ne.symm hiy), if_pos rfl]
      exact hyparent
    simp only [rbtUnlinkTwo, hrun, Option.bind_some, if_neg (hyids r hrmem), hx, hz,
      Option.map_some]
    rw [← hanchor]
    rfl
  · refine Represents.replace_successor (f :: rctx) h ?_ fun j hj => ?_
    · simp only [unlinkFar, modify_head, reparent_head, swapRed_head]
    · have hagree := unlinkFar_mem hiy hil (hiids r hrmem) (hiids f.a hzmem)
        (Ne.symm (hal y (.inl rfl))) (hyids r hrmem) (hyids f.a hzmem) (hal r (.inr (.inr hrmem)))
        (hal f.a (.inr (.inr hzmem))) hqi hqy hql (hqids r hrmem) (hqids f.a hzmem) hleft hnext hj
      rw [hred] at hagree
      simp only [List.cons_append, linkOf, parentOf, hf]
      exact hagree
  · rw [writeLink_mem_of_ne fun s' hl => hxc i ((mem_toList_mk (s := .left)).mpr (.inl rfl))
      (mem_ids_of_linkOf hl), unlinkFar_mem_self hiy hil (hiids r hrmem) (hiids f.a hzmem) hqi]
    exact hfocus.placed.red
  · have hmem : ∀ j, j = i ∨ j ∈ a.toList ∨
        j ∈ (plug (CTree.mk .left e y .nil yr) (f :: rctx)).toList ∨ j ∈ ids ctx →
        j ∈ (plug (CTree.node c a i (plug (CTree.mk .left e y .nil yr) (f :: rctx))) ctx).toList :=
      fun j hj => by
        rw [mem_toList_plug, show CTree.node c a i (plug (CTree.mk .left e y .nil yr) (f :: rctx)) =
          CTree.mk .left c i a (plug (CTree.mk .left e y .nil yr) (f :: rctx)) from rfl, mem_toList_mk]
        tauto
    have hk := Kept.unlinkFar (t := t) (hmem i (.inl rfl)) (hmem l (.inr (.inl hla)))
      (hmem r (.inr (.inr (.inl (hmemb r (.inr (.inr hrmem)))))))
      (hmem y (.inr (.inr (.inl (hmemb y (.inl rfl))))))
      (hmem f.a (.inr (.inr (.inl (hmemb f.a (.inr (.inr hzmem)))))))
      fun j hj => hmem j (.inr (.inr (.inl (hmemb j (.inr (.inl (CTree.root_mem_toList hj)))))))
    exact hk.trans (.writeLink fun s' j hj => hmem j (.inr (.inr (.inr (mem_ids_of_linkOf hj)))))

/-- `RBT_UNLINK` of a node with two children: the successor takes its place and its colour, the
place that loses a node is the one of the successor, and `i` gets the colour of the successor. -/
lemma rbtUnlinkTwo_spec (h : Represents t (plug (CTree.node c a i b) ctx)) (ha : a.root = some l)
    (hb : b.root = some r) (hfuel : b.toList.length ≤ fuel) :
    ∃ t' e y yr rctx, b = plug (CTree.mk .left e y .nil yr) rctx ∧ (∀ f ∈ rctx, f.side = .left) ∧
      rbtUnlinkTwo t fuel i l r = some (t', yr.root, parentOf (rctx ++ ⟨.right, c, y, a⟩ :: ctx)) ∧
      Represents t' (plug yr (rctx ++ ⟨.right, c, y, a⟩ :: ctx)) ∧ (t'.mem i).red = e ∧
      Kept (plug (CTree.node c a i b) ctx).toList t t' := by
  rcases CTree.eq_nil_or_mk .left b with rfl | ⟨cb, r', bl, br, hbr⟩
  · cases hb
  · obtain rfl : r' = r := by
      rw [hbr, CTree.root_mk] at hb
      exact Option.some.inj hb
    have hembeds := ((embeds_mk (s := .left)).mp (represents_plug.mp h).2.1).2.2
    rw [hbr] at hembeds hfuel
    obtain ⟨e, y, yr, rctx, hplug, hside, hrun⟩ := extreme_spec hembeds hfuel
    obtain rfl := hbr.trans hplug
    cases rctx with
    | nil =>
      rw [plug_nil, CTree.root_mk] at hb
      obtain rfl := Option.some.inj hb
      obtain ⟨t', hrun', hrep, hred, hk⟩ := rbtUnlinkTwo_near h ha hrun
      exact ⟨t', e, y, yr, [], rfl, hside, hrun', hrep, hred, hk⟩
    | cons f rctx =>
      obtain ⟨t', hrun', hrep, hred, hk⟩ :=
        rbtUnlinkTwo_far h (hside f List.mem_cons_self) ha hb hrun
      exact ⟨t', e, y, yr, f :: rctx, rfl, hside, hrun', hrep, hred, hk⟩

end Two

/-! ## Nodes with at most one child -/

/-- The new leftmost node after the old one was taken out. -/
lemma newEnd_left {p : Option ι} {l : Link ι} {i : ι} {fuel : ℕ} (hx : Embeds t.mem p l x)
    (hfuel : x.toList.length ≤ fuel) (hnd : (plug (CTree.mk s c i x .nil) ctx).toList.Nodup) :
    t.newEnd .left fuel i (plug (CTree.mk s c i x .nil) ctx).toList.head? x.root (parentOf ctx) =
      some (plug x ctx).toList.head? := by
  obtain ⟨l₁, l₂, hlist, hlist', hbefore, -⟩ := toList_splice s c i x ctx
  rw [hlist] at hnd ⊢
  obtain ⟨hfirst, hrest⟩ := head?_remove hnd
  unfold RbTree.newEnd
  by_cases hl : l₁ = []
  · rw [if_pos (hfirst.mpr hl), toList_plug, hbefore hl]
    rcases CTree.eq_nil_or_mk .left x with rfl | ⟨cx, j, jl, jr, rfl⟩
    · simp only [CTree.root_nil]
      rw [← head?_after (hbefore hl)]
      rfl
    · obtain ⟨d, y, o, ctx', hplug, hside, hrun⟩ := extreme_spec hx hfuel
      rw [CTree.root_mk]
      simp only [hrun, Option.map_some]
      rw [hplug, toList_plug, before_eq_nil hside]
      rfl
  · rw [if_neg fun h => hl (hfirst.mp h), hlist', hrest hl]

/-- The new rightmost node after the old one was taken out. -/
lemma newEnd_right {p : Option ι} {l : Link ι} {i : ι} {fuel : ℕ} (hx : Embeds t.mem p l x)
    (hfuel : x.toList.length ≤ fuel) (hnd : (plug (CTree.mk s c i x .nil) ctx).toList.Nodup) :
    t.newEnd .right fuel i (plug (CTree.mk s c i x .nil) ctx).toList.getLast? x.root (parentOf ctx) =
      some (plug x ctx).toList.getLast? := by
  obtain ⟨l₁, l₂, hlist, hlist', -, hafter⟩ := toList_splice s c i x ctx
  rw [hlist] at hnd ⊢
  obtain ⟨hlast, hrest⟩ := getLast?_remove hnd
  unfold RbTree.newEnd
  by_cases hl : l₂ = []
  · rw [if_pos (hlast.mpr hl), toList_plug, hafter hl, List.append_nil]
    rcases CTree.eq_nil_or_mk .right x with rfl | ⟨cx, j, jl, jr, rfl⟩
    · simp only [CTree.root_nil]
      rw [← getLast?_before (hafter hl)]
      simp [CTree.toList]
    · obtain ⟨d, y, o, ctx', hplug, hside, hrun⟩ := extreme_spec hx hfuel
      rw [CTree.root_mk]
      simp only [hrun, Option.map_some]
      rw [hplug, toList_plug, after_eq_nil hside]
      simp [CTree.mk, CTree.toList]
  · rw [if_neg fun h => hl (hlast.mp h), hlist', hrest hl]

/-- A node with one son at most. -/
lemma rbtUnlinkOne_spec {i : ι} {fuel : ℕ} (h : Represents t (plug (CTree.mk s c i x .nil) ctx))
    (hleft : t.head.leftmost = (plug (CTree.mk s c i x .nil) ctx).toList.head?)
    (hright : t.head.rightmost = (plug (CTree.mk s c i x .nil) ctx).toList.getLast?)
    (hfuel : x.toList.length ≤ fuel) :
    ∃ t', rbtUnlinkOne t fuel i = some (t', x.root, parentOf ctx) ∧ Represents t' (plug x ctx) ∧
      (t'.mem i).red = c ∧ Framed (plug (CTree.mk s c i x .nil) ctx).toList t t' ∧
      t'.head.leftmost = (plug x ctx).toList.head? ∧
      t'.head.rightmost = (plug x ctx).toList.getLast? ∧
      t'.head.rbtNumNode = t.head.rbtNumNode := by
  have hplaced := h.placed
  obtain ⟨hndx, -, hxc⟩ := nodup_toList_plug.mp h.nodup
  obtain ⟨hix, -, hndx', -, -⟩ := nodup_toList_mk.mp hndx
  have hxi : x.root ≠ some i := fun hr => hix (CTree.root_mem_toList hr)
  -- the one son is on the left or on the right
  have hchild : (if (t.mem i).next = none then (t.mem i).left else (t.mem i).next) = x.root := by
    have hc := hplaced.child
    have ho := hplaced.child_other
    cases s with
    | left =>
      have hn : (t.mem i).next = none := ho
      rw [if_pos hn]
      exact hc
    | right =>
      by_cases hn : (t.mem i).next = none
      · rw [if_pos hn]
        exact ho.trans (hn.symm.trans hc)
      · rw [if_neg hn]
        exact hc
  set t₁ := t.reparent x.root (parentOf ctx) (linkOf ctx) with ht₁
  have hemb : Embeds t₁.mem (parentOf ctx) (linkOf ctx) x :=
    ((embeds_mk.mp (represents_plug.mp h).2.1).2.1).reparent hndx'
  have hi₁ : t₁.mem i = t.mem i := reparent_mem_of_ne hxi
  have hL := newEnd_left hemb hfuel h.nodup
  rw [← hleft] at hL
  have hR := newEnd_right (t := { t₁ with head := { t₁.head with
    leftmost := (plug x ctx).toList.head? } }) hemb hfuel h.nodup
  rw [← hright] at hR
  set t₂ : RbTree ι π := { t₁ with head := { t₁.head with
    leftmost := (plug x ctx).toList.head?, rightmost := (plug x ctx).toList.getLast? } } with ht₂
  refine ⟨t₂.writeLink (linkOf ctx) x.root, ?_, ?_, ?_, ?_, ?_, ?_, ?_⟩
  · have hhead : t₁.head = t.head := reparent_head _ _ _
    simp only [rbtUnlinkOne, hchild, hplaced.parent, hplaced.anchor]
    rw [← ht₁, hi₁, hplaced.anchor]
    simp only [hhead]
    rw [hL, Option.bind_some]
    rw [hhead] at hR
    simp only [hR, Option.map_some]
    rw [ht₂, hhead]
  · exact h.splice.congr (writeLink_root_congr _ _ rfl) fun j _ => writeLink_mem_congr _ _ rfl
  · rw [writeLink_mem_of_ne fun s' hl => hxc i (mem_toList_mk.mpr (.inl rfl)) (mem_ids_of_linkOf hl)]
    show (t₁.mem i).red = c
    rw [hi₁]
    exact hplaced.red
  · have hk : Kept (plug (CTree.mk s c i x .nil) ctx).toList t t₁ := .reparent fun j hj => by
      rw [mem_toList_plug, mem_toList_mk]
      exact .inl (.inr (.inl (CTree.root_mem_toList hj)))
    have hk' : Kept (plug (CTree.mk s c i x .nil) ctx).toList t₂ (t₂.writeLink (linkOf ctx) x.root) :=
      .writeLink fun s' j hj => mem_toList_plug.mpr (.inr (mem_ids_of_linkOf hj))
    have hf : Framed (plug (CTree.mk s c i x .nil) ctx).toList t t₂ := ⟨hk.value, hk.opaq, hk.frame⟩
    exact hf.trans hk'.framed
  · cases ctx <;> rfl
  · cases ctx <;> rfl
  · have hnum : t₂.head.rbtNumNode = t.head.rbtNumNode := by
      rw [ht₂, ht₁, reparent_head]
    rw [← hnum]
    cases ctx <;> rfl

/-! ## The whole removal -/

/-- `RBT_UNLINK` of `i` before its loop: `i` is out of the tree, and the place `x` in `ctx` lacks a
node of the colour `i` is left with. -/
structure TakenOut (t : RbTree ι π) (tree : CTree ι) (i : ι) (t' : RbTree ι π) (x : CTree ι)
    (ctx : List (Frame ι)) : Prop where
  represents : Represents t' (plug x ctx)
  framed : Framed tree.toList t t'
  toList : ∃ l₁ l₂, tree.toList = l₁ ++ i :: l₂ ∧ (plug x ctx).toList = l₁ ++ l₂
  leftmost : t'.head.leftmost = (plug x ctx).toList.head?
  rightmost : t'.head.rightmost = (plug x ctx).toList.getLast?
  num : t'.head.rbtNumNode = t.head.rbtNumNode
  fits : x.RB 0 ∧ CtxRB ctx (blackCost (t'.mem i).red) ∧ ((t'.mem i).red = true → x.isRed = false)

/-- Both ways to take a node out, and the subtree that is then one black node short. -/
lemma rbtTakeOut_spec {i : ι} {l r : CTree ι} {N : ℕ} (fuel : ℕ)
    (h : Represents t (plug (CTree.node c l i r) ctx))
    (hrb : (plug (CTree.node c l i r) ctx).RB N) (hroot : (plug (CTree.node c l i r) ctx).isRed = false)
    (hleft : t.head.leftmost = (plug (CTree.node c l i r) ctx).toList.head?)
    (hright : t.head.rightmost = (plug (CTree.node c l i r) ctx).toList.getLast?)
    (hfuel : (plug (CTree.node c l i r) ctx).toList.length ≤ fuel) :
    ∃ t' x ctx', rbtTakeOut t fuel i = some (t', x.root, parentOf ctx') ∧
      TakenOut t (plug (CTree.node c l i r) ctx) i t' x ctx' := by
  have hplaced : Placed (t.mem i) c (parentOf ctx) (linkOf ctx) .left l.root r.root :=
    Represents.placed (s := .left) h
  have hl : (t.mem i).left = l.root := hplaced.child
  have hr : (t.mem i).next = r.root := hplaced.child_other
  -- with one son it takes the place of the node
  have hone : ∀ s x, CTree.node c l i r = CTree.mk s c i x .nil →
      ∃ t', rbtUnlinkOne t fuel i = some (t', x.root, parentOf ctx) ∧
        TakenOut t (plug (CTree.node c l i r) ctx) i t' x ctx := by
    intro s x hview
    rw [hview] at h hrb hroot hleft hright hfuel ⊢
    have hlen : x.toList.length ≤ fuel := by
      rw [(toList_plug_perm _ ctx).length_eq, List.length_append,
        (toList_mk_perm s c i x .nil).length_eq] at hfuel
      simp only [List.cons_append, List.length_cons, List.length_append] at hfuel
      omega
    obtain ⟨t', hrun, hrep, hred, hframed, hL, hR, hnum⟩ := rbtUnlinkOne_spec h hleft hright hlen
    obtain ⟨n, hn, hctx, -⟩ := ctxRB_of_RB_plug hrb hroot
    obtain ⟨l₁, l₂, hlist, hlist', -, -⟩ := toList_splice s c i x ctx
    exact ⟨t', hrun, hrep, hframed, ⟨l₁, l₂, hlist, hlist'⟩, hL, hR, hnum,
      hred ▸ RB_of_one_child hn hctx⟩
  rw [rbtTakeOut, hl, hr]
  rcases CTree.eq_nil_or_mk .left l with rfl | ⟨cl, l₀, ll, lr, hlview⟩
  · obtain ⟨t', hrun, htaken⟩ := hone .right r rfl
    refine ⟨t', r, ctx, ?_, htaken⟩
    simp only [CTree.root_nil]
    exact hrun
  · rcases CTree.eq_nil_or_mk .left r with rfl | ⟨cr, r₀, rl, rr, hrview⟩
    · obtain ⟨t', hrun, htaken⟩ := hone .left l rfl
      refine ⟨t', l, ctx, ?_, htaken⟩
      rw [hlview, CTree.root_mk] at hrun ⊢
      exact hrun
    · have hl₀ : l.root = some l₀ := by rw [hlview, CTree.root_mk]
      have hr₀ : r.root = some r₀ := by rw [hrview, CTree.root_mk]
      have hlen : r.toList.length ≤ fuel := by
        rw [(toList_plug_perm _ ctx).length_eq] at hfuel
        simp only [CTree.toList, List.length_append, List.length_cons] at hfuel
        omega
      obtain ⟨t', e, y, yr, rctx, rfl, hside, hrun, hrep, hred, hk⟩ :=
        rbtUnlinkTwo_spec h hl₀ hr₀ hlen
      set b := plug (CTree.mk .left e y .nil yr) rctx with hb
      have hbne : b.toList ++ after ctx ≠ [] := by
        have hmem := CTree.root_mem_toList hr₀
        exact fun hnil => List.not_mem_nil ((List.append_eq_nil_iff.mp hnil).1 ▸ hmem)
      have hlne : before ctx ++ l.toList ≠ [] := by
        have hmem := CTree.root_mem_toList hl₀
        exact fun hnil => List.not_mem_nil ((List.append_eq_nil_iff.mp hnil).2 ▸ hmem)
      have hold : (plug (CTree.node c l i b) ctx).toList =
          (before ctx ++ l.toList) ++ i :: (b.toList ++ after ctx) := by
        rw [toList_plug, CTree.toList]
        simp only [List.append_assoc, List.cons_append]
      have hnew : (plug yr (rctx ++ ⟨.right, c, y, l⟩ :: ctx)).toList =
          (before ctx ++ l.toList) ++ (b.toList ++ after ctx) := by
        rw [hb, toList_plug, toList_plug, before_append, after_append, before_eq_nil hside]
        simp [before, after, CTree.mk, CTree.toList]
      rw [hold] at hleft hright
      refine ⟨t', yr, _, ?_, hrep, hk.framed, ⟨_, _, hold, hnew⟩, ?_, ?_, hk.num, ?_⟩
      · rw [hl₀, hr₀]
        exact hrun
      · rw [hk.leftmost, hleft, hnew, head?_insert hlne]
      · rw [hk.rightmost, hright, hnew, getLast?_insert hbne]
      · have htree : plug (CTree.node c l i b) ctx =
            plug (CTree.mk .right e y yr .nil) (rctx ++ ⟨.right, c, i, l⟩ :: ctx) := by
          rw [plug_append]
          rfl
        rw [htree] at hrb hroot
        obtain ⟨n, hn, hctx, -⟩ := ctxRB_of_RB_plug hrb hroot
        obtain ⟨hyr, hctx', hred'⟩ := RB_of_one_child hn hctx
        rw [hred]
        exact ⟨hyr, hctx'.relabel y, hred'⟩

/-- `RBT_UNLINK` of a node of the tree: the tree stays well-formed and exactly this node leaves the
sequence. -/
theorem rbtUnlink_spec {tree : CTree ι} {i : ι} (h : Wf t tree) (hi : i ∈ tree.toList) :
    ∃ t' tree' l₁ l₂, rbtUnlink t i = some t' ∧ Wf t' tree' ∧
      tree.toList = l₁ ++ i :: l₂ ∧ tree'.toList = l₁ ++ l₂ ∧ Framed tree.toList t t' := by
  obtain ⟨c, l, r, ctx, rfl⟩ := exists_plug_of_mem hi
  set t₀ : RbTree ι π :=
    { t with head := { t.head with rbtNumNode := t.head.rbtNumNode - 1 } } with ht₀
  obtain ⟨N, hN⟩ := h.rb
  obtain ⟨t₁, x, ctx', hrun, htaken⟩ := rbtTakeOut_spec (t := t₀) (t.head.rbtNumNode + 1)
    (h.represents.congr rfl fun _ _ => rfl) hN h.root_black h.leftmost h.rightmost
    (by rw [h.num]; exact Nat.le_succ _)
  obtain ⟨l₁, l₂, hlist, hlist'⟩ := htaken.toList
  -- the loop, when the node that is gone was black
  have hreb : ∃ t', (if (t₁.mem i).red then some t₁
      else rbtUnlinkLoop (t.head.rbtNumNode + 1) t₁ x.root (parentOf ctx')) = some t' ∧
      Rebalanced t₁ (plug x ctx') t' := by
    obtain ⟨hx, hctx, hxred⟩ := htaken.fits
    cases hred : (t₁.mem i).red with
    | true =>
      rw [hred] at hctx hxred
      refine ⟨t₁, rfl, htaken.represents.recast.rebalanced hx hctx fun hr => ?_⟩
      rw [hxred rfl] at hr
      cases hr
    | false =>
      rw [hred] at hctx
      have hshort : Short x 0 := by
        cases hxr : x.isRed with
        | false => exact .inl ⟨hxr, hx⟩
        | true =>
          obtain ⟨j, jl, jr, rfl⟩ := CTree.eq_mk_of_isRed .left hxr
          exact .inr ⟨_, j, jl, jr, rfl, hx.of_red.1, hx.of_red.2.2.1⟩
      have hlen : ctx'.length < t.head.rbtNumNode + 1 := by
        have hle := length_le_length_toList_plug x ctx'
        rw [hlist', List.length_append] at hle
        rw [h.num, hlist, List.length_append, List.length_cons]
        omega
      exact rbtUnlinkLoop_rebalanced htaken.represents hshort hctx (Nat.succ_pos _) fun _ => hlen
  obtain ⟨t', hloop, tree', hrec, hblack, n, hred, hheight⟩ := hreb
  have hout : tree'.toList = l₁ ++ l₂ := hrec.toList.trans hlist'
  have hframed : Framed (plug (CTree.node c l i r) ctx).toList t t' := by
    have hsub : ∀ j ∈ (plug x ctx').toList, j ∈ (plug (CTree.node c l i r) ctx).toList := fun j hj => by
      rw [hlist'] at hj
      rw [hlist]
      simp only [List.mem_append, List.mem_cons] at hj ⊢
      tauto
    have hfr := htaken.framed.trans (hrec.kept.framed.mono hsub)
    exact ⟨hfr.value, hfr.opaq, hfr.frame⟩
  refine ⟨t', tree', l₁, l₂, ?_, ⟨hrec.represents, ?_, hblack, hred, ⟨n, hheight⟩, ?_, ?_, ?_⟩,
    hlist, hout, hframed⟩
  · simp only [rbtUnlink]
    rw [← ht₀, hrun, Option.bind_some]
    exact hloop
  · have hsub : (l₁ ++ l₂).Sublist (l₁ ++ i :: l₂) :=
      List.Sublist.append_left (List.sublist_cons_self i l₂) l₁
    rw [hout]
    refine ((hlist ▸ h.ordered).sublist hsub).imp fun {j k} hjk => ?_
    rw [hframed.value j, hframed.value k]
    exact hjk
  · rw [hrec.kept.leftmost, htaken.leftmost, hrec.toList]
  · rw [hrec.kept.rightmost, htaken.rightmost, hrec.toList]
  · rw [hrec.kept.num, htaken.num, hout]
    show t.head.rbtNumNode - 1 = _
    rw [h.num, hlist, List.length_append, List.length_append, List.length_cons]
    omega

end Ganesha.Rbt
