import Ganesha.Rbt.Common

/-!
# Trees in memory

When a memory holds a tree, and how the pointer updates of the macros act on the tree it holds.
Each update is looked at in the middle of a tree, at the hole of a path.
-/

namespace Ganesha.Rbt
open Library.RedBlack

variable {ι π : Type}

/-! ## Holding a tree -/

/-- The fields of a node that place it in a tree, its children seen from side `s`. -/
structure Placed (n : RbtNode ι π) (c : Bool) (p : Option ι) (a : Link ι) (s : Side)
    (h o : Option ι) : Prop where
  red : n.red = c
  parent : n.parent = p
  anchor : n.anchor = a
  child : n.child s = h
  child_other : n.child s.other = o

/-- The memory `m` holds a tree that hangs at the link `a`, under `p`. -/
def Embeds (m : ι → RbtNode ι π) (p : Option ι) (a : Link ι) : CTree ι → Prop
  | .nil => True
  | .node c l i r => Placed (m i) c p a .left l.root r.root ∧
      Embeds m (some i) (.child .left i) l ∧ Embeds m (some i) (.child .right i) r

/-- The node above the hole of a path. -/
def parentOf : List (Frame ι) → Option ι
  | [] => none
  | f :: _ => some f.a

/-- The link the hole of a path hangs at. -/
def linkOf : List (Frame ι) → Link ι
  | [] => .root
  | f :: _ => .child f.side f.a

/-- The memory holds a path up to the pointer `root`, with `q` in the link of its hole. -/
def EmbedsCtx (m : ι → RbtNode ι π) (root : Option ι) : List (Frame ι) → Option ι → Prop
  | [], q => root = q
  | f :: ctx, q => Placed (m f.a) f.red (parentOf ctx) (linkOf ctx) f.side q f.sib.root ∧
      Embeds m (some f.a) (.child f.side.other f.a) f.sib ∧ EmbedsCtx m root ctx (some f.a)

/-- A head and a memory hold a tree, no node of which occurs twice. -/
structure Represents (t : RbTree ι π) (tree : CTree ι) : Prop where
  root : t.head.root = tree.root
  embeds : Embeds t.mem none .root tree
  nodup : tree.toList.Nodup

variable {p : Option ι} {a : Link ι}

lemma Placed.swap {n : RbtNode ι π} {c : Bool} {s : Side} {h o : Option ι} (hn : Placed n c p a s h o) :
    Placed n c p a s.other o h :=
  ⟨hn.red, hn.parent, hn.anchor, hn.child_other, by rw [Side.other_other]; exact hn.child⟩

variable {m : ι → RbtNode ι π}

/-- A node by its two sides, for either orientation. -/
lemma embeds_mk {s : Side} {c : Bool} {i : ι} {h o : CTree ι} :
    Embeds m p a (CTree.mk s c i h o) ↔ Placed (m i) c p a s h.root o.root ∧
      Embeds m (some i) (.child s i) h ∧ Embeds m (some i) (.child s.other i) o := by
  cases s with
  | left => rfl
  | right =>
    show Placed (m i) c p a .left o.root h.root ∧ _ ∧ _ ↔ _
    constructor
    · rintro ⟨hp, ho, hh⟩
      exact ⟨hp.swap, hh, ho⟩
    · rintro ⟨hp, hh, ho⟩
      exact ⟨hp.swap, ho, hh⟩

/-- Nodes outside the tree may change. -/
lemma Embeds.congr {m' : ι → RbtNode ι π} {t : CTree ι} (h : Embeds m p a t) (hm : ∀ i ∈ t.toList, m' i = m i) :
    Embeds m' p a t := by
  induction t generalizing p a with
  | nil => trivial
  | node c l i r ihl ihr =>
    rcases h with ⟨hp, hl, hr⟩
    simp only [CTree.toList, List.mem_append, List.mem_cons] at hm
    refine ⟨?_, ihl hl fun j hj => hm j (.inl hj), ihr hr fun j hj => hm j (.inr (.inr hj))⟩
    rw [hm i (.inr (.inl rfl))]
    exact hp

/-- A context depends on the nodes of its path alone. -/
lemma EmbedsCtx.congr {m' : ι → RbtNode ι π} {root q : Option ι} {ctx : List (Frame ι)}
    (h : EmbedsCtx m root ctx q) (hm : ∀ i ∈ ids ctx, m' i = m i) : EmbedsCtx m' root ctx q := by
  induction ctx generalizing q with
  | nil => exact h
  | cons f ctx ih =>
    rcases h with ⟨hp, hs, hrest⟩
    simp only [mem_ids_cons] at hm
    refine ⟨?_, hs.congr fun j hj => hm j (.inr (.inl hj)), ih hrest fun j hj => ?_⟩
    · rw [hm f.a (.inl rfl)]
      exact hp
    · exact hm j (.inr (.inr hj))

/-- A tree in a context, taken apart. -/
lemma embeds_plug {root : Option ι} {x : CTree ι} {ctx : List (Frame ι)} :
    (root = (plug x ctx).root ∧ Embeds m none .root (plug x ctx)) ↔
      EmbedsCtx m root ctx x.root ∧ Embeds m (parentOf ctx) (linkOf ctx) x := by
  induction ctx generalizing x with
  | nil => rfl
  | cons f ctx ih =>
    rw [show plug x (f :: ctx) = plug (f.fill x) ctx from rfl, ih, Frame.fill, embeds_mk,
      CTree.root_mk]
    constructor
    · rintro ⟨hctx, hp, hx, hs⟩
      exact ⟨⟨hp, hs, hctx⟩, hx⟩
    · rintro ⟨⟨hp, hs, hctx⟩, hx⟩
      exact ⟨hctx, hp, hx, hs⟩

variable {t' : RbTree ι π} {tree : CTree ι}

lemma Represents.congr {t : RbTree ι π} (h : Represents t tree) (hroot : t'.head.root = t.head.root)
    (hmem : ∀ i ∈ tree.toList, t'.mem i = t.mem i) : Represents t' tree :=
  ⟨hroot.trans h.root, h.embeds.congr hmem, h.nodup⟩

/-- A tree in a context. -/
lemma represents_plug {t : RbTree ι π} {x : CTree ι} {ctx : List (Frame ι)} :
    Represents t (plug x ctx) ↔ EmbedsCtx t.mem t.head.root ctx x.root ∧
      Embeds t.mem (parentOf ctx) (linkOf ctx) x ∧ (plug x ctx).toList.Nodup := by
  constructor
  · rintro ⟨hroot, hemb, hnd⟩
    have hsplit := embeds_plug.mp ⟨hroot, hemb⟩
    exact ⟨hsplit.1, hsplit.2, hnd⟩
  · rintro ⟨hctx, hx, hnd⟩
    have hwhole := embeds_plug.mpr ⟨hctx, hx⟩
    exact ⟨hwhole.1, hwhole.2, hnd⟩

/-! ## Reading -/

section Reading
variable {t : RbTree ι π} {s : Side} {c : Bool} {i : ι} {l r x : CTree ι} {ctx : List (Frame ι)}

lemma Represents.placed (h : Represents t (plug (CTree.mk s c i l r) ctx)) :
    Placed (t.mem i) c (parentOf ctx) (linkOf ctx) s l.root r.root :=
  (embeds_mk.mp (represents_plug.mp h).2.1).1

variable {f : Frame ι}

lemma Represents.placed_above (h : Represents t (plug x (f :: ctx))) :
    Placed (t.mem f.a) f.red (parentOf ctx) (linkOf ctx) f.side x.root f.sib.root := by
  rw [plug_cons] at h
  exact h.placed

lemma Represents.root_placed (h : Represents t (plug x ctx)) (hx : x.root = some i) :
    (t.mem i).parent = parentOf ctx ∧ (t.mem i).anchor = linkOf ctx := by
  rcases CTree.eq_nil_or_mk .left x with rfl | ⟨c, j, l, r, rfl⟩
  · cases hx
  · rw [CTree.root_mk] at hx
    cases hx
    exact ⟨h.placed.parent, h.placed.anchor⟩

lemma Represents.isRed_root (h : Represents t (plug x ctx)) : t.isRed x.root = x.isRed := by
  rcases CTree.eq_nil_or_mk .left x with rfl | ⟨c, i, l, r, rfl⟩
  · rfl
  · rw [CTree.root_mk, CTree.isRed_mk]
    exact h.placed.red

/-- A subtree is not its sibling. -/
lemma Represents.root_ne (h : Represents t (plug x (f :: ctx))) (hne : f.sib.root ≠ none) : x.root ≠ f.sib.root := by
  intro heq
  rcases Option.ne_none_iff_exists'.mp hne with ⟨j, hj⟩
  have hnd := nodup_toList_plug.mp h.nodup
  refine hnd.2.2 j (CTree.root_mem_toList (heq.trans hj)) ?_
  rw [mem_ids_cons]
  exact .inr (.inl (CTree.root_mem_toList hj))

lemma Represents.sib_root_ne (h : Represents t (plug x (f :: ctx))) (hx : x.root = some i) : f.sib.root ≠ some i := by
  intro heq
  refine h.root_ne ?_ (hx.trans heq.symm)
  rw [heq]
  exact Option.some_ne_none i

/-- The test `node = parent->left` finds the side. -/
lemma Represents.side_eq [DecidableEq ι] (h : Represents t (plug x (f :: ctx)))
    (hne : x.root ≠ none ∨ f.sib.root ≠ none) :
    (if x.root = (t.mem f.a).left then Side.left else Side.right) = f.side := by
  have hp := h.placed_above
  have hdiff : x.root ≠ f.sib.root := by
    rcases hne with hx | hs
    · intro heq
      exact h.root_ne (heq ▸ hx) heq
    · exact h.root_ne hs
  have hchild := hp.child
  have hother := hp.child_other
  cases hs : f.side with
  | left =>
    rw [hs] at hchild
    exact if_pos hchild.symm
  | right =>
    rw [hs] at hother
    refine if_neg fun heq => hdiff ?_
    rw [heq, ← hother]
    rfl

end Reading

/-! ## Writing -/

/-- What no rotation and no change of colour in a tree with the nodes `nodes` touches. -/
structure Kept (nodes : List ι) (t t' : RbTree ι π) : Prop where
  value : ∀ i, (t'.mem i).rbtValue = (t.mem i).rbtValue
  opaq : ∀ i, (t'.mem i).rbtOpaq = (t.mem i).rbtOpaq
  frame : ∀ i, i ∉ nodes → t'.mem i = t.mem i
  leftmost : t'.head.leftmost = t.head.leftmost
  rightmost : t'.head.rightmost = t.head.rightmost
  num : t'.head.rbtNumNode = t.head.rbtNumNode

lemma Kept.refl (nodes : List ι) (t : RbTree ι π) : Kept nodes t t :=
  ⟨fun _ => rfl, fun _ => rfl, fun _ _ => rfl, rfl, rfl, rfl⟩

lemma Kept.trans {nodes : List ι} {t t'' : RbTree ι π} (h : Kept nodes t t') (h' : Kept nodes t' t'') :
    Kept nodes t t'' where
  value i := (h'.value i).trans (h.value i)
  opaq i := (h'.opaq i).trans (h.opaq i)
  frame i hi := (h'.frame i hi).trans (h.frame i hi)
  leftmost := h'.leftmost.trans h.leftmost
  rightmost := h'.rightmost.trans h.rightmost
  num := h'.num.trans h.num

/-- `t'` holds `tree'`, which has the in-order sequence of `tree`; the rest is kept since `t`. -/
structure Recast (t : RbTree ι π) (tree : CTree ι) (t' : RbTree ι π) (tree' : CTree ι) : Prop where
  represents : Represents t' tree'
  toList : tree'.toList = tree.toList
  kept : Kept tree.toList t t'

lemma Represents.recast {t : RbTree ι π} (h : Represents t tree) :
    Recast t tree t tree := ⟨h, rfl, .refl _ _⟩

lemma Recast.trans {t t'' : RbTree ι π} {tree' tree'' : CTree ι} (h : Recast t tree t' tree')
    (h' : Recast t' tree' t'' tree'') : Recast t tree t'' tree'' where
  represents := h'.represents
  toList := h'.toList.trans h.toList
  kept := h.kept.trans (h.toList ▸ h'.kept)

lemma mem_ids_of_linkOf {ctx : List (Frame ι)} {s : Side} {i : ι} (h : linkOf ctx = .child s i) :
    i ∈ ids ctx := by
  cases ctx with
  | nil => cases h
  | cons f ctx =>
    cases h
    simp [ids]

@[simp] lemma child_setChild (n : RbtNode ι π) (s : Side) (q : Option ι) :
    (n.setChild s q).child s = q := by cases s <;> rfl

@[simp] lemma child_other_setChild (n : RbtNode ι π) (s : Side) (q : Option ι) :
    (n.setChild s q).child s.other = n.child s.other := by cases s <;> rfl

@[simp] lemma child_setChild_other (n : RbtNode ι π) (s : Side) (q : Option ι) :
    (n.setChild s.other q).child s = n.child s := by cases s <;> rfl

section Writing
variable [DecidableEq ι] {t : RbTree ι π}

@[simp] lemma modify_head (i : ι) (f : RbtNode ι π → RbtNode ι π) :
    (t.modify i f).head = t.head := rfl

@[simp] lemma modify_mem_self (i : ι) (f : RbtNode ι π → RbtNode ι π) :
    (t.modify i f).mem i = f (t.mem i) := by
  simp [RbTree.modify]

variable {j : ι}

lemma modify_mem_of_ne {i : ι} (f : RbtNode ι π → RbtNode ι π) (h : j ≠ i) :
    (t.modify i f).mem j = t.mem j := by
  simp [RbTree.modify, h]

@[simp] lemma reparent_head (x p : Option ι) (a : Link ι) : (t.reparent x p a).head = t.head := by
  cases x <;> rfl

variable {p : Option ι} {a : Link ι}

lemma reparent_mem_of_ne {x : Option ι} (h : x ≠ some j) : (t.reparent x p a).mem j = t.mem j := by
  cases x with
  | none => rfl
  | some i =>
    rw [RbTree.reparent, modify_mem_of_ne]
    exact fun hj => h (congrArg some hj.symm)

variable {q : Option ι}

lemma writeLink_mem_of_ne {l : Link ι} (h : ∀ s, l ≠ .child s j) : (t.writeLink l q).mem j = t.mem j := by
  cases l with
  | root => rfl
  | child s i =>
    rw [RbTree.writeLink, modify_mem_of_ne]
    exact fun hj => h s (congrArg (Link.child s) hj.symm)

variable {nodes : List ι}

/-- A write to a node of the set that keeps value and data. -/
lemma Kept.modify {i : ι} {f : RbtNode ι π → RbtNode ι π} (hi : i ∈ nodes)
    (hv : ∀ n, (f n).rbtValue = n.rbtValue) (ho : ∀ n, (f n).rbtOpaq = n.rbtOpaq) :
    Kept nodes t (t.modify i f) where
  value j := by
    by_cases hj : j = i
    · rw [hj, modify_mem_self, hv]
    · rw [modify_mem_of_ne f hj]
  opaq j := by
    by_cases hj : j = i
    · rw [hj, modify_mem_self, ho]
    · rw [modify_mem_of_ne f hj]
  frame j hj := modify_mem_of_ne f fun heq => hj (heq ▸ hi)
  leftmost := rfl
  rightmost := rfl
  num := rfl

lemma Kept.reparent {x : Option ι} (hx : ∀ i, x = some i → i ∈ nodes) : Kept nodes t (t.reparent x p a) := by
  cases x with
  | none => exact .refl nodes t
  | some i =>
    show Kept nodes t (t.modify i fun n => { n with parent := p, anchor := a })
    exact .modify (hx i rfl) (fun _ => rfl) fun _ => rfl

lemma Kept.writeLink {l : Link ι} (hl : ∀ s i, l = .child s i → i ∈ nodes) : Kept nodes t (t.writeLink l q) := by
  cases l with
  | root => exact ⟨fun _ => rfl, fun _ => rfl, fun _ _ => rfl, rfl, rfl, rfl⟩
  | child s i =>
    show Kept nodes t (t.modify i fun n => n.setChild s q)
    exact .modify (hl s i rfl) (fun n => by cases s <;> rfl) fun n => by cases s <;> rfl

/-- The link above a subtree is written. -/
lemma EmbedsCtx.writeLink {ctx : List (Frame ι)} {q' : Option ι} (h : EmbedsCtx t.mem t.head.root ctx q)
    (hnd : (ids ctx).Nodup) :
    EmbedsCtx (t.writeLink (linkOf ctx) q').mem (t.writeLink (linkOf ctx) q').head.root ctx q' := by
  cases ctx with
  | nil => rfl
  | cons f ctx =>
    rcases h with ⟨hp, hs, hrest⟩
    rw [nodup_ids_cons] at hnd
    rcases hnd with ⟨hsib, hctx, -, -, -⟩
    refine ⟨?_, hs.congr fun j hj => ?_, EmbedsCtx.congr hrest fun j hj => ?_⟩
    · simp only [RbTree.writeLink, linkOf, modify_mem_self]
      refine ⟨?_, ?_, ?_, child_setChild _ _ _, ?_⟩
      · cases f.side <;> exact hp.red
      · cases f.side <;> exact hp.parent
      · cases f.side <;> exact hp.anchor
      · rw [child_other_setChild]
        exact hp.child_other
    · refine writeLink_mem_of_ne fun s heq => hsib ?_
      injection heq with _ hfj
      exact hfj ▸ hj
    · refine writeLink_mem_of_ne fun s heq => hctx ?_
      injection heq with _ hfj
      exact hfj ▸ hj

/-- The parent of a subtree is written. -/
lemma Embeds.reparent {p' : Option ι} {a' : Link ι} {x : CTree ι} (h : Embeds t.mem p a x)
    (hnd : x.toList.Nodup) : Embeds (t.reparent x.root p' a').mem p' a' x := by
  rcases CTree.eq_nil_or_mk .left x with rfl | ⟨c, i, l, r, rfl⟩
  · trivial
  · rw [embeds_mk] at h ⊢
    rw [nodup_toList_mk] at hnd
    rcases h with ⟨hp, hl, hr⟩
    rw [CTree.root_mk]
    refine ⟨?_, hl.congr fun j hj => ?_, hr.congr fun j hj => ?_⟩
    · simp only [RbTree.reparent, modify_mem_self]
      exact ⟨hp.red, rfl, rfl, hp.child, hp.child_other⟩
    · refine reparent_mem_of_ne fun heq => hnd.1 ?_
      injection heq with hij
      exact hij ▸ hj
    · refine reparent_mem_of_ne fun heq => hnd.2.1 ?_
      injection heq with hij
      exact hij ▸ hj

/-- A node takes another colour. -/
lemma Represents.setRed {s : Side} {c : Bool} {i : ι} {l r : CTree ι} {ctx : List (Frame ι)}
    (h : Represents t (plug (CTree.mk s c i l r) ctx)) (c' : Bool) :
    Recast t (plug (CTree.mk s c i l r) ctx) (t.setRed i c') (plug (CTree.mk s c' i l r) ctx) := by
  have hnd := nodup_toList_plug.mp h.nodup
  have hmk := nodup_toList_mk.mp hnd.1
  have hi : i ∈ (CTree.mk s c i l r).toList := mem_toList_mk.mpr (.inl rfl)
  have hlist : (plug (CTree.mk s c' i l r) ctx).toList = (plug (CTree.mk s c i l r) ctx).toList := by
    rw [toList_plug, toList_plug, toList_mk_red s c' c]
  rcases represents_plug.mp h with ⟨hctx, hx, -⟩
  rw [embeds_mk] at hx
  rcases hx with ⟨hp, hl, hr⟩
  refine ⟨represents_plug.mpr ⟨?_, ?_, hlist ▸ h.nodup⟩, hlist, ?_⟩
  · rw [CTree.root_mk] at hctx ⊢
    refine EmbedsCtx.congr hctx fun j hj => modify_mem_of_ne _ fun heq => ?_
    exact hnd.2.2 i hi (heq ▸ hj)
  · rw [embeds_mk]
    refine ⟨?_, hl.congr fun j hj => ?_, hr.congr fun j hj => ?_⟩
    · simp only [RbTree.setRed, modify_mem_self]
      exact ⟨rfl, hp.parent, hp.anchor, hp.child, hp.child_other⟩
    · exact modify_mem_of_ne _ fun heq => hmk.1 (heq ▸ hj)
    · exact modify_mem_of_ne _ fun heq => hmk.2.1 (heq ▸ hj)
  · exact .modify (mem_toList_plug.mpr (.inl hi)) (fun _ => rfl) fun _ => rfl

lemma Represents.setBlack {x : CTree ι} {ctx : List (Frame ι)} (h : Represents t (plug x ctx)) :
    Recast t (plug x ctx) (t.setBlack x.root) (plug x.blacken ctx) := by
  rcases CTree.eq_nil_or_mk .left x with rfl | ⟨c, i, l, r, rfl⟩
  · exact h.recast
  · rw [CTree.root_mk, CTree.blacken_mk]
    exact h.setRed false

/-- The rotation of a node whose child on the other side is `y`. -/
theorem Represents.rotate {s : Side} {c d : Bool} {x y : ι} {A B C : CTree ι} {ctx : List (Frame ι)}
    (h : Represents t (plug (CTree.mk s c x A (CTree.mk s d y B C)) ctx)) :
    ∃ t', t.rotate s x = some t' ∧ Recast t (plug (CTree.mk s c x A (CTree.mk s d y B C)) ctx) t'
      (plug (CTree.mk s d y (CTree.mk s c x A B) C) ctx) := by
  -- the five parts of the tree share no node
  have hnd := nodup_toList_plug.mp h.nodup
  have hndx := nodup_toList_mk.mp hnd.1
  have hndy := nodup_toList_mk.mp hndx.2.2.2.1
  simp only [mem_toList_mk, not_or, or_imp, forall_and, forall_eq] at hnd hndx
  obtain ⟨-, hctxnd, hxctx, hActx, hyctx, hBctx, hCctx⟩ := hnd
  obtain ⟨hxA, ⟨hxy, hxB, hxC⟩, -, -, hAy, hAB, -⟩ := hndx
  obtain ⟨hyB, hyC, hBnd, -, hBC⟩ := hndy
  rcases represents_plug.mp h with ⟨hctx, hemb, -⟩
  rw [embeds_mk, embeds_mk] at hemb
  obtain ⟨hpx, hA, hpy, hB, hC⟩ := hemb
  rw [CTree.root_mk] at hpx hctx
  have hBx : B.root ≠ some x := fun hr => hxB (CTree.root_mem_toList hr)
  have hBy : B.root ≠ some y := fun hr => hyB (CTree.root_mem_toList hr)
  -- the memory before the link of the hole is written
  set t₁ := t.modify x fun n => n.setChild s.other B.root with ht₁
  set t₂ := t₁.reparent B.root (some x) (.child s.other x) with ht₂
  set t₃ := t₂.modify y fun n =>
    { n.setChild s (some x) with parent := (t₂.mem x).parent, anchor := (t₂.mem x).anchor } with ht₃
  set t₄ := t₃.modify x fun n => { n with parent := some y, anchor := .child s y } with ht₄
  have hx₂ : t₂.mem x = (t.mem x).setChild s.other B.root := by
    rw [ht₂, reparent_mem_of_ne hBx, ht₁, modify_mem_self]
  have hy₂ : t₂.mem y = t.mem y := by
    rw [ht₂, reparent_mem_of_ne hBy, ht₁, modify_mem_of_ne _ (Ne.symm hxy)]
  have hx₄ : Placed (t₄.mem x) c (some y) (.child s y) s A.root B.root := by
    rw [ht₄, modify_mem_self, ht₃, modify_mem_of_ne _ hxy, hx₂]
    refine ⟨?_, rfl, rfl, ?_, ?_⟩
    · cases s <;> exact hpx.red
    · cases s <;> exact hpx.child
    · cases s <;> rfl
  have hy₄ : Placed (t₄.mem y) d (parentOf ctx) (linkOf ctx) s (some x) C.root := by
    rw [ht₄, modify_mem_of_ne _ (Ne.symm hxy), ht₃, modify_mem_self, hx₂, hy₂]
    refine ⟨?_, ?_, ?_, ?_, ?_⟩
    · cases s <;> exact hpy.red
    · cases s <;> exact hpx.parent
    · cases s <;> exact hpx.anchor
    · cases s <;> rfl
    · cases s <;> exact hpy.child_other
  have hrest₄ : ∀ j, j ≠ x → j ≠ y → t₄.mem j = t₂.mem j := fun j hjx hjy => by
    rw [ht₄, modify_mem_of_ne _ hjx, ht₃, modify_mem_of_ne _ hjy]
  have hrest₂ : ∀ j, j ≠ x → B.root ≠ some j → t₂.mem j = t.mem j := fun j hjx hjB => by
    rw [ht₂, reparent_mem_of_ne hjB, ht₁, modify_mem_of_ne _ hjx]
  -- and what the last write leaves alone
  set t₅ := t₄.writeLink (linkOf ctx) (some y) with ht₅
  have hrest₅ : ∀ j, j ∉ ids ctx → t₅.mem j = t₄.mem j := fun j hj =>
    writeLink_mem_of_ne fun s' hl => hj (mem_ids_of_linkOf hl)
  have hhead : t₄.head = t.head := by
    rw [ht₄, modify_head, ht₃, modify_head, ht₂, reparent_head, ht₁, modify_head]
  have hlist : (plug (CTree.mk s d y (CTree.mk s c x A B) C) ctx).toList =
      (plug (CTree.mk s c x A (CTree.mk s d y B C)) ctx).toList := by
    rw [toList_plug, toList_plug, toList_rotate]
  refine ⟨t₅, ?_, represents_plug.mpr ⟨?_, ?_, hlist ▸ h.nodup⟩, hlist, ?_⟩
  · simp only [RbTree.rotate, hpx.child_other, Option.map_some, hpy.child]
    rw [← ht₁, ← ht₂, ← ht₃, ← ht₄, hy₄.anchor]
  · rw [CTree.root_mk]
    have hctx₄ : EmbedsCtx t₄.mem t₄.head.root ctx (some x) := by
      rw [hhead]
      refine EmbedsCtx.congr hctx fun j hj => ?_
      have hjx : j ≠ x := fun heq => hxctx (heq ▸ hj)
      have hjy : j ≠ y := fun heq => hyctx (heq ▸ hj)
      have hjB : B.root ≠ some j := fun hr => hBctx j (CTree.root_mem_toList hr) hj
      rw [hrest₄ j hjx hjy, hrest₂ j hjx hjB]
    exact hctx₄.writeLink hctxnd
  · rw [embeds_mk, embeds_mk, CTree.root_mk]
    refine ⟨?_, ⟨?_, ?_, ?_⟩, ?_⟩
    · rw [hrest₅ y hyctx]
      exact hy₄
    · rw [hrest₅ x hxctx]
      exact hx₄
    · refine hA.congr fun j hj => ?_
      have hjx : j ≠ x := fun heq => hxA (heq ▸ hj)
      have hjy : j ≠ y := hAy j hj
      have hjB : B.root ≠ some j := fun hr => hAB j hj (CTree.root_mem_toList hr)
      rw [hrest₅ j (hActx j hj), hrest₄ j hjx hjy, hrest₂ j hjx hjB]
    · have hB₁ : Embeds t₁.mem (some y) (.child s y) B := hB.congr fun j hj => by
        have hjx : j ≠ x := fun heq => hxB (heq ▸ hj)
        rw [ht₁, modify_mem_of_ne _ hjx]
      have hB₂ : Embeds t₂.mem (some x) (.child s.other x) B := hB₁.reparent hBnd
      refine hB₂.congr fun j hj => ?_
      have hjx : j ≠ x := fun heq => hxB (heq ▸ hj)
      have hjy : j ≠ y := fun heq => hyB (heq ▸ hj)
      rw [hrest₅ j (hBctx j hj), hrest₄ j hjx hjy]
    · refine hC.congr fun j hj => ?_
      have hjx : j ≠ x := fun heq => hxC (heq ▸ hj)
      have hjy : j ≠ y := fun heq => hyC (heq ▸ hj)
      have hjB : B.root ≠ some j := fun hr => hBC j (CTree.root_mem_toList hr) hj
      rw [hrest₅ j (hCctx j hj), hrest₄ j hjx hjy, hrest₂ j hjx hjB]
  · have hmem : ∀ j, j = x ∨ j = y ∨ j ∈ B.toList ∨ j ∈ ids ctx →
        j ∈ (plug (CTree.mk s c x A (CTree.mk s d y B C)) ctx).toList := fun j hj => by
      rw [mem_toList_plug, mem_toList_mk, mem_toList_mk]
      tauto
    have hk₁ : Kept _ t t₁ := .modify (hmem x (.inl rfl)) (fun n => by cases s <;> rfl)
      fun n => by cases s <;> rfl
    have hk₂ : Kept _ t₁ t₂ := .reparent fun j hj =>
      hmem j (.inr (.inr (.inl (CTree.root_mem_toList hj))))
    have hk₃ : Kept _ t₂ t₃ := .modify (hmem y (.inr (.inl rfl))) (fun n => by cases s <;> rfl)
      fun n => by cases s <;> rfl
    have hk₄ : Kept _ t₃ t₄ := .modify (hmem x (.inl rfl)) (fun _ => rfl) fun _ => rfl
    have hk₅ : Kept _ t₄ t₅ := .writeLink fun s' j hj =>
      hmem j (.inr (.inr (.inr (mem_ids_of_linkOf hj))))
    exact (((hk₁.trans hk₂).trans hk₃).trans hk₄).trans hk₅

end Writing

end Ganesha.Rbt
