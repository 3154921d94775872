import Ganesha.Rbt.Insert

/-!
# The loop of removal

The loop of `RBT_UNLINK` restores the red-black conditions when the tree at the hole is one black
node short (`rbtUnlinkLoop_rebalanced`), whatever the way the node was taken out.
-/

namespace Ganesha.Rbt
open Library.RedBlack

variable {ι π : Type} {t : RbTree ι π} {s : Side} {c d : Bool} {y z : ι}
  {x a b : CTree ι} {ctx : List (Frame ι)} {n : ℕ}

/-! ## The loop -/

/-- The tree at the hole where black height `n + 1` is expected: a black tree of height `n`, or a red
node over trees of height `n`, whatever their colours. -/
def Short (x : CTree ι) (n : ℕ) : Prop :=
  (x.isRed = false ∧ x.RB n) ∨ ∃ s i l r, x = CTree.mk s true i l r ∧ l.RB n ∧ r.RB n

lemma Represents.placed_sib (h : Represents t (plug x (⟨s, c, z, CTree.mk s d y a b⟩ :: ctx))) :
    Placed (t.mem y) d (some z) (.child s.other z) s a.root b.root := by
  rw [plug_sib] at h
  exact h.placed

/-- Whether both sons of the sibling are black. -/
lemma isRed_children {o : CTree ι}
    (h : Represents t (plug (CTree.mk s c y a b) (⟨s.other, d, z, o⟩ :: ctx))) :
    (t.isRed (t.mem y).left = false ∧ t.isRed (t.mem y).next = false) ↔
      (a.isRed = false ∧ b.isRed = false) := by
  have hy := h.placed
  have ha : t.isRed a.root = a.isRed := by
    rw [← plug_frame] at h
    exact h.isRed_root
  have hb : t.isRed b.root = b.isRed := by
    rw [← CTree.mk_other, ← plug_frame] at h
    exact h.isRed_root
  rw [← ha, ← hb, ← hy.child, ← hy.child_other]
  cases s with
  | left => rfl
  | right => exact and_comm

variable [DecidableEq ι]

lemma Represents.setRed_above {o : CTree ι} (h : Represents t (plug x (⟨s, c, z, o⟩ :: ctx)))
    (c' : Bool) :
    Recast t (plug x (⟨s, c, z, o⟩ :: ctx)) (t.setRed z c') (plug x (⟨s, c', z, o⟩ :: ctx)) := by
  rw [plug_frame] at h
  exact h.setRed c'

lemma Represents.setRed_sib (h : Represents t (plug x (⟨s, c, z, CTree.mk s d y a b⟩ :: ctx)))
    (d' : Bool) : Recast t (plug x (⟨s, c, z, CTree.mk s d y a b⟩ :: ctx)) (t.setRed y d')
      (plug x (⟨s, c, z, CTree.mk s d' y a b⟩ :: ctx)) := by
  rw [plug_sib] at h
  rw [plug_sib x, plug_sib x]
  exact h.setRed d'

lemma Represents.rotate_above (h : Represents t (plug x (⟨s, c, z, CTree.mk s d y a b⟩ :: ctx))) :
    ∃ t', t.rotate s z = some t' ∧ Recast t (plug x (⟨s, c, z, CTree.mk s d y a b⟩ :: ctx)) t'
      (plug x (⟨s, c, z, a⟩ :: ⟨s, d, y, b⟩ :: ctx)) := by
  rw [plug_frame] at h
  exact h.rotate

lemma Represents.setBlack_inner (h : Represents t (plug x (⟨s, c, z, CTree.mk s d y a b⟩ :: ctx))) :
    Recast t (plug x (⟨s, c, z, CTree.mk s d y a b⟩ :: ctx)) (t.setBlack a.root)
      (plug x (⟨s, c, z, CTree.mk s d y a.blacken b⟩ :: ctx)) := by
  rw [plug_inner] at h
  rw [plug_inner x, plug_inner x]
  exact h.setBlack

lemma Represents.setBlack_outer (h : Represents t (plug x (⟨s, c, z, CTree.mk s d y a b⟩ :: ctx))) :
    Recast t (plug x (⟨s, c, z, CTree.mk s d y a b⟩ :: ctx)) (t.setBlack b.root)
      (plug x (⟨s, c, z, CTree.mk s d y a b.blacken⟩ :: ctx)) := by
  rw [plug_outer] at h
  rw [plug_outer x, plug_outer x]
  exact h.setBlack

/-- A red sibling is rotated away first. -/
lemma rbtUnlinkRedSibling_spec
    (h : Represents t (plug x (⟨s, c, z, CTree.mk s d y a b⟩ :: ctx)))
    (hsib : (CTree.mk s d y a b).RB (n + 1)) (hc : c = true → d = false ∧ UnderBlack ctx)
    (hctx : CtxRB ctx (n + 1 + blackCost c)) :
    ∃ t' c' y' a' b' ctx', rbtUnlinkRedSibling t s z y = some (t', y') ∧
      Recast t (plug x (⟨s, c, z, CTree.mk s d y a b⟩ :: ctx)) t'
        (plug x (⟨s, c', z, CTree.mk s false y' a' b'⟩ :: ctx')) ∧
      a'.RB n ∧ b'.RB n ∧ (c' = true → UnderBlack ctx') ∧ CtxRB ctx' (n + 1 + blackCost c') ∧
      (c' = false → ctx' = ctx) := by
  have hy := h.placed_sib.red
  cases d with
  | false =>
    refine ⟨t, c, y, a, b, ctx, ?_, h.recast, hsib.of_black.1, hsib.of_black.2, fun hct => (hc hct).2,
      hctx, fun _ => rfl⟩
    simp only [rbtUnlinkRedSibling, hy, Bool.false_eq_true, if_false]
  | true =>
    -- the parent of a red node is black
    obtain rfl : c = false := by
      cases c with
      | false => rfl
      | true => exact absurd (hc rfl).1 (by decide)
    obtain ⟨ha, hab, hb, hbb⟩ := hsib.of_red
    have h₁ := h.setRed_sib false
    have h₂ := h₁.trans (h₁.represents.setRed_above true)
    obtain ⟨t', hrot, hrec⟩ := h₂.represents.rotate_above
    obtain ⟨d', y', a', b', rfl⟩ := ha.eq_mk s
    rw [CTree.isRed_mk] at hab
    subst hab
    have hchild := hrec.represents.placed_above.child_other
    rw [CTree.root_mk] at hchild
    refine ⟨t', true, y', a', b', _, ?_, h₂.trans hrec, ha.of_black.1, ha.of_black.2, fun _ => rfl,
      ⟨hb, fun hf => Bool.noConfusion hf, hctx⟩, fun hf => Bool.noConfusion hf⟩
    simp only [rbtUnlinkRedSibling, hy, if_true, hrot, Option.bind_some, hchild, Option.map_some]

/-- The last rotation, with its three colours. -/
lemma rbtUnlinkRotate_last (h : Represents t (plug x (⟨s, c, z, CTree.mk s d y a b⟩ :: ctx))) :
    ∃ t', (let t := (t.setRed y (t.mem z).red).setRed z false
        (t.setBlack ((t.mem y).child s.other)).rotate s z) = some t' ∧
      Recast t (plug x (⟨s, c, z, CTree.mk s d y a b⟩ :: ctx)) t'
        (plug x (⟨s, false, z, a⟩ :: ⟨s, c, y, b.blacken⟩ :: ctx)) := by
  have hz := h.placed_above.red
  have h₁ := h.setRed_sib c
  have h₂ := h₁.trans (h₁.represents.setRed_above false)
  have hchild := h₂.represents.placed_sib.child_other
  have h₃ := h₂.represents.setBlack_outer
  obtain ⟨t', hrot, hrec⟩ := h₃.represents.rotate_above
  refine ⟨t', ?_, (h₂.trans h₃).trans hrec⟩
  simp only [hz, hchild]
  exact hrot

/-- The sibling has a red son: two rotations or one. -/
lemma rbtUnlinkRotate_spec (h : Represents t (plug x (⟨s, c, z, CTree.mk s false y a b⟩ :: ctx)))
    (ha : a.RB n) (hb : b.RB n) (hred : ¬(a.isRed = false ∧ b.isRed = false)) :
    ∃ t' y' a' b', rbtUnlinkRotate t s z y = some t' ∧ a'.RB n ∧ b'.RB (n + 1) ∧ b'.isRed = false ∧
      Recast t (plug x (⟨s, c, z, CTree.mk s false y a b⟩ :: ctx)) t'
        (plug x (⟨s, false, z, a'⟩ :: ⟨s, c, y', b'⟩ :: ctx)) := by
  have hy := h.placed_sib
  have hbred : t.isRed ((t.mem y).child s.other) = b.isRed := by
    rw [hy.child_other]
    rw [plug_outer] at h
    exact h.isRed_root
  cases hbr : b.isRed with
  | true =>
    obtain ⟨t', hlast, hrec⟩ := rbtUnlinkRotate_last h
    refine ⟨t', y, a, b.blacken, ?_, ha, hb.blacken hbr, b.isRed_blacken, hrec⟩
    simp only [rbtUnlinkRotate, hbred, hbr, Bool.true_eq_false, if_false, Option.bind_some]
    exact hlast
  | false =>
    -- the inner child is red: it rises above `y`, which becomes its red outer child
    have har : a.isRed = true := by
      cases har : a.isRed with
      | true => rfl
      | false => exact absurd ⟨har, hbr⟩ hred
    obtain ⟨w, wa, wb, rfl⟩ := CTree.eq_mk_of_isRed s har
    obtain ⟨hwa, hwab, hwb, hwbb⟩ := ha.of_red
    have h₁ := h.setBlack_inner
    rw [CTree.blacken_mk] at h₁
    have h₂ := h₁.trans (h₁.represents.setRed_sib true)
    have hfocus := h₂.represents
    rw [plug_sib, ← CTree.mk_other s true y, ← CTree.mk_other s false w] at hfocus
    obtain ⟨t₁, hrot, hrec⟩ := hfocus.rotate
    rw [CTree.mk_other s true y, CTree.mk_other s false w, CTree.mk_other s false w,
      CTree.mk_other s true y, ← plug_sib x, ← plug_sib x] at hrec
    have hchild := hrec.represents.placed_above.child_other
    rw [CTree.root_mk] at hchild
    obtain ⟨t', hlast, hrec'⟩ := rbtUnlinkRotate_last hrec.represents
    rw [CTree.blacken_mk] at hrec'
    refine ⟨t', w, wa, _, ?_, hwa, .black hwb hb, CTree.isRed_mk _ _ _ _ _,
      (h₂.trans hrec).trans hrec'⟩
    simp only [rbtUnlinkRotate, hbred, hbr, if_true, hy.child, hrot, Option.bind_some, hchild,
      Option.map_some]
    exact hlast

/-- At the top or at a red node a missing black node is made up for. -/
lemma Short.rebalanced (h : Represents t (plug x ctx)) (hx : Short x n) (hctx : CtxRB ctx (n + 1))
    (hstop : ctx = [] ∨ x.isRed = true) : Rebalanced t (plug x ctx) (t.setBlack x.root) := by
  have hblack : x.blacken.isRed = true → UnderBlack ctx := fun hr => by
    rw [x.isRed_blacken] at hr
    cases hr
  rcases hx with ⟨hxb, hrb⟩ | ⟨s, i, l, r, rfl, hl, hr⟩
  · rcases hstop with rfl | hred
    · exact h.setBlack.rebalanced (CTree.blacken_eq_self hxb ▸ hrb) trivial hblack
    · rw [hxb] at hred
      cases hred
  · have hrb : (CTree.mk s true i l r).blacken.RB (n + 1) := by
      rw [CTree.blacken_mk]
      exact .black hl hr
    exact h.setBlack.rebalanced hrb hctx hblack

/-- The loop of `RBT_UNLINK` at a place that is one black node short: it ends, and the tree is a
red-black tree again. -/
theorem rbtUnlinkLoop_rebalanced {fuel : ℕ} (h : Represents t (plug x ctx)) (hx : Short x n)
    (hctx : CtxRB ctx (n + 1)) (hpos : 0 < fuel) (hfuel : x.isRed = false → ctx.length < fuel) :
    ∃ t', rbtUnlinkLoop fuel t x.root (parentOf ctx) = some t' ∧ Rebalanced t (plug x ctx) t' := by
  induction fuel generalizing t x ctx n with
  | zero => omega
  | succ fuel ih =>
    cases ctx with
    | nil => exact ⟨_, rfl, hx.rebalanced h hctx (.inl rfl)⟩
    | cons f ctx =>
      rcases f with ⟨s, c, z, sib⟩
      rcases hx with ⟨hxb, hxrb⟩ | ⟨s', i, l, r, rfl, hl, hr⟩
      · -- a black `x`, so its sibling is not empty
        rcases hctx with ⟨hsib, hc, hctx⟩
        obtain ⟨d, y, a, b, rfl⟩ := hsib.eq_mk s
        have hside := h.side_eq (.inr (by rw [CTree.root_mk]; exact Option.some_ne_none y))
        have hchild := h.placed_above.child_other
        rw [CTree.root_mk] at hchild
        have hred : t.isRed x.root = false := h.isRed_root.trans hxb
        obtain ⟨t₁, c', y', a', b', ctx', hstep, hrec, ha, hb, hunder, hctx', hsame⟩ :=
          rbtUnlinkRedSibling_spec h hsib (fun hct => ⟨by simpa using (hc hct).1, (hc hct).2⟩) hctx
        have hfocus := hrec.represents
        rw [plug_sib] at hfocus
        have htest := isRed_children hfocus
        have hturn : rbtUnlinkLoop (fuel + 1) t x.root (some z) =
            if a'.isRed = false ∧ b'.isRed = false then
              rbtUnlinkLoop fuel (t₁.setRed y' true) (some z) ((t₁.setRed y' true).mem z).parent
            else (rbtUnlinkRotate t₁ s z y').map fun t => t.setBlack x.root := by
          simp only [rbtUnlinkLoop, hred, Bool.false_eq_true, if_false, hside, hchild,
            Option.bind_some, hstep]
          exact if_congr htest rfl rfl
        rw [show parentOf (⟨s, c, z, CTree.mk s d y a b⟩ :: ctx) = some z from rfl, hturn]
        by_cases hblack : a'.isRed = false ∧ b'.isRed = false
        · -- the sibling becomes red and `z` is next, short in its turn or red
          rw [if_pos hblack]
          have h₁ := hrec.trans (hrec.represents.setRed_sib true)
          have hparent := h₁.represents.placed_above.parent
          rw [plug_frame x] at h₁
          have hy : (CTree.mk s true y' a' b').RB n := .red ha hblack.1 hb hblack.2
          have hlen := hfuel hxb
          rw [List.length_cons] at hlen
          obtain ⟨t', hloop, hreb⟩ : ∃ t', rbtUnlinkLoop fuel (t₁.setRed y' true)
              (CTree.mk s c' z x (CTree.mk s true y' a' b')).root (parentOf ctx') = some t' ∧
              Rebalanced (t₁.setRed y' true)
                (plug (CTree.mk s c' z x (CTree.mk s true y' a' b')) ctx') t' := by
            cases c' with
            | false =>
              obtain rfl := hsame rfl
              exact ih h₁.represents (.inl ⟨CTree.isRed_mk _ _ _ _ _, .black hxrb hy⟩) hctx'
                (by omega) fun _ => by omega
            | true =>
              refine ih h₁.represents (.inr ⟨s, z, x, _, rfl, hxrb, hy⟩) hctx' (by omega) fun hf => ?_
              rw [CTree.isRed_mk] at hf
              cases hf
          refine ⟨t', ?_, h₁.rebalanced_trans hreb⟩
          rw [hparent]
          rw [CTree.root_mk] at hloop
          exact hloop
        · rw [if_neg hblack]
          obtain ⟨t₂, y₂, a₂, b₂, hrot, ha₂, hb₂, hb₂b, hrec₂⟩ :=
            rbtUnlinkRotate_spec hrec.represents ha hb hblack
          have h₃ := (hrec.trans hrec₂).trans hrec₂.represents.setBlack
          rw [CTree.blacken_eq_self hxb, plug_frame x s false, plug_frame (CTree.mk s false z x a₂)] at h₃
          refine ⟨_, by rw [hrot, Option.map_some], h₃.rebalanced ?_ hctx' ?_⟩
          · rw [CTree.RB_mk]
            exact ⟨fun _ => ⟨CTree.isRed_mk _ _ _ _ _, hb₂b⟩, n + 1, rfl, .black hxrb ha₂, hb₂⟩
          · rw [CTree.isRed_mk]
            exact hunder
      · -- a red `x`
        refine ⟨_, ?_, Short.rebalanced h (.inr ⟨s', i, l, r, rfl, hl, hr⟩) hctx (.inr (by simp))⟩
        have hred := h.isRed_root
        rw [CTree.isRed_mk] at hred
        simp only [parentOf, rbtUnlinkLoop, hred, if_true]

end Ganesha.Rbt
