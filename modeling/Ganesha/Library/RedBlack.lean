import Mathlib.Data.List.Perm.Basic
import Mathlib.Data.List.Nodup
import Mathlib.Tactic.Tauto

/-!
# Red-black trees seen through a hole

Trees with labels of any type, the path from a node to the root as a list of frames (the innermost
first), and the red-black conditions on both. The two mirror images of a shape are one shape with
a `Side`.
-/

namespace Library.RedBlack

variable {ι : Type*}

inductive Side
  | left
  | right
  deriving DecidableEq, Repr

/-- The other side. -/
def Side.other : Side → Side
  | .left => .right
  | .right => .left

@[simp] lemma Side.other_other (s : Side) : s.other.other = s := by cases s <;> rfl

@[simp] lemma Side.other_ne (s : Side) : s.other ≠ s := by cases s <;> decide

@[simp] lemma Side.ne_other (s : Side) : s ≠ s.other := by cases s <;> decide

variable {s : Side}

lemma Side.eq_other_of_ne {s' : Side} (h : s' ≠ s) : s' = s.other := by
  cases s <;> cases s' <;> simp_all [Side.other]

/-- A binary tree with coloured nodes. -/
inductive CTree (ι : Type*)
  | nil
  | node (red : Bool) (l : CTree ι) (a : ι) (r : CTree ι)

/-- The label at the root. -/
def CTree.root : CTree ι → Option ι
  | .nil => none
  | .node _ _ a _ => some a

/-- An empty tree is black. -/
def CTree.isRed : CTree ι → Bool
  | .nil => false
  | .node red _ _ _ => red

/-- The in-order sequence. -/
def CTree.toList : CTree ι → List ι
  | .nil => []
  | .node _ l a r => l.toList ++ a :: r.toList

/-- The node whose child on side `s` is `h` and whose other child is `o`. -/
def CTree.mk (s : Side) (red : Bool) (a : ι) (h o : CTree ι) : CTree ι :=
  match s with
  | .left => .node red h a o
  | .right => .node red o a h

@[simp] lemma CTree.root_nil : (CTree.nil : CTree ι).root = none := rfl

@[simp] lemma CTree.root_mk (s : Side) (c : Bool) (a : ι) (h o : CTree ι) :
    (CTree.mk s c a h o).root = some a := by cases s <;> rfl

@[simp] lemma CTree.isRed_nil : (CTree.nil : CTree ι).isRed = false := rfl

@[simp] lemma CTree.isRed_mk (s : Side) (c : Bool) (a : ι) (h o : CTree ι) :
    (CTree.mk s c a h o).isRed = c := by cases s <;> rfl

lemma CTree.mk_other (s : Side) (c : Bool) (a : ι) (h o : CTree ι) :
    CTree.mk s.other c a h o = CTree.mk s c a o h := by cases s <;> rfl

/-- A tree is empty or a node, for either orientation. -/
lemma CTree.eq_nil_or_mk (s : Side) (t : CTree ι) : t = .nil ∨ ∃ c a h o, t = CTree.mk s c a h o := by
  cases t with
  | nil => exact .inl rfl
  | node c l a r =>
    cases s with
    | left => exact .inr ⟨c, a, l, r, rfl⟩
    | right => exact .inr ⟨c, a, r, l, rfl⟩

lemma CTree.mk_view (s s' : Side) (l r : CTree ι) :
    ∃ l' r', (∀ c a, CTree.mk s' c a l r = CTree.mk s c a l' r') ∧
      (l' = l ∧ r' = r ∨ l' = r ∧ r' = l) := by
  by_cases hs : s' = s
  · exact ⟨l, r, fun c a => by rw [hs], .inl ⟨rfl, rfl⟩⟩
  · refine ⟨r, l, fun c a => ?_, .inr ⟨rfl, rfl⟩⟩
    rw [Side.eq_other_of_ne hs, CTree.mk_other]

/-- The tree with a black root. -/
def CTree.blacken : CTree ι → CTree ι
  | .nil => .nil
  | .node _ l a r => .node false l a r

@[simp] lemma CTree.blacken_mk (s : Side) (c : Bool) (a : ι) (h o : CTree ι) :
    (CTree.mk s c a h o).blacken = CTree.mk s false a h o := by cases s <;> rfl

variable {t : CTree ι}

lemma CTree.blacken_eq_self (h : t.isRed = false) : t.blacken = t := by
  cases t with
  | nil => rfl
  | node c l a r =>
    cases h
    rfl

variable {a : ι}

lemma CTree.root_mem_toList (h : t.root = some a) : a ∈ t.toList := by
  cases t with
  | nil => cases h
  | node c l b r =>
    cases h
    simp [CTree.toList]

lemma CTree.eq_mk_of_isRed (s : Side) (h : t.isRed = true) : ∃ a l r, t = CTree.mk s true a l r := by
  rcases CTree.eq_nil_or_mk s t with rfl | ⟨c, a, l, r, rfl⟩
  · cases h
  · rw [CTree.isRed_mk] at h
    exact ⟨a, l, r, by rw [h]⟩

/-! ## Paths -/

/-- One step of the path from a hole up to the root: the node above, the side of it the hole is
on, and its other child. -/
structure Frame (ι : Type*) where
  side : Side
  red : Bool
  a : ι
  sib : CTree ι

/-- The tree with a frame around it. -/
def Frame.fill (f : Frame ι) (t : CTree ι) : CTree ι := CTree.mk f.side f.red f.a t f.sib

/-- Fill the hole of a path, innermost frame first. -/
def plug (t : CTree ι) : List (Frame ι) → CTree ι
  | [] => t
  | f :: ctx => plug (f.fill t) ctx

@[simp] lemma plug_nil (t : CTree ι) : plug t [] = t := rfl

lemma plug_cons (t : CTree ι) (f : Frame ι) (ctx : List (Frame ι)) :
    plug t (f :: ctx) = plug (CTree.mk f.side f.red f.a t f.sib) ctx := rfl

lemma plug_frame (t : CTree ι) (s : Side) (c : Bool) (a : ι) (o : CTree ι) (ctx : List (Frame ι)) :
    plug t (⟨s, c, a, o⟩ :: ctx) = plug (CTree.mk s c a t o) ctx := rfl

lemma plug_sib (t : CTree ι) (s : Side) (c : Bool) (a : ι) (o : CTree ι) (ctx : List (Frame ι)) :
    plug t (⟨s, c, a, o⟩ :: ctx) = plug o (⟨s.other, c, a, t⟩ :: ctx) := by
  rw [plug_frame, plug_frame, CTree.mk_other]

lemma plug_inner (t : CTree ι) (s : Side) (c d : Bool) (z y : ι) (a b : CTree ι)
    (ctx : List (Frame ι)) : plug t (⟨s, c, z, CTree.mk s d y a b⟩ :: ctx) =
      plug a (⟨s, d, y, b⟩ :: ⟨s.other, c, z, t⟩ :: ctx) := by
  rw [plug_sib, plug_frame a]

lemma plug_outer (t : CTree ι) (s : Side) (c d : Bool) (z y : ι) (a b : CTree ι)
    (ctx : List (Frame ι)) : plug t (⟨s, c, z, CTree.mk s d y a b⟩ :: ctx) =
      plug b (⟨s.other, d, y, a⟩ :: ⟨s.other, c, z, t⟩ :: ctx) := by
  rw [plug_inner, plug_sib a]

lemma plug_append (t : CTree ι) (ctx₁ ctx₂ : List (Frame ι)) :
    plug t (ctx₁ ++ ctx₂) = plug (plug t ctx₁) ctx₂ := by
  induction ctx₁ generalizing t with
  | nil => rfl
  | cons f ctx₁ ih => exact ih (f.fill t)

lemma root_plug_cons (x x' : CTree ι) (f : Frame ι) (ctx : List (Frame ι)) :
    (plug x (f :: ctx)).root = (plug x' (f :: ctx)).root := by
  induction ctx generalizing x x' f with
  | nil => simp [plug, Frame.fill]
  | cons g ctx ih => exact ih _ _ g

/-- What comes before the hole, in order. -/
def before : List (Frame ι) → List ι
  | [] => []
  | f :: ctx => match f.side with
    | .left => before ctx
    | .right => before ctx ++ (f.sib.toList ++ [f.a])

/-- What comes after the hole, in order. -/
def after : List (Frame ι) → List ι
  | [] => []
  | f :: ctx => match f.side with
    | .left => f.a :: f.sib.toList ++ after ctx
    | .right => after ctx

lemma before_append (ctx₁ ctx₂ : List (Frame ι)) :
    before (ctx₁ ++ ctx₂) = before ctx₂ ++ before ctx₁ := by
  induction ctx₁ with
  | nil => simp [before]
  | cons f ctx₁ ih =>
    rcases f with ⟨s, c, a, sib⟩
    cases s <;> simp [before, ih]

lemma after_append (ctx₁ ctx₂ : List (Frame ι)) :
    after (ctx₁ ++ ctx₂) = after ctx₁ ++ after ctx₂ := by
  induction ctx₁ with
  | nil => simp [after]
  | cons f ctx₁ ih =>
    rcases f with ⟨s, c, a, sib⟩
    cases s <;> simp [after, ih]

/-- The in-order sequence around the hole. -/
theorem toList_plug (t : CTree ι) (ctx : List (Frame ι)) :
    (plug t ctx).toList = before ctx ++ t.toList ++ after ctx := by
  induction ctx generalizing t with
  | nil => simp [before, after]
  | cons f ctx ih =>
    rcases f with ⟨s, c, a, sib⟩
    rw [plug_cons, ih]
    cases s <;> simp [before, after, CTree.mk, CTree.toList]

/-- The labels of a path. -/
def ids : List (Frame ι) → List ι
  | [] => []
  | f :: ctx => f.a :: f.sib.toList ++ ids ctx

lemma toList_mk_perm (s : Side) (c : Bool) (a : ι) (h o : CTree ι) :
    (CTree.mk s c a h o).toList.Perm (a :: h.toList ++ o.toList) := by
  cases s with
  | left => exact List.perm_middle
  | right =>
    refine List.perm_middle.trans (List.Perm.cons a ?_)
    exact List.perm_append_comm

/-- The nodes of a tree in a context. -/
lemma toList_plug_perm (t : CTree ι) (ctx : List (Frame ι)) :
    (plug t ctx).toList.Perm (t.toList ++ ids ctx) := by
  induction ctx generalizing t with
  | nil => simp [ids]
  | cons f ctx ih =>
    refine (ih _).trans ?_
    have hmk := toList_mk_perm f.side f.red f.a t f.sib
    refine (hmk.append_right (ids ctx)).trans ?_
    simp only [ids, List.cons_append, List.append_assoc]
    exact List.perm_middle.symm

lemma toList_rotate (s : Side) (c d : Bool) (x y : ι) (A B C : CTree ι) :
    (CTree.mk s d y (CTree.mk s c x A B) C).toList =
      (CTree.mk s c x A (CTree.mk s d y B C)).toList := by
  cases s <;> simp [CTree.mk, CTree.toList]

lemma toList_mk_red (s : Side) (c c' : Bool) (a : ι) (h o : CTree ι) :
    (CTree.mk s c a h o).toList = (CTree.mk s c' a h o).toList := by
  cases s <;> rfl

variable {c : Bool} {i : ι} {h o : CTree ι}

lemma mem_toList_mk : i ∈ (CTree.mk s c a h o).toList ↔ i = a ∨ i ∈ h.toList ∨ i ∈ o.toList := by
  rw [(toList_mk_perm s c a h o).mem_iff]
  simp

variable {ctx : List (Frame ι)}

lemma mem_toList_plug : i ∈ (plug t ctx).toList ↔ i ∈ t.toList ∨ i ∈ ids ctx := by
  rw [(toList_plug_perm t ctx).mem_iff, List.mem_append]

lemma mem_ids_cons {f : Frame ι} : i ∈ ids (f :: ctx) ↔ i = f.a ∨ i ∈ f.sib.toList ∨ i ∈ ids ctx := by
  simp [ids]

lemma nodup_toList_mk :
    (CTree.mk s c a h o).toList.Nodup ↔ a ∉ h.toList ∧ a ∉ o.toList ∧ h.toList.Nodup ∧
      o.toList.Nodup ∧ ∀ i ∈ h.toList, i ∉ o.toList := by
  rw [(toList_mk_perm s c a h o).nodup_iff]
  simp only [List.cons_append, List.nodup_cons, List.mem_append, List.nodup_append']
  simp only [List.disjoint_left, not_or]
  tauto

lemma nodup_toList_plug :
    (plug t ctx).toList.Nodup ↔ t.toList.Nodup ∧ (ids ctx).Nodup ∧ ∀ i ∈ t.toList, i ∉ ids ctx := by
  rw [(toList_plug_perm t ctx).nodup_iff, List.nodup_append']
  simp only [List.disjoint_left]

lemma nodup_ids_cons {f : Frame ι} :
    (ids (f :: ctx)).Nodup ↔ f.a ∉ f.sib.toList ∧ f.a ∉ ids ctx ∧ f.sib.toList.Nodup ∧
      (ids ctx).Nodup ∧ ∀ i ∈ f.sib.toList, i ∉ ids ctx := by
  simp only [ids, List.cons_append, List.nodup_cons, List.mem_append, List.nodup_append']
  simp only [List.disjoint_left, not_or]
  tauto

/-- A context adds its nodes. -/
lemma length_le_length_toList_plug (t : CTree ι) (ctx : List (Frame ι)) :
    t.toList.length + ctx.length ≤ (plug t ctx).toList.length := by
  rw [(toList_plug_perm t ctx).length_eq, List.length_append]
  have hctx : ctx.length ≤ (ids ctx).length := by
    induction ctx with
    | nil => exact Nat.le_refl _
    | cons f ctx ih =>
      simp only [ids, List.length_cons, List.length_append, List.cons_append]
      omega
  omega

/-! ## The red-black conditions -/

/-- What a node adds to the black height. -/
def blackCost (red : Bool) : ℕ := if red then 0 else 1

@[simp] lemma blackCost_true : blackCost true = 0 := rfl

@[simp] lemma blackCost_false : blackCost false = 1 := rfl

/-- No red node has a red child. -/
def CTree.NoRedRed : CTree ι → Prop
  | .nil => True
  | .node c l _ r => (c = true → l.isRed = false ∧ r.isRed = false) ∧ l.NoRedRed ∧ r.NoRedRed

/-- Every path from the root down to an empty tree has `n` black nodes. -/
def CTree.BlackHeight : CTree ι → ℕ → Prop
  | .nil, n => n = 0
  | .node c l _ r, n => ∃ k, n = k + blackCost c ∧ l.BlackHeight k ∧ r.BlackHeight k

/-- Both conditions. -/
def CTree.RB (t : CTree ι) (n : ℕ) : Prop := t.NoRedRed ∧ t.BlackHeight n

@[simp] lemma CTree.RB_nil {n : ℕ} : (CTree.nil : CTree ι).RB n ↔ n = 0 := by
  simp [CTree.RB, CTree.NoRedRed, CTree.BlackHeight]

variable {n : ℕ}

/-- A node by its two sides, for either orientation. -/
lemma CTree.RB_mk :
    (CTree.mk s c a h o).RB n ↔ (c = true → h.isRed = false ∧ o.isRed = false) ∧
      ∃ k, n = k + blackCost c ∧ h.RB k ∧ o.RB k := by
  cases s <;> simp only [CTree.mk, CTree.RB, CTree.NoRedRed, CTree.BlackHeight] <;> constructor
  · rintro ⟨⟨hc, hl, hr⟩, k, hk, hbl, hbr⟩
    exact ⟨hc, k, hk, ⟨hl, hbl⟩, ⟨hr, hbr⟩⟩
  · rintro ⟨hc, k, hk, ⟨hl, hbl⟩, ⟨hr, hbr⟩⟩
    exact ⟨⟨hc, hl, hr⟩, k, hk, hbl, hbr⟩
  · rintro ⟨⟨hc, hl, hr⟩, k, hk, hbl, hbr⟩
    exact ⟨fun h => (hc h).symm, k, hk, ⟨hr, hbr⟩, ⟨hl, hbl⟩⟩
  · rintro ⟨hc, k, hk, ⟨hl, hbl⟩, ⟨hr, hbr⟩⟩
    exact ⟨⟨fun h => (hc h).symm, hr, hl⟩, k, hk, hbr, hbl⟩

lemma CTree.RB.black (hh : h.RB n) (ho : o.RB n) : (CTree.mk s false a h o).RB (n + 1) := by
  rw [CTree.RB_mk]
  exact ⟨fun hc => Bool.noConfusion hc, n, rfl, hh, ho⟩

lemma CTree.RB.red (hh : h.RB n) (hhb : h.isRed = false) (ho : o.RB n) (hob : o.isRed = false) :
    (CTree.mk s true a h o).RB n := by
  rw [CTree.RB_mk]
  exact ⟨fun _ => ⟨hhb, hob⟩, n, rfl, hh, ho⟩

lemma CTree.RB.of_black (ht : (CTree.mk s false a h o).RB (n + 1)) : h.RB n ∧ o.RB n := by
  rw [CTree.RB_mk] at ht
  rcases ht with ⟨-, k, hk, hh, ho⟩
  obtain rfl : n = k := Nat.succ.inj hk
  exact ⟨hh, ho⟩

lemma CTree.RB.of_red (ht : (CTree.mk s true a h o).RB n) :
    h.RB n ∧ h.isRed = false ∧ o.RB n ∧ o.isRed = false := by
  rw [CTree.RB_mk] at ht
  rcases ht with ⟨hb, k, rfl, hh, ho⟩
  exact ⟨hh, (hb rfl).1, ho, (hb rfl).2⟩

lemma CTree.RB.blacken (ht : t.RB n) (hred : t.isRed = true) : t.blacken.RB (n + 1) := by
  obtain ⟨a, l, r, rfl⟩ := CTree.eq_mk_of_isRed .left hred
  rw [CTree.blacken_mk]
  exact .black ht.of_red.1 ht.of_red.2.2.1

lemma CTree.isRed_blacken (t : CTree ι) : t.blacken.isRed = false := by cases t <;> rfl

lemma CTree.RB.eq_mk (s : Side) (h : t.RB (n + 1)) : ∃ c a l r, t = CTree.mk s c a l r := by
  rcases CTree.eq_nil_or_mk s t with rfl | ht
  · rw [CTree.RB_nil] at h
    omega
  · exact ht

/-- The node right above the hole exists and is black. -/
def UnderBlack : List (Frame ι) → Prop
  | [] => False
  | f :: _ => f.red = false

/-- The path, filled with a black tree of black height `n`, satisfies both conditions and has a
black root. -/
def CtxRB : List (Frame ι) → ℕ → Prop
  | [], _ => True
  | f :: ctx, n => f.sib.RB n ∧ (f.red = true → f.sib.isRed = false ∧ UnderBlack ctx) ∧
      CtxRB ctx (n + blackCost f.red)

/-- Filling a path with a tree that fits. -/
theorem RB_plug_of_ctxRB (ht : t.RB n) (hctx : CtxRB ctx n) (hred : t.isRed = true → UnderBlack ctx) :
    (plug t ctx).isRed = false ∧ ∃ N, (plug t ctx).RB N := by
  induction ctx generalizing t n with
  | nil =>
    refine ⟨?_, n, ht⟩
    cases hr : t.isRed with
    | false => exact hr
    | true => exact (hred hr).elim
  | cons f ctx ih =>
    rcases hctx with ⟨hsib, hf, hrest⟩
    refine ih (n := n + blackCost f.red) ?_ hrest fun hr => ?_
    · rw [Frame.fill, CTree.RB_mk]
      refine ⟨fun hfr => ⟨?_, (hf hfr).1⟩, n, rfl, ht, hsib⟩
      cases hr : t.isRed with
      | false => rfl
      | true =>
        have hblack : f.red = false := hred hr
        rw [hfr] at hblack
        cases hblack
    · rw [Frame.fill, CTree.isRed_mk] at hr
      exact (hf hr).2

/-- The conditions on a filled path, read at the hole. -/
theorem ctxRB_of_RB_plug {N : ℕ} (h : (plug t ctx).RB N) (hroot : (plug t ctx).isRed = false) :
    ∃ n, t.RB n ∧ CtxRB ctx n ∧ (t.isRed = true → UnderBlack ctx) := by
  induction ctx generalizing t with
  | nil =>
    refine ⟨N, h, trivial, fun hr => ?_⟩
    rw [plug_nil, hr] at hroot
    cases hroot
  | cons f ctx ih =>
    obtain ⟨n, hn, hrest, hunder⟩ := ih h hroot
    rw [Frame.fill, CTree.RB_mk] at hn
    rcases hn with ⟨hf, k, rfl, ht, hsib⟩
    refine ⟨k, ht, ⟨hsib, fun hfr => ⟨(hf hfr).2, hunder ?_⟩, hrest⟩, fun hr => ?_⟩
    · rw [Frame.fill, CTree.isRed_mk]
      exact hfr
    · show f.red = false
      cases hfr : f.red with
      | false => rfl
      | true =>
        rw [(hf hfr).1] at hr
        cases hr

/-- Another node with the same colour in its place. -/
lemma CtxRB.relabel {ctx₁ ctx₂ : List (Frame ι)} (h : CtxRB (ctx₁ ++ ⟨s, c, a, o⟩ :: ctx₂) n) (b : ι) :
    CtxRB (ctx₁ ++ ⟨s, c, b, o⟩ :: ctx₂) n := by
  induction ctx₁ generalizing n with
  | nil => exact h
  | cons f ctx₁ ih =>
    rcases h with ⟨hsib, hf, hrest⟩
    refine ⟨hsib, fun hfr => ⟨(hf hfr).1, ?_⟩, ih hrest⟩
    have hunder := (hf hfr).2
    cases ctx₁ with
    | nil => exact hunder
    | cons g ctx₁ => exact hunder

/-- What a node with one child, or none, says about that child and about the path: the child has
black height 0, and the path misses the node's own colour when it is taken out. -/
lemma RB_of_one_child {x : CTree ι} (h : (CTree.mk s c a x .nil).RB n) (hctx : CtxRB ctx n) :
    x.RB 0 ∧ CtxRB ctx (blackCost c) ∧ (c = true → x.isRed = false) := by
  rw [CTree.RB_mk] at h
  rcases h with ⟨hred, k, rfl, hx, hnil⟩
  rw [CTree.RB_nil] at hnil
  subst hnil
  rw [Nat.zero_add] at hctx
  exact ⟨hx, hctx, fun hc => (hred hc).1⟩

end Library.RedBlack
