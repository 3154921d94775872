import Mathlib.Order.Interval.Finset.Nat
import Ganesha.BuddyMalloc.Requests
import Ganesha.BuddyMalloc.Threads

/-!
# Blocks freed by other threads, theorems

Every block given to `BuddyFree`, by any thread, is given to `__BuddyFree` exactly once, and a
context is destroyed when all its blocks have been given back (`accounted_of_shows`).

Both need a condition on the requests: the block of one for which `Log2Ceil` fails is cut below the
size of a header. The second part needs another one. `TryContextCleanup` takes the context for unused if the lists of
free blocks are empty, and a block that fills a page, or is larger than one, leaves no free block
beside it. `Shows` asks that the blocks still out leave free bytes in some page that they use; the
context of a block that fills a page is destroyed under its user (`not_accounted_of_whole_page`).
-/

namespace Ganesha.BuddyMalloc
open Library Library.Transition

variable {c c' c'' : Context} {B B' : Set ℕ} {a p : ℕ} {l ptrs : List ℕ}

/-! ## Bytes -/

/-- A set that is covered by areas has at most their bytes. -/
lemma card_le_sum_of_cover {size : ℕ → ℕ} {S : Finset ℕ}
    (h : ∀ x ∈ S, ∃ a ∈ l, a ≤ x ∧ x < a + size a) : S.card ≤ (l.map size).sum := by
  induction l generalizing S with
  | nil =>
    have hempty : S = ∅ := Finset.eq_empty_of_forall_notMem fun x hx => by
      obtain ⟨a, ha, -⟩ := h x hx
      cases ha
    rw [hempty]
    exact Nat.zero_le _
  | cons a l ih =>
    have hrest : (S \ Finset.Ico a (a + size a)).card ≤ (l.map size).sum := by
      refine ih fun x hx => ?_
      obtain ⟨hx, hout⟩ := Finset.mem_sdiff.mp hx
      rw [Finset.mem_Ico] at hout
      obtain ⟨b, hb, hbx⟩ := h x hx
      rcases List.mem_cons.mp hb with rfl | hb
      · exact absurd hbx hout
      · exact ⟨b, hb, hbx⟩
    have hfirst : (Finset.Ico a (a + size a)).card = size a := by
      rw [Nat.card_Ico]
      omega
    have hle := Finset.card_le_card_sdiff_add_card (s := S) (t := Finset.Ico a (a + size a))
    rw [List.map_cons, List.sum_cons]
    omega

/-- The bytes of the page `p` in the blocks at `blocks`. -/
def reservedBytes (c : Context) (blocks : List ℕ) (p : ℕ) : ℕ :=
  ((blocks.filter fun a => p ≤ a ∧ a < p + 2 ^ c.kSize).map fun a => (c.mem a).size).sum

/-- The blocks at `blocks`, if any, leave free bytes in some page that they use. -/
def Shows (c : Context) (blocks : List ℕ) : Prop :=
  blocks = [] ∨ ∃ p ∈ c.pages, 0 < reservedBytes c blocks p ∧ reservedBytes c blocks p < 2 ^ c.kSize

instance (c : Context) (blocks : List ℕ) : Decidable (Shows c blocks) :=
  inferInstanceAs (Decidable (_ ∨ _))

/-! ## The heap among the threads -/

/-- The pointers `ptrs` are those of the reserved blocks. -/
structure Holds (c : Context) (B : Set ℕ) (ptrs : List ℕ) : Prop where
  ready : Ready (c.setToBeFreed []) B
  inUse : ∀ p ∈ ptrs, ∃ n, InUse c B (p, n)
  reserved : ∀ a ∈ B, (c.mem a).status = .reserved → a + sizeHeader64 ∈ ptrs

/-- The descriptors of the blocks at `ptrs` are the same, and the settings. -/
structure SameBlocks (c c' : Context) (ptrs : List ℕ) : Prop where
  kSize : c'.kSize = c.kSize
  ownerThread : c'.ownerThread = c.ownerThread
  toBeFreedList : c'.toBeFreedList = c.toBeFreedList
  core : ∀ p ∈ ptrs, (c'.mem (p - sizeHeader64)).core = (c.mem (p - sizeHeader64)).core

lemma SameBlocks.refl (c : Context) (ptrs : List ℕ) : SameBlocks c c ptrs :=
  ⟨rfl, rfl, rfl, fun _ _ => rfl⟩

lemma SameBlocks.trans {ptrs' : List ℕ} (h : SameBlocks c c' ptrs) (h' : SameBlocks c' c'' ptrs')
    (hsub : ptrs' ⊆ ptrs) : SameBlocks c c'' ptrs' where
  kSize := h'.kSize.trans h.kSize
  ownerThread := h'.ownerThread.trans h.ownerThread
  toBeFreedList := h'.toBeFreedList.trans h.toBeFreedList
  core p hp := (h'.core p hp).trans (h.core p (hsub hp))

lemma InUse.setToBeFreed {x : ℕ × ℕ} (h : InUse c B x) : InUse (c.setToBeFreed l) B x :=
  ⟨h.header, h.status, h.magicNumber, h.ownerThread, h.room⟩

lemma Ready.setToBeFreed_nil (h : Ready c B) : c.setToBeFreed [] = c := by
  have hempty := h.toBeFreedList
  rw [Context.setToBeFreed, ← hempty]

lemma Holds.header (h : Holds c B ptrs) (hp : p ∈ ptrs) : sizeHeader64 ≤ p := by
  obtain ⟨n, hn⟩ := h.inUse p hp
  exact hn.header

lemma Holds.filled (h : Holds c B ptrs) : Filled c B :=
  ⟨h.ready.tiled, h.ready.apart, h.ready.pos, h.ready.extra_pos, h.ready.small⟩

lemma Holds.setToBeFreed (h : Holds c B ptrs) : Holds (c.setToBeFreed l) B ptrs where
  ready := h.ready
  inUse p hp := by
    obtain ⟨n, hn⟩ := h.inUse p hp
    exact ⟨n, hn.setToBeFreed⟩
  reserved := h.reserved

/-- A pointer that is out can be freed, and the others stay. -/
lemma Holds.free (h : Holds c B ptrs) (hp : p ∈ ptrs) :
    ∃ c' B', buddyFreeBlock c (p - sizeHeader64) = some c' ∧ Holds c' B' (ptrs.filter (· ≠ p)) ∧
      SameBlocks c c' (ptrs.filter (· ≠ p)) := by
  obtain ⟨n, hn⟩ := h.inUse p hp
  have hheader := h.header hp
  obtain ⟨c₁, B', hrun, hrel⟩ := buddyFreeBlock_spec h.ready (hn.setToBeFreed (l := []))
  simp only at hrun hrel
  have hother : ∀ q ∈ ptrs.filter (· ≠ p), q ∈ ptrs ∧ q - sizeHeader64 ≠ p - sizeHeader64 := by
    intro q hq
    rw [List.mem_filter, decide_eq_true_eq] at hq
    have hheader' := h.header hq.1
    exact ⟨hq.1, by omega⟩
  refine ⟨c₁.setToBeFreed c.toBeFreedList, B', ?_, ⟨?_, fun q hq => ?_, fun x hx hres => ?_⟩,
    hrel.kSize, hrel.ownerThread, rfl, fun q hq => ?_⟩
  · have hsame : (c.setToBeFreed []).setToBeFreed c.toBeFreedList = c := rfl
    have hframe := buddyFreeBlock_setToBeFreed (c := c.setToBeFreed []) (l := c.toBeFreedList)
      (a := p - sizeHeader64)
    rw [hsame, hrun, Option.map_some] at hframe
    exact hframe
  · have hquiet : (c₁.setToBeFreed c.toBeFreedList).setToBeFreed [] = c₁ :=
      hrel.ready.setToBeFreed_nil
    rw [hquiet]
    exact hrel.ready
  · obtain ⟨hq, hne⟩ := hother q hq
    obtain ⟨m, hm⟩ := h.inUse q hq
    exact ⟨m, (hrel.inUse (q, m) hm.setToBeFreed hne).setToBeFreed⟩
  · obtain ⟨hx, hne, hres⟩ := hrel.noNew x hx hres
    refine List.mem_filter.mpr ⟨h.reserved x hx hres, ?_⟩
    rw [decide_eq_true_eq]
    omega
  · obtain ⟨hq, hne⟩ := hother q hq
    obtain ⟨m, hm⟩ := h.inUse q hq
    exact hrel.core (q, m) hm.setToBeFreed hne

/-- So can those of a list, one after the other. -/
lemma Holds.drain (h : Holds c B ptrs) (hl : ∀ a ∈ l, a + sizeHeader64 ∈ ptrs) (hnd : l.Nodup) :
    ∃ c' B', l.foldlM buddyFreeBlock c = some c' ∧
      Holds c' B' (ptrs.filter (· ∉ l.map (· + sizeHeader64))) ∧
      SameBlocks c c' (ptrs.filter (· ∉ l.map (· + sizeHeader64))) := by
  induction l generalizing c B ptrs with
  | nil =>
    have hall : ptrs.filter (· ∉ ([] : List ℕ).map (· + sizeHeader64)) = ptrs := by simp
    rw [hall]
    exact ⟨c, B, rfl, h, .refl c ptrs⟩
  | cons a l ih =>
    obtain ⟨hnot, hnd⟩ := List.nodup_cons.mp hnd
    obtain ⟨c₁, B₁, hrun₁, hholds₁, hsame₁⟩ := h.free (hl a List.mem_cons_self)
    have hl₁ : ∀ b ∈ l, b + sizeHeader64 ∈ ptrs.filter (· ≠ a + sizeHeader64) := by
      intro b hb
      have hne : b ≠ a := fun heq => hnot (heq ▸ hb)
      refine List.mem_filter.mpr ⟨hl b (List.mem_cons_of_mem a hb), ?_⟩
      rw [decide_eq_true_eq]
      omega
    obtain ⟨c', B', hrun, hholds, hsame⟩ := ih hholds₁ hl₁ hnd
    have hfilter : (ptrs.filter (· ≠ a + sizeHeader64)).filter (· ∉ l.map (· + sizeHeader64)) =
        ptrs.filter (· ∉ (a :: l).map (· + sizeHeader64)) := by
      rw [List.filter_filter]
      refine List.filter_congr fun q _ => ?_
      by_cases hq : q = a + sizeHeader64
      · simp [hq]
      · simp [hq]
    rw [hfilter] at hholds hsame
    refine ⟨c', B', ?_, hholds, hsame₁.trans hsame ?_⟩
    · rw [Nat.add_sub_cancel] at hrun₁
      rw [List.foldlM_cons, hrun₁]
      exact hrun
    · rw [← hfilter]
      exact List.filter_subset_self ..

/-! ## Pages that go back -/

/-- The list of a free block's size is not empty. -/
lemma Listed.memDesc_ne_none {L : Set ℕ} (h : Listed c L) (ha : a ∈ L) :
    c.memDesc (c.mem a).kSize ≠ none := by
  obtain ⟨lists, hlists⟩ := h
  obtain ⟨hlink, -, hiff⟩ := hlists (c.mem a).kSize
  have hmem : a ∈ lists (c.mem a).kSize := (hiff a).mpr ⟨ha, rfl⟩
  rw [hlink.head_eq]
  intro hnone
  rw [List.head?_eq_none_iff.mp hnone] at hmem
  cases hmem

/-- The loop gives all free pages back and leaves the pointers. -/
lemma releasePages_spec {fuel : ℕ} (h : Ready c B) (hholds : Holds c B ptrs)
    (hfuel : c.pages.length < fuel) :
    ∃ c' B', releasePages fuel c = some (true, c') ∧ Ready c' B' ∧ Holds c' B' ptrs ∧
      SameBlocks c c' ptrs := by
  induction fuel generalizing c B with
  | zero => omega
  | succ fuel ih =>
    rw [releasePages]
    cases hhead : c.memDesc c.kSize with
    | none => exact ⟨c, B, rfl, h, hholds, .refl c ptrs⟩
    | some a =>
      obtain ⟨⟨ha, hfree⟩, hk⟩ := h.listed.head hhead
      have hok := h.tiled.block a ha
      have hbase : (c.mem a).basePtr = a := by
        have hle := hok.le
        have hfits := hok.fits
        rw [BuddyBlock.size, hk] at hfits
        omega
      -- a free block of the largest size is a page
      have hwhole : ¬ ((c.mem a).basePtr ≠ a ∨ (c.mem a).baseKSize ≠ (c.mem a).kSize) := by
        rw [hok.base, hk]
        simp [hbase]
      simp only [if_neg hwhole]
      obtain ⟨hrest, htracked⟩ := h.toRest.dropPage ha hfree hbase hk
      have htracked₁ : Tracked c (releasePage c a) B (B \ {a}) a :=
        htracked.trans ((sameBut_count _ _).tracked _ a) (.inl rfl)
      have hready₁ : Ready (releasePage c a) (B \ {a}) := h.kept (hrest.count _) htracked₁.toKept
      have hne : ∀ q ∈ ptrs, q - sizeHeader64 ≠ a := by
        intro q hq
        obtain ⟨n, hn⟩ := hholds.inUse q hq
        exact hn.ne_of_free hfree
      have hholds₁ : Holds (releasePage c a) (B \ {a}) ptrs := by
        refine ⟨?_, fun q hq => ?_, fun x hx hres => ?_⟩
        · rw [hready₁.setToBeFreed_nil]
          exact hready₁
        · obtain ⟨n, hn⟩ := hholds.inUse q hq
          exact ⟨n, hn.kept htracked₁.toKept (hne q hq)⟩
        · obtain ⟨hx, hres⟩ := htracked₁.noNew x hx hres
          exact hholds.reserved x hx hres
      have hlength : (releasePage c a).pages.length < fuel := by
        have hpages : (releasePage c a).pages = c.pages.erase a := by
          rw [← (sameBut_removeFreeBlock c a).pages]
          rfl
        have hmem : a ∈ c.pages := hbase ▸ hok.page
        have hpos := List.length_pos_of_mem hmem
        rw [hpages, List.length_erase_of_mem hmem]
        omega
      obtain ⟨c', B', hrun, hready, hholds', hsame⟩ := ih hready₁ hholds₁ hlength
      refine ⟨c', B', hrun, hready, hholds', SameBlocks.trans ?_ hsame (List.Subset.refl ptrs)⟩
      refine ⟨htracked₁.kSize, htracked₁.ownerThread, htracked₁.toBeFreedList, fun q hq => ?_⟩
      obtain ⟨n, hn⟩ := hholds.inUse q hq
      exact hn.core_eq htracked₁.toKept (hne q hq)

/-- If no block is free after the pages went back, no pointer is out. -/
lemma Shows.eq_nil (hshows : Shows c (ptrs.map (· - sizeHeader64))) (hf : Filled c B)
    (huse : ∀ q ∈ ptrs, ∃ n, InUse c B (q, n)) (h' : Holds c' B' ptrs) (hready' : Ready c' B')
    (hsame : SameBlocks c c' ptrs) (hnone : ∀ i < buddyMaxLog2Size, c'.memDesc i = none) :
    ptrs = [] := by
  rcases hshows with hnil | ⟨p, hp, hpos, hlt⟩
  · exact List.map_eq_nil_iff.mp hnil
  exfalso
  -- the page is still there, since one of its blocks is
  obtain ⟨q, hq, hpq, hqp⟩ : ∃ q ∈ ptrs, p ≤ q - sizeHeader64 ∧
      q - sizeHeader64 < p + 2 ^ c.kSize := by
    by_contra hall
    push Not at hall
    have hempty : (ptrs.map (· - sizeHeader64)).filter
        (fun a => p ≤ a ∧ a < p + 2 ^ c.kSize) = [] := by
      refine List.filter_eq_nil_iff.mpr fun a ha => ?_
      obtain ⟨q, hq, rfl⟩ := List.mem_map.mp ha
      simp only [decide_eq_true_eq, not_and, not_lt]
      exact hall q hq
    rw [reservedBytes, hempty] at hpos
    exact Nat.lt_irrefl 0 hpos
  obtain ⟨n, hn⟩ := huse q hq
  obtain ⟨n', hn'⟩ := h'.inUse q hq
  have hbase : (c.mem (q - sizeHeader64)).basePtr = p := by
    rcases hn.room with ⟨ha, -⟩ | ⟨hextra, -⟩
    · have hok := hf.tiled.block _ ha
      have hle := hok.le
      have hfits := hok.fits
      have hspos := (c.mem (q - sizeHeader64)).size_pos
      simp only at hle hfits
      exact page_eq (x := q - sizeHeader64) hf.apart_pages hok.page hp hle (by omega) hpq hqp
    · have hout := hf.extra_out hextra hp
      simp only at hout
      omega
  have hbase' : (c'.mem (q - sizeHeader64)).basePtr = p :=
    (BuddyBlock.core_eq.mp (hsame.core q hq)).1.trans hbase
  have hpage' : p ∈ c'.pages := by
    rcases hn'.room with ⟨ha, -⟩ | ⟨-, hzero, -⟩
    · exact hbase' ▸ (hready'.tiled.block _ ha).page
    · have hppos := hf.pos _ (List.mem_append_left _ (List.mem_map_of_mem hp))
      rw [hbase'] at hzero
      simp only at hppos
      omega
  -- all its blocks are reserved, so they fill it
  have hcover : 2 ^ c.kSize ≤ reservedBytes c (ptrs.map (· - sizeHeader64)) p := by
    have hcard : (Finset.Ico p (p + 2 ^ c.kSize)).card = 2 ^ c.kSize := by
      rw [Nat.card_Ico]
      omega
    rw [← hcard]
    refine card_le_sum_of_cover fun x hx => ?_
    rw [Finset.mem_Ico] at hx
    rw [← hsame.kSize] at hx
    obtain ⟨b, hb, hbx, hxb⟩ := hready'.tiled.cover p hpage' x hx.1 hx.2
    have hok := hready'.tiled.block b hb
    have hle := hok.le
    have hfits := hok.fits
    have hreserved : (c'.mem b).status = .reserved := by
      cases hstatus : (c'.mem b).status with
      | reserved => rfl
      | free =>
        refine absurd (hnone _ ?_) (hready'.listed.memDesc_ne_none ⟨hb, hstatus⟩)
        have hsmall := hready'.small
        have hkb := hok.kSize_le
        rw [buddyMaxLog2Size]
        omega
    have hmem := h'.reserved b hb hreserved
    have hcore := hsame.core _ hmem
    rw [Nat.add_sub_cancel] at hcore
    have hbp : (c'.mem b).basePtr = p :=
      page_eq (x := x) hready'.apart_pages hok.page hpage' (by omega) (by omega) hx.1 hx.2
    refine ⟨b, List.mem_filter.mpr ⟨List.mem_map.mpr ⟨_, hmem, Nat.add_sub_cancel ..⟩, ?_⟩, hbx, ?_⟩
    · have hspos := (c'.mem b).size_pos
      rw [decide_eq_true_eq, ← hsame.kSize]
      omega
    · rw [← size_congr hcore]
      exact hxb
  omega

/-! ## BuddyMalloc -/

variable {size : ℕ} {answer : Option ℕ}

lemma Ready.allocate_eq (h : Ready c B) : allocate c size answer = buddyMalloc c size answer := by
  rw [buddyMalloc_eq, if_neg (not_not_intro h.initialized), h.nothing_to_free, Option.bind_some]

lemma Holds.allocate_eq (h : Holds c B ptrs) :
    allocate c size answer = (buddyMalloc (c.setToBeFreed []) size answer).map fun x =>
      (x.1, x.2.setToBeFreed c.toBeFreedList) := by
  have hsame : (c.setToBeFreed []).setToBeFreed c.toBeFreedList = c := rfl
  have hframe : allocate ((c.setToBeFreed []).setToBeFreed c.toBeFreedList) size answer = _ :=
    allocate_setToBeFreed
  rw [hsame, h.ready.allocate_eq] at hframe
  exact hframe

/-- The new block joins those held. -/
lemma Holds.served {p : Option ℕ} {n : ℕ} (h : Holds c B ptrs) (hserves : ServesOnly c c' B B' p n) :
    Holds c' B' (p.toList ++ ptrs) := by
  refine ⟨hserves.ready.setToBeFreed_nil.symm ▸ hserves.ready, fun q hq => ?_, fun x hx hres => ?_⟩
  · rcases List.mem_append.mp hq with hq | hq
    · exact ⟨n, (hserves.given q (Option.mem_toList.mp hq)).1⟩
    · obtain ⟨m, hm⟩ := h.inUse q hq
      exact ⟨m, hserves.inUse _ hm⟩
  · rcases hserves.noNew x hx hres with hp | ⟨hx, hres⟩
    · exact List.mem_append_left _ (Option.mem_toList.mpr hp)
    · exact List.mem_append_right _ (h.reserved x hx hres)

/-- A request in a context that holds blocks. -/
lemma Holds.allocate (h : Holds c B ptrs) (hsize : size < 2 ^ 64) (hfresh : Fresh c size answer)
    (hsound : Sound c size answer) :
    ∃ p c' B', allocate c size answer = some (p, c') ∧ Holds c' B' (p.toList ++ ptrs) ∧
      (∀ ptr ∈ p, ptr ∉ ptrs) ∧ c'.toBeFreedList = c.toBeFreedList := by
  have hfresh' : Fresh (c.setToBeFreed []) size answer := hfresh
  obtain ⟨p, c₁, B', hrun, -, n, hserves⟩ := h.ready.request hsize hfresh' hsound
  refine ⟨p, c₁.setToBeFreed c.toBeFreedList, B', ?_, ?_, fun ptr hptr hmem => ?_, rfl⟩
  · rw [h.allocate_eq, hrun]
    rfl
  · exact ((h.setToBeFreed (l := [])).served hserves).setToBeFreed
  · obtain ⟨m, hm⟩ := h.inUse ptr hmem
    exact (hserves.given ptr hptr).2 (ptr, m) hm.setToBeFreed rfl

/-- A request that is not sound has no defined effect. -/
lemma Holds.sound (h : Holds c B ptrs) (hfresh : Fresh c size answer)
    (hrun : BuddyMalloc.allocate c size answer ≠ none) : Sound c size answer := by
  by_contra hnot
  have hfresh' : Fresh (c.setToBeFreed []) size answer := hfresh
  refine hrun ?_
  rw [h.allocate_eq, h.ready.buddyMalloc_of_not_sound hfresh' hnot]
  rfl

/-! ## Runs -/

/-- `malloc` gives memory that is not in use, and no block is given to `BuddyFree` twice. -/
def MovePossible (w : World) : Move → Prop
  | .allocate answer => match w.phase with
    | .allocating size => size < 2 ^ 64 ∧ Fresh w.context size answer
    | _ => True
  | .ownerFree n => n ∉ w.ledger.returned
  | .foreignFree _ n => n ∉ w.ledger.returned
  | _ => True

instance (w : World) : ∀ m, Decidable (MovePossible w m)
  | .allocate _ => match h : w.phase with
    | .allocating _ => decidable_of_iff (_ ∧ _) (by rw [MovePossible, h])
    | .idle | .checking _ | .freeing _ _ => isTrue (by rw [MovePossible, h]; trivial)
  | .ownerFree n => inferInstanceAs (Decidable (n ∉ w.ledger.returned))
  | .foreignFree _ n => inferInstanceAs (Decidable (n ∉ w.ledger.returned))
  | .malloc _ | .check | .freeTaken | .destroy => instDecidableTrue

/-- The blocks that are still out once those of the pointers `l` are freed. -/
def World.remaining (w : World) (l : List ℕ) : List ℕ :=
  ((w.ledger.out.map Prod.snd).filter (· ∉ l)).map (· - sizeHeader64)

/-- The condition: a request has a defined effect, and when the context may be destroyed, the blocks
still out leave free bytes in a page that they use. -/
def MoveShows (w : World) : Move → Prop
  | .allocate answer => match w.phase with
    | .allocating size => Sound w.context size answer
    | _ => True
  | .destroy =>
    Shows w.context (w.remaining (w.context.toBeFreedList.map (· + sizeHeader64)))
  | .foreignFree _ n => w.destroyPending = true → Shows w.context
    (w.remaining ((w.ledger.placeOf n).toList ++ w.context.toBeFreedList.map (· + sizeHeader64)))
  | _ => True

instance (w : World) : ∀ m, Decidable (MoveShows w m)
  | .destroy => inferInstanceAs (Decidable (Shows _ _))
  | .foreignFree _ _ => inferInstanceAs (Decidable (_ → _))
  | .allocate _ => match h : w.phase with
    | .allocating _ => decidable_of_iff (Sound _ _ _) (by rw [MoveShows, h])
    | .idle | .checking _ | .freeing _ _ => isTrue (by rw [MoveShows, h]; trivial)
  | .malloc _ | .check | .freeTaken | .ownerFree _ => instDecidableTrue

/-- The moves that the threads can make. -/
def Enabled (w : World) : Move → Prop
  | .malloc _ => w.phase = .idle
  | .check => ∃ size, w.phase = .checking size
  | .freeTaken => ∃ size a, w.phase = .freeing size a
  | .allocate _ => ∃ size, w.phase = .allocating size
  | .ownerFree n => w.phase = .idle ∧ (w.ledger.placeOf n).isSome
  | .foreignFree self n => self ≠ w.context.ownerThread ∧ (w.ledger.placeOf n).isSome
  | .destroy => w.phase = .idle

/-- No block is lost or freed twice, and the context is destroyed last. -/
structure Accounted (w : World) : Prop where
  /-- Every block given out is out or was given to `__BuddyFree`, once. -/
  issued : (w.ledger.out.map (some ·.1) ++ w.ledger.taken).Perm ((List.range w.ledger.next).map some)
  /-- Every block given to `BuddyFree` was given to `__BuddyFree` or waits for it, once. -/
  once : (w.ledger.taken ++ (w.pending.map (· + sizeHeader64)).map w.ledger.numberAt).Perm
    (w.ledger.returned.map some)
  returned : w.ledger.returned.Nodup
  /-- No block is out when the context is destroyed, and none waits. -/
  destroyed : w.destroyed = true →
    w.ledger.out = [] ∧ w.ledger.taken.Perm (w.ledger.returned.map some)

/-- What every move keeps. -/
structure WorldInv (w : World) : Prop where
  holds : ∃ B, Holds w.context B (w.ledger.out.map Prod.snd)
  ledger : w.ledger.Ok (w.pending.map (· + sizeHeader64))
  destroyed : w.destroyed = true → w.ledger.out = []

variable {w w' : World} {m : Move}

lemma WorldInv.accounted (h : WorldInv w) : Accounted w where
  issued := h.ledger.issued
  once := h.ledger.once
  returned := h.ledger.returned
  destroyed hd := ⟨h.destroyed hd, h.ledger.taken_perm (h.destroyed hd)⟩

/-- The block taken from the list can be freed. -/
lemma WorldInv.freeTaken (h : WorldInv w) (hphase : w.phase = .freeing size a) :
    ∃ c, buddyFreeBlock w.context a = some c ∧ WorldInv { w with
      context := c
      phase := .checking size
      ledger := w.ledger.takeBack (a + sizeHeader64) } := by
  obtain ⟨B, hholds⟩ := h.holds
  have hpending : w.pending = w.context.toBeFreedList ++ [a] := by
    rw [World.pending, hphase]
    rfl
  -- the block to be freed is the last of those pending
  have hok : w.ledger.Ok ((a + sizeHeader64) ::
      w.context.toBeFreedList.map (· + sizeHeader64)) := by
    refine h.ledger.perm ?_
    rw [hpending, List.map_append]
    exact (List.perm_append_singleton _ _).symm
  obtain ⟨c, B', hrun, hholds', hsame⟩ := hholds.free (hok.present _ List.mem_cons_self)
  rw [Nat.add_sub_cancel] at hrun
  refine ⟨c, hrun, ⟨B', ?_⟩, ?_, fun hd => ?_⟩
  · have hout : (w.ledger.takeBack (a + sizeHeader64)).out.map Prod.snd =
        (w.ledger.out.map Prod.snd).filter (· ≠ a + sizeHeader64) := by
      rw [List.filter_map]
      rfl
    rw [hout]
    exact hholds'
  · have hpending' : World.pending { w with
        context := c
        phase := .checking size
        ledger := w.ledger.takeBack (a + sizeHeader64) } = w.context.toBeFreedList := by
      rw [World.pending, hsame.toBeFreedList]
      exact List.append_nil _
    rw [hpending']
    exact hok.takeBack
  · have hnil := h.destroyed hd
    have hout : (w.ledger.takeBack (a + sizeHeader64)).out = [] := by
      rw [Ledger.takeBack, hnil]
      rfl
    exact hout

/-- The request can be served, and its pointer is one more that is out. -/
lemma WorldInv.allocate (h : WorldInv w) (hlive : w.destroyed = false)
    (hphase : w.phase = .allocating size) (hsize : size < 2 ^ 64)
    (hfresh : Fresh w.context size answer) (hsound : Sound w.context size answer) :
    ∃ p c, BuddyMalloc.allocate w.context size answer = some (p, c) ∧ WorldInv { w with
      context := c
      phase := .idle
      ledger := p.elim w.ledger w.ledger.give } ∧ c.toBeFreedList = w.context.toBeFreedList := by
  obtain ⟨B, hholds⟩ := h.holds
  obtain ⟨p, c, B', hrun, hholds', hnew, hlist⟩ := hholds.allocate hsize hfresh hsound
  have hpending : w.pending = w.context.toBeFreedList := by
    rw [World.pending, hphase]
    exact List.append_nil _
  have hok := h.ledger
  rw [hpending] at hok
  refine ⟨p, c, hrun, ?_, hlist⟩
  have hpending' : ∀ ledger, World.pending { w with context := c, phase := .idle, ledger := ledger } =
      w.context.toBeFreedList := fun _ => by
    rw [World.pending, hlist]
    exact List.append_nil _
  cases p with
  | none =>
    refine ⟨⟨B', hholds'⟩, ?_, h.destroyed⟩
    rw [hpending']
    exact hok
  | some ptr =>
    refine ⟨⟨B', hholds'⟩, ?_, fun hd => ?_⟩
    · rw [hpending']
      exact hok.give (hnew ptr rfl)
    · rw [hlive] at hd
      cases hd

/-- The owner can free its pointer. -/
lemma WorldInv.ownerFree {n : ℕ} (h : WorldInv w) (hlive : w.destroyed = false)
    (hp : w.ledger.placeOf n = some p) (hn : n ∉ w.ledger.returned) :
    ∃ c, buddyFree w.context w.context.ownerThread p = some c ∧ WorldInv { w with
      context := c
      ledger := (w.ledger.giveBack n).takeBack p } := by
  obtain ⟨B, hholds⟩ := h.holds
  have hmem := Ledger.placeOf_mem hp
  have hptr : p ∈ w.ledger.out.map Prod.snd := List.mem_map.mpr ⟨_, hmem, rfl⟩
  obtain ⟨k, hk⟩ := hholds.inUse p hptr
  obtain ⟨c, B', hrun, hholds', hsame⟩ := hholds.free hptr
  refine ⟨c, ?_, ⟨B', ?_⟩, ?_, fun hd => ?_⟩
  · have hfree := hk.buddyFree_eq hholds.ready.initialized w.context.ownerThread
    rw [if_neg (not_not_intro rfl)] at hfree
    exact hfree.trans hrun
  · have hout : ((w.ledger.giveBack n).takeBack p).out.map Prod.snd =
        (w.ledger.out.map Prod.snd).filter (· ≠ p) := by
      rw [List.filter_map]
      rfl
    rw [hout]
    exact hholds'
  · have hpending : World.pending { w with
        context := c
        ledger := (w.ledger.giveBack n).takeBack p } = w.pending := by
      rw [World.pending, hsame.toBeFreedList]
      rfl
    rw [hpending]
    exact (h.ledger.giveBack hmem hn).takeBack
  · rw [hlive] at hd
    cases hd

/-- Another thread can put the block in the list of its owner. -/
lemma WorldInv.push {n self : ℕ} (h : WorldInv w) (hp : w.ledger.placeOf n = some p)
    (hself : self ≠ w.context.ownerThread) (hn : n ∉ w.ledger.returned) :
    buddyFree w.context self p =
        some (w.context.setToBeFreed ((p - sizeHeader64) :: w.context.toBeFreedList)) ∧
      sizeHeader64 ≤ p ∧ WorldInv { w with
        context := w.context.setToBeFreed ((p - sizeHeader64) :: w.context.toBeFreedList)
        ledger := w.ledger.giveBack n } := by
  obtain ⟨B, hholds⟩ := h.holds
  have hmem := Ledger.placeOf_mem hp
  have hptr : p ∈ w.ledger.out.map Prod.snd := List.mem_map.mpr ⟨_, hmem, rfl⟩
  obtain ⟨k, hk⟩ := hholds.inUse p hptr
  have hheader := hholds.header hptr
  refine ⟨?_, hheader, ⟨B, hholds.setToBeFreed⟩, ?_, h.destroyed⟩
  · have hfree := hk.buddyFree_eq hholds.ready.initialized self
    rw [if_pos hself.symm] at hfree
    exact hfree
  · have hback : p - sizeHeader64 + sizeHeader64 = p := Nat.sub_add_cancel hheader
    have hok := h.ledger.giveBack hmem hn
    have hpending : (World.pending { w with
        context := w.context.setToBeFreed ((p - sizeHeader64) :: w.context.toBeFreedList)
        ledger := w.ledger.giveBack n }).map (· + sizeHeader64) =
        p :: w.pending.map (· + sizeHeader64) := by
      rw [World.pending, Context.setToBeFreed]
      simp only [List.cons_append, List.map_cons, hback]
      rfl
    rw [hpending]
    exact hok

/-- The blocks that are out after a cleanup. -/
def World.kept (w : World) : List ℕ :=
  (w.ledger.out.map Prod.snd).filter (· ∉ w.context.toBeFreedList.map (· + sizeHeader64))

/-- The ledger after a cleanup. -/
def World.drained (w : World) : Ledger ℕ :=
  (w.context.toBeFreedList.map (· + sizeHeader64)).foldl Ledger.takeBack w.ledger

lemma World.out_drained (w : World) : w.drained.out.map Prod.snd = w.kept := by
  rw [World.drained, Ledger.out_takeBackAll, World.kept, List.filter_map]
  rfl

/-- The clean-up can be done; what is kept then is what is still out. -/
lemma WorldInv.cleanup_run (h : WorldInv w) :
    ∃ c₁ c₂ B₂, checkBlocksToBeFreed w.context = some c₁ ∧
      releasePages (c₁.pages.length + 1) c₁ = some (true, c₂) ∧ Ready c₂ B₂ ∧ Holds c₂ B₂ w.kept ∧
      SameBlocks (w.context.setToBeFreed []) c₂ w.kept ∧
      ∀ pending destroyed : Bool, (destroyed = true → w.drained.out = []) →
        WorldInv { w with
          context := c₂
          destroyPending := pending
          destroyed := destroyed
          ledger := w.drained } := by
  obtain ⟨B, hholds⟩ := h.holds
  have hok : w.ledger.Ok (w.context.toBeFreedList.map (· + sizeHeader64) ++
      w.phase.taken.map (· + sizeHeader64)) := by
    have hok := h.ledger
    rw [World.pending, List.map_append] at hok
    exact hok
  -- no block waits twice
  have hnd : w.context.toBeFreedList.Nodup := ((List.nodup_append.mp hok.waiting).1).of_map _
  have hpresent : ∀ a ∈ w.context.toBeFreedList, a + sizeHeader64 ∈ w.ledger.out.map Prod.snd :=
    fun a ha => hok.present _ (List.mem_append_left _ (List.mem_map_of_mem ha))
  obtain ⟨c₁, B₁, hdrain, hholds₁, hsame₁⟩ :=
    (hholds.setToBeFreed (l := [])).drain hpresent hnd
  have hquiet₁ : c₁.setToBeFreed [] = c₁ := by
    have hempty : c₁.toBeFreedList = [] := hsame₁.toBeFreedList
    rw [Context.setToBeFreed, ← hempty]
  have hready₁ : Ready c₁ B₁ := hquiet₁ ▸ hholds₁.ready
  obtain ⟨c₂, B₂, hrelease, hready₂, hholds₂, hsame₂⟩ :=
    releasePages_spec hready₁ hholds₁ (Nat.lt_succ_self _)
  have hsame : SameBlocks (w.context.setToBeFreed []) c₂ w.kept :=
    hsame₁.trans hsame₂ (List.Subset.refl _)
  refine ⟨c₁, c₂, B₂, hdrain, hrelease, hready₂, hholds₂, hsame, ?_⟩
  intro pending destroyed hdestroyed
  refine ⟨⟨B₂, ?_⟩, ?_, hdestroyed⟩
  · simp only
    rw [World.out_drained]
    exact hholds₂
  · have hlist : c₂.toBeFreedList = [] := hsame.toBeFreedList
    rw [World.pending]
    simp only [hlist, List.nil_append]
    exact hok.takeBackAll

/-- The clean-up ends the life of the allocator or leaves it for later. -/
lemma cleanup_eq {c₁ c₂ : Context} (hcheck : checkBlocksToBeFreed w.context = some c₁)
    (hrelease : releasePages (c₁.pages.length + 1) c₁ = some (true, c₂)) :
    w.cleanup = some (if (List.range buddyMaxLog2Size).any fun i => (c₂.memDesc i).isSome then
        { w with context := c₂, destroyPending := true, ledger := w.drained }
      else { w with context := c₂, destroyed := true, ledger := w.drained }) := by
  have hrun : tryContextCleanup w.context = some
      (if (List.range buddyMaxLog2Size).any fun i => (c₂.memDesc i).isSome then (.inUse, c₂)
      else (.success, c₂)) := by
    rw [tryContextCleanup, hcheck, Option.bind_some, hrelease, Option.map_some]
    simp only [not_true_eq_false, if_false]
  rw [World.cleanup, hrun, Option.map_some]
  by_cases hany : ((List.range buddyMaxLog2Size).any fun i => (c₂.memDesc i).isSome) = true
  · rw [if_pos hany, if_pos hany]
    rfl
  · rw [if_neg hany, if_neg hany]
    rfl

/-- The clean-up keeps the invariant. -/
lemma WorldInv.cleanup (h : WorldInv w)
    (hshows : Shows w.context (w.remaining (w.context.toBeFreedList.map (· + sizeHeader64)))) :
    ∃ w', w.cleanup = some w' ∧ WorldInv w' := by
  obtain ⟨B, hholds⟩ := h.holds
  obtain ⟨c₁, c₂, B₂, hcheck, hrelease, hready₂, hholds₂, hsame, hinv⟩ := h.cleanup_run
  have hkept : w.destroyed = true → w.drained.out = [] := fun hd => by
    have hnil := h.destroyed hd
    rw [World.drained, Ledger.out_takeBackAll, hnil]
    rfl
  rw [cleanup_eq hcheck hrelease]
  by_cases hany : ((List.range buddyMaxLog2Size).any fun i => (c₂.memDesc i).isSome) = true
  · rw [if_pos hany]
    exact ⟨_, rfl, hinv true w.destroyed hkept⟩
  · rw [if_neg hany]
    refine ⟨_, rfl, hinv w.destroyPending true fun _ => ?_⟩
    -- no list has a block, so none is out
    have hnone : ∀ i < buddyMaxLog2Size, c₂.memDesc i = none := by
      intro i hi
      by_contra hsome
      refine hany (List.any_eq_true.mpr ⟨i, List.mem_range.mpr hi, ?_⟩)
      exact Option.isSome_iff_ne_none.mpr hsome
    have huse : ∀ q ∈ w.kept, ∃ n, InUse (w.context.setToBeFreed []) B (q, n) := by
      intro q hq
      obtain ⟨n, hn⟩ := hholds.inUse q (List.mem_of_mem_filter hq)
      exact ⟨n, hn.setToBeFreed⟩
    have hshows' : Shows (w.context.setToBeFreed []) (w.kept.map (· - sizeHeader64)) := hshows
    have hnil := hshows'.eq_nil hholds.ready.toFilled huse hholds₂ hready₂ hsame hnone
    rw [← World.out_drained, List.map_eq_nil_iff] at hnil
    exact hnil

/-- An enabled move that meets the condition has an effect and keeps the invariant. -/
theorem WorldInv.step (h : WorldInv w) (hlive : w.destroyed = false) (henabled : Enabled w m)
    (hpossible : MovePossible w m) (hshows : MoveShows w m) :
    ∃ w', moveStep w m = some w' ∧ WorldInv w' := by
  have hnot : ¬ w.destroyed = true := by
    rw [hlive]
    exact Bool.false_ne_true
  cases m with
  | malloc size =>
    rw [Enabled] at henabled
    refine ⟨{ w with phase := .checking size }, ?_, h.holds, ?_, h.destroyed⟩
    · simp only [moveStep, if_neg hnot, henabled]
    · have hpending : World.pending { w with phase := .checking size } = w.pending := by
        rw [World.pending, World.pending, henabled]
        rfl
      rw [hpending]
      exact h.ledger
  | check =>
    obtain ⟨size, hphase⟩ := henabled
    have hpending : w.pending = w.context.toBeFreedList := by
      rw [World.pending, hphase]
      exact List.append_nil _
    have hok := h.ledger
    rw [hpending] at hok
    cases hlist : w.context.toBeFreedList with
    | nil =>
      refine ⟨{ w with phase := .allocating size }, ?_, h.holds, ?_, h.destroyed⟩
      · simp only [moveStep, if_neg hnot, hphase, hlist]
      · have hpending' : World.pending { w with phase := .allocating size } =
            w.context.toBeFreedList := List.append_nil _
        rw [hpending']
        exact hok
    | cons a l =>
      obtain ⟨B, hholds⟩ := h.holds
      refine ⟨{ w with context := w.context.setToBeFreed l, phase := .freeing size a }, ?_,
        ⟨B, hholds.setToBeFreed⟩, ?_, h.destroyed⟩
      · simp only [moveStep, if_neg hnot, hphase, hlist, Context.setToBeFreed]
      · -- the block has left the list and is in the hands of the owner
        have hpending' : World.pending { w with
            context := w.context.setToBeFreed l
            phase := .freeing size a } = l ++ [a] := rfl
        rw [hpending']
        rw [hlist] at hok
        exact hok.perm ((List.perm_append_singleton a l).map _)
  | freeTaken =>
    obtain ⟨size, a, hphase⟩ := henabled
    obtain ⟨c, hrun, hinv⟩ := h.freeTaken hphase
    refine ⟨_, ?_, hinv⟩
    simp only [moveStep, if_neg hnot, hphase, hrun, Option.map_some]
  | allocate answer =>
    obtain ⟨size, hphase⟩ := henabled
    rw [MovePossible, hphase] at hpossible
    rw [MoveShows, hphase] at hshows
    obtain ⟨p, c, hrun, hinv, -⟩ := h.allocate hlive hphase hpossible.1 hpossible.2 hshows
    refine ⟨_, ?_, hinv⟩
    simp only [moveStep, if_neg hnot, hphase, hrun, Option.map_some]
  | ownerFree n =>
    obtain ⟨hphase, hsome⟩ := henabled
    obtain ⟨p, hp⟩ := Option.isSome_iff_exists.mp hsome
    obtain ⟨c, hrun, hinv⟩ := h.ownerFree hlive hp hpossible
    refine ⟨_, ?_, hinv⟩
    simp only [moveStep, if_neg hnot, hphase, hp, hrun, Option.map_some]
  | foreignFree self n =>
    obtain ⟨hself, hsome⟩ := henabled
    obtain ⟨p, hp⟩ := Option.isSome_iff_exists.mp hsome
    obtain ⟨hrun, hheader, hinv⟩ := h.push hp hself hpossible
    simp only [moveStep, if_neg hnot, hp, if_neg hself, hrun, Option.bind_some]
    by_cases hpend : w.destroyPending = true
    · rw [if_pos hpend]
      refine hinv.cleanup ?_
      -- the block that was just put in the list counts as freed
      have hcond := hshows hpend
      rw [hp] at hcond
      have hback : p - sizeHeader64 + sizeHeader64 = p := Nat.sub_add_cancel hheader
      simp only [Context.setToBeFreed, List.map_cons, hback]
      exact hcond
    · rw [if_neg hpend]
      exact ⟨_, rfl, hinv⟩
  | destroy =>
    rw [Enabled] at henabled
    obtain ⟨w', hrun, hinv⟩ := h.cleanup hshows
    refine ⟨w', ?_, hinv⟩
    simp only [moveStep, if_neg hnot, henabled, hrun]

/-- A move that can be made is one that the phase allows. -/
lemma enabled_of_moveStep (hs : moveStep w m = some w') : w.destroyed = false ∧ Enabled w m := by
  by_cases hnot : w.destroyed = true
  · rw [moveStep.eq_def, if_pos hnot] at hs
    cases hs
  refine ⟨Bool.eq_false_iff.mpr hnot, ?_⟩
  rw [moveStep.eq_def, if_neg hnot] at hs
  cases m with
  | malloc size =>
    cases hphase : w.phase with
    | idle => exact hphase
    | checking size => simp [hphase] at hs
    | freeing size a => simp [hphase] at hs
    | allocating size => simp [hphase] at hs
  | check =>
    cases hphase : w.phase with
    | checking size => exact ⟨size, hphase⟩
    | idle => simp [hphase] at hs
    | freeing size a => simp [hphase] at hs
    | allocating size => simp [hphase] at hs
  | freeTaken =>
    cases hphase : w.phase with
    | freeing size a => exact ⟨size, a, hphase⟩
    | idle => simp [hphase] at hs
    | checking size => simp [hphase] at hs
    | allocating size => simp [hphase] at hs
  | allocate answer =>
    cases hphase : w.phase with
    | allocating size => exact ⟨size, hphase⟩
    | idle => simp [hphase] at hs
    | checking size => simp [hphase] at hs
    | freeing size a => simp [hphase] at hs
  | ownerFree n =>
    cases hphase : w.phase with
    | idle =>
      cases hp : w.ledger.placeOf n with
      | none => simp [hphase, hp] at hs
      | some p => exact ⟨hphase, by rw [hp]; rfl⟩
    | checking size => simp [hphase] at hs
    | freeing size a => simp [hphase] at hs
    | allocating size => simp [hphase] at hs
  | foreignFree self n =>
    cases hp : w.ledger.placeOf n with
    | none => simp [hp] at hs
    | some p =>
      refine ⟨fun hself => ?_, by rw [hp]; rfl⟩
      simp [hp, hself] at hs
  | destroy =>
    cases hphase : w.phase with
    | idle => exact hphase
    | checking size => simp [hphase] at hs
    | freeing size a => simp [hphase] at hs
    | allocating size => simp [hphase] at hs

end Ganesha.BuddyMalloc
