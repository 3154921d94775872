import Mathlib
import Ganesha.BuddyMalloc.Contents

/-!
# Blocks freed twice

`BuddyFree` knows a block that was freed before by the status in its header. Merging leaves the
headers of the blocks that it joins where they are, marked free; only a block that is given out again
gets another mark. Two kinds of blocks have no such mark: those that wait in `ToBeFreed_list`, which
are marked reserved until the owner frees them, and those whose memory went back to the system, until
a header is written at their address again.
-/

namespace Ganesha.BuddyMalloc
open Library Library.Transition

variable {c c' c'' : Context} {B B' : Set ℕ} {a x : ℕ}

/-! ## The mark of a freed block -/

/-- If there is a header at `x`, it is that of a free block. -/
def FreeAt (c : Context) (x : ℕ) : Prop :=
  (c.mem x).status = .free ∧ (c.mem x).magicNumber = .free ∨ (c.mem x).magicNumber = .other

lemma FreeAt.congr (h : FreeAt c x) (hcore : (c'.mem x).core = (c.mem x).core) : FreeAt c' x := by
  obtain ⟨-, hmagic, -, -, -, -, hstatus⟩ := BuddyBlock.core_eq.mp hcore
  rw [FreeAt, hstatus, hmagic]
  exact h

/-- A header may be written as long as it stays free. -/
lemma FreeAt.modify {f : BuddyBlock → BuddyBlock} (h : FreeAt c x)
    (hf : (f (c.mem a)).status = (c.mem a).status ∧ (f (c.mem a)).magicNumber = (c.mem a).magicNumber ∨
      (f (c.mem a)).status = .free ∧ (f (c.mem a)).magicNumber = .free) :
    FreeAt (c.modify a f) x := by
  rw [FreeAt, modify_mem]
  split_ifs with heq
  · subst heq
    rcases hf with ⟨hstatus, hmagic⟩ | hfree
    · rw [hstatus, hmagic]
      exact h
    · exact .inl hfree
  · exact h

/-- What freeing a block does to the areas and to the marks of the others. -/
structure Shrinks (c c' : Context) : Prop where
  areas : ∀ y ∈ c'.areas, y ∈ c.areas
  toBeFreedList : c'.toBeFreedList = c.toBeFreedList
  freeAt : ∀ x, FreeAt c x → FreeAt c' x

lemma Shrinks.refl (c : Context) : Shrinks c c := ⟨fun _ h => h, rfl, fun _ h => h⟩

lemma Shrinks.trans (h : Shrinks c c') (h' : Shrinks c' c'') : Shrinks c c'' :=
  ⟨fun y hy => h.areas y (h'.areas y hy), h'.toBeFreedList.trans h.toBeFreedList,
    fun x hx => h'.freeAt x (h.freeAt x hx)⟩

lemma SameBut.shrinks (h : SameBut c c') : Shrinks c c' where
  areas y hy := by
    rw [h.areas] at hy
    exact hy
  toBeFreedList := h.toBeFreedList
  freeAt x hx := hx.congr (h.core x)

lemma Shrinks.modify {f : BuddyBlock → BuddyBlock}
    (hf : ∀ b, (f b).status = b.status ∧ (f b).magicNumber = b.magicNumber ∨
      (f b).status = .free ∧ (f b).magicNumber = .free) : Shrinks c (c.modify a f) :=
  ⟨fun _ h => h, rfl, fun _ hx => hx.modify (hf _)⟩

lemma Shrinks.erasePage : Shrinks c { c with pages := c.pages.erase a } where
  areas y hy := by
    have hsub : (pageAreas c.kSize (c.pages.erase a)).Sublist (pageAreas c.kSize c.pages) :=
      List.erase_sublist.map _
    exact (hsub.append_right c.extras).subset hy
  toBeFreedList := rfl
  freeAt _ h := h

variable {fuel : ℕ}

/-- Merging makes no address a header. -/
lemma mergeLoop_shrinks {a' : ℕ} (h : mergeLoop fuel c a = some (c', a')) : Shrinks c c' := by
  induction fuel generalizing c a with
  | zero => cases h
  | succ fuel ih =>
    rw [mergeLoop] at h
    by_cases hk : (c.mem a).kSize < (c.mem a).baseKSize
    · rw [if_pos hk] at h
      by_cases hstop : (c.mem (getBuddyBlock c a)).status = .reserved ∨
          (c.mem (getBuddyBlock c a)).kSize ≠ (c.mem a).kSize
      · simp only [if_pos hstop] at h
        cases h
        exact .refl _
      · simp only [if_neg hstop] at h
        refine Shrinks.trans ?_ (ih h)
        refine (sameBut_removeFreeBlock c _).shrinks.trans (.modify ?_)
        exact fun b => .inl ⟨rfl, rfl⟩
    · rw [if_neg hk] at h
      cases h
      exact .refl _

lemma releasePage_shrinks (c : Context) (a : ℕ) : Shrinks c (releasePage c a) :=
  ((sameBut_removeFreeBlock c a).shrinks.trans .erasePage).trans (sameBut_count _ _).shrinks

/-- Collecting pages only frees. -/
lemma garbageStdPages_shrinks (c : Context) (a : ℕ) : Shrinks c (garbageStdPages c a) := by
  have hrelease := releasePage_shrinks c a
  rw [releasePage] at hrelease
  rw [garbageStdPages]
  split_ifs
  · exact .refl c
  · exact .refl c
  · exact hrelease
  · exact .refl c

lemma settle_shrinks (c : Context) (a : ℕ) : Shrinks c (settle c a) := by
  rw [settle]
  split_ifs
  · exact (sameBut_count c _).shrinks.trans (garbageStdPages_shrinks _ a)
  · exact (sameBut_count c _).shrinks
  · exact .refl c

/-- A block that is freed has a free header then, or none. -/
lemma buddyFreeStd_shrinks (h : buddyFreeStd c a = some c') : Shrinks c c' ∧ FreeAt c' a := by
  have hmark : Shrinks c (c.modify a fun b => { b with status := .free, magicNumber := .free }) :=
    .modify fun b => .inr ⟨rfl, rfl⟩
  have hfree : FreeAt (c.modify a fun b => { b with status := .free, magicNumber := .free }) a := by
    rw [FreeAt, modify_mem_self]
    exact .inl ⟨rfl, rfl⟩
  rw [buddyFreeStd, Option.map_eq_some_iff] at h
  obtain ⟨⟨c₁, a'⟩, hmerge, heq⟩ := h
  have hsettle : settle (insertFreeBlock c₁ a') a' = c' := heq
  have hrest : Shrinks (c.modify a fun b => { b with status := .free, magicNumber := .free }) c' := by
    rw [← hsettle]
    exact ((((sameBut_count _ _).shrinks).trans (mergeLoop_shrinks hmerge)).trans
      (sameBut_insertFreeBlock c₁ a').shrinks).trans (settle_shrinks _ a')
  exact ⟨hmark.trans hrest, hrest.freeAt a hfree⟩

/-- Freeing a large block only frees. -/
lemma freeLargeBlock_shrinks (c : Context) (a : ℕ) : Shrinks c (freeLargeBlock c a) := by
  rw [freeLargeBlock]
  by_cases hbase : (c.mem a).basePtr ≠ 0
  · rw [if_pos hbase]
    exact .refl c
  · rw [if_neg hbase]
    exact ⟨fun y hy => (List.erase_sublist.append_left _).subset hy, rfl, fun _ hx => hx⟩

/-- Freeing a block only frees. -/
lemma buddyFreeBlock_shrinks (h : buddyFreeBlock c a = some c') : Shrinks c c' := by
  simp only [buddyFreeBlock] at h
  split_ifs at h
  · cases h
    exact freeLargeBlock_shrinks c a
  · cases h
    exact ⟨fun _ hy => hy, rfl, fun _ hx => hx⟩
  · exact (buddyFreeStd_shrinks h).1

/-- Giving pages back makes no address a header. -/
lemma releasePages_shrinks {ok : Bool} (h : releasePages fuel c = some (ok, c')) : Shrinks c c' := by
  induction fuel generalizing c with
  | zero => cases h
  | succ fuel ih =>
    rw [releasePages] at h
    cases hhead : c.memDesc c.kSize with
    | none =>
      simp only [hhead] at h
      cases h
      exact .refl c'
    | some a =>
      simp only [hhead] at h
      split_ifs at h
      · cases h
        exact .refl c'
      · exact (releasePage_shrinks c _).trans (ih h)

/-! ## Blocks given out -/

/-- A header that is free stays free while another block is split. -/
lemma splitLoop_freeAt {sizelog2 : ℕ} (h : splitLoop sizelog2 fuel c a = some c') (hx : FreeAt c x) :
    FreeAt c' x := by
  induction fuel generalizing c with
  | zero =>
    cases h
    exact hx
  | succ fuel ih =>
    rw [splitLoop] at h
    by_cases hk : (c.mem a).kSize > sizelog2
    · simp only [if_pos hk] at h
      split_ifs at h
      refine ih h (FreeAt.congr ?_ ((sameBut_insertFreeBlock _ _).core x))
      refine FreeAt.modify (FreeAt.modify hx ?_) ?_
      · exact .inl ⟨rfl, rfl⟩
      · exact .inr ⟨rfl, rfl⟩
    · simp only [if_neg hk] at h
      cases h
      exact hx

/-- It stays free unless it is the block that is taken. -/
lemma takeBlock_freeAt {sizelog2 : ℕ} {p : Option ℕ} (h : takeBlock c sizelog2 a = some (p, c'))
    (hx : FreeAt c x) (hne : x + sizeHeader64 ∉ p) : FreeAt c' x := by
  rw [takeBlock, Option.map_eq_some_iff] at h
  obtain ⟨c₁, hsplit, heq⟩ := h
  obtain ⟨rfl, rfl⟩ := Prod.mk.inj heq
  have hxa : x ≠ a := fun heq => hne (heq ▸ rfl)
  have hremoved : FreeAt (removeFreeBlock c a) x := hx.congr ((sameBut_removeFreeBlock c a).core x)
  have hstart : FreeAt (if (removeFreeBlock c a).isWholePage a then
      (removeFreeBlock c a).count updateStatsUseStdPage else removeFreeBlock c a) x := by
    split_ifs
    · exact hremoved
    · exact hremoved
  have hsplit' := splitLoop_freeAt hsplit hstart
  rw [FreeAt, count_mem, modify_mem_of_ne _ hxa]
  exact hsplit'

variable {answer : Option ℕ}

/-- A new page keeps free headers free. -/
lemma newStdPage_freeAt {p : Option ℕ} (h : newStdPage c answer = (p, c')) (hx : FreeAt c x) : FreeAt c' x := by
  cases answer with
  | none =>
    cases h
    exact hx
  | some a =>
    obtain ⟨rfl, rfl⟩ := Prod.mk.inj h
    refine FreeAt.congr ?_ ((sameBut_insertFreeBlock _ _).core x)
    exact FreeAt.modify (c := { c with pages := a :: c.pages }) hx (.inr ⟨rfl, rfl⟩)

variable {size : ℕ}

/-- It stays free unless a large block is put there. -/
lemma allocLargeBlock_freeAt {p : Option ℕ} (h : allocLargeBlock c size answer = (p, c')) (hx : FreeAt c x)
    (hne : x + sizeHeader64 ∉ p) : FreeAt c' x := by
  simp only [allocLargeBlock] at h
  by_cases hextra : c.config.extraAlloc = true
  · rw [if_neg (not_not_intro hextra)] at h
    cases answer with
    | none =>
      cases h
      exact hx
    | some a =>
      obtain ⟨rfl, rfl⟩ := Prod.mk.inj h
      have hxa : x ≠ a := fun heq => hne (heq ▸ rfl)
      rw [FreeAt, count_mem, modify_mem_of_ne _ hxa]
      exact hx
  · rw [if_pos hextra] at h
    cases h
    exact hx

/-- It stays free unless the request returns its pointer. -/
lemma allocate_freeAt {p : Option ℕ} (h : BuddyMalloc.allocate c size answer = some (p, c')) (hx : FreeAt c x)
    (hne : x + sizeHeader64 ∉ p) : FreeAt c' x := by
  rw [BuddyMalloc.allocate] at h
  by_cases hzero : size = 0
  · rw [if_pos hzero] at h
    cases h
    exact hx
  simp only [if_neg hzero] at h
  by_cases hlarge : intShiftLeft (sizeLog2 size) > 2 ^ c.kSize
  · simp only [if_pos hlarge] at h
    split_ifs at h
    · exact allocLargeBlock_freeAt (Option.some.inj h) hx hne
    · cases h
      exact hx
  simp only [if_neg hlarge] at h
  cases hfind : findFree c (sizeLog2 size) with
  | some a =>
    simp only [hfind] at h
    exact takeBlock_freeAt h hx hne
  | none =>
    simp only [hfind] at h
    split_ifs at h
    · cases hpage : newStdPage c answer with
      | mk q c₁ =>
        have hx₁ := newStdPage_freeAt hpage hx
        cases q with
        | none =>
          simp only [hpage] at h
          cases h
          exact hx₁
        | some a =>
          simp only [hpage] at h
          exact takeBlock_freeAt h hx₁ hne
    · cases h
      exact hx

/-! ## Blocks given back -/

variable {ptrs l : List ℕ} {p : ℕ}

/-- The address lies in an area that the context holds. -/
def Context.held (c : Context) (x : ℕ) : Prop := ∃ y ∈ c.areas, y.1 ≤ x ∧ x < y.1 + y.2

instance (c : Context) (x : ℕ) : Decidable (c.held x) :=
  inferInstanceAs (Decidable (∃ y ∈ c.areas, _))

lemma Shrinks.held (h : Shrinks c c') (hx : c'.held x) : c.held x := by
  obtain ⟨y, hy, hin⟩ := hx
  exact ⟨y, h.areas y hy, hin⟩

/-- A block that was freed is marked free, if it still has a header. -/
lemma Holds.freed_mark (h : Holds c B ptrs) (hp : p ∈ ptrs)
    (hrun : buddyFreeBlock c (p - sizeHeader64) = some c') (hheld : c'.held (p - sizeHeader64)) :
    FreeAt c' (p - sizeHeader64) := by
  have hf := h.filled
  obtain ⟨n, hn⟩ := h.inUse p hp
  rcases hn.room with ⟨ha, -⟩ | ⟨hextra, hbase, hinfo⟩
  · rw [hf.buddyFreeBlock_of_mem ha] at hrun
    exact (buddyFreeStd_shrinks hrun).2
  · -- no other area has the address of an extra block
    exfalso
    simp only at hextra hbase hinfo
    rw [buddyFreeBlock, if_pos hbase, Option.some.injEq, freeLargeBlock,
      if_neg (not_not_intro hbase), hinfo] at hrun
    subst hrun
    obtain ⟨y, hy, hle, hlt⟩ := hheld
    have hpos := hf.extra_pos _ hextra
    simp only at hpos
    rcases List.mem_append.mp hy with hy | hy
    · have hd := (List.pairwise_append.mp hf.apart).2.2 y hy _ hextra
      simp only [Apart] at hd
      omega
    · have hd := hf.apart_of_mem_erase hextra hy
      simp only [Apart] at hd
      omega

/-- So are all those that were freed from the list. -/
lemma Holds.drained_mark (h : Holds c B ptrs) (hl : ∀ a ∈ l, a + sizeHeader64 ∈ ptrs)
    (hnd : l.Nodup) (hrun : l.foldlM buddyFreeBlock c = some c') :
    Shrinks c c' ∧ ∀ a ∈ l, c'.held a → FreeAt c' a := by
  induction l generalizing c B ptrs with
  | nil =>
    cases hrun
    exact ⟨.refl _, fun a ha => absurd ha List.not_mem_nil⟩
  | cons a l ih =>
    obtain ⟨hnot, hnd⟩ := List.nodup_cons.mp hnd
    have ha := hl a List.mem_cons_self
    obtain ⟨c₁, B₁, hrun₁, hholds₁, -⟩ := h.free ha
    have hmark := h.freed_mark ha hrun₁
    rw [Nat.add_sub_cancel] at hrun₁ hmark
    have hl₁ : ∀ b ∈ l, b + sizeHeader64 ∈ ptrs.filter (· ≠ a + sizeHeader64) := by
      intro b hb
      have hne : b ≠ a := fun heq => hnot (heq ▸ hb)
      refine List.mem_filter.mpr ⟨hl b (List.mem_cons_of_mem a hb), ?_⟩
      rw [decide_eq_true_eq]
      omega
    rw [List.foldlM_cons, hrun₁] at hrun
    obtain ⟨hshrinks, hmarks⟩ := ih hholds₁ hl₁ hnd hrun
    refine ⟨(buddyFreeBlock_shrinks hrun₁).trans hshrinks, fun b hb hheld => ?_⟩
    rcases List.mem_cons.mp hb with rfl | hb
    · exact hshrinks.freeAt _ (hmark (hshrinks.held hheld))
    · exact hmarks b hb hheld

/-! ## The statistics of a block that is freed -/

/-- The amount of memory in use in pages and the number of extra blocks. -/
def Stats.used (s : Stats) : ℕ × ℕ := (s.stdUsedSpace, s.nbExtraPages)

/-- A move of a thread, or a call of `BuddyFree` with a pointer that was given to it before. -/
inductive Act
  | move (m : Move)
  | again (self ptr : ℕ)

/-- The threads, with what none of them stores: the pointers given to `BuddyFree` whose memory is not
in a block given out since. -/
structure History where
  world : World
  freed : List ℕ := []

/-- The pointer that a move gives to `BuddyFree`. -/
def World.givenBack (w : World) : Move → Option ℕ
  | .ownerFree n => w.ledger.placeOf n
  | .foreignFree _ n => w.ledger.placeOf n
  | _ => none

/-- The pointer that a move gets from `BuddyMalloc`. -/
def World.givenOut (w : World) : Move → Option ℕ
  | .allocate answer => match w.phase with
    | .allocating size => (allocate w.context size answer).bind Prod.fst
    | _ => none
  | _ => none

/-- The block of the pointer `q` has a byte of the header of the pointer `p`. -/
def Context.covers (c : Context) (q p : ℕ) : Prop :=
  q - sizeHeader64 < p ∧ p - sizeHeader64 < q + usable (c.mem (q - sizeHeader64))

instance (c : Context) (q p : ℕ) : Decidable (c.covers q p) := inferInstanceAs (Decidable (_ ∧ _))

/-- What is in memory that the context does not hold is not known, so a header that went back to the
system is none, also if its memory is had again, until one is written there. -/
def Context.forget (c : Context) : Context :=
  { c with mem := fun x => if c.held x then c.mem x else { c.mem x with magicNumber := .other } }

/-- The world `w` is reached; `back` was given to `BuddyFree` and `out` was returned by
`BuddyMalloc`. -/
def History.note (h : History) (w : World) (back out : Option ℕ) : History where
  world := { w with context := w.context.forget }
  freed := (back.toList ++ h.freed).filter fun p => ∀ q ∈ out, ¬ w.context.covers q p

/-- `BuddyFree` with any pointer. The context is cleaned up if it is to be destroyed and the block
was put in its list. -/
def World.buddyFree (w : World) (self ptr : ℕ) : Option World :=
  if w.destroyed then none
  else (BuddyMalloc.buddyFree w.context self ptr).bind fun c =>
    if w.destroyPending ∧ c.toBeFreedList ≠ w.context.toBeFreedList then
      { w with context := c }.cleanup
    else some { w with context := c }

/-- One act. -/
def History.step (h : History) : Act → Option History
  | .move m => (moveStep h.world m).map fun w => h.note w (h.world.givenBack m) (h.world.givenOut m)
  | .again self ptr => (h.world.buddyFree self ptr).map fun w => { h with world := w }

/-- What the threads can do. The system gives memory that is not in use. A block is given to
`BuddyFree` for the first time by a move, and later by any thread; the owner makes one call at a
time. -/
def ActAllowed (h : History) : Act → Prop
  | .move m => MovePossible h.world m
  | .again self ptr =>
    ptr ∈ h.freed ∧ (self = h.world.context.ownerThread → h.world.phase = .idle)

/-- The condition on a pointer that was given to `BuddyFree` before: its block does not wait to be
freed by the owner, and a header is there. -/
def Marked (h : History) (ptr : ℕ) : Prop :=
  ptr - sizeHeader64 ∉ h.world.pending ∧
    (h.world.context.mem (ptr - sizeHeader64)).magicNumber ≠ .other

instance (h : History) (ptr : ℕ) : Decidable (Marked h ptr) := inferInstanceAs (Decidable (_ ∧ _))

/-- The condition on an act. -/
def ActMarked (h : History) : Act → Prop
  | .move _ => True
  | .again _ ptr => Marked h ptr

/-- The lists of free blocks, `ToBeFreed_list` and the statistics are the same. -/
structure Unchanged (c c' : Context) : Prop where
  memDesc : c'.memDesc = c.memDesc
  links : ∀ x, (c'.mem x).nextBlock = (c.mem x).nextBlock ∧ (c'.mem x).prevBlock = (c.mem x).prevBlock
  toBeFreedList : c'.toBeFreedList = c.toBeFreedList
  stats : c'.stats = c.stats

/-- What every act keeps: a pointer given to `BuddyFree` is that of a block that waits, or of one
that is marked free. -/
structure HistoryInv (h : History) : Prop where
  world : h.world.destroyed = false → WorldInv h.world
  freed : h.world.destroyed = false → ∀ p ∈ h.freed, sizeHeader64 ≤ p ∧
    (p - sizeHeader64 ∈ h.world.pending ∨ FreeAt h.world.context (p - sizeHeader64))

variable {h h' : History} {w w' : World} {back out : Option ℕ}

lemma Context.forget_mem (hx : c.held x) : c.forget.mem x = c.mem x := if_pos hx

/-- Memory that is no longer held counts as free. -/
lemma FreeAt.forget (h : c.held x → FreeAt c x) : FreeAt c.forget x := by
  by_cases hx : c.held x
  · rw [FreeAt, Context.forget_mem hx]
    exact h hx
  · have hmem : c.forget.mem x = { c.mem x with magicNumber := .other } := if_neg hx
    rw [FreeAt, hmem]
    exact .inr rfl

/-- The pages that are not followed any more do not matter to the blocks. -/
lemma Holds.forget (h : Holds c B ptrs) : Holds c.forget B ptrs := by
  have hB : ∀ x ∈ B, c.held x := by
    intro x hx
    have hok := h.ready.tiled.block x hx
    have hle := hok.le
    have hfits := hok.fits
    have hpos := (c.mem x).size_pos
    simp only [Context.setToBeFreed] at hle hfits
    refine ⟨_, List.mem_append_left _ (List.mem_map_of_mem hok.page), hle, ?_⟩
    simp only
    exact Nat.lt_of_lt_of_le (Nat.lt_add_of_pos_right hpos) hfits
  refine h.setMem (fun x hx => Context.forget_mem (hB x hx)) fun q hq => Context.forget_mem ?_
  obtain ⟨n, hn⟩ := h.inUse q hq
  rcases hn.room with ⟨ha, -⟩ | ⟨hextra, -⟩
  · exact hB _ ha
  · refine ⟨_, List.mem_append_right _ hextra, Nat.le_refl _, ?_⟩
    rw [sizeHeader64]
    omega

lemma WorldInv.forget (hw : WorldInv w) : WorldInv { w with context := w.context.forget } := by
  obtain ⟨B, hholds⟩ := hw.holds
  exact ⟨⟨B, hholds.forget⟩, hw.ledger, hw.destroyed⟩

/-- A step keeps the invariant if it leaves the marks of the pointers that were given back. -/
lemma HistoryInv.note (hinv : HistoryInv h) (hlive : h.world.destroyed = false)
    (hworld : w.destroyed = false → WorldInv w) (hback : ∀ p ∈ back, sizeHeader64 ≤ p)
    (hmarks : w.destroyed = false → ∀ p, sizeHeader64 ≤ p → (p ∈ back ∨ p - sizeHeader64 ∈ h.world.pending ∨
        FreeAt h.world.context (p - sizeHeader64)) →
      (∀ q ∈ out, ¬ w.context.covers q p) → w.context.held (p - sizeHeader64) →
      p - sizeHeader64 ∈ w.pending ∨ FreeAt w.context (p - sizeHeader64)) :
    HistoryInv (h.note w back out) := by
  refine ⟨fun hd => (hworld hd).forget, fun hd p hp => ?_⟩
  obtain ⟨hmem, hcovers⟩ := List.mem_filter.mp hp
  rw [decide_eq_true_eq] at hcovers
  have hstart : sizeHeader64 ≤ p ∧ (p ∈ back ∨ p - sizeHeader64 ∈ h.world.pending ∨
      FreeAt h.world.context (p - sizeHeader64)) := by
    rcases List.mem_append.mp hmem with hmem | hmem
    · have hmem := Option.mem_toList.mp hmem
      exact ⟨hback p hmem, .inl hmem⟩
    · obtain ⟨hheader, hmark⟩ := hinv.freed hlive p hmem
      exact ⟨hheader, .inr hmark⟩
  refine ⟨hstart.1, ?_⟩
  by_cases hpending : p - sizeHeader64 ∈ w.pending
  · exact .inl hpending
  · refine .inr (FreeAt.forget fun hheld => ?_)
    exact (hmarks hd p hstart.1 hstart.2 hcovers hheld).resolve_left hpending

lemma Holds.marks (hh : Holds c B ptrs) (hp : p ∈ ptrs)
    (hrun : buddyFreeBlock c (p - sizeHeader64) = some c')
    (hx : x = p - sizeHeader64 ∨ FreeAt c x) (hheld : c'.held x) : FreeAt c' x := by
  rcases hx with rfl | hx
  · exact hh.freed_mark hp hrun hheld
  · exact (buddyFreeBlock_shrinks hrun).freeAt x hx

/-- The clean-up of a destroyed allocator leaves the marks. -/
lemma WorldInv.cleanup_marks (hw : WorldInv w) (hlive : w.destroyed = false)
    (hrun : w.cleanup = some w') :
    (w'.destroyed = false → WorldInv w') ∧ w'.context.toBeFreedList = [] ∧
      ∀ x, (x ∈ w.pending ∨ FreeAt w.context x) → w'.context.held x →
        x ∈ w'.pending ∨ FreeAt w'.context x := by
  obtain ⟨B, hholds⟩ := hw.holds
  obtain ⟨c₁, c₂, B₂, hcheck, hrelease, -, -, hsame, hinv⟩ := hw.cleanup_run
  have hlist : c₂.toBeFreedList = [] := hsame.toBeFreedList
  have hok : w.ledger.Ok (w.context.toBeFreedList.map (· + sizeHeader64) ++
      w.phase.taken.map (· + sizeHeader64)) := by
    have hok := hw.ledger
    rw [World.pending, List.map_append] at hok
    exact hok
  -- what waits to be freed has not been given back yet
  have hpresent : ∀ a ∈ w.context.toBeFreedList, a + sizeHeader64 ∈ w.ledger.out.map Prod.snd :=
    fun a ha => hok.present _ (List.mem_append_left _ (List.mem_map_of_mem ha))
  obtain ⟨hdrained, hfreed⟩ := (hholds.setToBeFreed (l := [])).drained_mark hpresent
    (((List.nodup_append.mp hok.waiting).1).of_map _) hcheck
  have hreleased := releasePages_shrinks hrelease
  -- a mark that is left lies in memory that is still held
  have hmarks : ∀ x, (x ∈ w.pending ∨ FreeAt w.context x) → c₂.held x →
      x ∈ w.phase.taken ∨ FreeAt c₂ x := by
    rintro x (hx | hx) hheld
    · rcases List.mem_append.mp hx with hx | hx
      · exact .inr (hreleased.freeAt x (hfreed x hx (hreleased.held hheld)))
      · exact .inl hx
    · exact .inr (hreleased.freeAt x (hdrained.freeAt x hx))
  rw [cleanup_eq hcheck hrelease, Option.some.injEq] at hrun
  split_ifs at hrun
  · subst hrun
    refine ⟨fun _ => hinv true w.destroyed fun hd => ?_, hlist, fun x hx hheld => ?_⟩
    · rw [hlive] at hd
      cases hd
    · rw [World.pending, hlist]
      exact hmarks x hx hheld
  · subst hrun
    refine ⟨fun hd => ?_, hlist, fun x hx hheld => ?_⟩
    · cases hd
    · rw [World.pending, hlist]
      exact hmarks x hx hheld

/-- A request that comes back with its answer. -/
lemma WorldInv.request {q : Option ℕ} (hw : WorldInv w) (hphase : w.phase = .allocating size)
    (hsize : size < 2 ^ 64) (hfresh : Fresh w.context size answer)
    (hrun : BuddyMalloc.allocate w.context size answer = some (q, c)) (hlive : w.destroyed = false) :
    WorldInv { w with context := c, phase := .idle, ledger := q.elim w.ledger w.ledger.give } ∧
      c.toBeFreedList = w.context.toBeFreedList := by
  obtain ⟨B, hholds⟩ := hw.holds
  have hsound : Sound w.context size answer := by
    refine hholds.sound hfresh ?_
    rw [hrun]
    exact Option.some_ne_none _
  obtain ⟨q', c', hrun', hkept⟩ := hw.allocate hlive hphase hsize hfresh hsound
  rw [hrun, Option.some.injEq, Prod.mk.injEq] at hrun'
  obtain ⟨rfl, rfl⟩ := hrun'
  exact hkept

variable {m : Move}

lemma WorldInv.of_moveStep (hw : WorldInv w) (hpossible : MovePossible w m) (hshows : MoveShows w m)
    (hs : moveStep w m = some w') : WorldInv w' := by
  obtain ⟨hlive, henabled⟩ := enabled_of_moveStep hs
  obtain ⟨w'', hrun, hinv⟩ := hw.step hlive henabled hpossible hshows
  rw [hs, Option.some.injEq] at hrun
  exact hrun ▸ hinv

/-- A block from the list is freed: its mark is `pending` before and `FREE` after it. -/
lemma HistoryInv.freeTaken (hinv : HistoryInv h) (hs : moveStep h.world .freeTaken = some w) :
    HistoryInv (h.note w none none) := by
  have hlive := (enabled_of_moveStep hs).1
  have hw := hinv.world hlive
  obtain ⟨-, size, a, hphase⟩ := enabled_of_moveStep hs
  have hworld := hw.of_moveStep (m := .freeTaken) trivial trivial hs
  obtain ⟨B, hholds⟩ := hw.holds
  have hnot : ¬ h.world.destroyed = true := Bool.eq_false_iff.mp hlive
  simp only [moveStep, if_neg hnot, hphase, Option.map_eq_some_iff] at hs
  obtain ⟨c, hrun, rfl⟩ := hs
  have hpending : h.world.pending = h.world.context.toBeFreedList ++ [a] := by
    rw [World.pending, hphase]
    rfl
  have hmem : a + sizeHeader64 ∈ h.world.ledger.out.map Prod.snd := by
    refine hw.ledger.present _ (List.mem_map_of_mem ?_)
    rw [hpending]
    exact List.mem_append_right _ List.mem_cons_self
  have hrun' : buddyFreeBlock h.world.context (a + sizeHeader64 - sizeHeader64) = some c := by
    rw [Nat.add_sub_cancel]
    exact hrun
  refine hinv.note hlive (fun _ => hworld) (fun p hp => by cases hp) fun _ p _ hx _ hheld => ?_
  rcases hx with hx | hx | hx
  · cases hx
  · rw [hpending] at hx
    rcases List.mem_append.mp hx with hx | hx
    · left
      rw [World.pending]
      simp only [(buddyFreeBlock_shrinks hrun).toBeFreedList]
      exact List.mem_append_left _ hx
    · rw [List.mem_singleton] at hx
      refine .inr (hholds.marks hmem hrun' (.inl ?_) hheld)
      rw [Nat.add_sub_cancel]
      exact hx
  · exact .inr (hholds.marks hmem hrun' (.inr hx) hheld)

/-- A pointer that is given out is not a stale one any more. -/
lemma HistoryInv.allocate (hinv : HistoryInv h) (hallowed : ActAllowed h (.move (.allocate answer)))
    (hs : moveStep h.world (.allocate answer) = some w) :
    HistoryInv (h.note w none (h.world.givenOut (.allocate answer))) := by
  have hlive := (enabled_of_moveStep hs).1
  have hw := hinv.world hlive
  have hnot : ¬ h.world.destroyed = true := Bool.eq_false_iff.mp hlive
  rw [moveStep.eq_def, if_neg hnot] at hs
  cases hphase : h.world.phase with
  | idle => simp [hphase] at hs
  | checking size => simp [hphase] at hs
  | freeing size a => simp [hphase] at hs
  | allocating size =>
    rw [ActAllowed, MovePossible, hphase] at hallowed
    simp only [hphase, Option.map_eq_some_iff] at hs
    obtain ⟨⟨q, c⟩, hrun, rfl⟩ := hs
    have hout : h.world.givenOut (.allocate answer) = q := by
      simp only [World.givenOut, hphase, hrun]
      rfl
    obtain ⟨hworld, hlist⟩ := hw.request hphase hallowed.1 hallowed.2 hrun hlive
    rw [hout]
    refine hinv.note hlive (fun _ => hworld) (fun p hp => by cases hp) fun _ p hp hx hcovers _ => ?_
    rcases hx with hx | hx | hx
    · cases hx
    · left
      rw [World.pending, hphase] at hx
      rw [World.pending]
      simp only [hlist]
      exact hx
    · refine .inr (allocate_freeAt hrun hx fun hmem => ?_)
      rw [Nat.sub_add_cancel hp] at hmem
      refine hcovers p hmem ⟨?_, ?_⟩
      · rw [sizeHeader64] at hp ⊢
        omega
      · rw [sizeHeader64] at hp ⊢
        omega

/-- The owner gives a pointer back, which is stale from now on. -/
lemma HistoryInv.ownerFree {n : ℕ} (hinv : HistoryInv h)
    (hallowed : ActAllowed h (.move (.ownerFree n)))
    (hs : moveStep h.world (.ownerFree n) = some w) :
    HistoryInv (h.note w (h.world.ledger.placeOf n) none) := by
  have hlive := (enabled_of_moveStep hs).1
  have hw := hinv.world hlive
  obtain ⟨-, hphase, hsome⟩ := enabled_of_moveStep hs
  have hworld := hw.of_moveStep (m := .ownerFree n) hallowed trivial hs
  obtain ⟨ptr, hptr⟩ := Option.isSome_iff_exists.mp hsome
  obtain ⟨B, hholds⟩ := hw.holds
  have hmem : ptr ∈ h.world.ledger.out.map Prod.snd :=
    List.mem_map.mpr ⟨_, Ledger.placeOf_mem hptr, rfl⟩
  have hnot : ¬ h.world.destroyed = true := Bool.eq_false_iff.mp hlive
  simp only [moveStep, if_neg hnot, hphase, hptr, Option.map_eq_some_iff] at hs
  obtain ⟨c, hrun, rfl⟩ := hs
  obtain ⟨k, hk⟩ := hholds.inUse ptr hmem
  have hfree := hk.buddyFree_eq hholds.ready.initialized h.world.context.ownerThread
  rw [if_neg (not_not_intro rfl)] at hfree
  have hrun' : buddyFreeBlock h.world.context (ptr - sizeHeader64) = some c := hfree.symm.trans hrun
  rw [hptr]
  refine hinv.note hlive (fun _ => hworld) (fun p hp => ?_) fun _ p _ hx _ hheld => ?_
  · cases hp
    exact hholds.header hmem
  · rcases hx with hx | hx | hx
    · cases hx
      exact .inr (hholds.marks hmem hrun' (.inl rfl) hheld)
    · left
      rw [World.pending, hphase] at hx
      rw [World.pending]
      simp only [(buddyFreeBlock_shrinks hrun').toBeFreedList]
      exact hx
    · exact .inr (hholds.marks hmem hrun' (.inr hx) hheld)

variable {self : ℕ}

/-- Another thread does, and the block waits in the list. -/
lemma HistoryInv.foreignFree {n : ℕ} (hinv : HistoryInv h)
    (hallowed : ActAllowed h (.move (.foreignFree self n)))
    (hs : moveStep h.world (.foreignFree self n) = some w) :
    HistoryInv (h.note w (h.world.ledger.placeOf n) none) := by
  have hlive := (enabled_of_moveStep hs).1
  have hw := hinv.world hlive
  obtain ⟨-, hself, hsome⟩ := enabled_of_moveStep hs
  obtain ⟨ptr, hptr⟩ := Option.isSome_iff_exists.mp hsome
  have hnot : ¬ h.world.destroyed = true := Bool.eq_false_iff.mp hlive
  obtain ⟨hrun, hheader, hpush⟩ := hw.push hptr hself hallowed
  simp only [moveStep, if_neg hnot, hptr, if_neg hself, hrun, Option.bind_some] at hs
  -- the block waits now, and all that waited
  set w₁ : World := { h.world with
    context := h.world.context.setToBeFreed
      ((ptr - sizeHeader64) :: h.world.context.toBeFreedList)
    ledger := h.world.ledger.giveBack n } with hw₁
  have hpending : w₁.pending = (ptr - sizeHeader64) :: h.world.pending := rfl
  have hwaits : ∀ x, (x = ptr - sizeHeader64 ∨ x ∈ h.world.pending ∨ FreeAt h.world.context x) →
      x ∈ w₁.pending ∨ FreeAt w₁.context x := by
    rintro x (rfl | hx | hx)
    · exact .inl List.mem_cons_self
    · exact .inl (List.mem_cons_of_mem _ hx)
    · exact .inr hx
  rw [hptr]
  by_cases hpend : h.world.destroyPending = true
  · rw [if_pos hpend] at hs
    obtain ⟨hworld, -, hmarks⟩ := hpush.cleanup_marks hlive hs
    refine hinv.note hlive hworld (fun p hp => ?_) fun _ p _ hx _ hheld => ?_
    · cases hp
      exact hheader
    · refine hmarks _ (hwaits _ ?_) hheld
      exact hx.imp (fun hx => by cases hx; rfl) id
  · rw [if_neg hpend] at hs
    cases hs
    refine hinv.note hlive (fun _ => hpush) (fun p hp => ?_) fun _ p _ hx _ _ => ?_
    · cases hp
      exact hheader
    · refine hwaits _ ?_
      exact hx.imp (fun hx => by cases hx; rfl) id

/-- Every move keeps the invariant. -/
lemma HistoryInv.move (hinv : HistoryInv h) (hallowed : ActAllowed h (.move m))
    (hs : moveStep h.world m = some w) : HistoryInv (h.note w (h.world.givenBack m) (h.world.givenOut m)) := by
  have hlive := (enabled_of_moveStep hs).1
  have hw := hinv.world hlive
  have hnot : ¬ h.world.destroyed = true := Bool.eq_false_iff.mp hlive
  cases m with
  | malloc size =>
    have hworld := hw.of_moveStep (m := .malloc size) trivial trivial hs
    obtain ⟨-, hphase⟩ := enabled_of_moveStep hs
    have hphase : h.world.phase = .idle := hphase
    simp only [moveStep, if_neg hnot, hphase] at hs
    cases hs
    refine hinv.note hlive (fun _ => hworld) (fun p hp => by cases hp) fun _ p _ hx _ _ => ?_
    rcases hx with hx | hx | hx
    · cases hx
    · rw [World.pending, hphase] at hx
      exact .inl hx
    · exact .inr hx
  | check =>
    have hworld := hw.of_moveStep (m := .check) trivial trivial hs
    obtain ⟨-, size, hphase⟩ := enabled_of_moveStep hs
    cases hlist : h.world.context.toBeFreedList with
    | nil =>
      simp only [moveStep, if_neg hnot, hphase, hlist] at hs
      cases hs
      refine hinv.note hlive (fun _ => hworld) (fun p hp => by cases hp) fun _ p _ hx _ _ => ?_
      rcases hx with hx | hx | hx
      · cases hx
      · rw [World.pending, hphase] at hx
        exact .inl hx
      · exact .inr hx
    | cons a l =>
      simp only [moveStep, if_neg hnot, hphase, hlist] at hs
      cases hs
      refine hinv.note hlive (fun _ => hworld) (fun p hp => by cases hp) fun _ p _ hx _ _ => ?_
      rcases hx with hx | hx | hx
      · cases hx
      · left
        rw [World.pending, hphase, hlist] at hx
        have hx : p - sizeHeader64 ∈ a :: l := (List.append_nil (a :: l)) ▸ hx
        rcases List.mem_cons.mp hx with hx | hx
        · exact List.mem_append_right _ (List.mem_singleton.mpr hx)
        · exact List.mem_append_left _ hx
      · exact .inr hx
  | freeTaken => exact hinv.freeTaken hs
  | allocate answer => exact hinv.allocate hallowed hs
  | ownerFree n => exact hinv.ownerFree hallowed hs
  | foreignFree self n => exact hinv.foreignFree hallowed hs
  | destroy =>
    obtain ⟨-, hphase⟩ := enabled_of_moveStep hs
    have hphase : h.world.phase = .idle := hphase
    simp only [moveStep, if_neg hnot, hphase] at hs
    obtain ⟨hworld, -, hmarks⟩ := hw.cleanup_marks hlive hs
    refine hinv.note hlive hworld (fun p hp => by cases hp) fun _ p _ hx _ hheld => ?_
    rcases hx with hx | hx
    · cases hx
    · exact hmarks _ hx hheld

/-! ## A further BuddyFree -/

variable {ptr : ℕ}

/-- A second free of a block that is marked free is refused. -/
lemma HistoryInv.again_of_marked (hinv : HistoryInv h) (hlive : h.world.destroyed = false)
    (hmem : ptr ∈ h.freed) (hmarked : Marked h ptr) : h.step (.again self ptr) = some h := by
  have hw := hinv.world hlive
  obtain ⟨B, hholds⟩ := hw.holds
  obtain ⟨hheader, hmark⟩ := hinv.freed hlive ptr hmem
  obtain ⟨hstatus, hmagic⟩ := (hmark.resolve_left hmarked.1).resolve_right hmarked.2
  have hzero : ptr ≠ 0 := by
    rw [sizeHeader64] at hheader
    omega
  have hinit : h.world.context.initialized = true := hholds.ready.initialized
  have hfree : BuddyMalloc.buddyFree h.world.context self ptr = some h.world.context := by
    rw [BuddyMalloc.buddyFree, if_neg hzero, if_neg (not_not_intro hinit)]
    simp only [hstatus, hmagic]
  have hnot : ¬ h.world.destroyed = true := Bool.eq_false_iff.mp hlive
  rw [History.step, World.buddyFree, if_neg hnot, hfree, Option.bind_some, if_neg]
  · rfl
  · exact fun hpush => hpush.2 rfl

/-- A block is put in the list. -/
def World.push (w : World) (a : ℕ) : World :=
  { w with context := w.context.setToBeFreed (a :: w.context.toBeFreedList) }

/-- An act that meets the condition keeps the invariant. -/
theorem HistoryInv.step {e : Act} (hinv : HistoryInv h) (hallowed : ActAllowed h e)
    (hmarked : ActMarked h e) (hs : h.step e = some h') : HistoryInv h' := by
  cases e with
  | move m =>
    obtain ⟨w, hrun, rfl⟩ := Option.map_eq_some_iff.mp hs
    exact hinv.move hallowed hrun
  | again self ptr =>
    by_cases hlive : h.world.destroyed = false
    · rw [hinv.again_of_marked hlive hallowed.1 hmarked, Option.some.injEq] at hs
      exact hs ▸ hinv
    · rw [History.step, World.buddyFree, if_pos (Bool.eq_true_of_not_eq_false hlive)] at hs
      cases hs

/-- It holds after `BuddyInit`. -/
lemma HistoryInv.init {config : Config} {mem : ℕ → BuddyBlock} (harea : config.memoryAreaSize ≤ 2 ^ 30)
    (hpos : ∀ a ∈ answer, 0 < a) (hinit : (buddyInit config self mem answer).1 = .success) :
    HistoryInv ⟨{ context := (buddyInit config self mem answer).2 }, []⟩ := by
  obtain ⟨B, hsole⟩ := Sole.init harea hpos hinit
  have hlist : (buddyInit config self mem answer).2.toBeFreedList = [] := hsole.ready.toBeFreedList
  refine ⟨fun _ => ⟨⟨B, hsole.holds⟩, ?_, fun hd => nomatch hd⟩,
    fun _ p hp => absurd hp List.not_mem_nil⟩
  have hpending : World.pending { context := (buddyInit config self mem answer).2 } = [] := by
    rw [World.pending, hlist]
    rfl
  rw [hpending]
  exact ⟨List.nodup_nil, .refl _, List.nodup_nil, List.nodup_nil,
    fun p hp => absurd hp List.not_mem_nil, .refl _⟩

instance (h : History) : ∀ e, Decidable (ActAllowed h e)
  | .move m => inferInstanceAs (Decidable (MovePossible h.world m))
  | .again _ _ => instDecidableAnd

instance (h : History) : ∀ e, Decidable (ActMarked h e)
  | .move _ => instDecidableTrue
  | .again _ ptr => inferInstanceAs (Decidable (Marked h ptr))

end Ganesha.BuddyMalloc
