import Ganesha.Library.Ledger
import Ganesha.BuddyMalloc.Common

/-!
# Blocks freed by other threads

A context with its owner and the other threads that hold its blocks. A block freed by another thread
is put in `ToBeFreed_list`; the owner takes the blocks out one by one when it next calls
`BuddyMalloc`, and `TryContextCleanup` takes out all that are there. Between two sections that hold
`ToBeFreed_mutex` any other thread may move.
-/

namespace Ganesha.BuddyMalloc
open Library

/-! ## Cleanup -/

/-- What `TryContextCleanup` returns: `BUDDY_SUCCESS`, `BUDDY_ERR_INUSE` or `BUDDY_ERR_EFAULT`. -/
inductive Cleanup
  | success
  | inUse
  | efault
  deriving DecidableEq

/-- A page that is one free block goes back with `free`. -/
def releasePage (c : Context) (a : ℕ) : Context :=
  let c := removeFreeBlock c a
  { c with pages := c.pages.erase a }.count updateStatsRemoveStdPage

/-- The loop of `TryContextCleanup` that frees whole pages. The flag tells whether the blocks were
pages. -/
def releasePages : ℕ → Context → Option (Bool × Context)
  | 0, _ => none
  | fuel + 1, c =>
    match c.memDesc c.kSize with
    | none => some (true, c)
    | some a =>
      if (c.mem a).basePtr ≠ a ∨ (c.mem a).baseKSize ≠ (c.mem a).kSize then some (false, c)
      else releasePages fuel (releasePage c a)

/-- `TryContextCleanup`. The context is not used if all lists of free blocks are empty. -/
def tryContextCleanup (c : Context) : Option (Cleanup × Context) :=
  (checkBlocksToBeFreed c).bind fun c =>
    (releasePages (c.pages.length + 1) c).map fun (ok, c) =>
      if ¬ ok then (.efault, c)
      else if (List.range buddyMaxLog2Size).any fun i => (c.memDesc i).isSome then (.inUse, c)
      else (.success, c)

/-- `BuddyMalloc` after `CheckBlocksToBeFreed`. -/
def allocate (c : Context) (size : ℕ) (answer : Option ℕ) : Option (Option ℕ × Context) :=
  if size = 0 then some (none, c)
  else
    let sizelog2 := sizeLog2 size
    if intShiftLeft sizelog2 > 2 ^ c.kSize then
      if c.config.extraAlloc then some (allocLargeBlock c size answer)
      else some (none, { c with errno := .outOfMem })
    else match findFree c sizelog2 with
      | some a => takeBlock c sizelog2 a
      | none =>
        if c.config.onDemandAlloc then
          match newStdPage c answer with
          | (some a, c) => takeBlock c sizelog2 a
          | (none, c) => some (none, { c with errno := .malloc })
        else some (none, { c with errno := .outOfMem })

lemma buddyMalloc_eq (c : Context) (size : ℕ) (answer : Option ℕ) :
    buddyMalloc c size answer = if ¬ c.initialized then some (none, { c with errno := .notInit })
      else (checkBlocksToBeFreed c).bind fun c => allocate c size answer := rfl

/-! ## Threads -/

/-- Where the owner is in `BuddyMalloc`: about to look at `ToBeFreed_list`, with a block that it has
taken from there, or past the loop. -/
inductive Phase
  | idle
  | checking (size : ℕ)
  | freeing (size a : ℕ)
  | allocating (size : ℕ)
  deriving DecidableEq

/-- The block that the owner has taken from `ToBeFreed_list`. -/
def Phase.taken : Phase → List ℕ
  | .freeing _ a => [a]
  | _ => []

/-- A context among its threads. `ledger` counts what no thread stores: the blocks given out, as
pointers, those given to `BuddyFree` and those given to `__BuddyFree`. -/
structure World where
  context : Context
  destroyPending : Bool := false
  destroyed : Bool := false
  phase : Phase := .idle
  ledger : Ledger ℕ := {}

/-- The blocks given to `BuddyFree` and not yet to `__BuddyFree`. -/
def World.pending (w : World) : List ℕ := w.context.toBeFreedList ++ w.phase.taken

/-- `TryContextCleanup` by the thread that holds `ToBeFreed_mutex`. -/
def World.cleanup (w : World) : Option World :=
  (tryContextCleanup w.context).map fun (result, c) =>
    let ledger :=
      (w.context.toBeFreedList.map (· + sizeHeader64)).foldl Ledger.takeBack w.ledger
    let w := { w with context := c, ledger := ledger }
    match result with
    | .success => { w with destroyed := true }
    | .inUse => { w with destroyPending := true }
    | .efault => w

/-- The moves of the threads. Blocks are named by their numbers. -/
inductive Move
  /-- The owner calls `BuddyMalloc`. -/
  | malloc (size : ℕ)
  /-- The owner looks at `ToBeFreed_list`. -/
  | check
  /-- The owner calls `__BuddyFree` with the block that it has taken. -/
  | freeTaken
  /-- The owner ends the call; `answer` is what `malloc` returns if it is called. -/
  | allocate (answer : Option ℕ)
  /-- The owner calls `BuddyFree`. -/
  | ownerFree (n : ℕ)
  /-- The thread `self`, which is not the owner, calls `BuddyFree`. -/
  | foreignFree (self n : ℕ)
  /-- The owner calls `BuddyDestroy`. -/
  | destroy

/-- One move. No thread can use a context that is destroyed. -/
def moveStep (w : World) (m : Move) : Option World :=
  if w.destroyed then none
  else match m with
  | .malloc size => match w.phase with
    | .idle => some { w with phase := .checking size }
    | _ => none
  | .check => match w.phase, w.context.toBeFreedList with
    | .checking size, [] => some { w with phase := .allocating size }
    | .checking size, a :: l =>
      some { w with context := { w.context with toBeFreedList := l }, phase := .freeing size a }
    | _, _ => none
  | .freeTaken => match w.phase with
    | .freeing size a => (buddyFreeBlock w.context a).map fun c =>
      { w with
        context := c
        phase := .checking size
        ledger := w.ledger.takeBack (a + sizeHeader64) }
    | _ => none
  | .allocate answer => match w.phase with
    | .allocating size => (allocate w.context size answer).map fun (p, c) =>
      { w with
        context := c
        phase := .idle
        ledger := p.elim w.ledger w.ledger.give }
    | _ => none
  | .ownerFree n => match w.phase, w.ledger.placeOf n with
    | .idle, some ptr => (buddyFree w.context w.context.ownerThread ptr).map fun c =>
      { w with context := c, ledger := (w.ledger.giveBack n).takeBack ptr }
    | _, _ => none
  | .foreignFree self n => match w.ledger.placeOf n with
    | some ptr =>
      if self = w.context.ownerThread then none
      else (buddyFree w.context self ptr).bind fun c =>
        let w := { w with context := c, ledger := w.ledger.giveBack n }
        if w.destroyPending then w.cleanup else some w
    | none => none
  | .destroy => match w.phase with
    | .idle => w.cleanup
    | _ => none

/-! ## The list is out of the way -/

/-- The context with another list of blocks to be freed. -/
def Context.setToBeFreed (c : Context) (l : List ℕ) : Context := { c with toBeFreedList := l }

variable {c : Context} {l : List ℕ} {a : ℕ}

lemma setToBeFreed_mem : (c.setToBeFreed l).mem = c.mem := rfl

lemma setToBeFreed_config : (c.setToBeFreed l).config = c.config := rfl

lemma modify_setToBeFreed (f : BuddyBlock → BuddyBlock) :
    (c.setToBeFreed l).modify a f = (c.modify a f).setToBeFreed l := rfl

lemma count_setToBeFreed (f : Stats → Stats) :
    (c.setToBeFreed l).count f = (c.count f).setToBeFreed l := rfl

lemma isWholePage_setToBeFreed : (c.setToBeFreed l).isWholePage a = c.isWholePage a := rfl

lemma getBuddyBlock_setToBeFreed : getBuddyBlock (c.setToBeFreed l) a = getBuddyBlock c a := rfl

lemma insertFreeBlock_setToBeFreed :
    insertFreeBlock (c.setToBeFreed l) a = (insertFreeBlock c a).setToBeFreed l := by
  simp only [insertFreeBlock, Context.setToBeFreed]
  cases c.memDesc (c.mem a).kSize with
  | none => rfl
  | some next => rfl

lemma removeFreeBlock_setToBeFreed :
    removeFreeBlock (c.setToBeFreed l) a = (removeFreeBlock c a).setToBeFreed l := by
  simp only [removeFreeBlock, Context.setToBeFreed]
  cases (c.mem a).prevBlock with
  | none => cases (c.mem a).nextBlock <;> rfl
  | some prev => cases (c.mem a).nextBlock <;> rfl

/-- Merging does not look at the list of other threads. -/
lemma mergeLoop_setToBeFreed {fuel : ℕ} :
    mergeLoop fuel (c.setToBeFreed l) a =
      (mergeLoop fuel c a).map fun x => (x.1.setToBeFreed l, x.2) := by
  induction fuel generalizing c a with
  | zero => rfl
  | succ fuel ih =>
    simp only [mergeLoop, setToBeFreed_mem, getBuddyBlock_setToBeFreed,
      removeFreeBlock_setToBeFreed, modify_setToBeFreed]
    by_cases hk : (c.mem a).kSize < (c.mem a).baseKSize
    · rw [if_pos hk, if_pos hk]
      by_cases hstop : (c.mem (getBuddyBlock c a)).status = .reserved ∨
          (c.mem (getBuddyBlock c a)).kSize ≠ (c.mem a).kSize
      · rw [if_pos hstop, if_pos hstop]
        rfl
      · rw [if_neg hstop, if_neg hstop]
        exact ih
    · rw [if_neg hk, if_neg hk]
      rfl

/-- Collecting pages does not look at the list. -/
lemma garbageStdPages_setToBeFreed :
    garbageStdPages (c.setToBeFreed l) a = (garbageStdPages c a).setToBeFreed l := by
  have hstats : (c.setToBeFreed l).stats = c.stats := rfl
  simp only [garbageStdPages, setToBeFreed_config, hstats, removeFreeBlock_setToBeFreed]
  split_ifs
  · rfl
  · rfl
  · rfl
  · rfl

/-- Freeing a large block does not look at the list. -/
lemma freeLargeBlock_setToBeFreed :
    freeLargeBlock (c.setToBeFreed l) a = (freeLargeBlock c a).setToBeFreed l := by
  rw [freeLargeBlock, freeLargeBlock, setToBeFreed_mem]
  by_cases hbase : (c.mem a).basePtr ≠ 0
  · rw [if_pos hbase, if_pos hbase]
  · rw [if_neg hbase, if_neg hbase]
    set c₁ : Context := { c with extras := c.extras.erase (a, (c.mem a).extraInfo) }
    exact count_setToBeFreed (c := c₁) _

/-- `__BuddyFree` does not look at `ToBeFreed_list`. -/
theorem buddyFreeBlock_setToBeFreed :
    buddyFreeBlock (c.setToBeFreed l) a =
      (buddyFreeBlock c a).map fun c' => c'.setToBeFreed l := by
  have hstd : buddyFreeStd (c.setToBeFreed l) a =
      (buddyFreeStd c a).map fun c' => c'.setToBeFreed l := by
    simp only [buddyFreeStd, modify_setToBeFreed, count_setToBeFreed, setToBeFreed_mem,
      mergeLoop_setToBeFreed, Option.map_map]
    refine congrArg (fun f => Option.map f _) ?_
    funext x
    rw [Function.comp_apply, Function.comp_apply, insertFreeBlock_setToBeFreed,
      isWholePage_setToBeFreed, count_setToBeFreed, setToBeFreed_config,
      garbageStdPages_setToBeFreed]
    split_ifs
    · rfl
    · rfl
    · rfl
  simp only [buddyFreeBlock]
  by_cases hbase : (c.mem a).basePtr = 0
  · have hbase' : ((c.setToBeFreed l).mem a).basePtr = 0 := hbase
    rw [if_pos hbase', if_pos hbase, freeLargeBlock_setToBeFreed, Option.map_some]
  have hbase' : ¬ ((c.setToBeFreed l).mem a).basePtr = 0 := hbase
  rw [if_neg hbase', if_neg hbase]
  by_cases hout : a < (c.mem a).basePtr ∨ a > (c.mem a).basePtr + intShiftLeft (c.mem a).baseKSize
  · rw [if_pos hout]
    exact if_pos hout
  · rw [if_neg hout]
    exact (if_neg hout).trans hstd

/-- Splitting does not look at the blocks to be freed. -/
lemma splitLoop_setToBeFreed {sizelog2 fuel : ℕ} :
    splitLoop sizelog2 fuel (c.setToBeFreed l) a =
      (splitLoop sizelog2 fuel c a).map fun c' => c'.setToBeFreed l := by
  induction fuel generalizing c with
  | zero => rfl
  | succ fuel ih =>
    simp only [splitLoop, setToBeFreed_mem, modify_setToBeFreed, getBuddyBlock_setToBeFreed,
      insertFreeBlock_setToBeFreed]
    split_ifs
    · rfl
    · exact ih
    · rfl

lemma takeBlock_setToBeFreed {sizelog2 : ℕ} :
    takeBlock (c.setToBeFreed l) sizelog2 a =
      (takeBlock c sizelog2 a).map fun x => (x.1, x.2.setToBeFreed l) := by
  have hite : ∀ (b : Bool) (c c' : Context), (if b then c.setToBeFreed l else c'.setToBeFreed l) =
      (if b then c else c').setToBeFreed l := fun b c c' => by cases b <;> rfl
  simp only [takeBlock, removeFreeBlock_setToBeFreed, isWholePage_setToBeFreed, count_setToBeFreed,
    hite, setToBeFreed_mem, splitLoop_setToBeFreed, Option.map_map]
  rfl

/-- Nor does `BuddyMalloc` once its loop has ended. -/
theorem allocate_setToBeFreed {size : ℕ} {answer : Option ℕ} :
    allocate (c.setToBeFreed l) size answer =
      (allocate c size answer).map fun x => (x.1, x.2.setToBeFreed l) := by
  have hpage : newStdPage (c.setToBeFreed l) answer =
      ((newStdPage c answer).1, (newStdPage c answer).2.setToBeFreed l) := by
    cases answer with
    | none => rfl
    | some a =>
      set c₁ : Context := { c with pages := a :: c.pages }
      have hadd : { c.setToBeFreed l with pages := a :: (c.setToBeFreed l).pages } =
          c₁.setToBeFreed l := rfl
      simp only [newStdPage, hadd, modify_setToBeFreed, insertFreeBlock_setToBeFreed,
        count_setToBeFreed]
      rfl
  -- a large block does not touch the list
  have hlarge : allocLargeBlock (c.setToBeFreed l) size answer =
      ((allocLargeBlock c size answer).1, (allocLargeBlock c size answer).2.setToBeFreed l) := by
    simp only [allocLargeBlock]
    by_cases hextra : c.config.extraAlloc = true
    · have hextra' : (c.setToBeFreed l).config.extraAlloc = true := hextra
      rw [if_neg (not_not_intro hextra'), if_neg (not_not_intro hextra)]
      cases answer <;> rfl
    · have hextra' : ¬ (c.setToBeFreed l).config.extraAlloc = true := hextra
      rw [if_pos hextra', if_pos hextra]
      rfl
  have hk : (c.setToBeFreed l).kSize = c.kSize := rfl
  have hfind : findFree (c.setToBeFreed l) (sizeLog2 size) = findFree c (sizeLog2 size) := rfl
  simp only [allocate, hk, setToBeFreed_config, hfind]
  split_ifs
  · rfl
  · rw [hlarge]
    rfl
  · rfl
  · cases findFree c (sizeLog2 size) with
    | some a => exact takeBlock_setToBeFreed
    | none =>
      simp only [hpage]
      rcases newStdPage c answer with ⟨_ | a, c'⟩
      · rfl
      · exact takeBlock_setToBeFreed
  · cases findFree c (sizeLog2 size) with
    | some a => exact takeBlock_setToBeFreed
    | none => rfl

end Ganesha.BuddyMalloc
