import Mathlib.Data.Nat.Bitwise
import Mathlib.Logic.Function.Basic

/-!
# The buddy allocator

`BuddyMalloc/BuddyMalloc.c` for one thread context, on a 64-bit machine. Addresses are natural
numbers, 0 is `NULL`. `mem` gives the block descriptor that the code reads at an address; only the
descriptors are modelled, not the user's bytes. Memory comes from `malloc`, whose answers are given
to the functions, and goes back with `free`; `pages` and `extras` are the areas held.

A call gives `none` where its effect is not defined: a descriptor would be written over another one,
or `isBadMagicNumber` falls off its end.
-/

namespace Ganesha.BuddyMalloc

/-- `size_header64`: the size of a block header. -/
def sizeHeader64 : ℕ := 48

/-- `MIN_ALLOC_SIZE`: the two links of a free block. -/
def minAllocSize : ℕ := 16

def buddyMaxLog2Size : ℕ := 64

/-- `BuddyBlockStatus_t`. -/
inductive Status
  | free
  | reserved
  deriving DecidableEq

/-- The error codes of `include/BuddyMalloc.h` that the functions below use. -/
inductive Errno
  | success
  | einval
  | malloc
  | outOfMem
  | notInit
  | alreadyInit
  deriving DecidableEq

/-- The values of `MagicNumber`. -/
inductive Magic
  | free
  | used
  | other
  deriving DecidableEq

/-- `BuddyBlock_t`. Of the union `BlockInfo`, `extraInfo` belongs to extra blocks (`basePtr` is
`NULL`), the two sizes to the others; of the union `Content`, only the links of free blocks are
read. -/
structure BuddyBlock where
  basePtr : ℕ
  magicNumber : Magic
  ownerThread : ℕ
  baseKSize : ℕ
  kSize : ℕ
  extraInfo : ℕ
  status : Status
  nextBlock : Option ℕ
  prevBlock : Option ℕ

/-- `buddy_parameter_t`. -/
structure Config where
  memoryAreaSize : ℕ
  onDemandAlloc : Bool
  extraAlloc : Bool
  freeAreas : Bool
  keepFactor : ℕ
  keepMinimum : ℕ

def defaultBuddyParameter : Config where
  memoryAreaSize := 1048576
  onDemandAlloc := true
  extraAlloc := true
  freeAreas := true
  keepFactor := 3
  keepMinimum := 5

/-- `buddy_stats_t`. -/
structure Stats where
  totalMemSpace : ℕ := 0
  wmTotalMemSpace : ℕ := 0
  stdMemSpace : ℕ := 0
  wmStdMemSpace : ℕ := 0
  stdUsedSpace : ℕ := 0
  wmStdUsedSpace : ℕ := 0
  stdPageSize : ℕ := 0
  nbStdPages : ℕ := 0
  nbStdUsed : ℕ := 0
  wmNbStdUsed : ℕ := 0
  extraMemSpace : ℕ := 0
  wmExtraMemSpace : ℕ := 0
  minExtraPageSize : ℕ := 0
  maxExtraPageSize : ℕ := 0
  nbExtraPages : ℕ := 0
  wmNbExtraPages : ℕ := 0

/-- `BuddyThreadContext_t`, with the memory: the descriptors, the standard pages and the extra
blocks (with their sizes) obtained from `malloc`. -/
structure Context where
  initialized : Bool
  ownerThread : ℕ
  config : Config
  stats : Stats
  kSize : ℕ
  memDesc : ℕ → Option ℕ
  errno : Errno
  toBeFreedList : List ℕ
  mem : ℕ → BuddyBlock
  pages : List ℕ
  extras : List (ℕ × ℕ)

namespace Context

/-- Assign fields of one descriptor. -/
def modify (c : Context) (a : ℕ) (f : BuddyBlock → BuddyBlock) : Context :=
  { c with mem := Function.update c.mem a (f (c.mem a)) }

/-- Assign one entry of `MemDesc`. -/
def setMemDesc (c : Context) (k : ℕ) (p : Option ℕ) : Context :=
  { c with memDesc := Function.update c.memDesc k p }

end Context

/-- `Log2Ceil`: its loop, with the turns that are left before `k` reaches `BUDDY_MAX_LOG2_SIZE`. -/
def log2CeilLoop (iSize : ℕ) : ℕ → ℕ → ℕ → ℕ
  | 0, _, _ => 0
  | turns + 1, localSize, k =>
    if localSize < iSize then
      if k + 1 ≥ buddyMaxLog2Size then 0
      else log2CeilLoop iSize turns (localSize * 2 % 2 ^ 64) (k + 1)
    else k

def log2Ceil (iSize : ℕ) : ℕ := log2CeilLoop iSize buddyMaxLog2Size 1 0

/-- `1 << n`, computed in a 32-bit `int` and converted to `size_t`: the machine takes the count
modulo 32, and `1 << 31` is negative. -/
def intShiftLeft (n : ℕ) : ℕ := if n % 32 = 31 then 2 ^ 64 - 2 ^ 31 else 2 ^ (n % 32)

/-! ## Lists of free blocks -/

def insertFreeBlock (c : Context) (a : ℕ) : Context :=
  let k := (c.mem a).kSize
  match c.memDesc k with
  | some next =>
    let c := c.setMemDesc k (some a)
    let c := c.modify a fun b => { b with nextBlock := some next, prevBlock := none }
    c.modify next fun b => { b with prevBlock := some a }
  | none =>
    let c := c.setMemDesc k (some a)
    c.modify a fun b => { b with nextBlock := none, prevBlock := none }

def removeFreeBlock (c : Context) (a : ℕ) : Context :=
  let prev := (c.mem a).prevBlock
  let next := (c.mem a).nextBlock
  let c := match prev with
    | some prev => c.modify prev fun b => { b with nextBlock := next }
    | none => c.setMemDesc (c.mem a).kSize next
  let c := match next with
    | some next => c.modify next fun b => { b with prevBlock := prev }
    | none => c
  c.modify a fun b => { b with prevBlock := none, nextBlock := none }

def getBuddyBlock (c : Context) (a : ℕ) : ℕ :=
  let base := (c.mem a).basePtr
  ((a - base) ^^^ intShiftLeft (c.mem a).kSize) + base

/-! ## Statistics

The amounts are of type `size_t`, the numbers of pages of type `unsigned int`. -/

/-- `x += y` of a `size_t`. -/
@[irreducible] def add64 (x y : ℕ) : ℕ := (x + y) % 2 ^ 64

/-- `x -= y` of a `size_t`. -/
@[irreducible] def sub64 (x y : ℕ) : ℕ := if y ≤ x then x - y else x + 2 ^ 64 - y

/-- `x++` of an `unsigned int`. -/
@[irreducible] def incr32 (x : ℕ) : ℕ := (x + 1) % 2 ^ 32

/-- `x--` of an `unsigned int`. -/
@[irreducible] def decr32 (x : ℕ) : ℕ := if x = 0 then 2 ^ 32 - 1 else x - 1

/-- `x * y` of two `unsigned int`. -/
@[irreducible] def mul32 (x y : ℕ) : ℕ := x * y % 2 ^ 32

def updateStatsInsertStdPage (s : Stats) : Stats :=
  let s := { s with totalMemSpace := add64 s.totalMemSpace s.stdPageSize }
  let s := { s with wmTotalMemSpace := max s.wmTotalMemSpace s.totalMemSpace }
  let s := { s with stdMemSpace := add64 s.stdMemSpace s.stdPageSize }
  let s := { s with wmStdMemSpace := max s.wmStdMemSpace s.stdMemSpace }
  { s with nbStdPages := incr32 s.nbStdPages }

def updateStatsRemoveStdPage (s : Stats) : Stats :=
  { s with
    totalMemSpace := sub64 s.totalMemSpace s.stdPageSize
    stdMemSpace := sub64 s.stdMemSpace s.stdPageSize
    nbStdPages := decr32 s.nbStdPages }

def updateStatsUseStdPage (s : Stats) : Stats :=
  let s := { s with nbStdUsed := incr32 s.nbStdUsed }
  { s with wmNbStdUsed := max s.wmNbStdUsed s.nbStdUsed }

def updateStatsFreeStdPage (s : Stats) : Stats := { s with nbStdUsed := decr32 s.nbStdUsed }

def updateStatsUseStdMemSpace (s : Stats) (amount : ℕ) : Stats :=
  let s := { s with stdUsedSpace := add64 s.stdUsedSpace amount }
  { s with wmStdUsedSpace := max s.wmStdUsedSpace s.stdUsedSpace }

def updateStatsFreeStdMemSpace (s : Stats) (amount : ℕ) : Stats :=
  { s with stdUsedSpace := sub64 s.stdUsedSpace amount }

def updateStatsAddExtraPage (s : Stats) (allocSize : ℕ) : Stats :=
  let s := { s with totalMemSpace := add64 s.totalMemSpace allocSize }
  let s := { s with wmTotalMemSpace := max s.wmTotalMemSpace s.totalMemSpace }
  let s := { s with extraMemSpace := add64 s.extraMemSpace allocSize }
  let s := { s with wmExtraMemSpace := max s.wmExtraMemSpace s.extraMemSpace }
  let min := if s.minExtraPageSize > allocSize ∨ s.minExtraPageSize = 0 then allocSize
    else s.minExtraPageSize
  let s := { s with minExtraPageSize := min, maxExtraPageSize := max s.maxExtraPageSize allocSize }
  let s := { s with nbExtraPages := incr32 s.nbExtraPages }
  { s with wmNbExtraPages := max s.wmNbExtraPages s.nbExtraPages }

def updateStatsRemoveExtraPage (s : Stats) (allocSize : ℕ) : Stats :=
  { s with
    totalMemSpace := sub64 s.totalMemSpace allocSize
    extraMemSpace := sub64 s.extraMemSpace allocSize
    nbExtraPages := decr32 s.nbExtraPages }

/-- Apply one of the above. -/
def Context.count (c : Context) (f : Stats → Stats) : Context := { c with stats := f c.stats }

/-! ## Pages and extra blocks -/

/-- `NewStdPage`; `answer` is what `malloc` returns. -/
def newStdPage (c : Context) (answer : Option ℕ) : Option ℕ × Context :=
  match answer with
  | none => (none, c)
  | some a =>
    let c := { c with pages := a :: c.pages }
    let c := c.modify a fun b =>
      { b with
        basePtr := a
        baseKSize := c.kSize
        status := .free
        kSize := c.kSize
        magicNumber := .free }
    (some a, (insertFreeBlock c a).count updateStatsInsertStdPage)

def garbageStdPages (c : Context) (a : ℕ) : Context :=
  if ¬ c.config.freeAreas then c
  else if c.stats.nbStdPages ≤ c.config.keepMinimum then c
  else if c.stats.nbStdPages ≤ mul32 c.config.keepFactor c.stats.nbStdUsed then c
  else
    let c := removeFreeBlock c a
    { c with pages := c.pages.erase a }.count updateStatsRemoveStdPage

/-- `AllocLargeBlock`: the address of the user's area. -/
def allocLargeBlock (c : Context) (size : ℕ) (answer : Option ℕ) : Option ℕ × Context :=
  -- the sum is a `size_t`
  let totalSize := (size + sizeHeader64) % 2 ^ 64
  if ¬ c.config.extraAlloc then (none, { c with errno := .einval })
  else match answer with
    | none => (none, { c with errno := .malloc })
    | some a =>
      let c := { c with extras := (a, totalSize) :: c.extras }
      let c := c.modify a fun b =>
        { b with
          basePtr := 0
          extraInfo := totalSize
          status := .reserved
          magicNumber := .used
          ownerThread := c.ownerThread }
      (some (a + sizeHeader64), c.count fun s => updateStatsAddExtraPage s totalSize)

def freeLargeBlock (c : Context) (a : ℕ) : Context :=
  if (c.mem a).basePtr ≠ 0 then c
  else
    let pageSize := (c.mem a).extraInfo
    { c with extras := c.extras.erase (a, pageSize) }.count fun s =>
      updateStatsRemoveExtraPage s pageSize

/-! ## Freeing -/

/-- The loop of `__BuddyFree` that merges a block with its buddy. -/
def mergeLoop : ℕ → Context → ℕ → Option (Context × ℕ)
  | 0, _, _ => none
  | fuel + 1, c, a =>
    if (c.mem a).kSize < (c.mem a).baseKSize then
      let buddy := getBuddyBlock c a
      if (c.mem buddy).status = .reserved ∨ (c.mem buddy).kSize ≠ (c.mem a).kSize then some (c, a)
      else
        let c := removeFreeBlock c buddy
        let a := if buddy < a then buddy else a
        mergeLoop fuel (c.modify a fun b => { b with kSize := b.kSize + 1 }) a
    else some (c, a)

/-- A block that is a whole page. -/
def Context.isWholePage (c : Context) (a : ℕ) : Bool :=
  (c.mem a).basePtr == a && (c.mem a).baseKSize == (c.mem a).kSize

/-- `__BuddyFree` for a block of a standard page. -/
def buddyFreeStd (c : Context) (a : ℕ) : Option Context :=
  let c := c.modify a fun b => { b with status := .free, magicNumber := .free }
  let c := c.count fun s => updateStatsFreeStdMemSpace s (intShiftLeft (c.mem a).kSize)
  (mergeLoop ((c.mem a).baseKSize + 1) c a).map fun (c, a) =>
    let c := insertFreeBlock c a
    if c.isWholePage a then
      let c := c.count updateStatsFreeStdPage
      if c.config.freeAreas then garbageStdPages c a else c
    else c

/-- `__BuddyFree`. -/
def buddyFreeBlock (c : Context) (a : ℕ) : Option Context :=
  let b := c.mem a
  if b.basePtr = 0 then some (freeLargeBlock c a)
  else if a < b.basePtr ∨ a > b.basePtr + intShiftLeft b.baseKSize then
    some { c with errno := .einval }
  else buddyFreeStd c a

def checkBlocksToBeFreed (c : Context) : Option Context :=
  c.toBeFreedList.foldlM buddyFreeBlock { c with toBeFreedList := [] }

/-- `BuddyFree` by the thread `self`; a block of another thread is put in the list of its owner. -/
def buddyFree (c : Context) (self ptr : ℕ) : Option Context :=
  if ptr = 0 then some c
  else if ¬ c.initialized then some { c with errno := .notInit }
  else
    let a := ptr - sizeHeader64
    match (c.mem a).status, (c.mem a).magicNumber with
    | .free, .free => some c
    | .reserved, .used =>
      if (c.mem a).ownerThread ≠ self then
        some { c with toBeFreedList := a :: c.toBeFreedList }
      else buddyFreeBlock c a
    | _, _ => none

/-! ## Allocating -/

/-- The loop of `__BuddyMalloc` that splits the block `a`. A half smaller than a header and two
links would have its descriptor on that of its buddy. -/
def splitLoop (sizelog2 : ℕ) : ℕ → Context → ℕ → Option Context
  | 0, c, _ => some c
  | fuel + 1, c, a =>
    if (c.mem a).kSize > sizelog2 then
      -- the block is cut in two and keeps the lower half
      let c := c.modify a fun b => { b with kSize := b.kSize - 1 }
      if 2 ^ (c.mem a).kSize < sizeHeader64 + minAllocSize then none
      else
        let buddy := getBuddyBlock c a
        let c := c.modify buddy fun b =>
          { b with
            basePtr := (c.mem a).basePtr
            -- the upper half belongs to the same page
            baseKSize := (c.mem a).baseKSize
            status := .free
            magicNumber := .free
            kSize := (c.mem a).kSize }
        splitLoop sizelog2 fuel (insertFreeBlock c buddy) a
    else some c

/-- `__BuddyMalloc` from the choice of the block on. -/
def takeBlock (c : Context) (sizelog2 a : ℕ) : Option (Option ℕ × Context) :=
  let c := removeFreeBlock c a
  let c := if c.isWholePage a then c.count updateStatsUseStdPage else c
  (splitLoop sizelog2 (c.mem a).kSize c a).map fun c =>
    let c := c.modify a fun b =>
      { b with status := .reserved, magicNumber := .used, ownerThread := c.ownerThread }
    (some (a + sizeHeader64),
      c.count fun s => updateStatsUseStdMemSpace s (intShiftLeft sizelog2))

/-- `sizelog2` of `__BuddyMalloc`. -/
def sizeLog2 (size : ℕ) : ℕ :=
  if size < minAllocSize then log2Ceil (minAllocSize + sizeHeader64)
  else log2Ceil ((size + sizeHeader64) % 2 ^ 64)

/-- `while((actlog2 < BUDDY_MAX_LOG2_SIZE) && (!context->MemDesc[actlog2])) actlog2++`. -/
def findFree (c : Context) (sizelog2 : ℕ) : Option ℕ :=
  ((List.range' sizelog2 (buddyMaxLog2Size - sizelog2)).find? fun i => (c.memDesc i).isSome).bind
    c.memDesc

/-- `BuddyMalloc`; `answer` is what `malloc` returns if it is called. -/
def buddyMalloc (c : Context) (size : ℕ) (answer : Option ℕ) : Option (Option ℕ × Context) :=
  if ¬ c.initialized then some (none, { c with errno := .notInit })
  else
    (checkBlocksToBeFreed c).bind fun c =>
      if size = 0 then some (none, c)
      else
        let sizelog2 := sizeLog2 size
        -- the shift is that of an `int`
        if intShiftLeft sizelog2 > 2 ^ c.kSize then
          if c.config.extraAlloc then some (allocLargeBlock c size answer)
          else some (none, { c with errno := .outOfMem })
        else match findFree c sizelog2 with
          | some a => takeBlock c sizelog2 a
          | none =>
            -- a new page is only asked for on demand
            if c.config.onDemandAlloc then
              match newStdPage c answer with
              | (some a, c) => takeBlock c sizelog2 a
              | (none, c) => some (none, { c with errno := .malloc })
            else some (none, { c with errno := .outOfMem })

/-- `BuddyInit` of a new context of the thread `self`. -/
def buddyInit (config : Config) (self : ℕ) (mem : ℕ → BuddyBlock) (answer : Option ℕ) :
    Errno × Context :=
  let c : Context :=
    { initialized := false
      ownerThread := self
      config := config
      stats := {}
      kSize := 0
      memDesc := fun _ => none
      errno := .success
      toBeFreedList := []
      mem := mem
      pages := []
      extras := [] }
  if config.memoryAreaSize ≤ sizeHeader64 + minAllocSize then (.einval, c)
  else
    -- the smallest power that holds the area
    let m := log2Ceil config.memoryAreaSize
    if m = 0 then (.einval, c)
    else
      let c := { c with
        kSize := m
        stats := { stdPageSize := intShiftLeft m }
        initialized := true }
      match newStdPage c answer with
      | (some _, c) => (.success, c)
      | (none, c) => (.malloc, c)

end Ganesha.BuddyMalloc
