import Ganesha.BuddyMalloc.Coalescing
import Ganesha.BuddyMalloc.ThreadTheorems

/-!
# Sizes and contents

The user's bytes, with `BuddyCalloc` and `BuddyRealloc`. The headers and the links of free blocks are
in the descriptors. Bytes that a user's copy writes over a header change what the code reads there;
`decode` stands for the layout of a descriptor.
-/

namespace Ganesha.BuddyMalloc
open Library.Transition

/-! ## Bytes -/

/-- What a thread can see: its own context, the context of another thread that owns the block that is
reallocated, if one does, and the bytes. -/
structure Store where
  mine : Context
  foreign : Option Context
  bytes : ℕ → UInt8

section Code

variable (decode : (ℕ → UInt8) → ℕ → BuddyBlock)

/-- The descriptors after `len` bytes at `dst` have been written. -/
def Context.overwrite (bytes : ℕ → UInt8) (dst len : ℕ) (c : Context) : Context :=
  { c with
    mem := fun x => if x < dst + len ∧ dst < x + sizeHeader64 then decode bytes x else c.mem x }

/-- Write `len` bytes at `dst`. -/
def Store.write (st : Store) (dst len : ℕ) (f : ℕ → UInt8) : Store :=
  let bytes := fun x => if dst ≤ x ∧ x < dst + len then f (x - dst) else st.bytes x
  { mine := st.mine.overwrite decode bytes dst len
    foreign := st.foreign.map (·.overwrite decode bytes dst len)
    bytes := bytes }

/-- `memset(dst, 0, len)`. -/
def Store.memset (st : Store) (dst len : ℕ) : Store := st.write decode dst len fun _ => 0

/-- `memcpy(dst, src, len)`. -/
def Store.memcpy (st : Store) (dst src len : ℕ) : Store :=
  st.write decode dst len fun i => st.bytes (src + i)

def buddyCalloc (st : Store) (numberOfElements elementSize : ℕ) (answer : Option ℕ) :
    Option (Option ℕ × Store) :=
  let size := numberOfElements * elementSize % 2 ^ 64
  (buddyMalloc st.mine size answer).map fun (p, c) =>
    match p with
    | none => (none, { st with mine := c })
    | some ptr => (some ptr, Store.memset decode { st with mine := c } ptr size)

/-- The header of the block of a pointer. -/
def Store.header (st : Store) (ptr : ℕ) : BuddyBlock :=
  (st.foreign.getD st.mine).mem (ptr - sizeHeader64)

/-- `BuddyFree`. -/
def Store.free (st : Store) (ptr : ℕ) : Option Store :=
  match st.foreign with
  | none => (buddyFree st.mine st.mine.ownerThread ptr).map fun c => { st with mine := c }
  | some o => (buddyFree o st.mine.ownerThread ptr).map fun o => { st with foreign := some o }

/-- The size of the user's area, as `BuddyRealloc` computes it. -/
def userSize (b : BuddyBlock) : ℕ :=
  (if b.basePtr = 0 then b.extraInfo else intShiftLeft b.kSize) - sizeHeader64

/-- The result of `BuddyRealloc`, with the number of bytes given to `memcpy`. -/
structure Reallocated where
  result : Option ℕ
  copied : ℕ
  store : Store

def buddyRealloc (st : Store) (ptr size : ℕ) (answer : Option ℕ) : Option Reallocated :=
  -- a null pointer: a plain request
  if ptr = 0 then
    (buddyMalloc st.mine size answer).map fun (p, c) => ⟨p, 0, { st with mine := c }⟩
  -- size 0: a plain release
  else if size = 0 then (st.free ptr).map fun st => ⟨none, 0, st⟩
  else if ¬ st.mine.initialized then
    some ⟨none, 0, { st with mine := { st.mine with errno := .notInit } }⟩
  -- the block has to be in use
  else if (st.header ptr).status ≠ .reserved then
    some ⟨none, 0, { st with mine := { st.mine with errno := .einval } }⟩
  else
    (buddyMalloc st.mine size answer).bind fun (p, c) =>
      let st := { st with mine := c }
      match p with
      | none => some ⟨none, 0, st⟩
      | some new =>
        -- the old block's size is copied, not the smaller one
        let len := userSize (st.header ptr)
        ((st.memcpy decode new ptr len).free ptr).map fun st => ⟨some new, len, st⟩

end Code

/-! ## Sizes -/

variable {c c' : Context} {B B' : Set ℕ} {a size : ℕ} {answer p : Option ℕ}

/-- The size of a block minus its header. -/
def usable (b : BuddyBlock) : ℕ := (if b.basePtr = 0 then b.extraInfo else b.size) - sizeHeader64

/-- The room in the block that is returned for a request, if one is. -/
def usableFor (c : Context) (size : ℕ) : ℕ :=
  if intShiftLeft (sizeLog2 size) > 2 ^ c.kSize then size
  else 2 ^ min (sizeLog2 size) c.kSize - sizeHeader64

lemma usable_congr {d d' : BuddyBlock} (h : d'.core = d.core) : usable d' = usable d := by
  rw [usable, usable, size_congr h, (BuddyBlock.core_eq.mp h).1,
    (BuddyBlock.core_eq.mp h).2.2.2.2.2.1]

lemma Filled.basePtr_ne (h : Filled c B) (ha : a ∈ B) : (c.mem a).basePtr ≠ 0 :=
  (h.pos _ (List.mem_append_left _ (List.mem_map_of_mem (h.tiled.block a ha).page))).ne'

/-- The room behind a new pointer depends on the size only. -/
lemma Served.usable_eq {ptr : ℕ} (h : Served c B size answer (some ptr) c' B') (hready : Ready c B) :
    usable (c'.mem (ptr - sizeHeader64)) = usableFor c size := by
  generalize hp : some ptr = p at h
  cases h with
  | fails e hnone => cases hp
  | extra a hsome ha hnot hsize hlarge hextra =>
    obtain ⟨-, -, -, -, -, -, hbase, hinfo⟩ := allocLargeBlock_frame (a := a) hextra hsize
    rw [Option.some.inj hp, Nat.add_sub_cancel, usable, if_pos hbase, hinfo, usableFor, if_pos hlarge,
      Nat.add_sub_cancel]
  | found a _ _ hsome ha hfree hle htaken =>
    have hK := (hready.tiled.block a ha).kSize_le
    have hsmall := hready.small
    have hstd : ¬ intShiftLeft (sizeLog2 size) > 2 ^ c.kSize := by
      rw [intShiftLeft_of_lt (by omega), gt_iff_lt, not_lt]
      exact Nat.pow_le_pow_right (by omega) (by omega)
    rw [Option.some.inj hp, Nat.add_sub_cancel, usable,
      if_neg (htaken.toFilled.basePtr_ne htaken.mem), BuddyBlock.size, htaken.kSize_eq, usableFor,
      if_neg hstd, Nat.min_eq_left hle, Nat.min_eq_left (by omega)]
  | newPage a c₁ _ _ hsome ha hpage hstd htaken =>
    rw [Option.some.inj hp, Nat.add_sub_cancel, usable,
      if_neg (htaken.toFilled.basePtr_ne htaken.mem), BuddyBlock.size, htaken.kSize_eq,
      hpage.kSize_eq, usableFor, if_neg hstd]

/-- The condition under which the block that is returned, if one is, has room for `need` bytes. -/
def Roomy (c : Context) (size : ℕ) (answer : Option ℕ) (need : ℕ) : Prop :=
  NoBlock c size answer ∨
    (sizeHeader64 + minAllocSize ≤ 2 ^ sizeLog2 size ∧ need ≤ usableFor c size)

/-- `BuddyMalloc` returns `NULL` or a block with room for `need` bytes. -/
theorem Ready.roomy_iff {need : ℕ} (h : Ready c B) (hsize : size < 2 ^ 64)
    (hfresh : Fresh c size answer) :
    (∃ p c', buddyMalloc c size answer = some (p, c') ∧
      ∀ ptr ∈ p, need ≤ usable (c'.mem (ptr - sizeHeader64))) ↔ Roomy c size answer need := by
  constructor
  · rintro ⟨p, c', hrun, hroom⟩
    by_cases hsound : Sound c size answer
    · obtain ⟨p', c'', B', hrun', hserved, -⟩ := h.request hsize hfresh hsound
      rw [hrun, Option.some.injEq, Prod.mk.injEq] at hrun'
      obtain ⟨rfl, rfl⟩ := hrun'
      rcases hsound with hlarge | hnone
      · cases p with
        | none =>
          cases hserved with
          | fails e hnone => exact .inl hnone
        | some ptr =>
          refine .inr ⟨hlarge, ?_⟩
          rw [← hserved.usable_eq h]
          exact hroom ptr rfl
      · exact .inl hnone
    · -- a request that is not sound ends in no state
      rw [h.buddyMalloc_of_not_sound hfresh hsound] at hrun
      cases hrun
  · intro hroomy
    have hsound : Sound c size answer := by
      rcases hroomy with hnone | ⟨hlarge, -⟩
      · exact .inr hnone
      · exact .inl hlarge
    obtain ⟨p, c', B', hrun, hserved, -⟩ := h.request hsize hfresh hsound
    refine ⟨p, c', hrun, fun ptr hptr => ?_⟩
    cases hptr
    rw [hserved.usable_eq h]
    rcases hroomy with hnone | ⟨-, hroom⟩
    · cases hserved with
      | extra _ hsome => exact absurd hnone hsome
      | found _ _ _ hsome => exact absurd hnone hsome
      | newPage _ _ _ _ hsome => exact absurd hnone hsome
    · exact hroom

/-- No block is smaller than its header. -/
lemma Ready.memDesc_of_small {i : ℕ} (h : Ready c B) (hi : i < 6) : c.memDesc i = none := by
  cases hhead : c.memDesc i with
  | none => rfl
  | some a =>
    obtain ⟨ha, hk⟩ := h.listed.head hhead
    have hlarge := (h.tiled.block a ha.1).large
    have hpow : 2 ^ i ≤ 2 ^ 5 := Nat.pow_le_pow_right (by omega) (by omega)
    rw [BuddyBlock.size, hk, sizeHeader64, minAllocSize] at hlarge
    omega

/-- The request for which a page would be allocated gets none. -/
def PageRefused (c : Context) (answer : Option ℕ) : Prop :=
  c.config.onDemandAlloc = false ∨ answer = none

/-- A request that fits leaves room for its header. -/
lemma Ready.roomy_of_sizeFits (h : Ready c B) (hfits : SizeFits c.kSize size) :
    Roomy c size answer size := by
  obtain ⟨hroom, hlarge⟩ := sizeLog2_large hfits.le
  refine .inr ⟨hlarge, ?_⟩
  rw [usableFor]
  split_ifs with hover
  · exact le_rfl
  · rw [Nat.min_eq_left (hfits.standard h.small hover)]
    omega

/-- Above 2 GiB the shift wraps to a small number, and the block is too small. -/
lemma Ready.roomy_wrapped (h : Ready c B) (hgt : 2 ^ 31 < size + sizeHeader64)
    (hle : size + sizeHeader64 ≤ 2 ^ (32 + c.kSize)) :
    Roomy c size answer size ↔ PageRefused c answer := by
  have hheader : sizeHeader64 = 48 := rfl
  have hsmall := h.small
  have hpow : 2 ^ c.kSize ≤ 2 ^ 30 := Nat.pow_le_pow_right (by omega) (by omega)
  obtain ⟨hlog, hstd⟩ := intShiftLeft_wrapped hsmall hgt hle
  have hfind : findFree c (sizeLog2 size) = none :=
    findFree_eq_none fun i hi => h.memDesc_eq_none (by omega)
  constructor
  · rintro ((hzero | hover | hnone) | ⟨-, hroom⟩)
    · omega
    · exact absurd hover.1 hstd
    · exact hnone.2.2
    · rw [usableFor, if_neg hstd, Nat.min_eq_right (by omega)] at hroom
      omega
  · exact fun hpage => .inl (.inr (.inr ⟨hstd, hfind, hpage⟩))

/-- Above 2^63 no size class is found, and the smallest block there is would be taken. -/
lemma Ready.roomy_huge (h : Ready c B) (hsize : size < 2 ^ 64) (hgt : 2 ^ 63 < size + sizeHeader64) :
    Roomy c size answer size ↔
      PageRefused c answer ∧ ∀ i < buddyMaxLog2Size, c.memDesc i = none := by
  have hheader : sizeHeader64 = 48 := rfl
  have hsmall := h.small
  have hK := h.large
  rw [minAllocSize] at hK
  have hpow : 2 ^ c.kSize ≤ 2 ^ 30 := Nat.pow_le_pow_right (by omega) (by omega)
  -- beyond 2^63 the logarithm is that of a small block
  have hlog : sizeLog2 size ≤ 6 := by
    rcases Nat.lt_or_ge (size + sizeHeader64) (2 ^ 64) with hlt | hge
    · rw [sizeLog2, if_neg (by rw [minAllocSize]; omega), Nat.mod_eq_of_lt hlt, log2Ceil_of_gt hgt]
      omega
    · exact sizeLog2_of_wrapped hsize hge
  have hstd : ¬ intShiftLeft (sizeLog2 size) > 2 ^ c.kSize := by
    have hle : 2 ^ sizeLog2 size ≤ 2 ^ 6 := Nat.pow_le_pow_right (by omega) hlog
    rw [intShiftLeft_of_lt (by omega)]
    omega
  constructor
  · rintro ((hzero | hover | hnone) | ⟨-, hroom⟩)
    · omega
    · exact absurd hover.1 hstd
    · refine ⟨hnone.2.2, fun i hi => ?_⟩
      rcases Nat.lt_or_ge i 6 with hlt | hge
      · exact h.memDesc_of_small hlt
      · exact memDesc_eq_none_of_findFree hnone.2.1 (by omega) hi
    · have hle : 2 ^ min (sizeLog2 size) c.kSize ≤ 2 ^ c.kSize :=
        Nat.pow_le_pow_right (by omega) (Nat.min_le_right _ _)
      rw [usableFor, if_neg hstd] at hroom
      omega
  · rintro ⟨hpage, hempty⟩
    have hfind : findFree c (sizeLog2 size) = none := by
      cases hfind : findFree c (sizeLog2 size) with
      | none => rfl
      | some a =>
        obtain ⟨i, -, hi, hhead⟩ := findFree_eq_some hfind
        rw [hempty i hi] at hhead
        cases hhead
    exact .inl (.inr (.inr ⟨hstd, hfind, hpage⟩))

/-- A request gets the room it asks for if its size is one that fits, or if it is refused. -/
lemma Ready.roomy_iff_fits (h : Ready c B) (hsize : size < 2 ^ 64) :
    Roomy c size answer size ↔ Fits c size answer := by
  by_cases hfits : SizeFits c.kSize size
  · exact ⟨fun _ => .inl hfits, fun _ => h.roomy_of_sizeFits hfits⟩
  have hfits' := hfits
  rw [SizeFits, not_or, not_le, not_and_or, not_lt, not_le] at hfits'
  rcases Nat.lt_or_ge (2 ^ 63) (size + sizeHeader64) with hgt | hle
  · rw [h.roomy_huge hsize hgt]
    constructor
    · rintro ⟨hpage, hempty⟩
      exact .inr ⟨hpage, .inr hempty⟩
    · rintro (hfit | ⟨hpage, hle | hempty⟩)
      · exact absurd hfit hfits
      · omega
      · exact ⟨hpage, hempty⟩
  · rw [h.roomy_wrapped hfits'.1 (hfits'.2.resolve_right (by omega))]
    constructor
    · exact fun hpage => .inr ⟨hpage, .inl hle⟩
    · rintro (hfit | ⟨hpage, -⟩)
      · exact absurd hfit hfits
      · exact hpage

/-! ## The size guarantee -/

/-- The contexts that the owner's calls reach. -/
def Reached (s : System) : Prop :=
  ∃ (config : Config) (self : ℕ) (mem : ℕ → BuddyBlock) (first : Option ℕ),
    config.memoryAreaSize ≤ 2 ^ 30 ∧ (∀ a ∈ first, 0 < a) ∧
      (buddyInit config self mem first).1 = .success ∧
      ReachableBy BuddyMalloc.step Allowed ⟨(buddyInit config self mem first).2, []⟩ s

/-- An allowed event meets the run's condition. -/
lemma Sole.sound {s s' : System} {e : Event} (h : Sole s B) (hallowed : Allowed s e)
    (hstep : BuddyMalloc.step s e = some s') : EventSound s e := by
  cases e with
  | free ptr => trivial
  | malloc size answer =>
    by_contra hnot
    rw [BuddyMalloc.step, h.ready.buddyMalloc_of_not_sound hallowed.2 hnot] at hstep
    cases hstep

/-- Every state reached is `Sole`. -/
lemma Reached.sole {s : System} (h : Reached s) : ∃ B, Sole s B := by
  obtain ⟨config, self, mem, first, harea, hpos, hinit, hreach⟩ := h
  refine hreach.invariant (I := fun s => ∃ B, Sole s B) (Sole.init harea hpos hinit) ?_
  intro s e s' ⟨B, hs⟩ hallowed hstep
  obtain ⟨s'', B', hstep'', hsole⟩ := hs.step hallowed (hs.sound hallowed hstep)
  rw [hstep] at hstep''
  exact ⟨B', Option.some.inj hstep'' ▸ hsole⟩

/-- The pointers that are out when the blocks at `l` wait in `ToBeFreed_list`. -/
def System.out (s : System) (l : List ℕ) : List ℕ :=
  (s.live.map Prod.fst).filter (· ∉ l.map (· + sizeHeader64))

/-- A context among its threads. The owner's calls reach `s`, and other threads have put the blocks
at `l` in `ToBeFreed_list`. -/
structure Shared (s : System) (l : List ℕ) : Prop where
  reached : Reached s
  live : ∀ a ∈ l, a + sizeHeader64 ∈ s.live.map Prod.fst
  nodup : l.Nodup

lemma Shared.nil {s : System} (h : Reached s) : Shared s [] :=
  ⟨h, fun _ ha => absurd ha List.not_mem_nil, List.nodup_nil⟩

lemma Sole.holds {s : System} (h : Sole s B) : Holds s.context B (s.live.map Prod.fst) where
  ready := h.ready.setToBeFreed_nil.symm ▸ h.ready
  inUse := h.inUse
  reserved := h.reserved

/-- The list of blocks to be freed is worked off. -/
lemma Shared.drain {s : System} {l : List ℕ} (h : Shared s l) :
    ∃ c B, checkBlocksToBeFreed (s.context.setToBeFreed l) = some c ∧ Ready c B ∧
      Holds c B (s.out l) ∧ SameBlocks s.context c (s.out l) := by
  obtain ⟨B₀, hsole⟩ := h.reached.sole
  obtain ⟨c, B, hrun, hholds, hsame⟩ := hsole.holds.drain h.live h.nodup
  have hempty : c.toBeFreedList = [] := hsame.toBeFreedList.trans hsole.ready.toBeFreedList
  have hquiet : c.setToBeFreed [] = c := by rw [Context.setToBeFreed, ← hempty]
  refine ⟨c, B, ?_, hquiet ▸ hholds.ready, hholds, hsame⟩
  have hstart : { s.context.setToBeFreed l with toBeFreedList := [] } = s.context :=
    hsole.ready.setToBeFreed_nil
  rw [checkBlocksToBeFreed, hstart]
  exact hrun

lemma Shared.buddyMalloc_eq {s : System} {l : List ℕ} (h : Shared s l) (hready : Ready c B)
    (hrun : checkBlocksToBeFreed (s.context.setToBeFreed l) = some c) :
    buddyMalloc (s.context.setToBeFreed l) size answer = buddyMalloc c size answer := by
  obtain ⟨B₀, hsole⟩ := h.reached.sole
  have hinit : (s.context.setToBeFreed l).initialized = true := hsole.ready.initialized
  rw [BuddyMalloc.buddyMalloc_eq, BuddyMalloc.buddyMalloc_eq, if_neg (not_not_intro hinit), hrun,
    if_neg (not_not_intro hready.initialized), hready.nothing_to_free]

/-- `BuddyMalloc` returns `NULL` or a block for the bytes asked for. -/
def MallocGuaranteed (c : Context) (size : ℕ) (answer : Option ℕ) : Prop :=
  ∃ p c', buddyMalloc c size answer = some (p, c') ∧
    ∀ ptr ∈ p, size ≤ usable (c'.mem (ptr - sizeHeader64))

/-- `BuddyCalloc` returns `NULL` or a block for all elements. -/
def CallocGuaranteed (decode : (ℕ → UInt8) → ℕ → BuddyBlock) (st : Store)
    (numberOfElements elementSize : ℕ) (answer : Option ℕ) : Prop :=
  ∃ p st', buddyCalloc decode st numberOfElements elementSize answer = some (p, st') ∧
    ∀ ptr ∈ p, numberOfElements * elementSize ≤ usable (st'.mine.mem (ptr - sizeHeader64))

lemma overwrite_mem_header (decode : (ℕ → UInt8) → ℕ → BuddyBlock) (bytes : ℕ → UInt8)
    {ptr len : ℕ} (h : sizeHeader64 ≤ ptr) :
    (c.overwrite decode bytes ptr len).mem (ptr - sizeHeader64) = c.mem (ptr - sizeHeader64) := by
  have hout : ¬ (ptr - sizeHeader64 < ptr + len ∧ ptr < ptr - sizeHeader64 + sizeHeader64) := by
    omega
  exact if_neg hout

/-- The pointer lies behind a header. -/
lemma Served.header_le {ptr : ℕ} (h : Served c B size answer (some ptr) c' B') :
    sizeHeader64 ≤ ptr := by
  generalize hp : some ptr = p at h
  cases h with
  | fails e hnone => cases hp
  | extra a => exact Option.some.inj hp ▸ Nat.le_add_left _ _
  | found a => exact Option.some.inj hp ▸ Nat.le_add_left _ _
  | newPage a => exact Option.some.inj hp ▸ Nat.le_add_left _ _

/-- `BuddyCalloc` keeps its promise if the product that is computed gets the room for all elements. -/
lemma calloc_iff {decode : (ℕ → UInt8) → ℕ → BuddyBlock} {st : Store} {n m : ℕ}
    (h : Ready c B) (hsame : buddyMalloc st.mine (n * m % 2 ^ 64) answer =
      buddyMalloc c (n * m % 2 ^ 64) answer) (hfresh : Fresh c (n * m % 2 ^ 64) answer) :
    CallocGuaranteed decode st n m answer ↔ Roomy c (n * m % 2 ^ 64) answer (n * m) := by
  have hsize : n * m % 2 ^ 64 < 2 ^ 64 := Nat.mod_lt _ (by decide)
  -- `memset` leaves the header of the block that `BuddyMalloc` returns
  have hheader : ∀ ptr c', buddyMalloc c (n * m % 2 ^ 64) answer = some (some ptr, c') →
      ∀ bytes, (c'.overwrite decode bytes ptr (n * m % 2 ^ 64)).mem (ptr - sizeHeader64) =
        c'.mem (ptr - sizeHeader64) := by
    intro ptr c' hmalloc bytes
    by_cases hsound : Sound c (n * m % 2 ^ 64) answer
    · obtain ⟨p', c'', B', hrun, hserved, -⟩ := h.request hsize hfresh hsound
      rw [hmalloc, Option.some.injEq, Prod.mk.injEq] at hrun
      obtain ⟨rfl, rfl⟩ := hrun
      exact overwrite_mem_header decode bytes hserved.header_le
    · rw [h.buddyMalloc_of_not_sound hfresh hsound] at hmalloc
      cases hmalloc
  rw [← h.roomy_iff hsize hfresh]
  constructor
  · rintro ⟨p, st', hrun, hroom⟩
    rw [buddyCalloc, hsame, Option.map_eq_some_iff] at hrun
    obtain ⟨⟨p', c'⟩, hmalloc, heq⟩ := hrun
    refine ⟨p', c', hmalloc, fun ptr hptr => ?_⟩
    cases hptr
    obtain ⟨rfl, rfl⟩ := Prod.mk.inj heq
    have hle := hroom ptr rfl
    simp only [Store.memset, Store.write, hheader ptr c' hmalloc] at hle
    exact hle
  · rintro ⟨p, c', hmalloc, hroom⟩
    cases p with
    | none =>
      refine ⟨none, { st with mine := c' }, by rw [buddyCalloc, hsame, hmalloc]; rfl,
        fun ptr hptr => ?_⟩
      cases hptr
    | some ptr =>
      refine ⟨some ptr, _, by rw [buddyCalloc, hsame, hmalloc]; rfl, fun q hq => ?_⟩
      cases hq
      simp only [Store.memset, Store.write, hheader ptr c' hmalloc]
      exact hroom ptr rfl

/-- The usable size is a 64-bit number. -/
lemma Ready.usableFor_lt (h : Ready c B) (hsize : size < 2 ^ 64) : usableFor c size < 2 ^ 64 := by
  have hsmall := h.small
  have hpow : 2 ^ min (sizeLog2 size) c.kSize ≤ 2 ^ 30 :=
    Nat.pow_le_pow_right (by omega) (by omega)
  rw [usableFor]
  split_ifs
  · exact hsize
  · omega

/-- The room for a request, in every context: `BuddyMalloc` gives it unless the size is computed
wrong, and `BuddyCalloc` unless in addition the product wraps. -/
theorem guaranteed_iff {s : System} {l : List ℕ} (hs : Shared s l)
    (decode : (ℕ → UInt8) → ℕ → BuddyBlock) (foreign : Option Context) (bytes : ℕ → UInt8) :
    ∃ c, checkBlocksToBeFreed (s.context.setToBeFreed l) = some c ∧
      (∀ size < 2 ^ 64, ∀ answer, Fresh c size answer →
        (MallocGuaranteed (s.context.setToBeFreed l) size answer ↔ Fits c size answer)) ∧
      ∀ n < 2 ^ 64, ∀ m < 2 ^ 64, ∀ answer, Fresh c (n * m % 2 ^ 64) answer →
        (CallocGuaranteed decode ⟨s.context.setToBeFreed l, foreign, bytes⟩ n m answer ↔
          (n * m < 2 ^ 64 ∧ Fits c (n * m) answer ∨
            2 ^ 64 ≤ n * m ∧ NoBlock c (n * m % 2 ^ 64) answer)) := by
  obtain ⟨c, B, hrun, hready, -, -⟩ := hs.drain
  refine ⟨c, hrun, fun size hsize answer hfresh => ?_, fun n hn m hm answer hfresh => ?_⟩
  · rw [MallocGuaranteed, hs.buddyMalloc_eq hready hrun, hready.roomy_iff hsize hfresh]
    exact hready.roomy_iff_fits hsize
  · rw [calloc_iff hready (hs.buddyMalloc_eq hready hrun) hfresh]
    rcases Nat.lt_or_ge (n * m) (2 ^ 64) with hlt | hge
    · rw [Nat.mod_eq_of_lt hlt, hready.roomy_iff_fits hlt]
      constructor
      · exact fun hfits => .inl ⟨hlt, hfits⟩
      · rintro (⟨-, hfits⟩ | ⟨hge, -⟩)
        · exact hfits
        · omega
    · have hroom := hready.usableFor_lt (Nat.mod_lt (n * m) (by decide))
      constructor
      · rintro (hnone | ⟨-, hle⟩)
        · exact .inr ⟨hge, hnone⟩
        · omega
      · rintro (⟨hlt, -⟩ | ⟨-, hnone⟩)
        · omega
        · exact .inl hnone

lemma reached_start {config : Config} (harea : config.memoryAreaSize ≤ 2 ^ 30)
    (hinit : (buddyInit config 1 (fun _ => ⟨0, .other, 0, 0, 0, 0, .free, none, none⟩)
      (some (2 ^ 20))).1 = .success) : Reached (start config) :=
  ⟨config, 1, _, some (2 ^ 20), harea, fun a ha => by cases ha; decide, hinit, .init⟩

/-- A block of 100 bytes, and one for 10 elements of 20 bytes. -/
theorem guaranteed_small :
    MallocGuaranteed ((start defaultBuddyParameter).context.setToBeFreed []) 100 none ∧
      CallocGuaranteed (fun _ _ => ⟨0, .other, 0, 0, 0, 0, .free, none, none⟩)
        ⟨(start defaultBuddyParameter).context.setToBeFreed [], none, fun _ => 0⟩ 10 20 none := by
  have hs : Reached (start defaultBuddyParameter) := reached_start (by decide) (by decide)
  obtain ⟨c, hrun, hmalloc, hcalloc⟩ := guaranteed_iff (Shared.nil hs)
    (fun _ _ => ⟨0, .other, 0, 0, 0, 0, .free, none, none⟩) none fun _ => 0
  refine ⟨(hmalloc 100 (by decide) none ?_).mpr (.inl (.inl (by decide))),
    (hcalloc 10 (by decide) 20 (by decide) none ?_).mpr
      (.inl ⟨by decide, .inl (.inl (by decide))⟩)⟩
  · exact fun a ha => nomatch ha
  · exact fun a ha => nomatch ha

/-- A page of 1 MiB is returned for a request of 4 GiB. -/
theorem not_guaranteed_four_gib :
    ¬ ∀ s, Reached s → ∀ size < 2 ^ 64, ∀ answer, Fresh s.context size answer →
      MallocGuaranteed s.context size answer := by
  intro hall
  have hs : Reached (start defaultBuddyParameter) := reached_start (by decide) (by decide)
  have hfresh : Fresh (start defaultBuddyParameter).context (2 ^ 32 - 48) (some (2 ^ 21)) := by
    decide +kernel
  obtain ⟨B, hsole⟩ := hs.sole
  have hguaranteed := hall _ hs (2 ^ 32 - 48) (by decide) (some (2 ^ 21)) hfresh
  rw [MallocGuaranteed, hsole.ready.roomy_iff (by decide) hfresh,
    hsole.ready.roomy_iff_fits (by decide)] at hguaranteed
  exact absurd hguaranteed (by decide +kernel)

/-! ## Bytes written into a block -/

variable {decode : (ℕ → UInt8) → ℕ → BuddyBlock} {bytes : ℕ → UInt8} {ptrs : List ℕ} {dst len : ℕ}

lemma overwrite_mem_eq {x : ℕ} (h : dst + len ≤ x ∨ x + sizeHeader64 ≤ dst) :
    (c.overwrite decode bytes dst len).mem x = c.mem x := by
  have hout : ¬ (x < dst + len ∧ dst < x + sizeHeader64) := by omega
  exact if_neg hout

/-- Memory that is in no header of a block may change. -/
lemma Holds.setMem {mem : ℕ → BuddyBlock} (h : Holds c B ptrs) (hB : ∀ x ∈ B, mem x = c.mem x)
    (hptrs : ∀ q ∈ ptrs, mem (q - sizeHeader64) = c.mem (q - sizeHeader64)) :
    Holds { c with mem := mem } B ptrs := by
  have hready := h.ready
  have hset : {x | x ∈ B ∧ (mem x).status = .free} = {x | x ∈ B ∧ (c.mem x).status = .free} := by
    ext x
    refine and_congr_right fun hx => ?_
    rw [hB x hx]
  have hlisted : Listed ({ c with mem := mem }.setToBeFreed []) {x | x ∈ B ∧ (mem x).status = .free} := by
    rw [hset]
    exact hready.listed.congr rfl fun x hx => hB x hx.1
  have htiled := hready.tiled.congr fun x hx => congrArg BuddyBlock.core (hB x hx)
  refine ⟨⟨⟨⟨htiled, hready.apart, hready.pos, hready.extra_pos, hready.small⟩, hlisted⟩,
    hready.initialized, rfl, hready.large⟩, fun q hq => ?_, fun x hx hres => ?_⟩
  · obtain ⟨n, hn⟩ := h.inUse q hq
    have hmem : ({ c with mem := mem } : Context).mem (q - sizeHeader64) =
        c.mem (q - sizeHeader64) := hptrs q hq
    refine ⟨n, hn.header, ?_, ?_, ?_, ?_⟩
    · rw [hmem]
      exact hn.status
    · rw [hmem]
      exact hn.magicNumber
    · rw [hmem]
      exact hn.ownerThread
    · rw [hmem]
      exact hn.room
  · simp only [hB x hx] at hres
    exact h.reserved x hx hres

/-- Bytes written outside all headers. -/
lemma Holds.overwrite (h : Holds c B ptrs)
    (hB : ∀ x ∈ B, dst + len ≤ x ∨ x + sizeHeader64 ≤ dst)
    (hptrs : ∀ q ∈ ptrs, dst + len ≤ q - sizeHeader64 ∨ q ≤ dst) :
    Holds (c.overwrite decode bytes dst len) B ptrs := by
  have hblock : ∀ x ∈ B, (c.overwrite decode bytes dst len).mem x = c.mem x :=
    fun x hx => overwrite_mem_eq (hB x hx)
  refine h.setMem hblock fun q hq => ?_
  have hheader := h.header hq
  have hout : dst + len ≤ q - sizeHeader64 ∨ q - sizeHeader64 + sizeHeader64 ≤ dst :=
    (hptrs q hq).imp id fun hle => by omega
  have hmem : (c.overwrite decode bytes dst len).mem (q - sizeHeader64) = c.mem (q - sizeHeader64) :=
    overwrite_mem_eq hout
  exact hmem

/-- A pointer that is out has all the room of its block. -/
lemma InUse.full {q n : ℕ} (h : InUse c B (q, n)) (hf : Filled c B) :
    InUse c B (q, usable (c.mem (q - sizeHeader64))) := by
  refine ⟨h.header, h.status, h.magicNumber, h.ownerThread, ?_⟩
  rcases h.room with ⟨ha, -⟩ | ⟨hextra, hbase, hinfo⟩
  · refine .inl ⟨ha, ?_⟩
    have hlarge := (hf.tiled.block _ ha).large
    simp only at hlarge ⊢
    rw [usable, if_neg (hf.basePtr_ne ha)]
    omega
  · have hroom : usable (c.mem (q - sizeHeader64)) = n := by
      rw [usable, if_pos hbase, hinfo, Nat.add_sub_cancel]
    rw [hroom]
    exact .inr ⟨hextra, hbase, hinfo⟩

/-- The bytes of a pointer that is out are in no header. -/
lemma InUse.apart_blocks {n x : ℕ} (h : InUse c B (dst, n)) (hf : Filled c B) (hx : x ∈ B) :
    dst + n ≤ x ∨ x + sizeHeader64 ≤ dst := by
  have hheader := h.header
  have hok := hf.tiled.block x hx
  have hlarge := hok.large
  have hle := hok.le
  have hfits := hok.fits
  simp only at hheader
  rcases h.room with ⟨ha, hroom⟩ | ⟨hextra, -⟩
  · by_cases heq : x = dst - sizeHeader64
    · omega
    · have hd := hf.tiled.disjoint x hx _ ha heq
      simp only at hroom hd
      omega
  · have hd := (List.pairwise_append.mp hf.apart).2.2 _ (List.mem_map_of_mem hok.page) _ hextra
    simp only [Apart] at hd
    omega

/-- Bytes written behind a pointer leave the blocks as they are. -/
lemma Holds.write (h : Holds c B ptrs) {n : ℕ} (hn : InUse c B (dst, n)) (hlen : len ≤ n) :
    Holds (c.overwrite decode bytes dst len) B ptrs := by
  have hf := h.filled
  refine h.overwrite (fun x hx => ?_) fun q hq => ?_
  · exact (hn.apart_blocks hf hx).imp (fun hle => by omega) id
  · by_cases heq : q = dst
    · exact .inr heq.le
    · obtain ⟨k, hk⟩ := h.inUse q hq
      have hheader := hk.header
      have hapart := hn.apart hk hf fun h => heq h.symm
      simp only [Apart, range] at hapart hheader
      omega

/-- So do bytes that are written outside of the pages. -/
lemma Holds.write_out (h : Holds c B ptrs) (hout : ∀ x ∈ c.areas, Apart (dst, len) x) :
    Holds (c.overwrite decode bytes dst len) B ptrs := by
  have hf := h.filled
  refine h.overwrite (fun x hx => ?_) fun q hq => ?_
  · have hok := hf.tiled.block x hx
    have hlarge := hok.large
    have hle := hok.le
    have hfits := hok.fits
    have hd := hout _ (List.mem_append_left _ (List.mem_map_of_mem hok.page))
    simp only [Apart] at hd
    omega
  · obtain ⟨k, hk⟩ := h.inUse q hq
    obtain ⟨y, hy, hle, hfits⟩ := hk.area hf
    have hheader := hk.header
    have hd := hout y hy
    simp only [Apart] at hd hle hfits hheader
    omega

/-- A pointer means that there was a block. -/
lemma Served.some_block {ptr : ℕ} (h : Served c B size answer (some ptr) c' B') :
    ¬ NoBlock c size answer := by
  generalize hp : some ptr = p at h
  cases h with
  | fails e hnone => cases hp
  | extra a hsome => exact hsome
  | found a _ _ hsome => exact hsome
  | newPage a _ _ _ hsome => exact hsome

/-- A refusal means that there was none. -/
lemma Served.no_block (h : Served c B size answer none c' B') : NoBlock c size answer := by
  generalize hp : (none : Option ℕ) = p at h
  cases h with
  | fails e hnone => exact hnone
  | extra a => cases hp
  | found a => cases hp
  | newPage a => cases hp

/-- A pointer that was given back is not in use any more. -/
lemma Ready.not_inUse_freed {x : ℕ × ℕ} (h : Ready c B) (hx : InUse c B x)
    (hrun : buddyFreeBlock c (x.1 - sizeHeader64) = some c')
    (hrel : Releases c c' B B' (x.1 - sizeHeader64)) (n : ℕ) : ¬ InUse c' B' (x.1, n) := by
  intro hn
  have hstatus := hn.status
  simp only at hstatus
  rcases hn.room with ⟨hmem, -⟩ | ⟨hextra', -⟩
  · exact (hrel.noNew _ hmem hstatus).2.1 rfl
  · simp only at hextra'
    rcases hx.room with ⟨ha, -⟩ | ⟨hextra, hbase, hinfo⟩
    · -- the page that the block was in is apart from the extra blocks
      rw [h.buddyFreeBlock_of_mem ha] at hrun
      obtain ⟨c₁, B₁, hrun₁, -, hkept, -⟩ := buddyFreeStd_spec h.toRest ha hx.status
      rw [hrun, Option.some.injEq] at hrun₁
      subst hrun₁
      rw [hkept.extras] at hextra'
      exact h.extra_ne hextra' ha rfl
    · rw [buddyFreeBlock, if_pos hbase, Option.some.injEq, freeLargeBlock,
        if_neg (not_not_intro hbase), hinfo] at hrun
      subst hrun
      have hd := h.apart_of_mem_erase hextra hextra'
      have hpos := h.extra_pos _ hextra
      have hpos' := h.extra_pos _ (List.mem_of_mem_erase hextra')
      simp only [Apart] at hd hpos hpos'
      omega

/-- The others are in use after one is given back. -/
lemma Holds.released {ptr : ℕ} (h : Holds c B ptrs) (hptr : ptr ∈ ptrs)
    (hrel : Releases c c' B B' (ptr - sizeHeader64)) : Holds c' B' (ptrs.filter (· ≠ ptr)) := by
  have hheader := h.header hptr
  refine ⟨hrel.ready.setToBeFreed_nil.symm ▸ hrel.ready, fun q hq => ?_, fun x hx hres => ?_⟩
  · rw [List.mem_filter, decide_eq_true_eq] at hq
    obtain ⟨n, hn⟩ := h.inUse q hq.1
    have hheader' := hn.header
    exact ⟨n, hrel.inUse _ hn (by simp only at hheader' ⊢; omega)⟩
  · obtain ⟨hx, hne, hres⟩ := hrel.noNew x hx hres
    refine List.mem_filter.mpr ⟨h.reserved x hx hres, ?_⟩
    rw [decide_eq_true_eq]
    omega

/-! ## BuddyRealloc -/

/-- The user's areas of the blocks of `ptrs`. -/
def userAreas (c : Context) (ptrs : List ℕ) : List (ℕ × ℕ) :=
  ptrs.map fun q => (q, usable (c.mem (q - sizeHeader64)))

/-- What `BuddyRealloc` is to leave if it returns the block `new`: the contents are there, all bytes
were written inside the block that `BuddyMalloc` had returned, and the bytes of `others` are the
same. -/
structure Moved (st : Store) (others : List (ℕ × ℕ)) (ptr size new : ℕ) (answer : Option ℕ)
    (r : Reallocated) : Prop where
  contents : ∀ i < min (usable (st.header ptr)) size, r.store.bytes (new + i) = st.bytes (ptr + i)
  inside : ∀ c, buddyMalloc st.mine size answer = some (some new, c) →
    r.copied ≤ usable (c.mem (new - sizeHeader64))
  others : ∀ x ∈ others, ∀ i < x.2, r.store.bytes (x.1 + i) = st.bytes (x.1 + i)

/-- What `BuddyRealloc` is to leave if it returns `NULL`. -/
structure Untouched (st : Store) (ptr : ℕ) (r : Reallocated) : Prop where
  bytes : r.store.bytes = st.bytes
  header : (r.store.header ptr).core = (st.header ptr).core

/-- `BuddyRealloc` of a block of the thread itself keeps the contents and gives the old block back. -/
def KeepsOwn (decode : (ℕ → UInt8) → ℕ → BuddyBlock) (s : System) (l : List ℕ)
    (bytes : ℕ → UInt8) (ptr size : ℕ) (answer : Option ℕ) : Prop :=
  let st : Store := ⟨s.context.setToBeFreed l, none, bytes⟩
  let others := (s.out l).filter (· ≠ ptr)
  ∃ r, buddyRealloc decode st ptr size answer = some r ∧
    (r.result = none → Untouched st ptr r ∧ ∃ B, Holds r.store.mine B (s.out l)) ∧
    ∀ new ∈ r.result, Moved st (userAreas s.context others) ptr size new answer r ∧
      ∃ B, Holds r.store.mine B (new :: others) ∧ ∀ n, ¬ InUse r.store.mine B (ptr, n)

/-- `BuddyRealloc` of a block of another thread keeps the contents and puts the old block in the
list of its owner. -/
def KeepsForeign (decode : (ℕ → UInt8) → ℕ → BuddyBlock) (s : System) (l : List ℕ) (o : System)
    (k : List ℕ) (bytes : ℕ → UInt8) (ptr size : ℕ) (answer : Option ℕ) : Prop :=
  let st : Store := ⟨s.context.setToBeFreed l, some (o.context.setToBeFreed k), bytes⟩
  let others := (o.out k).filter (· ≠ ptr)
  ∃ r, buddyRealloc decode st ptr size answer = some r ∧
    (r.result = none → Untouched st ptr r ∧ r.store.foreign = st.foreign ∧
      ∃ B, Holds r.store.mine B (s.out l)) ∧
    ∀ new ∈ r.result,
      Moved st (userAreas s.context (s.out l) ++ userAreas o.context others) ptr size new answer r ∧
      (∃ B, Holds r.store.mine B (new :: s.out l)) ∧
      ∃ o' B, r.store.foreign = some o' ∧ Holds o' B (o.live.map Prod.fst) ∧
        o'.toBeFreedList = (ptr - sizeHeader64) :: k

/-- Reallocation of a reserved block. -/
lemma buddyRealloc_eq {st : Store} {ptr : ℕ} (hptr : ptr ≠ 0) (hsize : size ≠ 0)
    (hinit : st.mine.initialized = true) (hstatus : (st.header ptr).status = .reserved) :
    buddyRealloc decode st ptr size answer =
      (buddyMalloc st.mine size answer).bind fun (p, c) =>
        let st := { st with mine := c }
        match p with
        | none => some ⟨none, 0, st⟩
        | some new =>
          let len := userSize (st.header ptr)
          ((st.memcpy decode new ptr len).free ptr).map fun st => ⟨some new, len, st⟩ := by
  rw [buddyRealloc, if_neg hptr, if_neg hsize, if_neg (not_not_intro hinit),
    if_neg (not_not_intro hstatus)]

/-- The size in the header is the usable one. -/
lemma InUse.userSize_eq {x : ℕ × ℕ} (h : InUse c B x) (hf : Filled c B) :
    userSize (c.mem (x.1 - sizeHeader64)) = usable (c.mem (x.1 - sizeHeader64)) := by
  rw [userSize, usable]
  rcases h.room with ⟨ha, -⟩ | ⟨-, hbase, -⟩
  · have hk := (hf.tiled.block _ ha).kSize_le
    have hsmall := hf.small
    rw [if_neg (hf.basePtr_ne ha), if_neg (hf.basePtr_ne ha), intShiftLeft_of_lt (by omega),
      BuddyBlock.size]
  · rw [if_pos hbase, if_pos hbase]

lemma userSize_congr {d d' : BuddyBlock} (h : d'.core = d.core) : userSize d' = userSize d := by
  rw [userSize, userSize, kSize_congr h, (BuddyBlock.core_eq.mp h).1,
    (BuddyBlock.core_eq.mp h).2.2.2.2.2.1]

/-- A block is moved only if there is room for what was asked. -/
lemma roomy_of_moved {st : Store} {ptr m : ℕ} {others : List (ℕ × ℕ)} {r : Reallocated}
    (hready : Ready c B) (hsize : size < 2 ^ 64) (hfresh : Fresh c size answer)
    (hmalloc : buddyMalloc st.mine size answer = buddyMalloc c size answer)
    (hcall : buddyRealloc decode st ptr size answer =
      (buddyMalloc st.mine size answer).bind fun (p, c) =>
        let st := { st with mine := c }
        match p with
        | none => some ⟨none, 0, st⟩
        | some new =>
          let len := userSize (st.header ptr)
          ((st.memcpy decode new ptr len).free ptr).map fun st => ⟨some new, len, st⟩)
    (hlen : ∀ p c' B', Served c B size answer p c' B' →
      userSize (({ st with mine := c' } : Store).header ptr) = m)
    (hrun : buddyRealloc decode st ptr size answer = some r)
    (hmoved : ∀ new ∈ r.result, Moved st others ptr size new answer r) :
    Roomy c size answer m := by
  by_cases hsound : Sound c size answer
  · obtain ⟨p, c', B', hrun', hserved, -⟩ := hready.request hsize hfresh hsound
    rw [hcall, hmalloc, hrun', Option.bind_some] at hrun
    cases p with
    | none => exact .inl hserved.no_block
    | some new =>
      refine .inr ⟨hsound.resolve_right hserved.some_block, ?_⟩
      simp only [hlen _ _ _ hserved] at hrun
      obtain ⟨st', -, hr⟩ := Option.map_eq_some_iff.mp hrun
      subst hr
      have hinside := (hmoved new rfl).inside c' (hmalloc.trans hrun')
      rw [hserved.usable_eq hready] at hinside
      exact hinside
  · rw [hcall, hmalloc, hready.buddyMalloc_of_not_sound hfresh hsound] at hrun
    cases hrun

/-- The bytes that were copied are those of the old block. -/
lemma Moved.of_copy {st : Store} {ptr new m : ℕ} {others : List (ℕ × ℕ)} {r : Reallocated}
    (hm : usable (st.header ptr) = m) (hcopied : r.copied = m)
    (hbytes : r.store.bytes = ({ st with mine := c' }.memcpy decode new ptr m).bytes)
    (hmalloc : buddyMalloc st.mine size answer = some (some new, c'))
    (hroom : m ≤ usable (c'.mem (new - sizeHeader64)))
    (hothers : ∀ x ∈ others, Apart (new, m) x) :
    Moved st others ptr size new answer r := by
  refine ⟨fun i hi => ?_, fun c'' hc'' => ?_, fun x hx i hi => ?_⟩
  · have hin : new ≤ new + i ∧ new + i < new + m := by omega
    rw [hbytes]
    refine (if_pos hin).trans ?_
    rw [Nat.add_sub_cancel_left]
  · rw [hmalloc, Option.some.injEq, Prod.mk.injEq] at hc''
    rw [hcopied, ← hc''.2]
    exact hroom
  · have hapart := hothers x hx
    simp only [Apart] at hapart
    have hout : ¬ (new ≤ x.1 + i ∧ x.1 + i < new + m) := by omega
    rw [hbytes]
    exact if_neg hout

/-- The copy stays away from the other blocks. -/
lemma Holds.apart_copy {new q n m : ℕ} (h : Holds c B ptrs) (hready : Ready c B)
    (hnew : InUse c B (new, n)) (hroom : m ≤ usable (c.mem (new - sizeHeader64))) (hq : q ∈ ptrs)
    (hne : q ≠ new) : Apart (new, m) (q, usable (c.mem (q - sizeHeader64))) := by
  obtain ⟨k, hk⟩ := h.inUse q hq
  have hfull := hnew.full hready.toFilled
  have hkfull := hk.full hready.toFilled
  have hd := hfull.apart hkfull hready.toFilled fun heq => hne heq.symm
  have hheader := hfull.header
  have hheader' := hkfull.header
  simp only [Apart, range] at hd hheader hheader' ⊢
  omega

/-- The owner copies a block and gives the old one back. -/
lemma Holds.copy_free {ptr new n m : ℕ} (h : Holds c B (new :: ptrs)) (hready : Ready c B)
    (hnew : InUse c B (new, n)) (hroom : m ≤ usable (c.mem (new - sizeHeader64)))
    (hptr : ptr ∈ ptrs) (hne : new ≠ ptr) :
    ∃ st B', ((⟨c, none, bytes⟩ : Store).memcpy decode new ptr m).free ptr = some st ∧
      st.bytes = ((⟨c, none, bytes⟩ : Store).memcpy decode new ptr m).bytes ∧
      Holds st.mine B' (new :: ptrs.filter (· ≠ ptr)) ∧ ∀ k, ¬ InUse st.mine B' (ptr, k) := by
  set st : Store := (⟨c, none, bytes⟩ : Store).memcpy decode new ptr m with hst
  have hptr' : ptr ∈ new :: ptrs := List.mem_cons_of_mem _ hptr
  have hwrite : Holds st.mine B (new :: ptrs) := h.write (hnew.full hready.toFilled) hroom
  have hready' : Ready st.mine B := by
    have hquiet : st.mine.setToBeFreed [] = st.mine :=
      congrArg (st.mine.setToBeFreed ·) hready.toBeFreedList.symm
    exact hquiet ▸ hwrite.ready
  obtain ⟨k, hk⟩ := hwrite.inUse ptr hptr'
  obtain ⟨c', B', hfree, hrel⟩ := buddyFreeBlock_spec hready' hk
  have hfilter : (new :: ptrs).filter (· ≠ ptr) = new :: ptrs.filter (· ≠ ptr) :=
    List.filter_cons_of_pos (decide_eq_true hne)
  refine ⟨{ st with mine := c' }, B', ?_, rfl, hfilter ▸ hwrite.released hptr' hrel,
    hready'.not_inUse_freed hk hfree hrel⟩
  have hown := hk.buddyFree_eq hready'.initialized st.mine.ownerThread
  rw [if_neg (not_not_intro rfl), hfree] at hown
  exact congrArg (Option.map _) hown

/-- The owner's `BuddyRealloc` keeps its promise exactly if the request has room. -/
lemma Shared.own_iff {s : System} {l : List ℕ} {ptr : ℕ} (hs : Shared s l)
    (hdrain : checkBlocksToBeFreed (s.context.setToBeFreed l) = some c) (hready : Ready c B)
    (hholds : Holds c B (s.out l)) (hsame : SameBlocks s.context c (s.out l))
    (hptr : ptr ∈ s.out l) (hpos : 0 < size) (hsize : size < 2 ^ 64)
    (hfresh : Fresh c size answer) :
    KeepsOwn decode s l bytes ptr size answer ↔
      Roomy c size answer (usable (s.context.mem (ptr - sizeHeader64))) := by
  have hmalloc : buddyMalloc (s.context.setToBeFreed l) size answer = buddyMalloc c size answer :=
    hs.buddyMalloc_eq hready hdrain
  obtain ⟨B₀, hsole⟩ := hs.reached.sole
  obtain ⟨n, hn⟩ := hholds.inUse ptr hptr
  have hheader := hn.header
  simp only at hheader
  have hzero : ptr ≠ 0 := by
    rw [sizeHeader64] at hheader
    omega
  have hcore := hsame.core ptr hptr
  have hcall : buddyRealloc decode ⟨s.context.setToBeFreed l, none, bytes⟩ ptr size answer = _ :=
    buddyRealloc_eq hzero hpos.ne' hsole.ready.initialized
      ((status_congr hcore).symm.trans hn.status)
  -- a new block leaves the size of the old one
  have hlen : ∀ p c' B', Served c B size answer p c' B' →
      userSize ((⟨c', none, bytes⟩ : Store).header ptr) =
        usable (s.context.mem (ptr - sizeHeader64)) := by
    intro p c' B' hserved
    have hsame' := userSize_congr (hserved.core hready hfresh hn)
    exact hsame'.trans ((hn.userSize_eq hready.toFilled).trans (usable_congr hcore))
  constructor
  · rintro ⟨r, hrun, -, hmoved⟩
    exact roomy_of_moved hready hsize hfresh hmalloc hcall hlen hrun
      fun new hnew => (hmoved new hnew).1
  · intro hroomy
    have hsound : Sound c size answer := hroomy.symm.imp And.left id
    obtain ⟨p, c', B', hrun, hserved, k, hserves⟩ := hready.request hsize hfresh hsound
    have hheld := hholds.served hserves
    cases p with
    | none =>
      refine ⟨⟨none, 0, ⟨c', none, bytes⟩⟩, by rw [hcall, hmalloc, hrun]; rfl,
        fun _ => ⟨⟨rfl, ?_⟩, B', hheld⟩, fun new hnew => by cases hnew⟩
      exact (hserved.core hready hfresh hn).trans hcore
    | some new =>
      have hroom : usable (s.context.mem (ptr - sizeHeader64)) ≤
          usable (c'.mem (new - sizeHeader64)) := by
        rw [hserved.usable_eq hready]
        exact (hroomy.resolve_left hserved.some_block).2
      obtain ⟨hnew, hother⟩ := hserves.given new rfl
      have hne : ∀ q ∈ s.out l, q ≠ new := fun q hq heq => by
        obtain ⟨j, hj⟩ := hholds.inUse q hq
        exact hother _ hj heq
      obtain ⟨st, B'', hfree, hbytes, hheld'', hgone⟩ := @Holds.copy_free c' B' decode bytes
        (s.out l) ptr new k _ hheld hserves.ready hnew hroom hptr (hne ptr hptr).symm
      refine ⟨⟨some new, usable (s.context.mem (ptr - sizeHeader64)), st⟩, ?_,
        fun hnone => ?_, fun new' hnew' => ?_⟩
      · rw [hcall, hmalloc, hrun, Option.bind_some]
        simp only [hlen _ _ _ hserved, hfree, Option.map_some]
      · cases hnone
      · cases hnew'
        refine ⟨Moved.of_copy rfl rfl hbytes (hmalloc.trans hrun) hroom fun x hx => ?_, B'', hheld'',
          hgone⟩
        obtain ⟨q, hq, rfl⟩ := List.mem_map.mp hx
        have hq := (List.mem_filter.mp hq).1
        obtain ⟨j, hj⟩ := hholds.inUse q hq
        rw [← usable_congr ((hserved.core hready hfresh hj).trans (hsame.core q hq))]
        exact hheld.apart_copy hserves.ready hnew hroom (List.mem_cons_of_mem _ hq) (hne q hq)

/-- A new block keeps away from foreign memory. -/
lemma InUse.apart_foreign {o : Context} {new n m : ℕ} (h : InUse c' B' (new, n))
    (hready : Ready c' B') (hserved : Served c B size answer p c' B')
    (hareas : ∀ x ∈ c.areas, ∀ y ∈ o.areas, Apart x y)
    (hanswer : ∀ a ∈ answer, ∀ y ∈ o.areas, Apart (a, osRequest c size) y) (hm : m ≤ n) :
    ∀ y ∈ o.areas, Apart (new, m) y := by
  intro y hy
  obtain ⟨x, hx, hle, hfits⟩ := h.area hready.toFilled
  have hheader := h.header
  have hd : Apart x y := by
    rcases hserved.areas hx with hx | ⟨a, ha, rfl⟩
    · exact hareas x hx y hy
    · exact hanswer a ha y hy
  simp only [Apart] at hd hle hfits hheader ⊢
  omega

/-- Another thread copies a block and leaves the old one for its owner. -/
lemma Holds.copy_push {o : Context} {k : List ℕ} {ptr new m : ℕ} (h : Holds o B ptrs)
    (hptr : ptr ∈ ptrs) (hne : o.ownerThread ≠ c.ownerThread) (hlist : o.toBeFreedList = k)
    (hapart : ∀ y ∈ o.areas, Apart (new, m) y) :
    ∃ st o', ((⟨c, some o, bytes⟩ : Store).memcpy decode new ptr m).free ptr = some st ∧
      st.mine = ((⟨c, some o, bytes⟩ : Store).memcpy decode new ptr m).mine ∧
      st.bytes = ((⟨c, some o, bytes⟩ : Store).memcpy decode new ptr m).bytes ∧
      st.foreign = some o' ∧ Holds o' B ptrs ∧ o'.toBeFreedList = (ptr - sizeHeader64) :: k := by
  set st : Store := (⟨c, some o, bytes⟩ : Store).memcpy decode new ptr m with hst
  set o' : Context := o.overwrite decode st.bytes new m with ho'
  have hwrite : Holds o' B ptrs := h.write_out hapart
  obtain ⟨i, hi⟩ := hwrite.inUse ptr hptr
  refine ⟨{ st with foreign := some (o'.setToBeFreed ((ptr - sizeHeader64) :: k)) }, _, ?_, rfl, rfl,
    rfl, hwrite.setToBeFreed, rfl⟩
  have hpush := hi.buddyFree_eq hwrite.ready.initialized st.mine.ownerThread
  have hne' : o'.ownerThread ≠ st.mine.ownerThread := hne
  rw [if_pos hne'] at hpush
  subst hlist
  exact congrArg (Option.map _) hpush

/-- The same for the block of another thread. -/
lemma Shared.foreign_iff {s o : System} {l k : List ℕ} {ptr : ℕ} (hs : Shared s l)
    (ho : Shared o k) (howner : o.context.ownerThread ≠ s.context.ownerThread)
    (hdrain : checkBlocksToBeFreed (s.context.setToBeFreed l) = some c) (hready : Ready c B)
    (hholds : Holds c B (s.out l)) (hsame : SameBlocks s.context c (s.out l))
    (hptr : ptr ∈ o.out k) (hpos : 0 < size) (hsize : size < 2 ^ 64) (hfresh : Fresh c size answer)
    (hareas : ∀ x ∈ c.areas, ∀ y ∈ o.context.areas, Apart x y)
    (hanswer : ∀ a ∈ answer, ∀ y ∈ o.context.areas, Apart (a, osRequest c size) y) :
    KeepsForeign decode s l o k bytes ptr size answer ↔
      Roomy c size answer (usable (o.context.mem (ptr - sizeHeader64))) := by
  have hmalloc : buddyMalloc (s.context.setToBeFreed l) size answer = buddyMalloc c size answer :=
    hs.buddyMalloc_eq hready hdrain
  obtain ⟨B₀, hsole⟩ := hs.reached.sole
  obtain ⟨Bₒ, hsoleₒ⟩ := ho.reached.sole
  have hholdsₒ : Holds (o.context.setToBeFreed k) Bₒ (o.live.map Prod.fst) :=
    hsoleₒ.holds.setToBeFreed
  have hout : ∀ q ∈ o.out k, q ∈ o.live.map Prod.fst := fun q hq => (List.mem_filter.mp hq).1
  -- the block lies in the memory of the other thread
  obtain ⟨n, hn⟩ := hsoleₒ.inUse ptr (hout ptr hptr)
  have hheader := hn.header
  simp only at hheader
  have hzero : ptr ≠ 0 := by
    rw [sizeHeader64] at hheader
    omega
  have hcall : buddyRealloc decode ⟨s.context.setToBeFreed l, some (o.context.setToBeFreed k), bytes⟩
      ptr size answer = _ :=
    buddyRealloc_eq hzero hpos.ne' hsole.ready.initialized hn.status
  have hlen : ∀ p c' B', Served c B size answer p c' B' →
      userSize ((⟨c', some (o.context.setToBeFreed k), bytes⟩ : Store).header ptr) =
        usable (o.context.mem (ptr - sizeHeader64)) :=
    fun _ _ _ _ => hn.userSize_eq hsoleₒ.ready.toFilled
  constructor
  · rintro ⟨r, hrun, -, hmoved⟩
    exact roomy_of_moved hready hsize hfresh hmalloc hcall hlen hrun
      fun new hnew => (hmoved new hnew).1
  · intro hroomy
    have hsound : Sound c size answer := hroomy.symm.imp And.left id
    obtain ⟨p, c', B', hrun, hserved, j, hserves⟩ := hready.request hsize hfresh hsound
    have hheld := hholds.served hserves
    cases p with
    | none =>
      exact ⟨⟨none, 0, ⟨c', some (o.context.setToBeFreed k), bytes⟩⟩,
        by rw [hcall, hmalloc, hrun]; rfl, fun _ => ⟨⟨rfl, rfl⟩, rfl, B', hheld⟩,
        fun new hnew => by cases hnew⟩
    | some new =>
      have hroom : usable (o.context.mem (ptr - sizeHeader64)) ≤
          usable (c'.mem (new - sizeHeader64)) := by
        rw [hserved.usable_eq hready]
        exact (hroomy.resolve_left hserved.some_block).2
      obtain ⟨hnew, hother⟩ := hserves.given new rfl
      have hfull := hnew.full hserves.ready.toFilled
      have hapart : ∀ y ∈ o.context.areas,
          Apart (new, usable (o.context.mem (ptr - sizeHeader64))) y :=
        hfull.apart_foreign hserves.ready hserved hareas hanswer hroom
      have hne : o.context.ownerThread ≠ c'.ownerThread := by
        rw [hserved.ownerThread, hsame.ownerThread]
        exact howner
      obtain ⟨st, o', hfree, hmine, hbytes, hforeign, hholds', hlist⟩ := @Holds.copy_push c' Bₒ decode
        bytes _ _ k ptr new _ hholdsₒ (hout ptr hptr) hne rfl hapart
      refine ⟨⟨some new, usable (o.context.mem (ptr - sizeHeader64)), st⟩, ?_, fun hnone => ?_,
        fun new' hnew' => ?_⟩
      · rw [hcall, hmalloc, hrun, Option.bind_some]
        simp only [hlen _ _ _ hserved, hfree, Option.map_some]
      · cases hnone
      · cases hnew'
        have hm : usable ((⟨s.context.setToBeFreed l, some (o.context.setToBeFreed k), bytes⟩ :
            Store).header ptr) = usable (o.context.mem (ptr - sizeHeader64)) := rfl
        refine ⟨Moved.of_copy hm rfl hbytes (hmalloc.trans hrun) hroom fun x hx => ?_,
          ⟨B', hmine ▸ hheld.write hfull hroom⟩, o', Bₒ, hforeign, hholds', hlist⟩
        rcases List.mem_append.mp hx with hx | hx
        · obtain ⟨q, hq, rfl⟩ := List.mem_map.mp hx
          obtain ⟨i', hi'⟩ := hholds.inUse q hq
          rw [← usable_congr ((hserved.core hready hfresh hi').trans (hsame.core q hq))]
          exact hheld.apart_copy hserves.ready hnew hroom (List.mem_cons_of_mem _ hq) (hother _ hi')
        · obtain ⟨q, hq, rfl⟩ := List.mem_map.mp hx
          obtain ⟨i', hi'⟩ := hsoleₒ.inUse q (hout q (List.mem_filter.mp hq).1)
          have hi' := hi'.full hsoleₒ.ready.toFilled
          obtain ⟨y, hy, hle, hfits⟩ := hi'.area hsoleₒ.ready.toFilled
          have hheader' := hi'.header
          have hd := hapart y hy
          simp only [Apart] at hd hle hfits hheader' ⊢
          omega

/-- `BuddyRealloc` keeps the contents and writes no other byte exactly if the block that it returns,
if any, has room for all the bytes of the old one: it copies them all. -/
theorem preserves_iff {s : System} {l : List ℕ} (hs : Shared s l)
    (decode : (ℕ → UInt8) → ℕ → BuddyBlock) (bytes : ℕ → UInt8) :
    ∃ c, checkBlocksToBeFreed (s.context.setToBeFreed l) = some c ∧
      ∀ size, 0 < size → size < 2 ^ 64 → ∀ answer, Fresh c size answer →
        (∀ ptr ∈ s.out l, (KeepsOwn decode s l bytes ptr size answer ↔
          Roomy c size answer (usable (s.context.mem (ptr - sizeHeader64))))) ∧
        ∀ o k, Shared o k → o.context.ownerThread ≠ s.context.ownerThread →
          (∀ x ∈ c.areas, ∀ y ∈ o.context.areas, Apart x y) →
          (∀ a ∈ answer, ∀ y ∈ o.context.areas, Apart (a, osRequest c size) y) →
          ∀ ptr ∈ o.out k, (KeepsForeign decode s l o k bytes ptr size answer ↔
            Roomy c size answer (usable (o.context.mem (ptr - sizeHeader64)))) := by
  obtain ⟨c, B, hrun, hready, hholds, hsame⟩ := hs.drain
  refine ⟨c, hrun, fun size hpos hsize answer hfresh => ⟨fun ptr hptr => ?_, ?_⟩⟩
  · exact hs.own_iff hrun hready hholds hsame hptr hpos hsize hfresh
  · intro o k ho howner hareas hanswer ptr hptr
    exact hs.foreign_iff ho howner hrun hready hholds hsame hptr hpos hsize hfresh hareas hanswer

instance (c : Context) (size : ℕ) (answer : Option ℕ) (need : ℕ) :
    Decidable (Roomy c size answer need) :=
  inferInstanceAs (Decidable (_ ∨ _))

/-- The context of the thread `self` with a page at `a`. -/
def startAt (self a : ℕ) : System :=
  ⟨(buddyInit defaultBuddyParameter self (fun _ => ⟨0, .other, 0, 0, 0, 0, .free, none, none⟩)
    (some a)).2, []⟩

lemma shared_of_execute {s : System} {self a : ℕ} {es : List Event} (hpos : 0 < a)
    (hinit : (buddyInit defaultBuddyParameter self
      (fun _ => ⟨0, .other, 0, 0, 0, 0, .free, none, none⟩) (some a)).1 = .success)
    (hs : execute BuddyMalloc.step (startAt self a) es = some s)
    (hmeets : Meets BuddyMalloc.step Allowed (startAt self a) es) : Shared s [] :=
  .nil ⟨defaultBuddyParameter, self, _, some a, by decide, fun x hx => by cases hx; exact hpos, hinit,
    reachableBy_of_execute hs hmeets⟩

lemma eq_of_nothing_waits (hempty : c'.toBeFreedList = [])
    (hdrain : checkBlocksToBeFreed (c'.setToBeFreed []) = some c) : c = c' := by
  have hsame : checkBlocksToBeFreed (c'.setToBeFreed []) = some (c'.setToBeFreed []) := rfl
  rw [hsame, Option.some.injEq] at hdrain
  rw [← hdrain, Context.setToBeFreed, ← hempty]

/-- A block of 100 bytes is reallocated to 200, by its owner and by another thread. -/
theorem preserves_to_200 :
    ∃ s o, execute BuddyMalloc.step (startAt 1 (2 ^ 20)) [.malloc 100 none] = some s ∧
      execute BuddyMalloc.step (startAt 2 (2 ^ 22)) [.malloc 100 none] = some o ∧
      KeepsOwn (fun _ _ => ⟨0, .other, 0, 0, 0, 0, .free, none, none⟩) s [] (fun x => x.toUInt8)
        (2 ^ 20 + 48) 200 none ∧
      KeepsForeign (fun _ _ => ⟨0, .other, 0, 0, 0, 0, .free, none, none⟩) s [] o []
        (fun x => x.toUInt8) (2 ^ 22 + 48) 200 none := by
  have hrun : (execute BuddyMalloc.step (startAt 1 (2 ^ 20)) [.malloc 100 none]).any (fun s =>
      (execute BuddyMalloc.step (startAt 2 (2 ^ 22)) [.malloc 100 none]).any fun o =>
        decide (2 ^ 20 + 48 ∈ s.out []) && decide (2 ^ 22 + 48 ∈ o.out []) &&
          decide (o.context.ownerThread ≠ s.context.ownerThread) &&
          decide (s.context.toBeFreedList = []) &&
          decide (∀ x ∈ s.context.areas, ∀ y ∈ o.context.areas, Apart x y) &&
          decide (Roomy s.context 200 none (usable (s.context.mem (2 ^ 20)))) &&
          decide (Roomy s.context 200 none (usable (o.context.mem (2 ^ 22))))) = true := by
    decide +kernel
  rw [Option.any_eq_true] at hrun
  obtain ⟨s, hs, hrun⟩ := hrun
  rw [Option.any_eq_true] at hrun
  obtain ⟨o, ho, hrun⟩ := hrun
  simp only [Bool.and_eq_true, decide_eq_true_eq] at hrun
  obtain ⟨⟨⟨⟨⟨⟨hptr, hptr'⟩, howner⟩, hempty⟩, hareas⟩, hroomy⟩, hroomy'⟩ := hrun
  have hshared : Shared s [] := shared_of_execute (by decide) (by decide) hs (by decide +kernel)
  have hshared' : Shared o [] := shared_of_execute (by decide) (by decide) ho (by decide +kernel)
  obtain ⟨c, hdrain, hpreserves⟩ := preserves_iff hshared
    (fun _ _ => ⟨0, .other, 0, 0, 0, 0, .free, none, none⟩) fun x => x.toUInt8
  obtain rfl := eq_of_nothing_waits hempty hdrain
  obtain ⟨hown, hforeign⟩ := hpreserves 200 (by decide) (by decide) none fun a ha => nomatch ha
  exact ⟨s, o, hs, ho, (hown _ hptr).mpr hroomy,
    (hforeign o [] hshared' howner hareas (fun a ha => nomatch ha) _ hptr').mpr hroomy'⟩

/-- A block of 1000 bytes is reallocated to 16: the 2000 bytes of the old block are written to a
block with room for 16. -/
theorem not_preserves_to_16 :
    ¬ ∀ s l, Shared s l → ∀ ptr ∈ s.out l, ∀ size, 0 < size → size < 2 ^ 64 → ∀ answer,
      Fresh s.context size answer →
      KeepsOwn (fun _ _ => ⟨0, .other, 0, 0, 0, 0, .free, none, none⟩) s l (fun x => x.toUInt8) ptr
        size answer := by
  intro hall
  have hrun : (execute BuddyMalloc.step (startAt 1 (2 ^ 20)) [.malloc 1000 none]).any (fun s =>
      decide (2 ^ 20 + 48 ∈ s.out []) && decide (s.context.toBeFreedList = []) &&
        decide (¬ Roomy s.context 16 none (usable (s.context.mem (2 ^ 20))))) = true := by
    decide +kernel
  rw [Option.any_eq_true] at hrun
  obtain ⟨s, hs, hrun⟩ := hrun
  simp only [Bool.and_eq_true, decide_eq_true_eq] at hrun
  obtain ⟨⟨hptr, hempty⟩, hnot⟩ := hrun
  have hshared : Shared s [] := shared_of_execute (by decide) (by decide) hs (by decide +kernel)
  obtain ⟨c, B, hdrain, hready, hholds, hsame⟩ := hshared.drain
  obtain rfl := eq_of_nothing_waits hempty hdrain
  have hfresh : Fresh s.context 16 none := fun a ha => nomatch ha
  have hkeeps := hall s [] hshared _ hptr 16 (by decide) (by decide) none hfresh
  rw [hshared.own_iff hdrain hready hholds hsame hptr (by decide) (by decide) hfresh] at hkeeps
  exact hnot hkeeps

end Ganesha.BuddyMalloc
