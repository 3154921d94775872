import Mathlib.Data.Nat.Log
import Ganesha.Library.Transition
import Ganesha.BuddyMalloc.Heap

/-!
# Heap integrity

Runs of `BuddyMalloc` and `BuddyFree` by the owner of a context. `Integrity` says that the pages are
filled with blocks, that the lists hold the free ones and that the blocks in use are apart.

`__BuddyMalloc` computes the size of the block as `1 << sizelog2` in an `int`. For a request that
needs a block of 2^32 bytes or more the result can be small, and the request is then served by a
block of a standard page. `Fits` leaves these requests out; every run of the others keeps the heap
whole (`integrity_of_fits`).
-/

namespace Ganesha.BuddyMalloc
open Library.Transition

variable {c c' : Context} {B B' : Set ℕ} {a size : ℕ}

/-! ## Sizes -/

lemma two_pow_mul_two_mod {k : ℕ} (h : k < 63) : 2 ^ k * 2 % 2 ^ 64 = 2 ^ (k + 1) := by
  rw [← pow_succ]
  exact Nat.mod_eq_of_lt (Nat.pow_lt_pow_right (by omega) (by omega))

variable {iSize : ℕ}

/-- The loop finds the logarithm, rounded up. -/
lemma log2CeilLoop_eq (h : iSize ≤ 2 ^ 63) (turns k : ℕ) (hturns : turns + k = 64) (hk : k ≤ Nat.clog 2 iSize) :
    log2CeilLoop iSize turns (2 ^ k) k = Nat.clog 2 iSize := by
  have hlog : Nat.clog 2 iSize ≤ 63 := Nat.clog_le_of_le_pow h
  induction turns generalizing k with
  | zero => omega
  | succ turns ih =>
    rw [log2CeilLoop]
    by_cases hlt : 2 ^ k < iSize
    · have hk' : k < Nat.clog 2 iSize := (Nat.lt_clog_iff_pow_lt (by omega)).mpr hlt
      have hmax : ¬ k + 1 ≥ buddyMaxLog2Size := by
        rw [buddyMaxLog2Size]
        omega
      rw [if_pos hlt, if_neg hmax, two_pow_mul_two_mod (by omega)]
      exact ih (k + 1) (by omega) hk'
    · rw [if_neg hlt]
      have hle : Nat.clog 2 iSize ≤ k := Nat.clog_le_of_le_pow (not_lt.mp hlt)
      omega

lemma log2Ceil_eq (h : iSize ≤ 2 ^ 63) : log2Ceil iSize = Nat.clog 2 iSize :=
  log2CeilLoop_eq h buddyMaxLog2Size 0 rfl (Nat.zero_le _)

/-- Above 2^63 the power wraps to 0 and the loop gives 0. -/
lemma log2CeilLoop_of_gt (h : 2 ^ 63 < iSize) (turns k : ℕ) (hturns : turns + k = 64) :
    log2CeilLoop iSize turns (2 ^ k) k = 0 := by
  induction turns generalizing k with
  | zero => rfl
  | succ turns ih =>
    have hpow : 2 ^ k ≤ 2 ^ 63 := Nat.pow_le_pow_right (by omega) (by omega)
    rw [log2CeilLoop, if_pos (by omega)]
    by_cases hmax : k + 1 ≥ buddyMaxLog2Size
    · rw [if_pos hmax]
    · have hk : k < 63 := by
        rw [buddyMaxLog2Size] at hmax
        omega
      rw [if_neg hmax, two_pow_mul_two_mod hk]
      exact ih (k + 1) (by omega)

lemma log2Ceil_of_gt (h : 2 ^ 63 < iSize) : log2Ceil iSize = 0 :=
  log2CeilLoop_of_gt h buddyMaxLog2Size 0 rfl

variable {n : ℕ}

/-- The smallest power that holds size and header. -/
lemma sizeLog2_le_iff (h : size + sizeHeader64 ≤ 2 ^ 63) :
    sizeLog2 size ≤ n ↔ size + sizeHeader64 ≤ 2 ^ n ∧ sizeHeader64 + minAllocSize ≤ 2 ^ n := by
  rw [sizeLog2]
  split_ifs with hsmall
  · rw [log2Ceil_eq (by decide), Nat.clog_le_iff_le_pow (by omega)]
    simp only [sizeHeader64, minAllocSize] at hsmall ⊢
    omega
  · rw [Nat.mod_eq_of_lt (by omega), log2Ceil_eq h, Nat.clog_le_iff_le_pow (by omega)]
    simp only [sizeHeader64, minAllocSize] at hsmall ⊢
    omega

lemma sizeLog2_large (h : size + sizeHeader64 ≤ 2 ^ 63) :
    size + sizeHeader64 ≤ 2 ^ sizeLog2 size ∧ sizeHeader64 + minAllocSize ≤ 2 ^ sizeLog2 size :=
  (sizeLog2_le_iff h).mp le_rfl

/-- The requests for which `1 << sizelog2` is not mistaken for the size of a standard block. -/
def SizeFits (K size : ℕ) : Prop :=
  size + sizeHeader64 ≤ 2 ^ 31 ∨ 2 ^ (32 + K) < size + sizeHeader64 ∧ size + sizeHeader64 ≤ 2 ^ 63

instance (K size : ℕ) : Decidable (SizeFits K size) := inferInstanceAs (Decidable (_ ∨ _))

variable {K : ℕ}

lemma SizeFits.le (h : SizeFits K size) : size + sizeHeader64 ≤ 2 ^ 63 := by
  rcases h with h | h
  · exact h.trans (by decide)
  · exact h.2

/-- A size that fits and is no large one has a class within a page. -/
lemma SizeFits.standard (h : SizeFits K size) (hK : K < 31) (hstd : ¬ intShiftLeft (sizeLog2 size) > 2 ^ K) :
    sizeLog2 size ≤ K := by
  have hpowK : 2 ^ K ≤ 2 ^ 30 := Nat.pow_le_pow_right (by omega) (by omega)
  have hpow : ∀ n, n % 32 = 31 ∨ K < n % 32 → intShiftLeft n > 2 ^ K := fun n hn => by
    rw [intShiftLeft]
    split_ifs with h31
    · omega
    · exact Nat.pow_lt_pow_right (by omega) (by omega)
  rcases h with h | ⟨hlo, hhi⟩
  · have h31 : sizeLog2 size ≤ 31 :=
      (sizeLog2_le_iff (h.trans (by decide))).mpr ⟨h, by decide⟩
    by_contra hlt
    exact hstd (hpow _ (by omega))
  · have h63 : sizeLog2 size ≤ 63 := (sizeLog2_le_iff hhi).mpr ⟨hhi, by decide⟩
    have h32 : ¬ sizeLog2 size ≤ 32 + K := fun hle => by
      have := ((sizeLog2_le_iff hhi).mp hle).1
      omega
    exact absurd (hpow _ (by omega)) hstd

/-! ## Blocks in use -/

/-- The block of the pointer `x.1`, given out for a request of `x.2` bytes. -/
structure InUse (c : Context) (B : Set ℕ) (x : ℕ × ℕ) : Prop where
  header : sizeHeader64 ≤ x.1
  status : (c.mem (x.1 - sizeHeader64)).status = .reserved
  magicNumber : (c.mem (x.1 - sizeHeader64)).magicNumber = .used
  ownerThread : (c.mem (x.1 - sizeHeader64)).ownerThread = c.ownerThread
  room : (x.1 - sizeHeader64 ∈ B ∧ x.2 + sizeHeader64 ≤ (c.mem (x.1 - sizeHeader64)).size) ∨
    (x.1 - sizeHeader64, x.2 + sizeHeader64) ∈ c.extras ∧
      (c.mem (x.1 - sizeHeader64)).basePtr = 0 ∧
      (c.mem (x.1 - sizeHeader64)).extraInfo = x.2 + sizeHeader64

/-- A context in use by its owner, between two calls. -/
structure Ready (c : Context) (B : Set ℕ) : Prop extends Rest c B where
  initialized : c.initialized = true
  toBeFreedList : c.toBeFreedList = []
  large : sizeHeader64 + minAllocSize ≤ 2 ^ c.kSize

lemma Ready.kept (h : Ready c B) (hrest : Rest c' B') (hkept : Kept c c' B B' a) : Ready c' B' :=
  ⟨hrest, hkept.initialized.trans h.initialized, hkept.toBeFreedList.trans h.toBeFreedList,
    hkept.kSize ▸ h.large⟩

variable {x : ℕ × ℕ}

lemma InUse.core_eq (h : InUse c B x) (hkept : Kept c c' B B' a) (hne : x.1 - sizeHeader64 ≠ a) :
    (c'.mem (x.1 - sizeHeader64)).core = (c.mem (x.1 - sizeHeader64)).core := by
  rcases h.room with hroom | hroom
  · exact (hkept.reserved _ hroom.1 hne h.status).2
  · exact hkept.extra _ hroom.1

/-- A pointer stays in use if another block changes. -/
lemma InUse.kept (h : InUse c B x) (hkept : Kept c c' B B' a) (hne : x.1 - sizeHeader64 ≠ a) :
    InUse c' B' x := by
  have hcore := h.core_eq hkept hne
  obtain ⟨hbase, hmagic, howner, -, hk, hextra, hstatus⟩ := BuddyBlock.core_eq.mp hcore
  refine ⟨h.header, hstatus.trans h.status, hmagic.trans h.magicNumber, ?_, ?_⟩
  · rw [howner, hkept.ownerThread]
    exact h.ownerThread
  · rcases h.room with hroom | hroom
    · refine .inl ⟨(hkept.reserved _ hroom.1 hne h.status).1, ?_⟩
      rw [size_congr hcore]
      exact hroom.2
    · refine .inr ⟨?_, hbase.trans hroom.2.1, hextra.trans hroom.2.2⟩
      rw [hkept.extras]
      exact hroom.1

lemma InUse.ne_of_free (h : InUse c B x) (hfree : (c.mem a).status = .free) :
    x.1 - sizeHeader64 ≠ a := by
  rintro rfl
  have hstatus := h.status
  rw [hfree] at hstatus
  cases hstatus

/-- A block lies in one of the areas. -/
lemma InUse.area (h : InUse c B x) (hf : Filled c B) :
    ∃ y ∈ c.areas, y.1 ≤ x.1 - sizeHeader64 ∧ x.1 + x.2 ≤ y.1 + y.2 := by
  have hheader := h.header
  rcases h.room with hroom | hroom
  · have hok := hf.tiled.block _ hroom.1
    have hfits := hok.fits
    have hsize := hroom.2
    exact ⟨_, List.mem_append_left _ (List.mem_map_of_mem hok.page), hok.le, by simp only; omega⟩
  · exact ⟨_, List.mem_append_right _ hroom.1, le_rfl, by simp only; omega⟩

/-- The bytes of a request with its header. -/
def range (x : ℕ × ℕ) : ℕ × ℕ := (x.1 - sizeHeader64, x.2 + sizeHeader64)

/-- The bytes of two pointers are apart. -/
lemma InUse.apart {y : ℕ × ℕ} (hx : InUse c B x) (hy : InUse c B y) (hf : Filled c B)
    (hne : x.1 ≠ y.1) : Apart (range x) (range y) := by
  have hxh := hx.header
  have hyh := hy.header
  have hne' : x.1 - sizeHeader64 ≠ y.1 - sizeHeader64 := by omega
  have hmixed : ∀ z w : ℕ × ℕ, z.1 - sizeHeader64 ∈ B →
      z.2 + sizeHeader64 ≤ (c.mem (z.1 - sizeHeader64)).size → range w ∈ c.extras →
      Apart (range z) (range w) := by
    intro z w hz hzsize hw
    have hok := hf.tiled.block _ hz
    have hle := hok.le
    have hfits := hok.fits
    have hd := (List.pairwise_append.mp hf.apart).2.2 _ (List.mem_map_of_mem hok.page) _ hw
    simp only [Apart, range] at hd ⊢
    omega
  rcases hx.room with hx' | hx'
  · rcases hy.room with hy' | hy'
    · have hd := hf.tiled.disjoint _ hx'.1 _ hy'.1 hne'
      simp only [Apart, range]
      omega
    · exact hmixed x y hx'.1 hx'.2 hy'.1
  · rcases hy.room with hy' | hy'
    · exact symm (hmixed y x hy'.1 hy'.2 hx'.1)
    · refine (List.pairwise_append.mp hf.apart).2.1.forall hx'.1 hy'.1 fun heq => ?_
      exact hne' (Prod.ext_iff.mp heq).1

/-! ## BuddyMalloc -/

/-- What a request leaves: the new block is in use, and those that were in use still are. -/
structure Serves (c c' : Context) (B B' : Set ℕ) (p : Option ℕ) (size : ℕ) : Prop where
  ready : Ready c' B'
  inUse : ∀ x, InUse c B x → InUse c' B' x
  given : ∀ ptr ∈ p, InUse c' B' (ptr, size) ∧ ∀ x, InUse c B x → x.1 ≠ ptr

/-- In addition, no block but the new one becomes reserved. -/
structure ServesOnly (c c' : Context) (B B' : Set ℕ) (p : Option ℕ) (size : ℕ) : Prop
    extends Serves c c' B B' p size where
  noNew : ∀ x ∈ B', (c'.mem x).status = .reserved →
    p = some (x + sizeHeader64) ∨ x ∈ B ∧ (c.mem x).status = .reserved

/-- A failure sets the error alone. -/
lemma Ready.fails (h : Ready c B) (e : Errno) :
    ServesOnly c { c with errno := e } B B none size := by
  have hfilled : Filled { c with errno := e } B := ⟨h.tiled, h.apart, h.pos, h.extra_pos, h.small⟩
  refine ⟨⟨⟨⟨hfilled, h.listed.congr rfl fun _ _ => rfl⟩, h.initialized, h.toBeFreedList, h.large⟩,
    fun x hx => ⟨hx.header, hx.status, hx.magicNumber, hx.ownerThread, hx.room⟩, ?_⟩,
    fun x hx hres => .inr ⟨hx, hres⟩⟩
  intro ptr hptr
  cases hptr

/-- The bytes that a request asks `malloc` for, if it does. -/
def osRequest (c : Context) (size : ℕ) : ℕ :=
  if intShiftLeft (sizeLog2 size) > 2 ^ c.kSize then (size + sizeHeader64) % 2 ^ 64 else 2 ^ c.kSize

/-- `AllocLargeBlock` when `malloc` gives an area that is apart from those held. -/
theorem allocLargeBlock_spec (h : Ready c B) (hextra : c.config.extraAlloc = true)
    (hsize : size + sizeHeader64 < 2 ^ 64) (hpos : 0 < a)
    (hfresh : ∀ x ∈ c.areas, Apart (a, size + sizeHeader64) x) :
    ∃ c', allocLargeBlock c size (some a) = (some (a + sizeHeader64), c') ∧
      ServesOnly c c' B B (some (a + sizeHeader64)) size := by
  set total := size + sizeHeader64 with htotal
  have hmod : (size + sizeHeader64) % 2 ^ 64 = total := Nat.mod_eq_of_lt hsize
  have htpos : 0 < total := by
    rw [htotal, sizeHeader64]
    omega
  set c₁ : Context := { c with extras := (a, total) :: c.extras }
  set c₂ := c₁.modify a fun b =>
    { b with
      basePtr := 0
      extraInfo := total
      status := .reserved
      magicNumber := .used
      ownerThread := c₁.ownerThread }
  have hself : c₂.mem a = { c.mem a with
      basePtr := 0
      extraInfo := total
      status := .reserved
      magicNumber := .used
      ownerThread := c.ownerThread } := modify_mem_self _
  have hrest : ∀ x, x ≠ a → c₂.mem x = c.mem x := fun x hne => modify_mem_of_ne _ hne
  -- the new area begins neither in a page nor where an extra block does
  have hB : ∀ x ∈ B, x ≠ a := fun x hx heq => by
    have hok := h.tiled.block x hx
    have hle := hok.le
    have hfits := hok.fits
    have hxpos := (c.mem x).size_pos
    have hd := hfresh _ (List.mem_append_left _ (List.mem_map_of_mem hok.page))
    simp only [Apart] at hd
    omega
  have hE : ∀ x ∈ c.extras, x.1 ≠ a := fun x hx heq => by
    have hd := hfresh x (List.mem_append_right _ hx)
    have hxpos := h.extra_pos x hx
    simp only [Apart] at hd
    omega
  have hfilled : Filled c₂ B := by
    obtain ⟨hpages, hextras, hboth⟩ := List.pairwise_append.mp h.apart
    refine ⟨h.tiled.congr fun x hx => by rw [hrest x (hB x hx)], ?_, ?_, ?_, h.small⟩
    · refine List.pairwise_append.mpr ⟨hpages, List.pairwise_cons.mpr ⟨fun x hx => ?_, hextras⟩, ?_⟩
      · exact hfresh x (List.mem_append_right _ hx)
      · intro x hx y hy
        rcases List.mem_cons.mp hy with rfl | hy
        · exact symm (hfresh x (List.mem_append_left _ hx))
        · exact hboth x hx y hy
    · intro x hx
      rcases List.mem_append.mp hx with hx | hx
      · exact h.pos x (List.mem_append_left _ hx)
      · rcases List.mem_cons.mp hx with rfl | hx
        · exact hpos
        · exact h.pos x (List.mem_append_right _ hx)
    · exact List.forall_mem_cons.mpr ⟨htpos, h.extra_pos⟩
  have hlisted : Listed c₂ {x | x ∈ B ∧ (c₂.mem x).status = .free} := by
    have hset : {x | x ∈ B ∧ (c₂.mem x).status = .free} =
        {x | x ∈ B ∧ (c.mem x).status = .free} := by
      ext x
      simp only [Set.mem_ofPred_eq]
      exact and_congr_right fun hx => by rw [hrest x (hB x hx)]
    rw [hset]
    exact h.listed.congr rfl fun x hx => hrest x (hB x hx.1)
  have hout : ∀ x, InUse c B x → x.1 - sizeHeader64 ≠ a := fun x hx => by
    rcases hx.room with hroom | hroom
    · exact hB _ hroom.1
    · exact hE _ hroom.1
  set f : Stats → Stats := fun s => updateStatsAddExtraPage s total
  refine ⟨c₂.count f, ?_, ⟨⟨Rest.count ⟨hfilled, hlisted⟩ f, h.initialized, h.toBeFreedList,
    h.large⟩, fun x hx => ?_, ?_⟩, fun x hx hres => .inr ⟨hx, ?_⟩⟩
  · simp only [allocLargeBlock, hextra, not_true_eq_false, if_false, hmod]
    rfl
  · have hmem : (c₂.count f).mem (x.1 - sizeHeader64) = c.mem (x.1 - sizeHeader64) :=
      hrest _ (hout x hx)
    refine ⟨hx.header, ?_, ?_, ?_, ?_⟩
    · rw [hmem]; exact hx.status
    · rw [hmem]; exact hx.magicNumber
    · rw [hmem]; exact hx.ownerThread
    · rw [hmem]
      rcases hx.room with hroom | hroom
      · exact .inl hroom
      · exact .inr ⟨List.mem_cons_of_mem _ hroom.1, hroom.2⟩
  · intro ptr hptr
    obtain rfl : a + sizeHeader64 = ptr := Option.some.inj hptr
    refine ⟨⟨Nat.le_add_left _ _, ?_, ?_, ?_, .inr ?_⟩, fun x hx heq => hout x hx ?_⟩
    · rw [Nat.add_sub_cancel]
      exact congrArg BuddyBlock.status hself
    · rw [Nat.add_sub_cancel]
      exact congrArg BuddyBlock.magicNumber hself
    · rw [Nat.add_sub_cancel]
      exact congrArg BuddyBlock.ownerThread hself
    · rw [Nat.add_sub_cancel]
      exact ⟨List.mem_cons_self, congrArg BuddyBlock.basePtr hself,
        congrArg BuddyBlock.extraInfo hself⟩
    · rw [heq, Nat.add_sub_cancel]
  · exact (congrArg BuddyBlock.status (hrest x (hB x hx))).symm.trans hres

lemma findFree_eq_some (h : findFree c n = some a) :
    ∃ i, n ≤ i ∧ i < buddyMaxLog2Size ∧ c.memDesc i = some a := by
  rw [findFree, Option.bind_eq_some_iff] at h
  obtain ⟨i, hi, ha⟩ := h
  have hmem := List.mem_of_find?_eq_some hi
  rw [List.mem_range'_1] at hmem
  exact ⟨i, hmem.1, by omega, ha⟩

/-- The block that was taken serves the request and no other pointer changes. -/
lemma Taken.serves (htaken : Taken c c' B B' a n) (h : Ready c B) (hfree : (c.mem a).status = .free)
    (hroom : size + sizeHeader64 ≤ 2 ^ min n (c.mem a).kSize) :
    ServesOnly c c' B B' (some (a + sizeHeader64)) size := by
  have hkept := htaken.kept
  refine ⟨⟨h.kept htaken.toRest hkept, fun x hx => hx.kept hkept (hx.ne_of_free hfree), ?_⟩,
    fun x hx hres => ?_⟩
  swap
  · by_cases hxa : x = a
    · exact .inl (by rw [hxa])
    · exact .inr (htaken.noNew x hx hxa hres)
  intro ptr hptr
  obtain rfl : a + sizeHeader64 = ptr := Option.some.inj hptr
  refine ⟨⟨Nat.le_add_left _ _, ?_, ?_, ?_, .inl ?_⟩, fun x hx heq => hx.ne_of_free hfree ?_⟩
  · rw [Nat.add_sub_cancel]
    exact htaken.status
  · rw [Nat.add_sub_cancel]
    exact htaken.magicNumber
  · rw [Nat.add_sub_cancel, hkept.ownerThread]
    exact htaken.ownerThread
  · rw [Nat.add_sub_cancel, BuddyBlock.size, htaken.kSize_eq]
    exact ⟨htaken.mem, hroom⟩
  · rw [heq, Nat.add_sub_cancel]

/-- A free block can be taken; it is large enough if its class is. -/
lemma Ready.takes (h : Ready c B) (ha : a ∈ B) (hfree : (c.mem a).status = .free)
    (hfits : size + sizeHeader64 ≤ 2 ^ 63) :
    ∃ p c' B', takeBlock c (sizeLog2 size) a = some (p, c') ∧
      ServesOnly c c' B B' p (if sizeLog2 size ≤ (c.mem a).kSize then size else 0) := by
  obtain ⟨hroom, hlarge⟩ := sizeLog2_large hfits
  obtain ⟨c', B', hrun, htaken⟩ := takeBlock_spec h.toRest ha hfree hlarge
  refine ⟨_, c', B', hrun, htaken.serves h hfree ?_⟩
  split_ifs with hle
  · rw [Nat.min_eq_left hle]
    exact hroom
  · have hblock := (h.tiled.block a ha).large
    rw [BuddyBlock.size] at hblock
    rw [Nat.min_eq_right (by omega)]
    omega

/-- The condition on a request: its size is computed right, or it gets no block. -/
def Fits (c : Context) (size : ℕ) (answer : Option ℕ) : Prop :=
  SizeFits c.kSize size ∨ (c.config.onDemandAlloc = false ∨ answer = none) ∧
    (size + sizeHeader64 ≤ 2 ^ 63 ∨ ∀ i < buddyMaxLog2Size, c.memDesc i = none)

instance (c : Context) (size : ℕ) (answer : Option ℕ) : Decidable (Fits c size answer) :=
  inferInstanceAs (Decidable (_ ∨ _))

lemma Ready.nothing_to_free (h : Ready c B) :
    checkBlocksToBeFreed c = some c := by
  have hempty := h.toBeFreedList
  rw [checkBlocksToBeFreed, hempty]
  simp only [List.foldlM_nil, Option.pure_def, Option.some.injEq]
  rw [← hempty]

/-- The requests for which `__BuddyMalloc` does not cut a block below the size of a header. -/
def Defined (c : Context) (size : ℕ) (answer : Option ℕ) : Prop :=
  size + sizeHeader64 ≤ 2 ^ 63 ∨ (c.config.onDemandAlloc = false ∨ answer = none) ∧
    ∀ i < buddyMaxLog2Size, c.memDesc i = none

instance (c : Context) (size : ℕ) (answer : Option ℕ) : Decidable (Defined c size answer) :=
  inferInstanceAs (Decidable (_ ∨ _))

variable {answer : Option ℕ}

lemma Fits.defined (h : Fits c size answer) : Defined c size answer := by
  rcases h with h | ⟨hpage, hle | hnone⟩
  · exact .inl h.le
  · exact .inl hle
  · exact .inr ⟨hpage, hnone⟩

/-- The same when the block comes from a new page. -/
lemma ServesOnly.of_newStdPage {c₁ : Context} {p : Option ℕ} (hserves : ServesOnly c₁ c' (insert a B) B' p n)
    (h : Ready c B) (hfresh : ∀ x ∈ c.areas, Apart (a, 2 ^ c.kSize) x) (hpage : PageAdded c c₁ B a) :
    ServesOnly c c' B B' p n := by
  have htracked := hpage.tracked
  have hout : ∀ x, InUse c B x → x.1 - sizeHeader64 ≠ a := fun x hx heq => by
    rcases hx.room with hroom | hroom
    · exact hpage.notMem (heq ▸ hroom.1)
    · have hd := hfresh _ (List.mem_append_right _ hroom.1)
      have hxpos := h.extra_pos _ hroom.1
      have hKpos := Nat.two_pow_pos c.kSize
      simp only [Apart] at hd hxpos
      omega
  have huse : ∀ x, InUse c B x → InUse c₁ (insert a B) x := fun x hx =>
    hx.kept htracked.toKept (hout x hx)
  refine ⟨⟨hserves.ready, fun x hx => hserves.inUse x (huse x hx), fun ptr hptr => ?_⟩,
    fun x hx hres => ?_⟩
  · exact ⟨(hserves.given ptr hptr).1, fun x hx => (hserves.given ptr hptr).2 x (huse x hx)⟩
  · rcases hserves.noNew x hx hres with hp | ⟨hx, hres⟩
    · exact .inl hp
    · exact .inr (htracked.noNew x hx hres)

lemma Ready.takes_newStdPage (h : Ready c B) (hfits : size + sizeHeader64 ≤ 2 ^ 63) (hpos : 0 < a)
    (hfresh : ∀ x ∈ c.areas, Apart (a, 2 ^ c.kSize) x) :
    ∃ c₁ p c' B', newStdPage c (some a) = (some a, c₁) ∧
      takeBlock c₁ (sizeLog2 size) a = some (p, c') ∧
      ServesOnly c c' B B' p (if sizeLog2 size ≤ c.kSize then size else 0) := by
  obtain ⟨c₁, hrun₁, hpage⟩ := newStdPage_spec h.toRest h.large hpos hfresh
  obtain ⟨p, c', B', hrun, hserves⟩ :=
    (h.kept hpage.toRest hpage.tracked.toKept).takes (.inl rfl) hpage.free hfits
  rw [hpage.kSize_eq] at hserves
  exact ⟨c₁, p, c', B', hrun₁, hrun, hserves.of_newStdPage h hfresh hpage⟩

/-- `BuddyMalloc`. The block has room for the bytes asked for, unless their size is not computed
right. -/
theorem buddyMalloc_serves (h : Ready c B) (hsize : size + sizeHeader64 < 2 ^ 64)
    (hanswer : ∀ a ∈ answer, 0 < a ∧ ∀ x ∈ c.areas, Apart (a, osRequest c size) x)
    (hdefined : Defined c size answer) :
    ∃ p c' B' n, buddyMalloc c size answer = some (p, c') ∧ ServesOnly c c' B B' p n ∧
      (Fits c size answer → n = size) := by
  have hsame : ServesOnly c c B B none size := h.fails c.errno
  rw [buddyMalloc, if_neg (not_not_intro h.initialized), h.nothing_to_free, Option.bind_some]
  by_cases hzero : size = 0
  · rw [if_pos hzero]
    exact ⟨_, c, B, size, rfl, hsame, fun _ => rfl⟩
  rw [if_neg hzero]
  by_cases hlarge : intShiftLeft (sizeLog2 size) > 2 ^ c.kSize
  · rw [if_pos hlarge]
    by_cases hextra : c.config.extraAlloc = true
    · rw [if_pos hextra]
      cases answer with
      | none =>
        refine ⟨none, _, B, size, ?_, h.fails .malloc, fun _ => rfl⟩
        simp [allocLargeBlock, hextra]
      | some a =>
        obtain ⟨hpos, hfresh⟩ := hanswer a rfl
        rw [osRequest, if_pos hlarge, Nat.mod_eq_of_lt hsize] at hfresh
        obtain ⟨c', hrun, hserves⟩ := allocLargeBlock_spec h hextra hsize hpos hfresh
        exact ⟨_, c', B, size, by rw [hrun], hserves, fun _ => rfl⟩
    · rw [if_neg hextra]
      exact ⟨_, _, B, size, rfl, h.fails _, fun _ => rfl⟩
  rw [if_neg hlarge]
  -- a block is split, or a page is added and split
  cases hfind : findFree c (sizeLog2 size) with
  | some a =>
    obtain ⟨i, hi, hmax, hhead⟩ := findFree_eq_some hfind
    obtain ⟨ha, hk⟩ := h.listed.head hhead
    have hle : size + sizeHeader64 ≤ 2 ^ 63 := by
      rcases hdefined with hle | ⟨-, hnone⟩
      · exact hle
      · rw [hnone i hmax] at hhead
        cases hhead
    obtain ⟨p, c', B', hrun, hserves⟩ := h.takes ha.1 ha.2 hle
    exact ⟨p, c', B', _, hrun, hserves, fun _ => if_pos (by omega)⟩
  | none =>
    simp only
    by_cases hdemand : c.config.onDemandAlloc = true
    · rw [if_pos hdemand]
      cases answer with
      | none => exact ⟨_, _, B, size, rfl, h.fails _, fun _ => rfl⟩
      | some a =>
        have hpage : ¬ (c.config.onDemandAlloc = false ∨ some a = none) := by
          rw [hdemand]
          simp
        have hle : size + sizeHeader64 ≤ 2 ^ 63 := hdefined.resolve_right fun hnone => hpage hnone.1
        obtain ⟨hpos, hfresh⟩ := hanswer a rfl
        rw [osRequest, if_neg hlarge] at hfresh
        obtain ⟨c₁, p, c', B', hnew, hrun, hserves⟩ := h.takes_newStdPage hle hpos hfresh
        refine ⟨p, c', B', _, by rw [hnew]; exact hrun, hserves, fun hfits => if_pos ?_⟩
        have hfits' : SizeFits c.kSize size := hfits.resolve_right fun hnone => hpage hnone.1
        exact hfits'.standard h.small hlarge
    · rw [if_neg hdemand]
      exact ⟨_, _, B, size, rfl, h.fails _, fun _ => rfl⟩

/-- `BuddyMalloc` of a request that fits. -/
theorem buddyMalloc_spec (h : Ready c B) (hsize : size + sizeHeader64 < 2 ^ 64)
    (hanswer : ∀ a ∈ answer, 0 < a ∧ ∀ x ∈ c.areas, Apart (a, osRequest c size) x)
    (hfits : Fits c size answer) :
    ∃ p c' B', buddyMalloc c size answer = some (p, c') ∧ Serves c c' B B' p size := by
  obtain ⟨p, c', B', n, hrun, hserves, hn⟩ := buddyMalloc_serves h hsize hanswer hfits.defined
  exact ⟨p, c', B', hrun, hn hfits ▸ hserves.toServes⟩

/-! ## BuddyFree -/

/-- What `__BuddyFree` of the block `a` leaves: the other blocks in use are as they were, and no
block but they is reserved. -/
structure Releases (c c' : Context) (B B' : Set ℕ) (a : ℕ) : Prop where
  ready : Ready c' B'
  kSize : c'.kSize = c.kSize
  ownerThread : c'.ownerThread = c.ownerThread
  inUse : ∀ x, InUse c B x → x.1 - sizeHeader64 ≠ a → InUse c' B' x
  core : ∀ x, InUse c B x → x.1 - sizeHeader64 ≠ a →
    (c'.mem (x.1 - sizeHeader64)).core = (c.mem (x.1 - sizeHeader64)).core
  noNew : ∀ x ∈ B', (c'.mem x).status = .reserved → x ∈ B ∧ x ≠ a ∧ (c.mem x).status = .reserved

/-- A large block that is freed leaves the blocks as they are. -/
lemma freeLargeBlock_spec {total : ℕ} (h : Ready c B) (hextra : (a, total) ∈ c.extras)
    (hbase : (c.mem a).basePtr = 0) (hinfo : (c.mem a).extraInfo = total) :
    Releases c (freeLargeBlock c a) B B a := by
  rw [freeLargeBlock, if_neg (not_not_intro hbase), hinfo]
  simp only
  set c₁ : Context := { c with extras := c.extras.erase (a, total) } with hc₁
  have hsub : c₁.areas.Sublist c.areas := List.erase_sublist.append_left _
  have hfilled : Filled c₁ B :=
    ⟨h.tiled, h.apart.sublist hsub, fun x hx => h.pos x (hsub.subset hx),
      fun x hx => h.extra_pos x (List.mem_of_mem_erase hx), h.small⟩
  have hrest : Rest c₁ B := ⟨hfilled, h.listed.congr rfl fun _ _ => rfl⟩
  refine ⟨⟨hrest.count _, h.initialized, h.toBeFreedList, h.large⟩, rfl, rfl, fun y hy hne => ?_,
    fun _ _ _ => rfl, fun x hx hres => ⟨hx, fun heq => ?_, hres⟩⟩
  · refine ⟨hy.header, hy.status, hy.magicNumber, hy.ownerThread, ?_⟩
    rcases hy.room with hroom | hroom
    · exact .inl hroom
    · refine .inr ⟨?_, hroom.2⟩
      exact (List.mem_erase_of_ne fun heq => hne (Prod.ext_iff.mp heq).1).mpr hroom.1
  · exact h.extra_ne hextra hx heq.symm

/-- A block of a page is freed as a standard block. -/
lemma Filled.buddyFreeBlock_of_mem (h : Filled c B) (ha : a ∈ B) :
    buddyFreeBlock c a = buddyFreeStd c a := by
  have hok := h.tiled.block _ ha
  have hbase : (c.mem a).basePtr ≠ 0 :=
    (h.pos _ (List.mem_append_left _ (List.mem_map_of_mem hok.page))).ne'
  have hinside : ¬ (a < (c.mem a).basePtr ∨
      a > (c.mem a).basePtr + intShiftLeft (c.mem a).baseKSize) := by
    have hle := hok.le
    have hfits := hok.fits
    have hsmall := h.small
    rw [hok.base, intShiftLeft_of_lt hsmall]
    omega
  rw [buddyFreeBlock, if_neg hbase, if_neg hinside]

/-- Freeing a block in use. -/
lemma buddyFreeBlock_spec (h : Ready c B) (hx : InUse c B x) :
    ∃ c' B', buddyFreeBlock c (x.1 - sizeHeader64) = some c' ∧
      Releases c c' B B' (x.1 - sizeHeader64) := by
  rcases hx.room with ⟨ha, -⟩ | ⟨hextra, hbase, hinfo⟩
  · rw [h.buddyFreeBlock_of_mem ha]
    obtain ⟨c', B', hrun, hrest, hkept, hnew⟩ := buddyFreeStd_spec h.toRest ha hx.status
    exact ⟨c', B', hrun, h.kept hrest hkept, hkept.kSize, hkept.ownerThread,
      fun y hy hne => hy.kept hkept hne, fun y hy hne => hy.core_eq hkept hne, hnew⟩
  · rw [buddyFreeBlock, if_pos hbase]
    exact ⟨_, B, rfl, freeLargeBlock_spec h hextra hbase hinfo⟩

/-- Another thread's block goes to the list, one's own is freed. -/
lemma InUse.buddyFree_eq (h : InUse c B x) (hinit : c.initialized = true) (self : ℕ) :
    buddyFree c self x.1 = if c.ownerThread ≠ self then
      some { c with toBeFreedList := (x.1 - sizeHeader64) :: c.toBeFreedList }
    else buddyFreeBlock c (x.1 - sizeHeader64) := by
  have hheader := h.header
  have hzero : x.1 ≠ 0 := by
    rw [sizeHeader64] at hheader
    omega
  rw [buddyFree, if_neg hzero, if_neg (not_not_intro hinit)]
  simp only [h.status, h.magicNumber, h.ownerThread]

/-- `BuddyFree` of a block in use by its owner. -/
theorem buddyFree_spec (h : Ready c B) (hx : InUse c B x) :
    ∃ c' B', buddyFree c c.ownerThread x.1 = some c' ∧ Ready c' B' ∧
      ∀ y, InUse c B y → y.1 ≠ x.1 → InUse c' B' y := by
  obtain ⟨c', B', hrun, hreleases⟩ := buddyFreeBlock_spec h hx
  refine ⟨c', B', ?_, hreleases.ready, fun y hy hne => hreleases.inUse y hy ?_⟩
  · rw [hx.buddyFree_eq h.initialized, if_neg (not_not_intro rfl)]
    exact hrun
  · have hx' := hx.header
    have hy' := hy.header
    omega

/-! ## Runs -/

/-- A context and the pointers that its owner has got and not given back, with the sizes asked
for. -/
structure System where
  context : Context
  live : List (ℕ × ℕ)

/-- The calls of the owner. -/
inductive Event
  | malloc (size : ℕ) (answer : Option ℕ)
  | free (ptr : ℕ)

/-- One call. -/
def step (s : System) : Event → Option System
  | .malloc size answer => (buddyMalloc s.context size answer).map fun (p, c) =>
    { context := c, live := (p.map (·, size)).toList ++ s.live }
  | .free ptr => (buddyFree s.context s.context.ownerThread ptr).map fun c =>
    { context := c, live := s.live.filter (·.1 ≠ ptr) }

/-- The size does not overflow and `malloc` gives memory that is not in use; `BuddyFree` is given
`NULL`, a pointer to a block in use, or one to a block that is still marked free. -/
def Possible (s : System) : Event → Prop
  | .malloc size answer => size + sizeHeader64 < 2 ^ 64 ∧
    ∀ a ∈ answer, 0 < a ∧ ∀ x ∈ s.context.areas, Apart (a, osRequest s.context size) x
  | .free ptr => ptr = 0 ∨ ptr ∈ s.live.map Prod.fst ∨
    sizeHeader64 ≤ ptr ∧ (s.context.mem (ptr - sizeHeader64)).status = .free ∧
      (s.context.mem (ptr - sizeHeader64)).magicNumber = .free

instance (s : System) : ∀ e, Decidable (Possible s e)
  | .malloc _ _ => inferInstanceAs (Decidable (_ ∧ _))
  | .free _ => inferInstanceAs (Decidable (_ ∨ _))

/-- The condition on a call. -/
def EventFits (s : System) : Event → Prop
  | .malloc size answer => Fits s.context size answer
  | .free _ => True

instance (s : System) : ∀ e, Decidable (EventFits s e)
  | .malloc size answer => inferInstanceAs (Decidable (Fits s.context size answer))
  | .free _ => instDecidableTrue

/-- The heap is whole. -/
structure Integrity (s : System) : Prop where
  blocks : ∃ B : Set ℕ, Tiled s.context.kSize s.context.pages s.context.mem B ∧
    Listed s.context {x | x ∈ B ∧ (s.context.mem x).status = .free}
  inside : ∀ x ∈ s.live, ∃ y ∈ s.context.areas,
    sizeHeader64 ≤ x.1 ∧ y.1 ≤ x.1 - sizeHeader64 ∧ x.1 + x.2 ≤ y.1 + y.2
  apart : s.live.Pairwise fun x y => Apart (range x) (range y)

/-- What every call keeps. -/
def Inv (s : System) : Prop :=
  ∃ B, Ready s.context B ∧ (∀ x ∈ s.live, InUse s.context B x) ∧ (s.live.map Prod.fst).Nodup

variable {s s' : System} {e : Event}

/-- What the invariant says of the blocks. -/
lemma Inv.integrity (h : Inv s) : Integrity s := by
  obtain ⟨B, hready, huse, hnd⟩ := h
  refine ⟨⟨B, hready.tiled, hready.listed⟩, fun x hx => ?_, ?_⟩
  · obtain ⟨y, hy, hle, hge⟩ := (huse x hx).area hready.toFilled
    exact ⟨y, hy, (huse x hx).header, hle, hge⟩
  · refine (List.pairwise_map.mp hnd).imp_of_mem fun {x y} hx hy hne => ?_
    exact (huse x hx).apart (huse y hy) hready.toFilled hne

/-- A call has an effect and keeps the invariant. -/
theorem Inv.step (h : Inv s) (hpossible : Possible s e) (hfits : EventFits s e) :
    ∃ s', step s e = some s' ∧ Inv s' := by
  obtain ⟨B, hready, huse, hnd⟩ := h
  cases e with
  | malloc size answer =>
    obtain ⟨p, c', B', hrun, hserves⟩ := buddyMalloc_spec hready hpossible.1 hpossible.2 hfits
    refine ⟨_, by rw [BuddyMalloc.step, hrun]; rfl, B', hserves.ready, ?_, ?_⟩
    · intro x hx
      -- the only new block is the one handed out
      rcases List.mem_append.mp hx with hx | hx
      · simp only [Option.mem_toList, Option.map_eq_some_iff] at hx
        obtain ⟨ptr, hptr, rfl⟩ := hx
        exact (hserves.given ptr hptr).1
      · exact hserves.inUse x (huse x hx)
    · cases hp : p with
      | none => exact hnd
      | some ptr =>
        refine List.nodup_cons.mpr ⟨fun hmem => ?_, hnd⟩
        obtain ⟨x, hx, heq⟩ := List.mem_map.mp hmem
        exact (hserves.given ptr hp).2 x (huse x hx) heq
  | free ptr =>
    have hlive : ∀ x, x ∈ s.live.filter (·.1 ≠ ptr) ↔ x ∈ s.live ∧ x.1 ≠ ptr := fun x => by
      simp
    have hnd' : ((s.live.filter (·.1 ≠ ptr)).map Prod.fst).Nodup :=
      hnd.sublist (List.filter_sublist.map _)
    have hsame : buddyFree s.context s.context.ownerThread ptr = some s.context →
        ∃ s', BuddyMalloc.step s (.free ptr) = some s' ∧ Inv s' := fun hrun =>
      ⟨{ s with live := s.live.filter (·.1 ≠ ptr) }, by rw [BuddyMalloc.step, hrun]; rfl, B, hready,
        fun x hx => huse x ((hlive x).mp hx).1, hnd'⟩
    rcases hpossible with rfl | hmem | ⟨hheader, hstatus, hmagic⟩
    · exact hsame rfl
    · obtain ⟨x, hx, rfl⟩ := List.mem_map.mp hmem
      obtain ⟨c', B', hrun, hready', huse'⟩ := buddyFree_spec hready (huse _ hx)
      refine ⟨_, by rw [BuddyMalloc.step, hrun]; rfl, B', hready', fun y hy => ?_, hnd'⟩
      obtain ⟨hy, hne⟩ := (hlive y).mp hy
      exact huse' y (huse y hy) hne
    · refine hsame ?_
      have hzero : ptr ≠ 0 := by
        rw [sizeHeader64] at hheader
        omega
      rw [buddyFree, if_neg hzero, if_neg (not_not_intro hready.initialized)]
      simp only [hstatus, hmagic]

/-- A context before its first page. -/
def emptyContext (config : Config) (self : ℕ) (mem : ℕ → BuddyBlock) : Context where
  initialized := true
  ownerThread := self
  config := config
  stats := { stdPageSize := intShiftLeft (log2Ceil config.memoryAreaSize) }
  kSize := log2Ceil config.memoryAreaSize
  memDesc := fun _ => none
  errno := .success
  toBeFreedList := []
  mem := mem
  pages := []
  extras := []

/-- `BuddyInit` starts with one free page. -/
lemma buddyInit_added {config : Config} {self : ℕ} {mem : ℕ → BuddyBlock}
    (harea : config.memoryAreaSize ≤ 2 ^ 30) (hpos : ∀ a ∈ answer, 0 < a)
    (h : (buddyInit config self mem answer).1 = .success) :
    ∃ a, PageAdded (emptyContext config self mem) (buddyInit config self mem answer).2 ∅ a ∧
      sizeHeader64 + minAllocSize ≤ 2 ^ (emptyContext config self mem).kSize ∧
      (emptyContext config self mem).kSize < 31 ∧ answer = some a := by
  have hlog : log2Ceil config.memoryAreaSize = Nat.clog 2 config.memoryAreaSize :=
    log2Ceil_eq (harea.trans (by decide))
  have hle : log2Ceil config.memoryAreaSize ≤ 30 := by
    rw [hlog]
    exact Nat.clog_le_of_le_pow harea
  have hge : config.memoryAreaSize ≤ 2 ^ log2Ceil config.memoryAreaSize := by
    rw [hlog]
    exact Nat.le_pow_clog (by omega) _
  revert h
  rw [buddyInit]
  simp only
  split_ifs with hsmall hm
  · exact fun h => nomatch h
  · exact fun h => nomatch h
  · cases answer with
    | none => exact fun h => nomatch h
    | some a =>
      intro _
      have hkSize : (emptyContext config self mem).kSize = log2Ceil config.memoryAreaSize := rfl
      have hempty : Rest (emptyContext config self mem) ∅ := by
        refine ⟨⟨⟨fun x hx => hx.elim, fun x hx => hx.elim, fun p hp => ?_⟩, List.Pairwise.nil,
          fun x hx => ?_, fun x hx => ?_, ?_⟩, fun _ => [], fun i => ⟨rfl, List.nodup_nil, ?_⟩⟩
        · cases hp
        · cases hx
        · cases hx
        · exact Nat.lt_of_le_of_lt hle (by decide)
        · simp
      have hlarge : sizeHeader64 + minAllocSize ≤ 2 ^ (emptyContext config self mem).kSize := by
        rw [hkSize]
        omega
      obtain ⟨c', hrun, hpage⟩ := newStdPage_spec (a := a) hempty hlarge (hpos a rfl)
        fun x hx => nomatch hx
      have hresult : newStdPage (emptyContext config self mem) (some a) = (some a, c') := hrun
      rw [emptyContext] at hresult
      simp only [hresult]
      exact ⟨a, hpage, hlarge, Nat.lt_of_le_of_lt hle (by decide), rfl⟩

lemma buddyInit_spec {config : Config} {self : ℕ} {mem : ℕ → BuddyBlock}
    (harea : config.memoryAreaSize ≤ 2 ^ 30) (hpos : ∀ a ∈ answer, 0 < a)
    (h : (buddyInit config self mem answer).1 = .success) :
    ∃ B, Ready (buddyInit config self mem answer).2 B ∧
      ∀ x ∈ B, ((buddyInit config self mem answer).2.mem x).status ≠ .reserved := by
  obtain ⟨a, hpage, hlarge, -⟩ := buddyInit_added harea hpos h
  have hkept := hpage.tracked
  exact ⟨_, ⟨hpage.toRest, hkept.initialized, hkept.toBeFreedList, hkept.kSize ▸ hlarge⟩,
    fun x hx hres => (hkept.noNew x hx hres).1⟩

/-! ## Requests that do not fit -/

/-- No block is larger than a page. -/
lemma Ready.memDesc_eq_none {i : ℕ} (h : Ready c B) (hi : c.kSize < i) : c.memDesc i = none := by
  cases hhead : c.memDesc i with
  | none => rfl
  | some a =>
    obtain ⟨ha, hk⟩ := h.listed.head hhead
    have hle := (h.tiled.block a ha.1).kSize_le
    omega

/-- Empty lists from a size on. -/
lemma findFree_eq_none (h : ∀ i, n ≤ i → c.memDesc i = none) : findFree c n = none := by
  cases hfind : findFree c n with
  | none => rfl
  | some a =>
    obtain ⟨i, hi, -, hhead⟩ := findFree_eq_some hfind
    rw [h i hi] at hhead
    cases hhead

/-- Where the search failed all lists are empty. -/
lemma memDesc_eq_none_of_findFree {i : ℕ} (h : findFree c n = none) (hi : n ≤ i) (hmax : i < buddyMaxLog2Size) :
    c.memDesc i = none := by
  rw [findFree, Option.bind_eq_none_iff] at h
  cases hfind : (List.range' n (buddyMaxLog2Size - n)).find? fun i => (c.memDesc i).isSome with
  | none =>
    have hnone := List.find?_eq_none.mp hfind i (List.mem_range'_1.mpr ⟨hi, by omega⟩)
    exact Option.not_isSome_iff_eq_none.mp hnone
  | some j =>
    have hsome := List.find?_some hfind
    rw [h j hfind] at hsome
    cases hsome

/-- A block cannot be split below the smallest size. -/
lemma splitLoop_of_small {fuel : ℕ} (h : Held c B a) (hn : 2 ^ n < sizeHeader64 + minAllocSize)
    (hfuel : (c.mem a).kSize ≤ fuel) : splitLoop n fuel c a = none := by
  have hlarge := (h.tiled.block a h.mem).large
  rw [BuddyBlock.size] at hlarge
  have hgt : (c.mem a).kSize > n :=
    (Nat.pow_lt_pow_iff_right (by omega)).mp (by omega : 2 ^ n < 2 ^ (c.mem a).kSize)
  induction fuel generalizing c B with
  | zero => omega
  | succ fuel ih =>
    obtain ⟨k, hk⟩ : ∃ k, (c.mem a).kSize = k + 1 := ⟨(c.mem a).kSize - 1, by omega⟩
    have hk' : ((c.modify a fun b => { b with kSize := b.kSize - 1 }).mem a).kSize = k := by
      rw [modify_mem_self]
      simp only [hk, Nat.add_sub_cancel]
    rw [splitLoop, if_pos hgt]
    by_cases hhalf : 2 ^ ((c.modify a fun b => { b with kSize := b.kSize - 1 }).mem a).kSize <
        sizeHeader64 + minAllocSize
    · exact if_pos hhalf
    · rw [hk'] at hhalf
      obtain ⟨hheld, hk'', -⟩ := splitOnce_spec h hk (by omega)
      have hgt' : k > n := (Nat.pow_lt_pow_iff_right (by omega)).mp (by omega : 2 ^ n < 2 ^ k)
      have hnone := ih hheld (by omega) (by rw [hk'']; omega) (by rw [hk'']; exact hgt')
      exact (if_neg (by rw [hk']; exact hhalf)).trans hnone

/-- A size without room for the header is not taken. -/
lemma takeBlock_of_small (h : Rest c B) (ha : a ∈ B) (hfree : (c.mem a).status = .free)
    (hn : 2 ^ n < sizeHeader64 + minAllocSize) : takeBlock c n a = none := by
  have hheld := h.takeOut ha hfree
  rw [takeBlock]
  simp only
  rw [Option.map_eq_none_iff]
  split_ifs
  · exact splitLoop_of_small (hheld.count _) hn le_rfl
  · exact splitLoop_of_small hheld hn le_rfl

/-- The shift of an `int` wraps, and the size passes for a standard one. -/
lemma intShiftLeft_wrapped (hK : K < 31) (hgt : 2 ^ 31 < size + sizeHeader64)
    (hle : size + sizeHeader64 ≤ 2 ^ (32 + K)) :
    32 ≤ sizeLog2 size ∧ ¬ intShiftLeft (sizeLog2 size) > 2 ^ K := by
  have hmax : size + sizeHeader64 ≤ 2 ^ 63 :=
    hle.trans (Nat.pow_le_pow_right (by omega) (by omega))
  have hlarge : sizeHeader64 + minAllocSize ≤ 2 ^ (32 + K) :=
    le_trans (by decide) (Nat.pow_le_pow_right (by omega) (by omega : 7 ≤ 32 + K))
  have hlow : ¬ sizeLog2 size ≤ 31 := fun h => by
    have := ((sizeLog2_le_iff hmax).mp h).1
    omega
  have hhigh : sizeLog2 size ≤ 32 + K := (sizeLog2_le_iff hmax).mpr ⟨hle, hlarge⟩
  refine ⟨by omega, not_lt.mpr ?_⟩
  rw [intShiftLeft, if_neg (by omega)]
  exact Nat.pow_le_pow_right (by omega) (by omega)

/-- Every run of calls that meet the condition keeps the heap whole, and none of them is stuck. -/
theorem integrity_of_fits {config : Config} {self : ℕ} {mem : ℕ → BuddyBlock} {answer : Option ℕ}
    (harea : config.memoryAreaSize ≤ 2 ^ 30) (hpos : ∀ a ∈ answer, 0 < a)
    (hinit : (buddyInit config self mem answer).1 = .success)
    (h : ReachableBy step (fun s e => Possible s e ∧ EventFits s e)
      ⟨(buddyInit config self mem answer).2, []⟩ s) :
    Integrity s ∧ ∀ e, Possible s e → EventFits s e → (step s e).isSome := by
  have hinv : Inv s := by
    refine h.invariant (I := Inv) ?_ fun s e s' hs hC hstep => ?_
    · obtain ⟨B, hready, -⟩ := buddyInit_spec harea hpos hinit
      exact ⟨B, hready, fun x hx => absurd hx List.not_mem_nil, List.nodup_nil⟩
    · obtain ⟨s'', hstep'', hinv⟩ := hs.step hC.1 hC.2
      rw [hstep] at hstep''
      exact Option.some.inj hstep'' ▸ hinv
  refine ⟨hinv.integrity, fun e hpossible hfits => ?_⟩
  obtain ⟨s', hstep, -⟩ := hinv.step hpossible hfits
  rw [hstep]
  rfl

/-- A context with one page at 1 MiB, before any call. -/
def start (config : Config) : System where
  context := (buddyInit config 1
    (fun _ => ⟨0, .other, 0, 0, 0, 0, .free, none, none⟩) (some (2 ^ 20))).2
  live := []

/-- A small block, an extra block, and the small block given back and given out again. -/
theorem integrity_after_small_and_extra :
    ∃ s, execute step (start { defaultBuddyParameter with memoryAreaSize := 1024 })
        [.malloc 100 none, .malloc 2000 (some (2 ^ 22)), .free (2 ^ 20 + 48), .malloc 200 none] =
          some s ∧
      s.live = [(2 ^ 20 + 48, 200), (2 ^ 22 + 48, 2000)] ∧ Integrity s := by
  have hrun : (execute step (start { defaultBuddyParameter with memoryAreaSize := 1024 })
      [.malloc 100 none, .malloc 2000 (some (2 ^ 22)), .free (2 ^ 20 + 48), .malloc 200 none]).map
        System.live = some [(2 ^ 20 + 48, 200), (2 ^ 22 + 48, 2000)] := by decide +kernel
  obtain ⟨s, hs, hlive⟩ := Option.map_eq_some_iff.mp hrun
  refine ⟨s, hs, hlive, ?_⟩
  have hmeets : Meets step (fun s e => Possible s e ∧ EventFits s e)
      (start { defaultBuddyParameter with memoryAreaSize := 1024 })
      [.malloc 100 none, .malloc 2000 (some (2 ^ 22)), .free (2 ^ 20 + 48), .malloc 200 none] := by
    decide +kernel
  exact (integrity_of_fits (by decide) (by decide) (by decide)
    (reachableBy_of_execute hs hmeets)).1

/-- A request of 4 GiB is served by a page of 1 MiB. -/
theorem not_integrity_after_four_gib :
    ¬ ∀ s, ReachableBy step Possible (start defaultBuddyParameter) s → Integrity s := by
  intro hall
  have hrun : ∃ s, step (start defaultBuddyParameter) (.malloc (2 ^ 32 - 48) (some (2 ^ 21))) =
      some s ∧ s.live = [(2 ^ 21 + 48, 2 ^ 32 - 48)] ∧
      s.context.areas = [(2 ^ 21, 2 ^ 20), (2 ^ 20, 2 ^ 20)] := ⟨_, rfl, rfl, rfl⟩
  obtain ⟨s, hs, hlive, hareas⟩ := hrun
  have hpossible : Possible (start defaultBuddyParameter)
      (.malloc (2 ^ 32 - 48) (some (2 ^ 21))) := by
    decide
  have hinside := (hall s (ReachableBy.init.next hpossible hs)).inside
  rw [hlive, hareas] at hinside
  exact absurd hinside (by decide)

end Ganesha.BuddyMalloc
