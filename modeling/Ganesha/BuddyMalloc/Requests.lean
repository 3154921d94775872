import Ganesha.BuddyMalloc.Theorems

/-!
# Every request

What `BuddyMalloc` does with a request of any 64-bit size. `Outcome` lists the ways in which a call
ends; `Served` says what each of them leaves. A call has no defined effect only if a block is to be
cut below the size of a header (`Sound`): `Log2Ceil` gives 0 beyond 2^63, and the header added to a
size near 2^64 wraps.
-/

namespace Ganesha.BuddyMalloc
open Library.Transition

variable {c c' : Context} {B B' : Set ℕ} {a size : ℕ} {answer p : Option ℕ}

/-! ## The ways in which a call ends -/

/-- No block can be had for the request. -/
def NoBlock (c : Context) (size : ℕ) (answer : Option ℕ) : Prop :=
  size = 0 ∨
    (intShiftLeft (sizeLog2 size) > 2 ^ c.kSize ∧ (c.config.extraAlloc = false ∨ answer = none)) ∨
    (¬ intShiftLeft (sizeLog2 size) > 2 ^ c.kSize ∧ findFree c (sizeLog2 size) = none ∧
      (c.config.onDemandAlloc = false ∨ answer = none))

instance (c : Context) (size : ℕ) (answer : Option ℕ) : Decidable (NoBlock c size answer) :=
  inferInstanceAs (Decidable (_ ∨ _))

/-- The result of a call that finds no block to be freed. -/
inductive Outcome (c : Context) (size : ℕ) (answer : Option ℕ) :
    Option (Option ℕ × Context) → Prop
  | fails (e : Errno) (hnone : NoBlock c size answer) :
    Outcome c size answer (some (none, { c with errno := e }))
  | extra (a : ℕ) (hzero : size ≠ 0) (hlarge : intShiftLeft (sizeLog2 size) > 2 ^ c.kSize)
    (hextra : c.config.extraAlloc = true) (ha : answer = some a) :
    Outcome c size answer (some (allocLargeBlock c size (some a)))
  | found (a : ℕ) (hzero : size ≠ 0) (hstd : ¬ intShiftLeft (sizeLog2 size) > 2 ^ c.kSize)
    (hfind : findFree c (sizeLog2 size) = some a) :
    Outcome c size answer (takeBlock c (sizeLog2 size) a)
  | newPage (a : ℕ) (hzero : size ≠ 0) (hstd : ¬ intShiftLeft (sizeLog2 size) > 2 ^ c.kSize)
    (hfind : findFree c (sizeLog2 size) = none) (hdemand : c.config.onDemandAlloc = true)
    (ha : answer = some a) :
    Outcome c size answer (takeBlock (newStdPage c (some a)).2 (sizeLog2 size) a)

/-- `BuddyMalloc`, case by case. -/
theorem Ready.outcome (h : Ready c B) : Outcome c size answer (buddyMalloc c size answer) := by
  rw [buddyMalloc, if_neg (not_not_intro h.initialized), h.nothing_to_free, Option.bind_some]
  by_cases hzero : size = 0
  · rw [if_pos hzero]
    exact .fails c.errno (.inl hzero)
  rw [if_neg hzero]
  by_cases hlarge : intShiftLeft (sizeLog2 size) > 2 ^ c.kSize
  · rw [if_pos hlarge]
    by_cases hextra : c.config.extraAlloc = true
    · rw [if_pos hextra]
      cases answer with
      | none =>
        have hrun : allocLargeBlock c size none = (none, { c with errno := .malloc }) := by
          simp [allocLargeBlock, hextra]
        rw [hrun]
        exact .fails .malloc (.inr (.inl ⟨hlarge, .inr rfl⟩))
      | some a => exact .extra a hzero hlarge hextra rfl
    · rw [if_neg hextra]
      exact .fails .outOfMem (.inr (.inl ⟨hlarge, .inl (Bool.eq_false_iff.mpr hextra)⟩))
  rw [if_neg hlarge]
  cases hfind : findFree c (sizeLog2 size) with
  | some a => exact .found a hzero hlarge hfind
  | none =>
    simp only
    by_cases hdemand : c.config.onDemandAlloc = true
    · rw [if_pos hdemand]
      cases answer with
      | none => exact .fails .malloc (.inr (.inr ⟨hlarge, hfind, .inr rfl⟩))
      | some a => exact .newPage a hzero hlarge hfind hdemand rfl
    · rw [if_neg hdemand]
      exact .fails .outOfMem
        (.inr (.inr ⟨hlarge, hfind, .inl (Bool.eq_false_iff.mpr hdemand)⟩))

/-! ## Sizes -/

lemma sizeLog2_of_wrapped (hsize : size < 2 ^ 64) (h : 2 ^ 64 ≤ size + sizeHeader64) :
    sizeLog2 size ≤ 6 := by
  have hheader : sizeHeader64 = 48 := rfl
  rw [sizeLog2, if_neg (by rw [minAllocSize]; omega)]
  have hmod : (size + sizeHeader64) % 2 ^ 64 ≤ 2 ^ 6 := by omega
  rw [log2Ceil_eq (hmod.trans (by decide))]
  exact Nat.clog_le_of_le_pow hmod

/-- The size with its header does not wrap around. -/
lemma Ready.not_wrapped (h : Ready c B) (hsize : size < 2 ^ 64)
    (hlarge : intShiftLeft (sizeLog2 size) > 2 ^ c.kSize) : size + sizeHeader64 < 2 ^ 64 := by
  by_contra hwrap
  have hlog := sizeLog2_of_wrapped hsize (not_lt.mp hwrap)
  rw [intShiftLeft_of_lt (by omega)] at hlarge
  have hpow : 2 ^ sizeLog2 size ≤ 2 ^ 6 := Nat.pow_le_pow_right (by omega) hlog
  have hK := h.large
  rw [sizeHeader64, minAllocSize] at hK
  omega

lemma Ready.found_spec (h : Ready c B) (hfind : findFree c (sizeLog2 size) = some a) :
    a ∈ B ∧ (c.mem a).status = .free ∧ sizeLog2 size ≤ (c.mem a).kSize := by
  obtain ⟨i, hi, -, hhead⟩ := findFree_eq_some hfind
  obtain ⟨ha, hk⟩ := h.listed.head hhead
  exact ⟨ha.1, ha.2, by omega⟩

/-! ## What is left -/

/-- What a call leaves: nothing but `Errno` is changed, an extra block is added, or a block of a page
is taken, which may be a new one. -/
inductive Served (c : Context) (B : Set ℕ) (size : ℕ) (answer : Option ℕ) :
    Option ℕ → Context → Set ℕ → Prop
  | fails (e : Errno) (hnone : NoBlock c size answer) :
    Served c B size answer none { c with errno := e } B
  | extra (a : ℕ) (hsome : ¬ NoBlock c size answer) (ha : answer = some a) (hnot : a ∉ B)
    (hsize : size + sizeHeader64 < 2 ^ 64) (hlarge : intShiftLeft (sizeLog2 size) > 2 ^ c.kSize)
    (hextra : c.config.extraAlloc = true) :
    Served c B size answer (some (a + sizeHeader64)) (allocLargeBlock c size (some a)).2 B
  | found (a : ℕ) (c' : Context) (B' : Set ℕ) (hsome : ¬ NoBlock c size answer) (ha : a ∈ B)
    (hfree : (c.mem a).status = .free) (hle : sizeLog2 size ≤ (c.mem a).kSize)
    (htaken : Taken c c' B B' a (sizeLog2 size)) :
    Served c B size answer (some (a + sizeHeader64)) c' B'
  | newPage (a : ℕ) (c₁ c' : Context) (B' : Set ℕ) (hsome : ¬ NoBlock c size answer)
    (ha : answer = some a) (hpage : PageAdded c c₁ B a)
    (hstd : ¬ intShiftLeft (sizeLog2 size) > 2 ^ c.kSize)
    (htaken : Taken c₁ c' (insert a B) B' a (sizeLog2 size)) :
    Served c B size answer (some (a + sizeHeader64)) c' B'

/-- The condition under which a call has a defined effect. -/
def Sound (c : Context) (size : ℕ) (answer : Option ℕ) : Prop :=
  sizeHeader64 + minAllocSize ≤ 2 ^ sizeLog2 size ∨ NoBlock c size answer

instance (c : Context) (size : ℕ) (answer : Option ℕ) : Decidable (Sound c size answer) :=
  inferInstanceAs (Decidable (_ ∨ _))

/-- `malloc` gives an area of the address space that is apart from those held. -/
def Fresh (c : Context) (size : ℕ) (answer : Option ℕ) : Prop :=
  ∀ a ∈ answer, 0 < a ∧ a + osRequest c size ≤ 2 ^ 64 ∧
    ∀ x ∈ c.areas, Apart (a, osRequest c size) x

instance (c : Context) (size : ℕ) (answer : Option ℕ) : Decidable (Fresh c size answer) :=
  inferInstanceAs (Decidable (∀ a ∈ answer, _))

lemma sizeHeader64_le_min {n k : ℕ} (hn : sizeHeader64 + minAllocSize ≤ 2 ^ n)
    (hk : sizeHeader64 + minAllocSize ≤ 2 ^ k) : 0 + sizeHeader64 ≤ 2 ^ min n k := by
  rcases Nat.le_total n k with hle | hle
  · rw [Nat.min_eq_left hle]
    omega
  · rw [Nat.min_eq_right hle]
    omega

/-- `BuddyMalloc` of any size. -/
theorem Ready.request (h : Ready c B) (hsize : size < 2 ^ 64) (hfresh : Fresh c size answer)
    (hsound : Sound c size answer) :
    ∃ p c' B', buddyMalloc c size answer = some (p, c') ∧ Served c B size answer p c' B' ∧
      ∃ n, ServesOnly c c' B B' p n := by
  have hlog : ¬ NoBlock c size answer → sizeHeader64 + minAllocSize ≤ 2 ^ sizeLog2 size :=
    fun hsome => hsound.resolve_right hsome
  have houtcome : Outcome c size answer (buddyMalloc c size answer) := h.outcome
  generalize buddyMalloc c size answer = result at houtcome ⊢
  cases houtcome with
  | fails e hnone => exact ⟨_, _, B, rfl, .fails e hnone, size, h.fails e⟩
  | extra a hzero hlarge hextra ha =>
    -- neither of the reasons to refuse is there
    have hsome : ¬ NoBlock c size answer := by
      rintro (hnone | ⟨-, hnone | hnone⟩ | hnone)
      · exact hzero hnone
      · rw [hextra] at hnone
        cases hnone
      · rw [ha] at hnone
        cases hnone
      · exact hnone.1 hlarge
    obtain ⟨hpos, -, hapart⟩ := hfresh a ha
    have hwrap := h.not_wrapped hsize hlarge
    rw [osRequest, if_pos hlarge, Nat.mod_eq_of_lt hwrap] at hapart
    obtain ⟨c', hrun, hserves⟩ := allocLargeBlock_spec h hextra hwrap hpos hapart
    have hnot : a ∉ B := fun ha => by
      have hok := h.tiled.block a ha
      have hle := hok.le
      have hfits := hok.fits
      have hxpos := (c.mem a).size_pos
      have hd := hapart _ (List.mem_append_left _ (List.mem_map_of_mem hok.page))
      simp only [Apart] at hd
      omega
    have hserved := Served.extra a hsome ha hnot hwrap hlarge hextra
    rw [hrun] at hserved ⊢
    exact ⟨_, c', B, rfl, hserved, size, hserves⟩
  | found a hzero hstd hfind =>
    obtain ⟨ha, hfree, hle⟩ := h.found_spec hfind
    have hsome : ¬ NoBlock c size answer := by
      rintro (hnone | hnone | hnone)
      · exact hzero hnone
      · exact hstd hnone.1
      · rw [hfind] at hnone
        cases hnone.2.1
    have hlarge := hlog hsome
    obtain ⟨c', B', hrun, htaken⟩ := takeBlock_spec h.toRest ha hfree hlarge
    exact ⟨_, c', B', hrun, .found a c' B' hsome ha hfree hle htaken, 0,
      htaken.serves h hfree (sizeHeader64_le_min hlarge (h.tiled.block a ha).large)⟩
  | newPage a hzero hstd hfind hdemand ha =>
    obtain ⟨hpos, -, hapart⟩ := hfresh a ha
    rw [osRequest, if_neg hstd] at hapart
    have hsome : ¬ NoBlock c size answer := by
      rintro (hnone | hnone | ⟨-, -, hnone | hnone⟩)
      · exact hzero hnone
      · exact hstd hnone.1
      · rw [hdemand] at hnone
        cases hnone
      · rw [ha] at hnone
        cases hnone
    have hlarge := hlog hsome
    obtain ⟨c₁, hrun₁, hpage⟩ := newStdPage_spec h.toRest h.large hpos hapart
    obtain ⟨c', B', hrun, htaken⟩ := takeBlock_spec hpage.toRest (.inl rfl) hpage.free hlarge
    have hready := h.kept hpage.toRest hpage.tracked.toKept
    rw [hrun₁]
    refine ⟨_, c', B', hrun, .newPage a c₁ c' B' hsome ha hpage hstd htaken, 0, ?_⟩
    refine (htaken.serves hready hpage.free ?_).of_newStdPage h hapart hpage
    exact sizeHeader64_le_min hlarge (hpage.kSize_eq ▸ h.large)

lemma allocLargeBlock_frame (hextra : c.config.extraAlloc = true)
    (hsize : size + sizeHeader64 < 2 ^ 64) :
    (∀ x, x ≠ a → (allocLargeBlock c size (some a)).2.mem x = c.mem x) ∧
      (allocLargeBlock c size (some a)).2.kSize = c.kSize ∧
      (allocLargeBlock c size (some a)).2.config = c.config ∧
      (allocLargeBlock c size (some a)).2.pages = c.pages ∧
      (allocLargeBlock c size (some a)).2.extras = (a, size + sizeHeader64) :: c.extras ∧
      (allocLargeBlock c size (some a)).2.stats =
        updateStatsAddExtraPage c.stats (size + sizeHeader64) ∧
      ((allocLargeBlock c size (some a)).2.mem a).basePtr = 0 ∧
      ((allocLargeBlock c size (some a)).2.mem a).extraInfo = size + sizeHeader64 := by
  simp only [allocLargeBlock, hextra, not_true_eq_false, if_false, Nat.mod_eq_of_lt hsize]
  refine ⟨fun x hne => ?_, rfl, rfl, rfl, rfl, rfl, ?_, ?_⟩
  · rw [count_mem, modify_mem_of_ne _ hne]
  · rw [count_mem, modify_mem_self]
  · rw [count_mem, modify_mem_self]

/-- A request keeps the owner. -/
lemma Served.ownerThread (h : Served c B size answer p c' B') : c'.ownerThread = c.ownerThread := by
  cases h with
  | fails e hnone => rfl
  | extra a hsome ha hnot hsize hlarge hextra =>
    simp only [allocLargeBlock, hextra, not_true_eq_false, if_false]
    rfl
  | found a _ _ hsome ha hfree hle htaken => exact htaken.kept.ownerThread
  | newPage a c₁ _ _ hsome ha hpage hstd htaken =>
    exact htaken.kept.ownerThread.trans hpage.tracked.ownerThread

/-- No two free buddies come to be. -/
theorem Served.coalesced (h : Served c B size answer p c' B') (hco : Coalesced c.kSize c.mem B) :
    Coalesced c'.kSize c'.mem B' := by
  cases h with
  | fails e hnone => exact hco
  | extra a hsome ha hnot hsize hlarge hextra =>
    obtain ⟨hmem, hkSize, -⟩ := allocLargeBlock_frame (a := a) hextra hsize
    rw [hkSize]
    refine hco.congr fun x hx => ?_
    rw [hmem x fun heq => hnot (heq ▸ hx)]
  | found a _ _ hsome ha hfree hle htaken => exact htaken.coalesced hco
  | newPage a c₁ _ _ hsome ha hpage hstd htaken => exact htaken.coalesced (hpage.coalesced hco)

/-- A request gives no page back. -/
lemma Served.pages (h : Served c B size answer p c' B') : c.pages ⊆ c'.pages := by
  cases h with
  | fails e hnone => exact List.Subset.refl _
  | extra a hsome ha hnot hsize hlarge hextra =>
    obtain ⟨-, -, -, hpages, -⟩ := allocLargeBlock_frame (a := a) hextra hsize
    rw [hpages]
    exact List.Subset.refl _
  | found a _ _ hsome ha hfree hle htaken =>
    rw [htaken.pages]
    exact List.Subset.refl _
  | newPage a c₁ _ _ hsome ha hpage hstd htaken =>
    rw [htaken.pages, hpage.pages]
    exact List.subset_cons_self a c.pages

/-- A request adds at most the area that the system answers. -/
lemma Served.areas (h : Served c B size answer p c' B') {x : ℕ × ℕ} (hx : x ∈ c'.areas) :
    x ∈ c.areas ∨ ∃ a, answer = some a ∧ x = (a, osRequest c size) := by
  have htaken : ∀ {c₁ : Context} {B₁ : Set ℕ} {a n : ℕ}, Taken c₁ c' B₁ B' a n →
      c'.areas = c₁.areas := fun htaken => by
    rw [Context.areas, htaken.kept.kSize, htaken.pages, htaken.kept.extras, Context.areas]
  cases h with
  | fails e hnone => exact .inl hx
  | extra a hsome ha hnot hsize hlarge hextra =>
    obtain ⟨-, hk, -, hpages, hextras, -⟩ := allocLargeBlock_frame (a := a) hextra hsize
    rw [Context.areas, hk, hpages, hextras] at hx
    rcases List.mem_append.mp hx with hx | hx
    · exact .inl (List.mem_append_left _ hx)
    · rcases List.mem_cons.mp hx with rfl | hx
      · refine .inr ⟨a, ha, ?_⟩
        rw [osRequest, if_pos hlarge, Nat.mod_eq_of_lt hsize]
      · exact .inl (List.mem_append_right _ hx)
  | found a _ _ hsome ha hfree hle htaken' =>
    rw [htaken htaken'] at hx
    exact .inl hx
  | newPage a c₁ _ _ hsome ha hpage hstd htaken' =>
    rw [htaken htaken', hpage.areas] at hx
    rcases List.mem_cons.mp hx with rfl | hx
    · refine .inr ⟨a, ha, ?_⟩
      rw [osRequest, if_neg hstd]
    · exact .inl hx

/-- The headers of the blocks in use are the same after a request. -/
lemma Served.core {x : ℕ × ℕ} (h : Served c B size answer p c' B') (hready : Ready c B)
    (hfresh : Fresh c size answer) (hx : InUse c B x) :
    (c'.mem (x.1 - sizeHeader64)).core = (c.mem (x.1 - sizeHeader64)).core := by
  cases h with
  | fails e hnone => rfl
  | extra a hsome ha hnot hsize hlarge hextra =>
    obtain ⟨hmem, -⟩ := allocLargeBlock_frame (a := a) hextra hsize
    have hne : x.1 - sizeHeader64 ≠ a := by
      rcases hx.room with hroom | hroom
      · exact fun heq => hnot (heq ▸ hroom.1)
      · have hd := (hfresh a ha).2.2 _ (List.mem_append_right _ hroom.1)
        have hpos := hready.extra_pos _ hroom.1
        rw [osRequest, if_pos hlarge, Nat.mod_eq_of_lt hsize] at hd
        simp only [Apart, sizeHeader64] at hd hpos ⊢
        omega
    rw [hmem _ hne]
  | found a _ _ hsome ha hfree hle htaken => exact hx.core_eq htaken.kept (hx.ne_of_free hfree)
  | newPage a c₁ _ _ hsome ha hpage hstd htaken =>
    have hne : x.1 - sizeHeader64 ≠ a := by
      rcases hx.room with hroom | hroom
      · exact fun heq => hpage.notMem (heq ▸ hroom.1)
      · have hd := (hfresh a ha).2.2 _ (List.mem_append_right _ hroom.1)
        have hpos := hready.extra_pos _ hroom.1
        have hK := Nat.two_pow_pos c.kSize
        rw [osRequest, if_neg hstd] at hd
        simp only [Apart] at hd hpos
        omega
    have hx₁ := hx.kept hpage.tracked.toKept hne
    exact (hx₁.core_eq htaken.kept hne).trans (hx.core_eq hpage.tracked.toKept hne)

/-- A request that is not sound has no defined effect. -/
theorem Ready.buddyMalloc_of_not_sound (h : Ready c B) (hfresh : Fresh c size answer)
    (hnot : ¬ Sound c size answer) : buddyMalloc c size answer = none := by
  rw [Sound, not_or, not_le] at hnot
  have houtcome : Outcome c size answer (buddyMalloc c size answer) := h.outcome
  generalize buddyMalloc c size answer = result at houtcome ⊢
  cases houtcome with
  | fails e hnone => exact absurd hnone hnot.2
  | extra a hzero hlarge hextra ha =>
    -- a size of less than 64 bytes is not larger than a page
    have hK := h.large
    have hsmall : sizeLog2 size < 6 := by
      have hpow : 2 ^ sizeLog2 size < 2 ^ 6 := hnot.1
      exact (Nat.pow_lt_pow_iff_right (by omega)).mp hpow
    rw [intShiftLeft_of_lt (by omega)] at hlarge
    omega
  | found a hzero hstd hfind =>
    obtain ⟨ha, hfree, -⟩ := h.found_spec hfind
    exact takeBlock_of_small h.toRest ha hfree hnot.1
  | newPage a hzero hstd hfind hdemand ha =>
    obtain ⟨hpos, -, hapart⟩ := hfresh a ha
    rw [osRequest, if_neg hstd] at hapart
    obtain ⟨c₁, hrun, hpage⟩ := newStdPage_spec h.toRest h.large hpos hapart
    rw [hrun]
    exact takeBlock_of_small hpage.toRest (.inl rfl) hpage.free hnot.1

end Ganesha.BuddyMalloc
