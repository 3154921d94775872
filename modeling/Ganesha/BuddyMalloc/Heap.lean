import Mathlib.Order.BooleanAlgebra.Set
import Ganesha.BuddyMalloc.Tiling

/-!
# What the allocator keeps

`Rest c B`: the blocks `B` fill the pages and the lists hold the free ones. `Held c B a` is the same
while the code has the block `a` in hand, which is then in no list. `Kept` says what a call does not
touch: the descriptors of the reserved blocks and of the extra blocks. `Tracked` adds that no block
becomes reserved.
-/

namespace Ganesha.BuddyMalloc
open Library.Dyadic

variable {c c' c'' : Context} {B B' B'' : Set ℕ} {a : ℕ}

/-- The areas obtained from `malloc`. -/
def Context.areas (c : Context) : List (ℕ × ℕ) := pageAreas c.kSize c.pages ++ c.extras

/-- The blocks of the pages, whatever the lists hold. -/
structure Filled (c : Context) (B : Set ℕ) : Prop where
  tiled : Tiled c.kSize c.pages c.mem B
  apart : c.areas.Pairwise Apart
  pos : ∀ x ∈ c.areas, 0 < x.1
  extra_pos : ∀ x ∈ c.extras, 0 < x.2
  small : c.kSize < 31

/-- Between two calls. -/
structure Rest (c : Context) (B : Set ℕ) : Prop extends Filled c B where
  listed : Listed c {x | x ∈ B ∧ (c.mem x).status = .free}

/-- In a call, with the block `a` in hand. -/
structure Held (c : Context) (B : Set ℕ) (a : ℕ) : Prop extends Filled c B where
  mem : a ∈ B
  listed : Listed c {x | x ∈ B ∧ x ≠ a ∧ (c.mem x).status = .free}

/-- What is left alone: the settings, the reserved blocks other than `a` and the extra blocks. -/
structure Kept (c c' : Context) (B B' : Set ℕ) (a : ℕ) : Prop where
  kSize : c'.kSize = c.kSize
  config : c'.config = c.config
  initialized : c'.initialized = c.initialized
  ownerThread : c'.ownerThread = c.ownerThread
  toBeFreedList : c'.toBeFreedList = c.toBeFreedList
  extras : c'.extras = c.extras
  reserved : ∀ x ∈ B, x ≠ a → (c.mem x).status = .reserved →
    x ∈ B' ∧ (c'.mem x).core = (c.mem x).core
  extra : ∀ x ∈ c.extras, (c'.mem x.1).core = (c.mem x.1).core

/-- In addition, every block that is reserved was so before. -/
structure Tracked (c c' : Context) (B B' : Set ℕ) (a : ℕ) : Prop extends Kept c c' B B' a where
  noNew : ∀ x ∈ B', (c'.mem x).status = .reserved → x ∈ B ∧ (c.mem x).status = .reserved

/-- The pages and the statistics are the same, and no two free buddies come to be. -/
structure Tidy (c c' : Context) (S S' : Set ℕ) : Prop where
  pages : c'.pages = c.pages
  stats : c'.stats = c.stats
  coalesced : Coalesced c.kSize c.mem S → Coalesced c'.kSize c'.mem S'

lemma Tidy.refl (c : Context) (S : Set ℕ) : Tidy c c S S := ⟨rfl, rfl, id⟩

lemma Tidy.trans {S S' S'' : Set ℕ} (h : Tidy c c' S S') (h' : Tidy c' c'' S' S'') :
    Tidy c c'' S S'' :=
  ⟨h'.pages.trans h.pages, h'.stats.trans h.stats, fun hco => h'.coalesced (h.coalesced hco)⟩

lemma SameBut.coalesced {S : Set ℕ} (h : SameBut c c') (hco : Coalesced c.kSize c.mem S) :
    Coalesced c'.kSize c'.mem S := by
  rw [h.kSize]
  exact hco.congr fun x _ => h.core x

lemma Filled.apart_pages (h : Filled c B) : (pageAreas c.kSize c.pages).Pairwise Apart :=
  (List.pairwise_append.mp h.apart).1

/-- A large block lies outside the pages. -/
lemma Filled.extra_out (h : Filled c B) {x : ℕ × ℕ} {p : ℕ} (hx : x ∈ c.extras) (hp : p ∈ c.pages) :
    x.1 < p ∨ p + 2 ^ c.kSize ≤ x.1 := by
  have hd : Apart (p, 2 ^ c.kSize) x :=
    (List.pairwise_append.mp h.apart).2.2 _ (List.mem_map_of_mem hp) x hx
  have hpos := h.extra_pos x hx
  rcases hd with hd | hd
  · exact .inr hd
  · simp only at hd
    exact .inl (by omega)

/-- A large block is no block of a page. -/
lemma Filled.extra_ne (h : Filled c B) {x : ℕ × ℕ} (hx : x ∈ c.extras) (ha : a ∈ B) : x.1 ≠ a := by
  have hok := h.tiled.block a ha
  have hle := hok.le
  have hfits := hok.fits
  have hpos := (c.mem a).size_pos
  have hout := h.extra_out hx hok.page
  omega

/-- Large blocks lie apart. -/
lemma Filled.apart_of_mem_erase {x y : ℕ × ℕ} (h : Filled c B) (hx : x ∈ c.extras)
    (hy : y ∈ c.extras.erase x) : Apart y x := by
  have hpw := (List.pairwise_append.mp h.apart).2.1
  have hnd : c.extras.Nodup := hpw.imp_of_mem fun {y z} hy hz hd heq => by
    have hpos := h.extra_pos y hy
    rw [← heq] at hd
    simp only [Apart] at hd
    omega
  obtain ⟨hne, hy⟩ := (List.Nodup.mem_erase_iff hnd).mp hy
  exact hpw.forall hy hx hne

lemma Kept.refl (c : Context) (B : Set ℕ) (a : ℕ) : Kept c c B B a :=
  ⟨rfl, rfl, rfl, rfl, rfl, rfl, fun _ hx _ _ => ⟨hx, rfl⟩, fun _ _ => rfl⟩

lemma status_congr {d d' : BuddyBlock} (h : d'.core = d.core) : d'.status = d.status :=
  (BuddyBlock.core_eq.mp h).2.2.2.2.2.2

lemma kSize_congr {d d' : BuddyBlock} (h : d'.core = d.core) : d'.kSize = d.kSize :=
  (BuddyBlock.core_eq.mp h).2.2.2.2.1

/-- Two changes that keep the blocks, one after the other. -/
lemma Kept.trans {a' : ℕ} (h : Kept c c' B B' a) (h' : Kept c' c'' B' B'' a')
    (ha : a' = a ∨ (c'.mem a').status = .free) : Kept c c'' B B'' a where
  kSize := h'.kSize.trans h.kSize
  config := h'.config.trans h.config
  initialized := h'.initialized.trans h.initialized
  ownerThread := h'.ownerThread.trans h.ownerThread
  toBeFreedList := h'.toBeFreedList.trans h.toBeFreedList
  extras := h'.extras.trans h.extras
  reserved x hx hne hres := by
    obtain ⟨hx', hcore⟩ := h.reserved x hx hne hres
    have hres' : (c'.mem x).status = .reserved := (status_congr hcore).trans hres
    have hne' : x ≠ a' := by
      rintro rfl
      rcases ha with rfl | hfree
      · exact hne rfl
      · rw [hfree] at hres'
        cases hres'
    obtain ⟨hx'', hcore'⟩ := h'.reserved x hx' hne' hres'
    exact ⟨hx'', hcore'.trans hcore⟩
  extra x hx := (h'.extra x (h.extras ▸ hx)).trans (h.extra x hx)

lemma SameBut.kept (h : SameBut c c') (B : Set ℕ) (a : ℕ) : Kept c c' B B a :=
  ⟨h.kSize, h.config, h.initialized, h.ownerThread, h.toBeFreedList, h.extras,
    fun x hx _ _ => ⟨hx, h.core x⟩, fun x _ => h.core x.1⟩

lemma Tracked.refl (c : Context) (B : Set ℕ) (a : ℕ) : Tracked c c B B a :=
  ⟨.refl c B a, fun _ hx hres => ⟨hx, hres⟩⟩

lemma Tracked.trans {a' : ℕ} (h : Tracked c c' B B' a) (h' : Tracked c' c'' B' B'' a')
    (ha : a' = a ∨ (c'.mem a').status = .free) : Tracked c c'' B B'' a where
  toKept := h.toKept.trans h'.toKept ha
  noNew x hx hres := by
    obtain ⟨hx', hres'⟩ := h'.noNew x hx hres
    exact h.noNew x hx' hres'

lemma SameBut.tracked (h : SameBut c c') (B : Set ℕ) (a : ℕ) : Tracked c c' B B a where
  toKept := h.kept B a
  noNew x hx hres := by
    rw [status_congr (h.core x)] at hres
    exact ⟨hx, hres⟩

lemma SameBut.areas (h : SameBut c c') : c'.areas = c.areas := by
  rw [Context.areas, h.kSize, h.pages, h.extras, Context.areas]

/-- Links in the lists do not count. -/
lemma SameBut.filled (h : SameBut c c') (hf : Filled c B) : Filled c' B := by
  refine ⟨?_, ?_, ?_, ?_, ?_⟩
  · rw [h.kSize, h.pages]
    exact hf.tiled.congr fun x _ => h.core x
  · rw [h.areas]; exact hf.apart
  · rw [h.areas]; exact hf.pos
  · rw [h.extras]; exact hf.extra_pos
  · rw [h.kSize]; exact hf.small

@[simp] lemma count_mem (f : Stats → Stats) : (c.count f).mem = c.mem := rfl

lemma sameBut_count (c : Context) (f : Stats → Stats) : SameBut c (c.count f) :=
  ⟨fun _ => rfl, rfl, rfl, rfl, rfl, rfl, rfl, rfl⟩

lemma Listed.count {L : Set ℕ} (h : Listed c L) (f : Stats → Stats) : Listed (c.count f) L :=
  h.congr rfl fun _ _ => rfl

lemma Rest.count (h : Rest c B) (f : Stats → Stats) : Rest (c.count f) B :=
  ⟨(sameBut_count c f).filled h.toFilled, h.listed.count f⟩

lemma Held.count (h : Held c B a) (f : Stats → Stats) : Held (c.count f) B a :=
  ⟨(sameBut_count c f).filled h.toFilled, h.mem, h.listed.count f⟩

/-! ## Sizes -/

lemma intShiftLeft_of_lt {n : ℕ} (h : n < 31) : intShiftLeft n = 2 ^ n := by
  have hmod : n % 32 = n := by omega
  rw [intShiftLeft, hmod, if_neg (by omega)]

lemma Filled.getBuddyBlock_eq (h : Filled c B) (ha : a ∈ B) :
    getBuddyBlock c a = buddyOf (c.mem a) a := by
  have hle := (h.tiled.block a ha).kSize_le
  have hsmall := h.small
  rw [getBuddyBlock, intShiftLeft_of_lt (by omega), buddyOf, BuddyBlock.size]

/-! ## Taking a block in hand and putting it back -/

/-- A free block that is taken out of its list is held. -/
lemma Rest.takeOut (h : Rest c B) (ha : a ∈ B) (hfree : (c.mem a).status = .free) :
    Held (removeFreeBlock c a) B a := by
  have hsame := sameBut_removeFreeBlock c a
  refine ⟨hsame.filled h.toFilled, ha, ?_⟩
  have hlisted := h.listed.remove (a := a) ⟨ha, hfree⟩
  have hset : {x | x ∈ B ∧ (c.mem x).status = .free} \ {a} =
      {x | x ∈ B ∧ x ≠ a ∧ ((removeFreeBlock c a).mem x).status = .free} := by
    ext x
    simp only [Set.mem_sdiff, Set.mem_ofPred_eq, Set.mem_singleton_iff, status_congr (hsame.core x)]
    tauto
  rw [← hset]
  exact hlisted

/-- A held block that is free goes back to a list. -/
lemma Held.putBack (h : Held c B a) (hfree : (c.mem a).status = .free) :
    Rest (insertFreeBlock c a) B := by
  have hsame := sameBut_insertFreeBlock c a
  refine ⟨hsame.filled h.toFilled, ?_⟩
  have hlisted := h.listed.insert (a := a) fun hmem => hmem.2.1 rfl
  have hset : insert a {x | x ∈ B ∧ x ≠ a ∧ (c.mem x).status = .free} =
      {x | x ∈ B ∧ ((insertFreeBlock c a).mem x).status = .free} := by
    ext x
    simp only [Set.mem_insert_iff, Set.mem_ofPred_eq, status_congr (hsame.core x)]
    rcases eq_or_ne x a with rfl | hne
    · simp [h.mem, hfree]
    · simp [hne]
  rw [← hset]
  exact hlisted

/-! ## Splitting -/

/-- The body of the splitting loop. -/
def splitOnce (c : Context) (a : ℕ) : Context :=
  let c := c.modify a fun b => { b with kSize := b.kSize - 1 }
  let buddy := getBuddyBlock c a
  let c := c.modify buddy fun b =>
    { b with
      basePtr := (c.mem a).basePtr
      baseKSize := (c.mem a).baseKSize
      status := .free
      magicNumber := .free
      kSize := (c.mem a).kSize }
  insertFreeBlock c buddy

/-- A split leaves two buddies of half the size, of which the upper one is free and listed. -/
lemma splitOnce_spec {k : ℕ} (h : Held c B a) (hk : (c.mem a).kSize = k + 1)
    (hlarge : sizeHeader64 + minAllocSize ≤ 2 ^ k) :
    Held (splitOnce c a) (insert (a + 2 ^ k) B) a ∧ ((splitOnce c a).mem a).kSize = k ∧
      ((splitOnce c a).mem a).basePtr = (c.mem a).basePtr ∧
      Tracked c (splitOnce c a) B (insert (a + 2 ^ k) B) a ∧
      Tidy c (splitOnce c a) (B \ {a}) (insert (a + 2 ^ k) B \ {a}) := by
  have hok := h.tiled.block a h.mem
  have hsmall := h.small
  have hkK := hok.kSize_le
  have hpos := Nat.two_pow_pos k
  set c₁ := c.modify a fun b => { b with kSize := b.kSize - 1 } with hc₁
  have ha₁ : c₁.mem a = { c.mem a with kSize := k } := by
    rw [hc₁, modify_mem_self, hk, Nat.add_sub_cancel]
  -- the offset is a multiple of the old size, so the buddy is the upper half
  have hbuddy : getBuddyBlock c₁ a = a + 2 ^ k := by
    have hdvd : 2 ^ k * 2 ∣ a - (c.mem a).basePtr := by
      have haligned := hok.aligned
      rw [BuddyBlock.size, hk, pow_succ] at haligned
      exact haligned
    have hle := hok.le
    rw [getBuddyBlock, ha₁]
    simp only
    rw [intShiftLeft_of_lt (by omega)]
    rcases buddy_cases (k := k) (dvd_of_mul_right_dvd hdvd) with ⟨heq, -⟩ | ⟨heq, hdvd'⟩
    · rw [heq]
      omega
    · -- both offsets would be multiples of the old size
      rw [pow_succ] at hdvd'
      have hsub : 2 ^ k * 2 ∣ 2 ^ k := by
        rw [← heq] at hdvd
        exact (Nat.dvd_add_right hdvd').mp hdvd
      have := Nat.le_of_dvd hpos hsub
      omega
  set c₂ := c₁.modify (a + 2 ^ k) fun b =>
    { b with
      basePtr := (c₁.mem a).basePtr
      baseKSize := (c₁.mem a).baseKSize
      status := .free
      magicNumber := .free
      kSize := (c₁.mem a).kSize } with hc₂
  have hsplit : splitOnce c a = insertFreeBlock c₂ (a + 2 ^ k) := by
    rw [splitOnce, ← hc₁]
    simp only [hbuddy]
    rfl
  have ha₂ : c₂.mem a = { c.mem a with kSize := k } := by
    rw [hc₂, modify_mem_of_ne _ (by omega), ha₁]
  have hrest : ∀ x, x ≠ a → x ≠ a + 2 ^ k → c₂.mem x = c.mem x := fun x hxa hxb => by
    rw [hc₂, modify_mem_of_ne _ hxb, hc₁, modify_mem_of_ne _ hxa]
  have hb₂ : c₂.mem (a + 2 ^ k) = { c₁.mem (a + 2 ^ k) with
      basePtr := (c₁.mem a).basePtr
      baseKSize := (c₁.mem a).baseKSize
      status := .free
      magicNumber := .free
      kSize := (c₁.mem a).kSize } := modify_mem_self _
  have hnot : a + 2 ^ k ∉ B := fun hb => by
    have hsize : (c.mem a).size = 2 ^ k * 2 := by rw [BuddyBlock.size, hk, pow_succ]
    have heq := h.tiled.eq_of_mem h.mem hb (x := a + 2 ^ k) (by omega) (by omega) le_rfl
      (by have := (c.mem (a + 2 ^ k)).size_pos; omega)
    omega
  have hB : ∀ x ∈ B, x ≠ a + 2 ^ k := fun x hx heq => hnot (heq ▸ hx)
  obtain ⟨-, htiled⟩ := h.tiled.split (m := c₂.mem) h.mem hk hlarge (by rw [ha₂]) (by rw [ha₂])
    (by rw [ha₂]) (by rw [hb₂, ha₁]) (by rw [hb₂, ha₁]) (by rw [hb₂, ha₁])
    (fun x hx hne => by rw [hrest x hne (hB x hx)])
  have hextra : ∀ x ∈ c.extras, c₂.mem x.1 = c.mem x.1 := fun x hx => by
    have hout := h.extra_out hx hok.page
    have hfits := hok.fits
    have hle := hok.le
    have hsize : (c.mem a).size = 2 ^ k * 2 := by rw [BuddyBlock.size, hk, pow_succ]
    exact hrest x.1 (by omega) (by omega)
  have hfilled₂ : Filled c₂ (insert (a + 2 ^ k) B) :=
    ⟨htiled, h.apart, h.pos, h.extra_pos, h.small⟩
  have hlisted₂ : Listed c₂ {x | x ∈ B ∧ x ≠ a ∧ (c.mem x).status = .free} :=
    h.listed.congr rfl fun x hx => hrest x hx.2.1 (hB x hx.1)
  have hsame := sameBut_insertFreeBlock c₂ (a + 2 ^ k)
  have hlisted := hlisted₂.insert (a := a + 2 ^ k) fun hmem => hnot hmem.1
  have hset : Insert.insert (a + 2 ^ k) {x | x ∈ B ∧ x ≠ a ∧ (c.mem x).status = .free} =
      {x | x ∈ Insert.insert (a + 2 ^ k) B ∧ x ≠ a ∧
        ((insertFreeBlock c₂ (a + 2 ^ k)).mem x).status = .free} := by
    ext x
    simp only [Set.mem_insert_iff, Set.mem_ofPred_eq, status_congr (hsame.core x)]
    rcases eq_or_ne x (a + 2 ^ k) with rfl | hne
    · rw [hb₂]
      simp only [true_or, true_and, and_true, true_iff]
      omega
    · simp only [hne, false_or]
      rcases eq_or_ne x a with rfl | hxa
      · simp
      · rw [hrest x hxa hne]
  rw [hsplit]
  refine ⟨⟨hsame.filled hfilled₂, .inr h.mem, ?_⟩, ?_, ?_, ?_,
    ⟨hsame.pages, insertFreeBlock_stats c₂ _, fun hco => hsame.coalesced ?_⟩⟩
  · rw [← hset]
    exact hlisted
  · rw [kSize_congr (hsame.core a), ha₂]
  · rw [(BuddyBlock.core_eq.mp (hsame.core a)).1, ha₂]
  · have hkept : Kept c c₂ B (Insert.insert (a + 2 ^ k) B) a := by
      refine ⟨rfl, rfl, rfl, rfl, rfl, rfl, fun x hx hne _ => ⟨.inr hx, ?_⟩, fun x hx => ?_⟩
      · rw [hrest x hne (hB x hx)]
      · rw [hextra x hx]
    have hnew : ∀ x ∈ Insert.insert (a + 2 ^ k) B, (c₂.mem x).status = .reserved →
        x ∈ B ∧ (c.mem x).status = .reserved := by
      intro x hx hres
      rcases hx with rfl | hx
      · -- the upper half is marked free
        rw [hb₂] at hres
        cases hres
      · rcases eq_or_ne x a with rfl | hne
        · rw [ha₂] at hres
          exact ⟨hx, hres⟩
        · rw [hrest x hne (hB x hx)] at hres
          exact ⟨hx, hres⟩
    exact Tracked.trans ⟨hkept, hnew⟩ (hsame.tracked _ a) (.inl rfl)
  · -- the buddy of the upper half is the block in hand
    have hbuddy₂ : a + 2 ^ k = buddyOf (c₂.mem a) a := by
      rw [← hfilled₂.getBuddyBlock_eq (.inr h.mem), getBuddyBlock, ha₂]
      rw [getBuddyBlock, ha₁] at hbuddy
      exact hbuddy.symm
    have hback : a = buddyOf (c₂.mem (a + 2 ^ k)) (a + 2 ^ k) := by
      refine htiled.buddy_symm hfilled₂.apart_pages (.inr h.mem) ?_ hbuddy₂ ?_
      · rw [ha₂]
        show k < c.kSize
        omega
      · rw [hb₂, ha₁, ha₂]
    have hsub : Insert.insert (a + 2 ^ k) B \ {a} = Insert.insert (a + 2 ^ k) (B \ {a}) := by
      rw [Set.insert_sdiff_of_notMem]
      simp only [Set.mem_singleton_iff]
      omega
    rw [hsub]
    refine htiled.coalesced_insert hfilled₂.apart_pages (hco.congr fun x hx => ?_)
      (Set.insert_subset_insert Set.sdiff_subset) fun _ hmem => ?_
    · rw [hrest x hx.2 (hB x hx.1)]
    · rw [← hback] at hmem
      exact absurd rfl hmem.2

/-- The loop splits the block down to the size that is asked for. -/
lemma splitLoop_spec {fuel sizelog2 : ℕ} (h : Held c B a)
    (hlarge : sizeHeader64 + minAllocSize ≤ 2 ^ sizelog2) (hfuel : (c.mem a).kSize ≤ fuel) :
    ∃ c' B', splitLoop sizelog2 fuel c a = some c' ∧ Held c' B' a ∧
      (c'.mem a).kSize = min sizelog2 (c.mem a).kSize ∧
      (c'.mem a).basePtr = (c.mem a).basePtr ∧ Tracked c c' B B' a ∧
      Tidy c c' (B \ {a}) ( B' \ {a}) := by
  induction fuel generalizing c B with
  | zero => exact ⟨c, B, rfl, h, by omega, rfl, .refl c B a, .refl c _⟩
  | succ fuel ih =>
    simp only [splitLoop]
    by_cases hgt : (c.mem a).kSize > sizelog2
    · obtain ⟨k, hk⟩ : ∃ k, (c.mem a).kSize = k + 1 := ⟨(c.mem a).kSize - 1, by omega⟩
      have hpow : sizeHeader64 + minAllocSize ≤ 2 ^ k :=
        hlarge.trans (Nat.pow_le_pow_right (by omega) (by omega))
      obtain ⟨hheld, hk', hbase, hkept, htidy⟩ := splitOnce_spec h hk hpow
      obtain ⟨c'', B'', hrun, hheld', hsize, hbase', hkept', htidy'⟩ := ih hheld (by omega)
      have hhalf : ¬ 2 ^ ((c.modify a fun b => { b with kSize := b.kSize - 1 }).mem a).kSize <
          sizeHeader64 + minAllocSize := by
        rw [modify_mem_self]
        simp only [hk, Nat.add_sub_cancel]
        omega
      rw [if_pos hgt, if_neg hhalf]
      exact ⟨c'', B'', hrun, hheld', by omega, hbase'.trans hbase, hkept.trans hkept' (.inl rfl),
        htidy.trans htidy'⟩
    · rw [if_neg hgt]
      exact ⟨c, B, rfl, h, by omega, rfl, .refl c B a, .refl c _⟩

/-- The held block may be marked, as long as its size and its page stay. -/
lemma Held.mark (h : Held c B a) (f : BuddyBlock → BuddyBlock)
    (hf : (f (c.mem a)).basePtr = (c.mem a).basePtr ∧ (f (c.mem a)).baseKSize = (c.mem a).baseKSize ∧
      (f (c.mem a)).kSize = (c.mem a).kSize) :
    Held (c.modify a f) B a ∧ Kept c (c.modify a f) B B a := by
  have hrest : ∀ x, x ≠ a → (c.modify a f).mem x = c.mem x := fun x hne => modify_mem_of_ne f hne
  have hok := h.tiled.block a h.mem
  have hsize : ∀ x, ((c.modify a f).mem x).size = (c.mem x).size := fun x => by
    rcases eq_or_ne x a with rfl | hne
    · rw [modify_mem_self, BuddyBlock.size, hf.2.2, BuddyBlock.size]
    · rw [hrest x hne]
  refine ⟨⟨⟨⟨fun x hx => ?_, fun x hx y hy hne => ?_, fun p hp x hpx hxp => ?_⟩, h.apart, h.pos,
    h.extra_pos, h.small⟩, h.mem, ?_⟩, ?_⟩
  · rcases eq_or_ne x a with rfl | hne
    · have hs := hsize x
      rw [modify_mem_self] at hs ⊢
      refine ⟨?_, ?_, ?_, ?_, ?_, ?_⟩
      · rw [hf.1]; exact hok.page
      · rw [hf.2.1]; exact hok.base
      · rw [hs]; exact hok.large
      · rw [hf.1]; exact hok.le
      · rw [hf.1, hs]; exact hok.aligned
      · rw [hf.1, hs]; exact hok.fits
    · rw [hrest x hne]
      exact h.tiled.block x hx
  · rw [hsize, hsize]
    exact h.tiled.disjoint x hx y hy hne
  · obtain ⟨y, hy, hyx⟩ := h.tiled.cover p hp x hpx hxp
    exact ⟨y, hy, by rw [hsize]; exact hyx⟩
  · -- the free blocks beside `a` are the same
    have hset : {x | x ∈ B ∧ x ≠ a ∧ ((c.modify a f).mem x).status = .free} =
        {x | x ∈ B ∧ x ≠ a ∧ (c.mem x).status = .free} := by
      ext x
      simp only [Set.mem_ofPred_eq]
      rcases eq_or_ne x a with rfl | hne
      · simp
      · rw [hrest x hne]
    rw [hset]
    exact h.listed.congr rfl fun x hx => hrest x hx.2.1
  · refine ⟨rfl, rfl, rfl, rfl, rfl, rfl, fun x hx hne _ => ⟨hx, ?_⟩, fun x hx => ?_⟩
    · rw [hrest x hne]
    · rw [hrest x.1 (h.extra_ne hx h.mem)]

/-- A held block that is reserved belongs to the others. -/
lemma Held.rest (h : Held c B a) (hres : (c.mem a).status = .reserved) : Rest c B := by
  refine ⟨h.toFilled, ?_⟩
  have hset : {x | x ∈ B ∧ (c.mem x).status = .free} =
      {x | x ∈ B ∧ x ≠ a ∧ (c.mem x).status = .free} := by
    ext x
    simp only [Set.mem_ofPred_eq]
    rcases eq_or_ne x a with rfl | hne
    · simp [hres]
    · simp [hne]
  rw [hset]
  exact h.listed

/-- A reserved block may be held. -/
lemma Rest.hold (h : Rest c B) (ha : a ∈ B) (hres : (c.mem a).status = .reserved) : Held c B a := by
  refine ⟨h.toFilled, ha, ?_⟩
  have hset : {x | x ∈ B ∧ x ≠ a ∧ (c.mem x).status = .free} =
      {x | x ∈ B ∧ (c.mem x).status = .free} := by
    ext x
    simp only [Set.mem_ofPred_eq]
    rcases eq_or_ne x a with rfl | hne
    · simp [hres]
    · simp [hne]
  rw [hset]
  exact h.listed

/-- What `__BuddyMalloc` does once the free block `a` has been chosen. -/
structure Taken (c c' : Context) (B B' : Set ℕ) (a sizelog2 : ℕ) : Prop extends Rest c' B' where
  mem : a ∈ B'
  kSize_eq : (c'.mem a).kSize = min sizelog2 (c.mem a).kSize
  basePtr : (c'.mem a).basePtr = (c.mem a).basePtr
  status : (c'.mem a).status = .reserved
  magicNumber : (c'.mem a).magicNumber = .used
  ownerThread : (c'.mem a).ownerThread = c.ownerThread
  kept : Kept c c' B B' a
  noNew : ∀ x ∈ B', x ≠ a → (c'.mem x).status = .reserved → x ∈ B ∧ (c.mem x).status = .reserved
  pages : c'.pages = c.pages
  stats : c'.stats = updateStatsUseStdMemSpace
    (if c.isWholePage a then updateStatsUseStdPage c.stats else c.stats) (intShiftLeft sizelog2)
  coalesced : Coalesced c.kSize c.mem B → Coalesced c'.kSize c'.mem B'

/-- `__BuddyMalloc` once a free block has been chosen. -/
theorem takeBlock_spec {sizelog2 : ℕ} (h : Rest c B) (ha : a ∈ B)
    (hfree : (c.mem a).status = .free) (hlarge : sizeHeader64 + minAllocSize ≤ 2 ^ sizelog2) :
    ∃ c' B', takeBlock c sizelog2 a = some (some (a + sizeHeader64), c') ∧
      Taken c c' B B' a sizelog2 := by
  have hheld := h.takeOut ha hfree
  have hsame := sameBut_removeFreeBlock c a
  have hk : ((removeFreeBlock c a).mem a).kSize = (c.mem a).kSize := kSize_congr (hsame.core a)
  have hbase : ((removeFreeBlock c a).mem a).basePtr = (c.mem a).basePtr :=
    (BuddyBlock.core_eq.mp (hsame.core a)).1
  have hwhole : (removeFreeBlock c a).isWholePage a = c.isWholePage a := by
    rw [Context.isWholePage, hk, hbase, (BuddyBlock.core_eq.mp (hsame.core a)).2.2.2.1]
    rfl
  -- the statistics are all that the test on the page changes
  set c₁ := if (removeFreeBlock c a).isWholePage a then
    (removeFreeBlock c a).count updateStatsUseStdPage else removeFreeBlock c a with hc₁
  have hstep : Held c₁ B a ∧ Tracked c c₁ B B a ∧ c₁.mem a = (removeFreeBlock c a).mem a ∧
      c₁.ownerThread = c.ownerThread ∧ SameBut c c₁ ∧
      c₁.stats = if c.isWholePage a then updateStatsUseStdPage c.stats else c.stats := by
    rw [hc₁, hwhole]
    split_ifs
    · refine ⟨hheld.count _, (hsame.trans (sameBut_count _ _)).tracked B a, rfl, hsame.ownerThread,
        hsame.trans (sameBut_count _ _), ?_⟩
      exact congrArg updateStatsUseStdPage (removeFreeBlock_stats c a)
    · exact ⟨hheld, hsame.tracked B a, rfl, hsame.ownerThread, hsame, removeFreeBlock_stats c a⟩
  obtain ⟨hheld₁, hkept₁, hmem₁, howner₁, hsame₁, hstats₁⟩ := hstep
  have hk₁ : (c₁.mem a).kSize = (c.mem a).kSize := by rw [hmem₁, hk]
  obtain ⟨c₂, B', hsplit, hheld₂, hk₂, hbase₂, hkept₂, htidy⟩ :=
    splitLoop_spec hheld₁ hlarge le_rfl
  have hkept₁₂ := hkept₁.trans hkept₂ (.inl rfl)
  obtain ⟨hheld₃, hkept₃⟩ := hheld₂.mark
    (fun b => { b with status := .reserved, magicNumber := .used, ownerThread := c₂.ownerThread })
    ⟨rfl, rfl, rfl⟩
  have howner₂ : c₂.ownerThread = c.ownerThread := hkept₂.ownerThread.trans howner₁
  have hself := modify_mem_self (c := c₂) (a := a) fun b =>
    { b with status := .reserved, magicNumber := .used, ownerThread := c₂.ownerThread }
  have hother : ∀ x, x ≠ a → (c₂.modify a fun b =>
      { b with status := .reserved, magicNumber := .used, ownerThread := c₂.ownerThread }).mem x =
      c₂.mem x := fun x hne => modify_mem_of_ne _ hne
  refine ⟨_, B', ?_, (hheld₃.rest (by rw [hself])).count fun s =>
    updateStatsUseStdMemSpace s (intShiftLeft sizelog2), hheld₂.mem, ?_, ?_, ?_, ?_, ?_, ?_, ?_, ?_,
    ?_, fun hco => ?_⟩
  · simp only [takeBlock]
    rw [← hc₁, hsplit]
    rfl
  · exact (congrArg BuddyBlock.kSize hself).trans (hk₁ ▸ hk₂)
  · exact (congrArg BuddyBlock.basePtr hself).trans (hbase₂.trans (hmem₁ ▸ hbase))
  · exact congrArg BuddyBlock.status hself
  · exact congrArg BuddyBlock.magicNumber hself
  · exact (congrArg BuddyBlock.ownerThread hself).trans howner₂
  · exact (hkept₁₂.toKept.trans hkept₃ (.inl rfl)).trans ((sameBut_count _ _).kept B' a) (.inl rfl)
  · intro x hx hne hres
    exact hkept₁₂.noNew x hx ((congrArg BuddyBlock.status (hother x hne)).symm.trans hres)
  · exact htidy.pages.trans hsame₁.pages
  · rw [← hstats₁, ← htidy.stats]
    rfl
  · -- the block in hand is reserved, so it is no free buddy
    have hco₂ := htidy.coalesced ((hsame₁.coalesced hco).mono Set.sdiff_subset)
    intro x hx y hy hfreex hfreey
    have hne : ∀ z, ((c₂.modify a fun b =>
        { b with status := .reserved, magicNumber := .used, ownerThread := c₂.ownerThread }).mem
          z).status = .free → z ≠ a := by
      rintro z hz rfl
      rw [hself] at hz
      cases hz
    have hx' := hother x (hne x hfreex)
    have hy' := hother y (hne y hfreey)
    have hlt := hco₂ x ⟨hx, hne x hfreex⟩ y ⟨hy, hne y hfreey⟩
    rw [← hx', ← hy'] at hlt
    exact hlt hfreex hfreey

/-! ## Merging -/

/-- Two buddies that are joined fill the place of both. -/
lemma Filled.merge {k low : ℕ} (h : Filled c B) (hlow : low ∈ B) (hhigh : low + 2 ^ k ∈ B)
    (hkl : (c.mem low).kSize = k) (hkh : (c.mem (low + 2 ^ k)).kSize = k)
    (haligned : 2 ^ (k + 1) ∣ low - (c.mem low).basePtr)
    (hfits : low + 2 ^ (k + 1) ≤ (c.mem low).basePtr + 2 ^ c.kSize)
    (hlisted : Listed c {x | x ∈ B ∧ x ≠ low ∧ x ≠ low + 2 ^ k ∧ (c.mem x).status = .free}) :
    Held (c.modify low fun b => { b with kSize := b.kSize + 1 }) (B \ {low + 2 ^ k}) low := by
  set c' := c.modify low fun b => { b with kSize := b.kSize + 1 } with hc'
  have hself : c'.mem low = { c.mem low with kSize := k + 1 } := by
    rw [hc', modify_mem_self, hkl]
  have hrest : ∀ x, x ≠ low → c'.mem x = c.mem x := fun x hne => modify_mem_of_ne _ hne
  have htiled := h.tiled.merge (m := c'.mem) hlow hhigh hkl hkh haligned hfits (by rw [hself])
    (by rw [hself]) (by rw [hself]) fun x _ hne => by rw [hrest x hne]
  have hpos := Nat.two_pow_pos k
  refine ⟨⟨htiled, h.apart, h.pos, h.extra_pos, h.small⟩, ⟨hlow, ?_⟩, ?_⟩
  · simp only [Set.mem_singleton_iff]
    omega
  · have hset : {x | x ∈ B \ {low + 2 ^ k} ∧ x ≠ low ∧ (c'.mem x).status = .free} =
        {x | x ∈ B ∧ x ≠ low ∧ x ≠ low + 2 ^ k ∧ (c.mem x).status = .free} := by
      ext x
      simp only [Set.mem_ofPred_eq, Set.mem_sdiff, Set.mem_singleton_iff]
      rcases eq_or_ne x low with rfl | hne
      · simp
      · rw [hrest x hne]
        tauto
    rw [hset]
    exact hlisted.congr rfl fun x hx => hrest x hx.2.1

/-- The body of the merging loop, `b` being the buddy of `a`. -/
def mergeOnce (c : Context) (a b : ℕ) : Context :=
  (removeFreeBlock c b).modify (if b < a then b else a) fun b => { b with kSize := b.kSize + 1 }

/-- A block joined with its free buddy is a held block of twice the size. -/
lemma mergeOnce_spec {b : ℕ} (h : Held c B a) (hfree : (c.mem a).status = .free)
    (hk : (c.mem a).kSize < c.kSize) (hb : b = buddyOf (c.mem a) a)
    (hbfree : (c.mem b).status = .free) (hbk : (c.mem b).kSize = (c.mem a).kSize) :
    ∃ a' B', a' = (if b < a then b else a) ∧ Held (mergeOnce c a b) B' a' ∧
      ((mergeOnce c a b).mem a').status = .free ∧
      ((mergeOnce c a b).mem a').kSize = (c.mem a).kSize + 1 ∧
      ((mergeOnce c a b).mem a').basePtr = (c.mem a).basePtr ∧
      Tracked c (mergeOnce c a b) B B' a ∧
      Tidy c (mergeOnce c a b) (B \ {a}) ( B' \ { a'}) := by
  have hok := h.tiled.block a h.mem
  obtain ⟨hbB, hbase, -, hne⟩ := h.tiled.buddy_mem h.apart_pages h.mem hk
  rw [← hb] at hbB hbase hne
  have hokb := h.tiled.block b hbB
  have hsame := sameBut_removeFreeBlock c b
  have hfilled := hsame.filled h.toFilled
  obtain ⟨k, hka⟩ : ∃ k, (c.mem a).kSize = k := ⟨_, rfl⟩
  rw [hka] at hbk hk
  have hlisted : Listed (removeFreeBlock c b)
      ({x | x ∈ B ∧ x ≠ a ∧ (c.mem x).status = .free} \ {b}) :=
    h.listed.remove ⟨hbB, hne, hbfree⟩
  have hcore : ∀ x, ((removeFreeBlock c b).mem x).core = (c.mem x).core := hsame.core
  have hbasec : ∀ x, ((removeFreeBlock c b).mem x).basePtr = (c.mem x).basePtr := fun x =>
    (BuddyBlock.core_eq.mp (hcore x)).1
  have hle := hok.le
  have hleb := hokb.le
  have hfits := hok.fits
  have hfitsb := hokb.fits
  rw [BuddyBlock.size, hka] at hfits
  rw [BuddyBlock.size, hbk] at hfitsb
  have haligned : 2 ^ k ∣ a - (c.mem a).basePtr := by
    have haligned := hok.aligned
    rw [BuddyBlock.size, hka] at haligned
    exact haligned
  rw [buddyOf, BuddyBlock.size, hka] at hb
  have hkept : ∀ low high : ℕ, (low = a ∧ high = b ∨ low = b ∧ high = a) →
      (if b < a then b else a) = low →
      Tracked c (mergeOnce c a b) B (B \ {high}) a := by
    intro low high hcases hlow
    refine ⟨⟨hsame.kSize, hsame.config, hsame.initialized, hsame.ownerThread, hsame.toBeFreedList,
      hsame.extras, fun x hx hxa hres => ?_, fun x hx => ?_⟩, fun x hx hres => ⟨hx.1, ?_⟩⟩
    · have hxb : x ≠ b := by
        rintro rfl
        rw [hbfree] at hres
        cases hres
      refine ⟨⟨hx, ?_⟩, ?_⟩
      · simp only [Set.mem_singleton_iff]
        omega
      · rw [mergeOnce, hlow, modify_mem_of_ne _ (by omega)]
        exact hcore x
    · have hxa := h.extra_ne hx h.mem
      have hxb := h.extra_ne hx hbB
      rw [mergeOnce, hlow, modify_mem_of_ne _ (by omega)]
      exact hcore x.1
    · have hstatus : ((mergeOnce c a b).mem x).status = ((removeFreeBlock c b).mem x).status := by
        rw [mergeOnce, modify_mem]
        by_cases heq : x = if b < a then b else a
        · rw [if_pos heq, heq]
        · rw [if_neg heq]
      rw [← hres, hstatus]
      exact (status_congr (hcore x)).symm
  -- the blocks other than the two are as they were
  have htidy : ∀ low high : ℕ, (low = a ∧ high = b ∨ low = b ∧ high = a) →
      (if b < a then b else a) = low →
      Tidy c (mergeOnce c a b) (B \ {a}) ((B \ {high}) \ {low}) := by
    intro low high hcases hlow
    refine ⟨hsame.pages, removeFreeBlock_stats c b, fun hco => ?_⟩
    have hkSize : (mergeOnce c a b).kSize = c.kSize := hsame.kSize
    rw [hkSize]
    refine (hco.mono fun x hx => ⟨hx.1.1, fun hxa => ?_⟩).congr fun x hx => ?_
    · have hlow := hx.2
      have hhigh := hx.1.2
      simp only [Set.mem_singleton_iff] at hxa hlow hhigh
      omega
    · rw [mergeOnce, hlow, modify_mem_of_ne _ hx.2]
      exact hcore x
  -- the lower one of the two is the block that is kept
  rcases buddy_cases haligned with ⟨heq, hdvd⟩ | ⟨heq, hdvd⟩
  · obtain rfl : b = a + 2 ^ k := by omega
    have hlow : (if a + 2 ^ k < a then a + 2 ^ k else a) = a := if_neg (by omega)
    have hset : {x | x ∈ B ∧ x ≠ a ∧ (c.mem x).status = .free} \ {a + 2 ^ k} =
        {x | x ∈ B ∧ x ≠ a ∧ x ≠ a + 2 ^ k ∧
          ((removeFreeBlock c (a + 2 ^ k)).mem x).status = .free} := by
      ext x
      simp only [Set.mem_ofPred_eq, Set.mem_sdiff, Set.mem_singleton_iff, status_congr (hcore x)]
      tauto
    have hheld := hfilled.merge (k := k) h.mem hbB (by rw [kSize_congr (hcore _), hka])
      (by rw [kSize_congr (hcore _), hbk]) (by rw [hbasec]; exact hdvd)
      (by rw [hbasec, hsame.kSize, pow_succ]; omega) (hset ▸ hlisted)
    refine ⟨a, B \ {a + 2 ^ k}, hlow.symm, ?_, ?_, ?_, ?_, hkept a _ (.inl ⟨rfl, rfl⟩) hlow,
      htidy a _ (.inl ⟨rfl, rfl⟩) hlow⟩
    · rw [mergeOnce, hlow]
      exact hheld
    · rw [mergeOnce, hlow, modify_mem_self]
      exact (status_congr (hcore a)).trans hfree
    · rw [mergeOnce, hlow, modify_mem_self, hka]
      exact congrArg (· + 1) ((kSize_congr (hcore a)).trans hka)
    · rw [mergeOnce, hlow, modify_mem_self]
      exact hbasec a
  · obtain rfl : a = b + 2 ^ k := by omega
    have hpos := Nat.two_pow_pos k
    have hlow : (if b < b + 2 ^ k then b else b + 2 ^ k) = b := if_pos (by omega)
    have hset : {x | x ∈ B ∧ x ≠ b + 2 ^ k ∧ (c.mem x).status = .free} \ {b} =
        {x | x ∈ B ∧ x ≠ b ∧ x ≠ b + 2 ^ k ∧ ((removeFreeBlock c b).mem x).status = .free} := by
      ext x
      simp only [Set.mem_ofPred_eq, Set.mem_sdiff, Set.mem_singleton_iff, status_congr (hcore x)]
      tauto
    have hoff : b - (c.mem b).basePtr = b + 2 ^ k - (c.mem (b + 2 ^ k)).basePtr ^^^ 2 ^ k := by
      rw [hbase]
      omega
    have hheld := hfilled.merge (k := k) hbB h.mem (by rw [kSize_congr (hcore _), hbk])
      (by rw [kSize_congr (hcore _), hka]) (by rw [hbasec, hoff]; exact hdvd)
      (by rw [hbasec, hsame.kSize, pow_succ, hbase]; omega) (hset ▸ hlisted)
    refine ⟨b, B \ {b + 2 ^ k}, hlow.symm, ?_, ?_, ?_, ?_, hkept b _ (.inr ⟨rfl, rfl⟩) hlow,
      htidy b _ (.inr ⟨rfl, rfl⟩) hlow⟩
    · rw [mergeOnce, hlow]
      exact hheld
    · rw [mergeOnce, hlow, modify_mem_self]
      exact (status_congr (hcore b)).trans hbfree
    · rw [mergeOnce, hlow, modify_mem_self, hka]
      exact congrArg (· + 1) ((kSize_congr (hcore b)).trans hbk)
    · rw [mergeOnce, hlow, modify_mem_self]
      exact (hbasec b).trans hbase

/-- The loop ends at a block whose buddy is not free, or at a whole page. -/
lemma mergeLoop_spec {fuel : ℕ} (h : Held c B a) (hfree : (c.mem a).status = .free)
    (hfuel : c.kSize - (c.mem a).kSize < fuel) :
    ∃ c' a' B', mergeLoop fuel c a = some (c', a') ∧ Held c' B' a' ∧
      (c'.mem a').status = .free ∧ (c'.mem a').basePtr = (c.mem a).basePtr ∧
      ((c'.mem a').kSize < c'.kSize →
        (c'.mem (buddyOf (c'.mem a') a')).status = .reserved ∨
          (c'.mem (buddyOf (c'.mem a') a')).kSize ≠ (c'.mem a').kSize) ∧
      Tracked c c' B B' a ∧ Tidy c c' (B \ {a}) ( B' \ { a'}) := by
  induction fuel generalizing c B a with
  | zero => omega
  | succ fuel ih =>
    have hbase := (h.tiled.block a h.mem).base
    simp only [mergeLoop, hbase, h.getBuddyBlock_eq h.mem]
    by_cases hk : (c.mem a).kSize < c.kSize
    · rw [if_pos hk]
      by_cases hstop : (c.mem (buddyOf (c.mem a) a)).status = .reserved ∨
          (c.mem (buddyOf (c.mem a) a)).kSize ≠ (c.mem a).kSize
      · rw [if_pos hstop]
        exact ⟨c, a, B, rfl, h, hfree, rfl, fun _ => hstop, .refl c B a, .refl c _⟩
      · rw [if_neg hstop]
        rw [not_or, not_not] at hstop
        have hbfree : (c.mem (buddyOf (c.mem a) a)).status = .free := by
          cases hs : (c.mem (buddyOf (c.mem a) a)).status with
          | free => rfl
          | reserved => exact absurd hs hstop.1
        obtain ⟨a', B', ha', hheld, hfree', hk', hbase', hkept, htidy⟩ :=
          mergeOnce_spec h hfree hk rfl hbfree hstop.2
        obtain ⟨c'', a'', B'', hrun, hheld'', hfree'', hbase'', hend, hkept'', htidy''⟩ :=
          ih hheld hfree' (by rw [hkept.kSize]; omega)
        refine ⟨c'', a'', B'', ?_, hheld'', hfree'', hbase''.trans hbase', hend,
          hkept.trans hkept'' (.inr hfree'), htidy.trans htidy''⟩
        rw [← hrun, ha']
        rfl
    · rw [if_neg hk]
      exact ⟨c, a, B, rfl, h, hfree, rfl, fun hlt => absurd hlt hk, .refl c B a, .refl c _⟩

/-! ## Pages -/

lemma Listed.head {L : Set ℕ} {i : ℕ} (h : Listed c L) (ha : c.memDesc i = some a) :
    a ∈ L ∧ (c.mem a).kSize = i := by
  obtain ⟨lists, hlists⟩ := h
  obtain ⟨hlink, -, hiff⟩ := hlists i
  rw [hlink.head_eq] at ha
  exact (hiff a).mp (List.mem_of_head? ha)

/-- A page whose only block is free may be given back. -/
lemma Rest.dropPage (h : Rest c B) (ha : a ∈ B) (hfree : (c.mem a).status = .free)
    (hbase : (c.mem a).basePtr = a) (hk : (c.mem a).kSize = c.kSize) :
    Rest { removeFreeBlock c a with pages := (removeFreeBlock c a).pages.erase a } (B \ {a}) ∧
      Tracked c { removeFreeBlock c a with pages := (removeFreeBlock c a).pages.erase a } B (B \ {a})
        a := by
  have hsame := sameBut_removeFreeBlock c a
  have hheld := h.takeOut ha hfree
  set c₁ := removeFreeBlock c a
  have hsub : (Context.areas { c₁ with pages := c₁.pages.erase a }).Sublist c₁.areas :=
    (List.erase_sublist.map _).append_right _
  refine ⟨⟨⟨?_, hheld.apart.sublist hsub, fun x hx => hheld.pos x (hsub.subset hx), hheld.extra_pos,
    hheld.small⟩, ?_⟩, ⟨hsame.kSize, hsame.config, hsame.initialized, hsame.ownerThread,
    hsame.toBeFreedList, hsame.extras, fun x hx hne _ => ⟨⟨hx, hne⟩, hsame.core x⟩,
    fun x _ => hsame.core x.1⟩, fun x hx hres => ⟨hx.1, ?_⟩⟩
  · refine hheld.tiled.dropPage hheld.apart_pages ha ?_ ?_
    · exact (BuddyBlock.core_eq.mp (hsame.core a)).1.trans hbase
    · exact (kSize_congr (hsame.core a)).trans (hk.trans hsame.kSize.symm)
  · have hset : {x | x ∈ B \ {a} ∧ (c₁.mem x).status = .free} =
        {x | x ∈ B ∧ x ≠ a ∧ (c₁.mem x).status = .free} := by
      ext x
      simp only [Set.mem_ofPred_eq, Set.mem_sdiff, Set.mem_singleton_iff, and_assoc]
    rw [hset]
    exact hheld.listed.congr rfl fun _ _ => rfl
  · exact (status_congr (hsame.core x)).symm.trans hres

/-- A page that is wholly free. -/
lemma garbageStdPages_spec (h : Rest c B) (ha : a ∈ B) (hfree : (c.mem a).status = .free)
    (hbase : (c.mem a).basePtr = a) (hk : (c.mem a).kSize = c.kSize) :
    ∃ B', Rest (garbageStdPages c a) B' ∧ Tracked c (garbageStdPages c a) B B' a ∧
      (Coalesced c.kSize c.mem B →
        Coalesced (garbageStdPages c a).kSize (garbageStdPages c a).mem B') := by
  rw [garbageStdPages]
  split_ifs
  · exact ⟨B, h, .refl c B a, id⟩
  · exact ⟨B, h, .refl c B a, id⟩
  · obtain ⟨hrest, htracked⟩ := h.dropPage ha hfree hbase hk
    refine ⟨B \ {a}, hrest.count _, htracked.trans ((sameBut_count _ _).tracked _ a) (.inl rfl),
      fun hco => ?_⟩
    exact ((sameBut_removeFreeBlock c a).coalesced hco).mono Set.sdiff_subset
  · exact ⟨B, h, .refl c B a, id⟩

/-- The end of `__BuddyFree`: the block `a` is in its list and may be a whole page. -/
def settle (c : Context) (a : ℕ) : Context :=
  if c.isWholePage a then
    if (c.count updateStatsFreeStdPage).config.freeAreas then
      garbageStdPages (c.count updateStatsFreeStdPage) a
    else c.count updateStatsFreeStdPage
  else c

/-- The freed block is listed, or its page is given back. -/
lemma settle_spec (h : Rest c B) (ha : a ∈ B) (hfree : (c.mem a).status = .free) :
    ∃ B', Rest (settle c a) B' ∧ Tracked c (settle c a) B B' a ∧
      (Coalesced c.kSize c.mem B → Coalesced (settle c a).kSize (settle c a).mem B') := by
  rw [settle]
  by_cases hwhole : c.isWholePage a = true
  · rw [if_pos hwhole]
    simp only [Context.isWholePage, Bool.and_eq_true, beq_iff_eq] at hwhole
    have hcount : Tracked c (c.count updateStatsFreeStdPage) B B a :=
      (sameBut_count c updateStatsFreeStdPage).tracked B a
    split_ifs
    · have hbase := (h.tiled.block a ha).base
      obtain ⟨B', hrest, htracked, hco⟩ := garbageStdPages_spec (h.count updateStatsFreeStdPage)
        ha hfree hwhole.1 (hwhole.2.symm.trans hbase)
      exact ⟨B', hrest, hcount.trans htracked (.inl rfl), hco⟩
    · exact ⟨B, h.count _, hcount, id⟩
  · rw [if_neg hwhole]
    exact ⟨B, h, .refl c B a, id⟩

/-- What `__BuddyFree` does with the reserved block `a` up to its end: the block `a'` that it has been
merged into is in its list. -/
structure Joined (c c' : Context) (B B' : Set ℕ) (a a' : ℕ) : Prop extends Rest c' B' where
  mem : a' ∈ B'
  free : (c'.mem a').status = .free
  basePtr : (c'.mem a').basePtr = (c.mem a).basePtr
  kept : Kept c c' B B' a
  noNew : ∀ x ∈ B', (c'.mem x).status = .reserved → x ∈ B ∧ x ≠ a ∧ (c.mem x).status = .reserved
  pages : c'.pages = c.pages
  stats : c'.stats = updateStatsFreeStdMemSpace c.stats (intShiftLeft (c.mem a).kSize)
  coalesced : Coalesced c.kSize c.mem B → Coalesced c'.kSize c'.mem B'

/-- Freeing a block joins it with its buddies and settles what is left. -/
lemma buddyFreeStd_joined (h : Rest c B) (ha : a ∈ B) (hres : (c.mem a).status = .reserved) :
    ∃ c' a' B', buddyFreeStd c a = some (settle c' a') ∧ Joined c c' B B' a a' := by
  have hok := h.tiled.block a ha
  obtain ⟨hheld, hkept⟩ := (h.hold ha hres).mark
    (fun b => { b with status := .free, magicNumber := .free }) ⟨rfl, rfl, rfl⟩
  set c₁ := c.modify a fun b => { b with status := .free, magicNumber := .free } with hc₁
  have hself : c₁.mem a = { c.mem a with status := .free, magicNumber := .free } :=
    modify_mem_self _
  set f : Stats → Stats := fun s => updateStatsFreeStdMemSpace s (intShiftLeft (c₁.mem a).kSize)
  have hkept₁ : Kept c (c₁.count f) B B a :=
    hkept.trans ((sameBut_count c₁ f).kept B a) (.inl rfl)
  have hfree₁ : ((c₁.count f).mem a).status = .free := congrArg BuddyBlock.status hself
  have hbase₁ : (c₁.mem a).basePtr = (c.mem a).basePtr := by rw [hself]
  -- a merge moves up one size, so the fuel is enough
  have hfuel : (c₁.count f).kSize - ((c₁.count f).mem a).kSize <
      ((c₁.count f).mem a).baseKSize + 1 := by
    have hbase : ((c₁.count f).mem a).baseKSize = c.kSize :=
      (congrArg BuddyBlock.baseKSize hself).trans hok.base
    have hkSize : (c₁.count f).kSize = c.kSize := rfl
    omega
  obtain ⟨c₂, a', B', hmerge, hheld₂, hfree₂, hbase₂, hend, hkept₂, htidy⟩ :=
    mergeLoop_spec (hheld.count f) hfree₁ hfuel
  have hsame := sameBut_insertFreeBlock c₂ a'
  have hkept₃ : Tracked (c₁.count f) (insertFreeBlock c₂ a') B B' a :=
    hkept₂.trans (hsame.tracked B' a') (.inr hfree₂)
  refine ⟨insertFreeBlock c₂ a', a', B', ?_, hheld₂.putBack hfree₂, hheld₂.mem,
    (status_congr (hsame.core a')).trans hfree₂, ?_, hkept₁.trans hkept₃.toKept (.inl rfl),
    fun x hx hres' => ?_, hsame.pages.trans htidy.pages, ?_, fun hco => hsame.coalesced ?_⟩
  · simp only [buddyFreeStd]
    rw [← hc₁, hmerge]
    rfl
  · exact (BuddyBlock.core_eq.mp (hsame.core a')).1.trans (hbase₂.trans hbase₁)
  · -- only the descriptor of the block was marked before
    obtain ⟨hx, hres₁⟩ := hkept₃.noNew x hx hres'
    have hne : x ≠ a := by
      rintro rfl
      rw [hfree₁] at hres₁
      cases hres₁
    have hmem : c₁.mem x = c.mem x := modify_mem_of_ne _ hne
    exact ⟨hx, hne, (congrArg BuddyBlock.status hmem).symm.trans hres₁⟩
  · have hk : (c₁.mem a).kSize = (c.mem a).kSize := by rw [hself]
    rw [insertFreeBlock_stats, htidy.stats, ← hk]
    rfl
  · have hco₁ : Coalesced (c₁.count f).kSize (c₁.count f).mem (B \ {a}) := by
      refine (hco.mono Set.sdiff_subset).congr fun x hx => ?_
      have hmem : c₁.mem x = c.mem x := modify_mem_of_ne _ hx.2
      exact congrArg BuddyBlock.core hmem
    have hwhole : insert a' ( B' \ { a'}) = B' := Set.insert_sdiff_self_of_mem hheld₂.mem
    rw [← hwhole]
    refine hheld₂.tiled.coalesced_insert hheld₂.apart_pages (htidy.coalesced hco₁) ?_
      fun hk _ => hend hk
    rw [hwhole]

/-- `__BuddyFree` of a reserved block. -/
theorem buddyFreeStd_spec (h : Rest c B) (ha : a ∈ B) (hres : (c.mem a).status = .reserved) :
    ∃ c' B', buddyFreeStd c a = some c' ∧ Rest c' B' ∧ Kept c c' B B' a ∧
      ∀ x ∈ B', (c'.mem x).status = .reserved → x ∈ B ∧ x ≠ a ∧ (c.mem x).status = .reserved := by
  obtain ⟨c₁, a', B₁, hrun, hjoined⟩ := buddyFreeStd_joined h ha hres
  obtain ⟨B', hrest, htracked, -⟩ := settle_spec hjoined.toRest hjoined.mem hjoined.free
  refine ⟨_, B', hrun, hrest, hjoined.kept.trans htracked.toKept (.inr hjoined.free),
    fun x hx hres' => ?_⟩
  obtain ⟨hx, hres₁⟩ := htracked.noNew x hx hres'
  exact hjoined.noNew x hx hres₁

/-- What `NewStdPage` does with the area `a` that `malloc` gives. -/
structure PageAdded (c c' : Context) (B : Set ℕ) (a : ℕ) : Prop extends Rest c' (insert a B) where
  notMem : a ∉ B
  free : (c'.mem a).status = .free
  kSize_eq : (c'.mem a).kSize = c.kSize
  tracked : Tracked c c' B (insert a B) a
  pages : c'.pages = a :: c.pages
  stats : c'.stats = updateStatsInsertStdPage c.stats
  coalesced : Coalesced c.kSize c.mem B → Coalesced c'.kSize c'.mem (insert a B)

lemma PageAdded.areas (h : PageAdded c c' B a) : c'.areas = (a, 2 ^ c.kSize) :: c.areas := by
  rw [Context.areas, h.pages, h.tracked.kSize, h.tracked.extras]
  rfl

/-- `NewStdPage` when `malloc` gives an area that is apart from those held. -/
theorem newStdPage_spec (h : Rest c B) (hlarge : sizeHeader64 + minAllocSize ≤ 2 ^ c.kSize)
    (hpos : 0 < a) (hfresh : ∀ x ∈ c.areas, Apart (a, 2 ^ c.kSize) x) :
    ∃ c', newStdPage c (some a) = (some a, c') ∧ PageAdded c c' B a := by
  set c₁ : Context := { c with pages := a :: c.pages }
  set c₂ := c₁.modify a fun b =>
    { b with
      basePtr := a
      baseKSize := c₁.kSize
      status := .free
      kSize := c₁.kSize
      magicNumber := .free } with hc₂
  have hself : c₂.mem a = { c.mem a with
      basePtr := a
      baseKSize := c.kSize
      status := .free
      kSize := c.kSize
      magicNumber := .free } := modify_mem_self _
  have hrest : ∀ x, x ≠ a → c₂.mem x = c.mem x := fun x hne => modify_mem_of_ne _ hne
  obtain ⟨hnot, htiled⟩ := h.tiled.newPage (p := a) (m := c₂.mem)
    (fun x hx => hfresh x (List.mem_append_left _ hx)) hlarge (by rw [hself]) (by rw [hself])
    (by rw [hself]) fun x _ hne => by rw [hrest x hne]
  have hB : ∀ x ∈ B, x ≠ a := fun x hx heq => hnot (heq ▸ hx)
  -- the page lies outside the large blocks
  have hextra : ∀ x ∈ c.extras, x.1 ≠ a := fun x hx heq => by
    have hd := hfresh x (List.mem_append_right _ hx)
    have hxpos := h.extra_pos x hx
    have hKpos := Nat.two_pow_pos c.kSize
    simp only [Apart] at hd
    omega
  have hheld : Held c₂ (insert a B) a := by
    refine ⟨⟨htiled, ?_, ?_, h.extra_pos, h.small⟩, .inl rfl, ?_⟩
    · exact List.pairwise_cons.mpr ⟨hfresh, h.apart⟩
    · exact List.forall_mem_cons.mpr ⟨hpos, h.pos⟩
    · have hset : {x | x ∈ insert a B ∧ x ≠ a ∧ (c₂.mem x).status = .free} =
          {x | x ∈ B ∧ (c.mem x).status = .free} := by
        ext x
        simp only [Set.mem_ofPred_eq, Set.mem_insert_iff]
        rcases eq_or_ne x a with rfl | hne
        · simp [hnot]
        · simp [hne, hrest x hne]
      rw [hset]
      exact h.listed.congr rfl fun x hx => hrest x (hB x hx.1)
  have hfree : (c₂.mem a).status = .free := by rw [hself]
  have hsame := sameBut_insertFreeBlock c₂ a
  have hkept : Kept c c₂ B (insert a B) a := by
    refine ⟨rfl, rfl, rfl, rfl, rfl, rfl, fun x hx hne _ => ⟨.inr hx, ?_⟩, fun x hx => ?_⟩
    · rw [hrest x hne]
    · rw [hrest x.1 (hextra x hx)]
  have hnew : ∀ x ∈ insert a B, (c₂.mem x).status = .reserved →
      x ∈ B ∧ (c.mem x).status = .reserved := by
    intro x hx hres
    rcases hx with rfl | hx
    · rw [hfree] at hres
      cases hres
    · rw [hrest x (hB x hx)] at hres
      exact ⟨hx, hres⟩
  have htracked : Tracked c c₂ B (insert a B) a := ⟨hkept, hnew⟩
  refine ⟨(insertFreeBlock c₂ a).count updateStatsInsertStdPage, rfl,
    (hheld.putBack hfree).count _, hnot, (status_congr (hsame.core a)).trans hfree, ?_, ?_,
    hsame.pages, congrArg updateStatsInsertStdPage (insertFreeBlock_stats c₂ a),
    fun hco => hsame.coalesced ?_⟩
  · exact (kSize_congr (hsame.core a)).trans (by rw [hself])
  · exact (htracked.trans (hsame.tracked _ a) (.inl rfl)).trans ((sameBut_count _ _).tracked _ a)
      (.inl rfl)
  · -- a whole page has no buddy
    refine htiled.coalesced_insert hheld.apart_pages (hco.congr fun x hx => ?_) subset_rfl
      fun hk => ?_
    · rw [hrest x (hB x hx)]
    · rw [hself] at hk
      exact absurd hk (lt_irrefl _)

end Ganesha.BuddyMalloc
