import Mathlib.Data.List.Pairwise
import Mathlib.Data.Nat.Find
import Ganesha.Library.Dyadic
import Ganesha.BuddyMalloc.FreeLists

/-!
# How blocks fill the pages

`Tiled`: the blocks `B` fill the standard pages, each at an offset that is a multiple of its size.
The buddy of a block is then the start of a block that is not larger (`Tiled.buddy_mem`), so the
descriptor that the code reads there is one of a block. Halving a block and joining two buddies keep
the pages filled (`Tiled.split`, `Tiled.merge`).

`Coalesced`: no two free blocks are buddies of the same size. A page without a reserved block is then
one block (`Tiled.whole_page`).
-/

namespace Ganesha.BuddyMalloc
open Library.Dyadic

/-- The size of the block with this descriptor. -/
def BuddyBlock.size (b : BuddyBlock) : ℕ := 2 ^ b.kSize

/-- The block at `a` with the descriptor `b` lies in a page, at a multiple of its size. -/
structure BlockOk (K : ℕ) (pages : List ℕ) (b : BuddyBlock) (a : ℕ) : Prop where
  page : b.basePtr ∈ pages
  base : b.baseKSize = K
  large : sizeHeader64 + minAllocSize ≤ b.size
  le : b.basePtr ≤ a
  aligned : b.size ∣ a - b.basePtr
  fits : a + b.size ≤ b.basePtr + 2 ^ K

/-- Areas, as the address and the size, that do not overlap. -/
def Apart (x y : ℕ × ℕ) : Prop := x.1 + x.2 ≤ y.1 ∨ y.1 + y.2 ≤ x.1

instance : Std.Symm Apart := ⟨fun _ _ h => h.symm⟩

instance (x y : ℕ × ℕ) : Decidable (Apart x y) := inferInstanceAs (Decidable (_ ∨ _))

/-- The areas that standard pages are. -/
def pageAreas (K : ℕ) (pages : List ℕ) : List (ℕ × ℕ) := pages.map fun p => (p, 2 ^ K)

/-- The blocks `B` fill the pages. -/
structure Tiled (K : ℕ) (pages : List ℕ) (mem : ℕ → BuddyBlock) (B : Set ℕ) : Prop where
  block : ∀ a ∈ B, BlockOk K pages (mem a) a
  disjoint : ∀ a ∈ B, ∀ b ∈ B, a ≠ b → a + (mem a).size ≤ b ∨ b + (mem b).size ≤ a
  cover : ∀ p ∈ pages, ∀ x, p ≤ x → x < p + 2 ^ K → ∃ a ∈ B, a ≤ x ∧ x < a + (mem a).size

variable {K k a b p : ℕ} {pages : List ℕ} {mem m : ℕ → BuddyBlock} {B : Set ℕ}

lemma BuddyBlock.size_pos (b : BuddyBlock) : 0 < b.size := Nat.two_pow_pos _

variable {d d' : BuddyBlock}

/-- Only the core of a header counts. -/
lemma BlockOk.congr (h : BlockOk K pages d a) (hcore : d'.core = d.core) : BlockOk K pages d' a := by
  obtain ⟨hbase, -, -, hbaseK, hk, -, -⟩ := BuddyBlock.core_eq.mp hcore
  have hsize : d'.size = d.size := by rw [BuddyBlock.size, hk, BuddyBlock.size]
  constructor
  · rw [hbase]; exact h.page
  · rw [hbaseK]; exact h.base
  · rw [hsize]; exact h.large
  · rw [hbase]; exact h.le
  · rw [hbase, hsize]; exact h.aligned
  · rw [hbase, hsize]; exact h.fits

/-- A block is no larger than its page. -/
lemma BlockOk.kSize_le (h : BlockOk K pages d a) : d.kSize ≤ K := by
  have hfits := h.fits
  have hle := h.le
  by_contra hlt
  have hpow : 2 ^ K < 2 ^ d.kSize := Nat.pow_lt_pow_right (by omega) (by omega)
  rw [BuddyBlock.size] at hfits
  omega

lemma size_congr (hcore : d'.core = d.core) : d'.size = d.size := by
  rw [BuddyBlock.size, (BuddyBlock.core_eq.mp hcore).2.2.2.2.1, BuddyBlock.size]

/-- Only the cores of the headers count. -/
lemma Tiled.congr (h : Tiled K pages mem B) (hcore : ∀ a ∈ B, (m a).core = (mem a).core) :
    Tiled K pages m B where
  block a ha := (h.block a ha).congr (hcore a ha)
  disjoint a ha b hb hne := by
    rw [size_congr (hcore a ha), size_congr (hcore b hb)]
    exact h.disjoint a ha b hb hne
  cover p hp x hle hlt := by
    obtain ⟨a, ha, hax⟩ := h.cover p hp x hle hlt
    refine ⟨a, ha, ?_⟩
    rw [size_congr (hcore a ha)]
    exact hax

variable {x : ℕ}

lemma Tiled.eq_of_mem (h : Tiled K pages mem B) (ha : a ∈ B) (hb : b ∈ B) (hax : a ≤ x)
    (hxa : x < a + (mem a).size) (hbx : b ≤ x) (hxb : x < b + (mem b).size) : a = b := by
  by_contra hne
  rcases h.disjoint a ha b hb hne with hd | hd
  · omega
  · omega

/-- Pages that overlap are one. -/
lemma page_eq {q : ℕ} (h : (pageAreas K pages).Pairwise Apart) (hp : p ∈ pages) (hq : q ∈ pages) (hpx : p ≤ x)
    (hxp : x < p + 2 ^ K) (hqx : q ≤ x) (hxq : x < q + 2 ^ K) : p = q := by
  by_contra hne
  have hp' : (p, 2 ^ K) ∈ pageAreas K pages := List.mem_map_of_mem hp
  have hq' : (q, 2 ^ K) ∈ pageAreas K pages := List.mem_map_of_mem hq
  have hd : Apart (p, 2 ^ K) (q, 2 ^ K) := h.forall hp' hq' fun heq => hne (Prod.ext_iff.mp heq).1
  rcases hd with hd | hd
  · simp only at hd
    omega
  · simp only at hd
    omega

lemma BlockOk.base_eq (hapart : (pageAreas K pages).Pairwise Apart) (h : BlockOk K pages d a)
    (h' : BlockOk K pages d' b) (hx : d.basePtr ≤ x) (hxK : x < d.basePtr + 2 ^ K) (hbx : b ≤ x)
    (hxb : x < b + d'.size) : d'.basePtr = d.basePtr := by
  have hle := h'.le
  have hfits := h'.fits
  exact page_eq (x := x) hapart h'.page h.page (by omega) (by omega) hx hxK

/-- The address of the buddy. -/
def buddyOf (d : BuddyBlock) (a : ℕ) : ℕ := ((a - d.basePtr) ^^^ d.size) + d.basePtr

/-- The buddy of a block is a block, and not a larger one. -/
theorem Tiled.buddy_mem (h : Tiled K pages mem B) (hapart : (pageAreas K pages).Pairwise Apart)
    (ha : a ∈ B) (hk : (mem a).kSize < K) :
    buddyOf (mem a) a ∈ B ∧ (mem (buddyOf (mem a) a)).basePtr = (mem a).basePtr ∧
      (mem (buddyOf (mem a) a)).kSize ≤ (mem a).kSize ∧ buddyOf (mem a) a ≠ a := by
  have hok := h.block a ha
  have hle := hok.le
  have hfits := hok.fits
  have hpos := (mem a).size_pos
  have haligned : 2 ^ (mem a).kSize ∣ a - (mem a).basePtr := hok.aligned
  obtain ⟨x, hx⟩ : ∃ x, x = a - (mem a).basePtr := ⟨_, rfl⟩
  obtain ⟨y, hy⟩ : ∃ y, y = x ^^^ 2 ^ (mem a).kSize := ⟨_, rfl⟩
  have hbuddy : buddyOf (mem a) a = y + (mem a).basePtr := by rw [hy, hx]; rfl
  rw [← hx] at haligned
  have hlt : y < 2 ^ K := hy ▸ buddy_lt (by omega) hk
  have hne : y ≠ x := by
    have hpos' := Nat.two_pow_pos (mem a).kSize
    rcases buddy_cases haligned with ⟨heq, -⟩ | ⟨heq, -⟩
    · omega
    · omega
  rw [hbuddy]
  obtain ⟨b, hb, hbx, hxb⟩ := h.cover (mem a).basePtr hok.page (y + (mem a).basePtr)
    (Nat.le_add_left _ _) (by omega)
  have hokb := h.block b hb
  have hbase : (mem b).basePtr = (mem a).basePtr :=
    hok.base_eq hapart hokb (Nat.le_add_left _ _) (by omega) hbx hxb
  have hleb := hokb.le
  have halignedb : 2 ^ (mem b).kSize ∣ b - (mem b).basePtr := hokb.aligned
  rw [hbase] at hleb halignedb
  have hsizeb : (mem b).size = 2 ^ (mem b).kSize := rfl
  have hsize : (mem b).kSize ≤ (mem a).kSize := by
    by_contra hlarger
    -- a larger block around the buddy would hold the block itself
    have hmem := mem_of_buddy_mem (x := x) halignedb (by omega : (mem a).kSize < (mem b).kSize)
      (by omega) (by omega)
    have heq := h.eq_of_mem ha hb le_rfl (by omega) (by omega) (by omega)
    subst heq
    exact hlarger le_rfl
  have hdvd : 2 ^ (mem b).kSize ∣ y := hy ▸ (pow_dvd_pow 2 hsize).trans (dvd_buddy haligned)
  have heq : b - (mem a).basePtr = y := eq_of_dvd halignedb hdvd (by omega) (by omega)
  obtain rfl : b = y + (mem a).basePtr := by omega
  exact ⟨hb, hbase, hsize, by omega⟩

/-- A block is halved. -/
theorem Tiled.split (h : Tiled K pages mem B) (ha : a ∈ B) (hk : (mem a).kSize = k + 1)
    (hlarge : sizeHeader64 + minAllocSize ≤ 2 ^ k)
    (hbase : (m a).basePtr = (mem a).basePtr) (hbaseK : (m a).baseKSize = (mem a).baseKSize)
    (hka : (m a).kSize = k) (hbase' : (m (a + 2 ^ k)).basePtr = (mem a).basePtr)
    (hbaseK' : (m (a + 2 ^ k)).baseKSize = (mem a).baseKSize)
    (hkb : (m (a + 2 ^ k)).kSize = k)
    (hrest : ∀ x ∈ B, x ≠ a → (m x).core = (mem x).core) :
    a + 2 ^ k ∉ B ∧ Tiled K pages m (insert (a + 2 ^ k) B) := by
  have hok := h.block a ha
  have hpos := Nat.two_pow_pos k
  have hsize : (mem a).size = 2 ^ k + 2 ^ k := by
    rw [BuddyBlock.size, hk, pow_succ, mul_two]
  have hsa : (m a).size = 2 ^ k := by rw [BuddyBlock.size, hka]
  have hsb : (m (a + 2 ^ k)).size = 2 ^ k := by rw [BuddyBlock.size, hkb]
  -- the second half was no header before
  have hnot : a + 2 ^ k ∉ B := fun hb => by
    have heq := h.eq_of_mem ha hb (x := a + 2 ^ k) (by omega) (by omega) le_rfl
      (by have := (mem (a + 2 ^ k)).size_pos; omega)
    omega
  have hle := hok.le
  have hfits := hok.fits
  -- both halves are aligned to their size
  have hdvd : 2 ^ k ∣ a - (mem a).basePtr := by
    have haligned := hok.aligned
    rw [BuddyBlock.size, hk] at haligned
    exact (pow_dvd_pow 2 (Nat.le_succ k)).trans haligned
  have hold : ∀ x ∈ B, x ≠ a → (m x).size = (mem x).size := fun x hx hne =>
    size_congr (hrest x hx hne)
  refine ⟨hnot, ?_, ?_, ?_⟩
  · intro x hx
    rcases hx with rfl | hx
    · refine ⟨?_, ?_, ?_, ?_, ?_, ?_⟩
      · rw [hbase']; exact hok.page
      · rw [hbaseK']; exact hok.base
      · rw [hsb]; exact hlarge
      · rw [hbase']; omega
      · rw [hbase', hsb, Nat.sub_add_comm hle]
        exact (Nat.dvd_add_right hdvd).mpr dvd_rfl
      · rw [hbase', hsb]; omega
    · rcases eq_or_ne x a with rfl | hne
      · refine ⟨?_, ?_, ?_, ?_, ?_, ?_⟩
        · rw [hbase]; exact hok.page
        · rw [hbaseK]; exact hok.base
        · rw [hsa]; exact hlarge
        · rw [hbase]; exact hle
        · rw [hbase, hsa]; exact hdvd
        · rw [hbase, hsa]; omega
      · exact (h.block x hx).congr (hrest x hx hne)
  · -- what was apart from the whole block is apart from both halves
    have hapart : ∀ x ∈ B, x ≠ a → x + (m x).size ≤ a ∨ a + 2 ^ k + 2 ^ k ≤ x := by
      intro x hx hne
      rw [hold x hx hne]
      rcases h.disjoint x hx a ha hne with hd | hd
      · exact .inl hd
      · exact .inr (by omega)
    intro x hx y hy hne
    rcases hx with rfl | hx
    · rcases hy with rfl | hy
      · exact absurd rfl hne
      · rcases eq_or_ne y a with rfl | hya
        · exact .inr (by rw [hsa])
        · rw [hsb]
          have := hapart y hy hya
          omega
    · rcases hy with rfl | hy
      · rcases eq_or_ne x a with rfl | hxa
        · exact .inl (by rw [hsa])
        · rw [hsb]
          have := hapart x hx hxa
          omega
      · rcases eq_or_ne x a with rfl | hxa
        · rw [hsa]
          have := hapart y hy hne.symm
          omega
        · rcases eq_or_ne y a with rfl | hya
          · rw [hsa]
            have := hapart x hx hxa
            omega
          · rw [hold x hx hxa, hold y hy hya]
            exact h.disjoint x hx y hy hne
  · intro p hp x hpx hxp
    obtain ⟨y, hy, hyx, hxy⟩ := h.cover p hp x hpx hxp
    rcases eq_or_ne y a with rfl | hne
    · by_cases hhalf : x < y + 2 ^ k
      · exact ⟨y, .inr hy, hyx, by rw [hsa]; exact hhalf⟩
      · exact ⟨y + 2 ^ k, .inl rfl, by omega, by rw [hsb]; omega⟩
    · exact ⟨y, .inr hy, hyx, by rw [hold y hy hne]; exact hxy⟩

/-- Two buddies become one block. -/
theorem Tiled.merge (h : Tiled K pages mem B) (ha : a ∈ B) (hb : a + 2 ^ k ∈ B)
    (hka : (mem a).kSize = k) (hkb : (mem (a + 2 ^ k)).kSize = k)
    (haligned : 2 ^ (k + 1) ∣ a - (mem a).basePtr)
    (hfits : a + 2 ^ (k + 1) ≤ (mem a).basePtr + 2 ^ K)
    (hbase : (m a).basePtr = (mem a).basePtr) (hbaseK : (m a).baseKSize = (mem a).baseKSize)
    (hk : (m a).kSize = k + 1) (hrest : ∀ x ∈ B, x ≠ a → (m x).core = (mem x).core) :
    Tiled K pages m (B \ {a + 2 ^ k}) := by
  have hok := h.block a ha
  have hpos := Nat.two_pow_pos k
  have hsize : (m a).size = 2 ^ k + 2 ^ k := by
    rw [BuddyBlock.size, hk, pow_succ, mul_two]
  have hsa : (mem a).size = 2 ^ k := by rw [BuddyBlock.size, hka]
  have hsb : (mem (a + 2 ^ k)).size = 2 ^ k := by rw [BuddyBlock.size, hkb]
  have hold : ∀ x ∈ B, x ≠ a → (m x).size = (mem x).size := fun x hx hne =>
    size_congr (hrest x hx hne)
  rw [pow_succ, mul_two] at hfits
  refine ⟨?_, ?_, ?_⟩
  · rintro x ⟨hx, -⟩
    rcases eq_or_ne x a with rfl | hne
    · refine ⟨?_, ?_, ?_, ?_, ?_, ?_⟩
      · rw [hbase]; exact hok.page
      · rw [hbaseK]; exact hok.base
      · rw [hsize]
        have := hok.large
        omega
      · rw [hbase]; exact hok.le
      · rw [hbase, BuddyBlock.size, hk]; exact haligned
      · rw [hbase, hsize]; exact hfits
    · exact (h.block x hx).congr (hrest x hx hne)
  · -- what was apart from both halves is apart from the whole block
    have hapart : ∀ x ∈ B, x ≠ a → x ≠ a + 2 ^ k →
        x + (m x).size ≤ a ∨ a + 2 ^ k + 2 ^ k ≤ x := by
      intro x hx hne hne'
      rw [hold x hx hne]
      have hsx := (mem x).size_pos
      rcases h.disjoint x hx a ha hne with hd | hd
      · exact .inl hd
      · rcases h.disjoint x hx _ hb hne' with hd' | hd'
        · exact .inl (by omega)
        · exact .inr (by omega)
    rintro x ⟨hx, hx'⟩ y ⟨hy, hy'⟩ hne
    rcases eq_or_ne x a with rfl | hxa
    · rw [hsize]
      have := hapart y hy hne.symm hy'
      omega
    · rcases eq_or_ne y a with rfl | hya
      · rw [hsize]
        have := hapart x hx hxa hx'
        omega
      · rw [hold x hx hxa, hold y hy hya]
        exact h.disjoint x hx y hy hne
  · intro p hp x hpx hxp
    obtain ⟨y, hy, hyx, hxy⟩ := h.cover p hp x hpx hxp
    by_cases hyb : y = a + 2 ^ k
    · subst hyb
      refine ⟨a, ⟨ha, ?_⟩, by omega, by rw [hsize]; omega⟩
      simp only [Set.mem_singleton_iff]
      omega
    · refine ⟨y, ⟨hy, hyb⟩, hyx, ?_⟩
      rcases eq_or_ne y a with rfl | hne
      · rw [hsize]
        omega
      · rw [hold y hy hne]
        exact hxy

/-- A new page is one block. -/
theorem Tiled.newPage (h : Tiled K pages mem B)
    (hfresh : ∀ x ∈ pageAreas K pages, Apart (p, 2 ^ K) x)
    (hlarge : sizeHeader64 + minAllocSize ≤ 2 ^ K) (hbase : (m p).basePtr = p)
    (hbaseK : (m p).baseKSize = K) (hk : (m p).kSize = K)
    (hrest : ∀ x ∈ B, x ≠ p → (m x).core = (mem x).core) :
    p ∉ B ∧ Tiled K (p :: pages) m (insert p B) := by
  have hpos := Nat.two_pow_pos K
  have hsize : (m p).size = 2 ^ K := by rw [BuddyBlock.size, hk]
  -- the blocks there are lie in other pages
  have hout : ∀ x ∈ B, x + (mem x).size ≤ p ∨ p + 2 ^ K ≤ x := by
    intro x hx
    have hok := h.block x hx
    have hle := hok.le
    have hfits := hok.fits
    have hd : Apart (p, 2 ^ K) ((mem x).basePtr, 2 ^ K) :=
      hfresh _ (List.mem_map_of_mem hok.page)
    rcases hd with hd | hd
    · simp only at hd
      exact .inr (by omega)
    · simp only at hd
      exact .inl (by omega)
  have hnot : p ∉ B := fun hp => by
    have := hout p hp
    have := (mem p).size_pos
    omega
  have hne : ∀ x ∈ B, x ≠ p := fun x hx heq => hnot (heq ▸ hx)
  have hold : ∀ x ∈ B, (m x).size = (mem x).size := fun x hx => size_congr (hrest x hx (hne x hx))
  refine ⟨hnot, ?_, ?_, ?_⟩
  · intro x hx
    rcases hx with rfl | hx
    · refine ⟨?_, hbaseK, ?_, ?_, ?_, ?_⟩
      · rw [hbase]; exact List.mem_cons_self
      · rw [hsize]; exact hlarge
      · rw [hbase]
      · rw [hbase, Nat.sub_self]; exact Nat.dvd_zero _
      · rw [hbase, hsize]
    · have hok := (h.block x hx).congr (hrest x hx (hne x hx))
      exact ⟨List.mem_cons_of_mem p hok.page, hok.base, hok.large, hok.le, hok.aligned, hok.fits⟩
  · intro x hx y hy hxy
    rcases hx with rfl | hx
    · rcases hy with rfl | hy
      · exact absurd rfl hxy
      · rw [hsize, hold y hy]
        have := hout y hy
        omega
    · rcases hy with rfl | hy
      · rw [hsize, hold x hx]
        exact hout x hx
      · rw [hold x hx, hold y hy]
        exact h.disjoint x hx y hy hxy
  · intro q hq x hqx hxq
    rcases List.mem_cons.mp hq with rfl | hq
    · exact ⟨q, .inl rfl, hqx, by rw [hsize]; exact hxq⟩
    · obtain ⟨y, hy, hyx, hxy⟩ := h.cover q hq x hqx hxq
      exact ⟨y, .inr hy, hyx, by rw [hold y hy]; exact hxy⟩

/-- A page that is one block goes. -/
theorem Tiled.dropPage (h : Tiled K pages mem B) (hapart : (pageAreas K pages).Pairwise Apart)
    (ha : a ∈ B) (hbase : (mem a).basePtr = a) (hk : (mem a).kSize = K) :
    Tiled K (pages.erase a) mem (B \ {a}) := by
  have hpos := Nat.two_pow_pos K
  have hsize : (mem a).size = 2 ^ K := by rw [BuddyBlock.size, hk]
  have hpage : a ∈ pages := hbase ▸ (h.block a ha).page
  refine ⟨?_, fun x hx y hy hne => h.disjoint x hx.1 y hy.1 hne, ?_⟩
  · rintro x ⟨hx, hxa⟩
    have hok := h.block x hx
    have hle := hok.le
    have hfits := hok.fits
    have hne : (mem x).basePtr ≠ a := fun heq => by
      have hsx := (mem x).size_pos
      exact hxa (h.eq_of_mem hx ha le_rfl (by omega) (by omega) (by omega))
    exact ⟨(List.mem_erase_of_ne hne).mpr hok.page, hok.base, hok.large, hok.le, hok.aligned,
      hok.fits⟩
  · intro q hq x hqx hxq
    obtain ⟨y, hy, hyx, hxy⟩ := h.cover q (List.mem_of_mem_erase hq) x hqx hxq
    refine ⟨y, ⟨hy, ?_⟩, hyx, hxy⟩
    rintro rfl
    have heq := page_eq (x := x) hapart (List.mem_of_mem_erase hq) hpage hqx hxq hyx (by omega)
    have hnd : pages.Nodup := by
      refine (List.pairwise_map.mp hapart).imp fun {p q} hd heq => ?_
      subst heq
      rcases hd with hd | hd <;> simp only at hd <;> omega
    subst heq
    exact hnd.not_mem_erase hq

/-! ## Free buddies -/

/-- Among the blocks `S` no two free ones are buddies of the same size. -/
def Coalesced (K : ℕ) (mem : ℕ → BuddyBlock) (S : Set ℕ) : Prop :=
  ∀ x ∈ S, ∀ y ∈ S, (mem x).status = .free → (mem y).status = .free → (mem x).kSize < K →
    (mem y).kSize = (mem x).kSize → y ≠ buddyOf (mem x) x

variable {S S' : Set ℕ}

lemma Coalesced.mono (h : Coalesced K mem S) (hsub : S' ⊆ S) : Coalesced K mem S' :=
  fun x hx y hy => h x (hsub hx) y (hsub hy)

lemma Coalesced.congr (h : Coalesced K mem S) (hcore : ∀ a ∈ S, (m a).core = (mem a).core) :
    Coalesced K m S := by
  intro x hx y hy
  obtain ⟨hbase, -, -, -, hk, -, hstatus⟩ := BuddyBlock.core_eq.mp (hcore x hx)
  obtain ⟨-, -, -, -, hk', -, hstatus'⟩ := BuddyBlock.core_eq.mp (hcore y hy)
  rw [hstatus, hstatus', hk, hk', buddyOf, size_congr (hcore x hx), hbase]
  exact h x hx y hy

/-- The buddy of the buddy is the block. -/
lemma Tiled.buddy_symm (h : Tiled K pages mem B) (hapart : (pageAreas K pages).Pairwise Apart)
    (ha : a ∈ B) (hk : (mem a).kSize < K) (hb : b = buddyOf (mem a) a)
    (hkb : (mem b).kSize = (mem a).kSize) : a = buddyOf (mem b) b := by
  have hle := (h.block a ha).le
  obtain ⟨-, hbase, -, -⟩ := h.buddy_mem hapart ha hk
  rw [← hb] at hbase
  have hsize : (mem b).size = (mem a).size := by rw [BuddyBlock.size, hkb, BuddyBlock.size]
  have hback : b - (mem a).basePtr ^^^ (mem a).size = a - (mem a).basePtr := by
    rw [hb, buddyOf, Nat.add_sub_cancel, Nat.xor_assoc, Nat.xor_self, Nat.xor_zero]
  rw [buddyOf, hbase, hsize, hback]
  omega

/-- A block may join a coalesced set if its buddy is not a free one of its size. -/
lemma Tiled.coalesced_insert (h : Tiled K pages mem B)
    (hapart : (pageAreas K pages).Pairwise Apart) (hS : Coalesced K mem S) (hsub : insert b S ⊆ B)
    (hb : (mem b).kSize < K → buddyOf (mem b) b ∈ S →
      (mem (buddyOf (mem b) b)).status = .reserved ∨
        (mem (buddyOf (mem b) b)).kSize ≠ (mem b).kSize) :
    Coalesced K mem (insert b S) := by
  have hbB : b ∈ B := hsub (.inl rfl)
  have hout : ∀ y ∈ S, (mem y).status = .free → (mem b).kSize < K →
      (mem y).kSize = (mem b).kSize → y ≠ buddyOf (mem b) b := by
    rintro y hy hfree hk hkk rfl
    rcases hb hk hy with hres | hne
    · rw [hfree] at hres
      cases hres
    · exact hne hkk
  intro x hx y hy hfreex hfreey hk hkk
  rcases hx with rfl | hx
  · rcases hy with rfl | hy
    · exact (h.buddy_mem hapart hbB hk).2.2.2.symm
    · exact hout y hy hfreey hk hkk
  · rcases hy with rfl | hy
    · intro heq
      have hback := h.buddy_symm hapart (hsub (.inr hx)) hk heq hkk
      exact hout x hx hfreex (by omega) hkk.symm hback
    · exact hS x hx y hy hfreex hfreey hk hkk

/-- A page without a reserved block is one block. -/
theorem Tiled.whole_page (h : Tiled K pages mem B) (hapart : (pageAreas K pages).Pairwise Apart)
    (hco : Coalesced K mem B) (hp : p ∈ pages)
    (hfree : ∀ x ∈ B, (mem x).basePtr = p → (mem x).status = .free) :
    p ∈ B ∧ (mem p).kSize = K ∧ (mem p).basePtr = p := by
  have hpos := Nat.two_pow_pos K
  have hsome : ∃ k, ∃ x ∈ B, (mem x).basePtr = p ∧ (mem x).kSize = k := by
    obtain ⟨x, hx, hxp, hpx⟩ := h.cover p hp p le_rfl (by omega)
    have hok := h.block x hx
    have hle := hok.le
    have hfits := hok.fits
    exact ⟨_, x, hx, page_eq (x := p) hapart hok.page hp (by omega) (by omega) le_rfl (by omega),
      rfl⟩
  -- the buddy of a smallest block would be as small and free as well
  classical
  obtain ⟨x, hx, hbase, hk⟩ := Nat.find_spec hsome
  have hok := h.block x hx
  have hwhole : (mem x).kSize = K := by
    by_contra hne
    have hlt : (mem x).kSize < K := lt_of_le_of_ne hok.kSize_le hne
    obtain ⟨hy, hbase', hle', -⟩ := h.buddy_mem hapart hx hlt
    have hmin := Nat.find_min' hsome ⟨_, hy, hbase'.trans hbase, rfl⟩
    exact hco x hx _ hy (hfree x hx hbase) (hfree _ hy (hbase'.trans hbase)) hlt (by omega) rfl
  have hle := hok.le
  have hfits := hok.fits
  rw [BuddyBlock.size, hwhole, hbase] at hfits
  obtain rfl : x = p := by omega
  exact ⟨hx, hwhole, hbase⟩

/-- Only one set of blocks fills the pages. -/
theorem Tiled.unique {B' : Set ℕ} (h : Tiled K pages mem B) (h' : Tiled K pages mem B')
    (hapart : (pageAreas K pages).Pairwise Apart) : B ⊆ B' := by
  intro x hx
  induction x using Nat.strong_induction_on with
  | _ x ih =>
    have hok := h.block x hx
    have hle := hok.le
    have hfits := hok.fits
    have hpos := (mem x).size_pos
    obtain ⟨y, hy, hyx, hxy⟩ := h'.cover _ hok.page x hle (by omega)
    have hoky := h'.block y hy
    have hley := hoky.le
    have hfitsy := hoky.fits
    have hbase : (mem y).basePtr = (mem x).basePtr :=
      page_eq (x := x) hapart hoky.page hok.page (by omega) (by omega) hle (by omega)
    rcases Nat.eq_or_lt_of_le hle with hfirst | hlater
    · obtain rfl : y = x := by omega
      exact hy
    · -- the block before `x` ends at `x` and is one of `B'` too
      obtain ⟨z, hz, hzx, hxz⟩ := h.cover _ hok.page (x - 1) (by omega) (by omega)
      have hne : z ≠ x := by omega
      have hzend : z + (mem z).size = x := by
        rcases h.disjoint z hz x hx hne with hd | hd
        · omega
        · omega
      have hz' := ih z (by omega) hz
      rcases eq_or_ne y z with rfl | hyz
      · omega
      · rcases h'.disjoint y hy z hz' hyz with hd | hd
        · omega
        · obtain rfl : y = x := by omega
          exact hy

end Ganesha.BuddyMalloc
