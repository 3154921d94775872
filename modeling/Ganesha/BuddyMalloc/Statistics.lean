import Mathlib.Algebra.Order.BigOperators.Group.Finset
import Mathlib.Order.Interval.Finset.Nat
import Ganesha.BuddyMalloc.Coalescing

/-!
# Statistics

In a run of `BuddyMalloc` and `BuddyFree` by the owner of a context the statistics are those of its
blocks and pages, and `Garbage_StdPages` keeps the number of pages that it is asked to keep
(`accurate_of_counted`).

`__BuddyMalloc` notes the amount `1 << sizelog2`, computed in an `int`, whatever the size of the block
is. For a request of 4 GiB it notes one byte and gives out a page (`not_accurate_of_four_gib`).

A page is noted as used when a block that is a whole page is taken, and as unused when one comes to
be. That these are the pages with a reserved block follows from full coalescing
(`Tiled.whole_page`).
-/

namespace Ganesha.BuddyMalloc
open Library.Transition

variable {c c' c₁ : Context} {B B' B₁ : Set ℕ} {R : Finset ℕ} {a a' n : ℕ} {s s' : System} {e : Event}

/-! ## Machine arithmetic -/

variable {x y : ℕ}

lemma add64_of_lt (h : x + y < 2 ^ 64) : add64 x y = x + y := by
  rw [add64]
  exact Nat.mod_eq_of_lt h

lemma sub64_of_le (h : y ≤ x) : sub64 x y = x - y := by
  rw [sub64, if_pos h]

lemma incr32_of_lt (h : x + 1 < 2 ^ 32) : incr32 x = x + 1 := by
  rw [incr32]
  exact Nat.mod_eq_of_lt h

lemma decr32_of_pos (h : 0 < x) : decr32 x = x - 1 := by
  rw [decr32, if_neg (by omega)]

lemma mul32_of_lt (h : x * y < 2 ^ 32) : mul32 x y = x * y := by
  rw [mul32]
  exact Nat.mod_eq_of_lt h

/-! ## Bytes -/

/-- Areas that are apart have as many bytes as the sum of their sizes. -/
lemma exists_bytes_of_apart {l : List (ℕ × ℕ)} (h : l.Pairwise Apart) :
    ∃ S : Finset ℕ, S.card = (l.map Prod.snd).sum ∧
      ∀ y ∈ S, ∃ x ∈ l, x.1 ≤ y ∧ y < x.1 + x.2 := by
  induction l with
  | nil => exact ⟨∅, rfl, fun y hy => absurd hy (Finset.notMem_empty y)⟩
  | cons x l ih =>
    obtain ⟨hx, hl⟩ := List.pairwise_cons.mp h
    obtain ⟨S, hcard, hS⟩ := ih hl
    have hdisjoint : Disjoint (Finset.Ico x.1 (x.1 + x.2)) S := by
      refine Finset.disjoint_left.mpr fun y hy hyS => ?_
      rw [Finset.mem_Ico] at hy
      obtain ⟨z, hz, hyz⟩ := hS y hyS
      have hd := hx z hz
      simp only [Apart] at hd
      omega
    refine ⟨Finset.Ico x.1 (x.1 + x.2) ∪ S, ?_, fun y hy => ?_⟩
    · rw [Finset.card_union_of_disjoint hdisjoint, Nat.card_Ico, hcard, List.map_cons, List.sum_cons]
      omega
    · rcases Finset.mem_union.mp hy with hy | hy
      · exact ⟨x, List.mem_cons_self, Finset.mem_Ico.mp hy⟩
      · obtain ⟨z, hz, hyz⟩ := hS y hy
        exact ⟨z, List.mem_cons_of_mem x hz, hyz⟩

/-- Areas apart from each other fit into the address space. -/
lemma sum_lt_of_apart {l : List (ℕ × ℕ)} {N : ℕ} (h : l.Pairwise Apart) (hN : 0 < N)
    (hin : ∀ x ∈ l, 0 < x.1 ∧ x.1 + x.2 ≤ N) : (l.map Prod.snd).sum < N := by
  obtain ⟨S, hcard, hS⟩ := exists_bytes_of_apart h
  have hsub : S ⊆ Finset.Ico 1 N := fun y hy => by
    obtain ⟨x, hx, hxy⟩ := hS y hy
    have := hin x hx
    rw [Finset.mem_Ico]
    omega
  have hle := Finset.card_le_card hsub
  rw [Nat.card_Ico] at hle
  omega

/-- The areas held lie in the address space. -/
def Inside (c : Context) : Prop := ∀ x ∈ c.areas, x.1 + x.2 ≤ 2 ^ 64

/-- All memory together is less than 2^64. -/
lemma Filled.areas_lt (h : Filled c B) (hin : Inside c) :
    c.pages.length * 2 ^ c.kSize + (c.extras.map Prod.snd).sum < 2 ^ 64 := by
  have hlt := sum_lt_of_apart (N := 2 ^ 64) h.apart (by decide) fun x hx => ⟨h.pos x hx, hin x hx⟩
  have hpages : ((pageAreas c.kSize c.pages).map Prod.snd).sum = c.pages.length * 2 ^ c.kSize := by
    have hconst : Prod.snd ∘ (fun p : ℕ => (p, 2 ^ c.kSize)) = fun _ => 2 ^ c.kSize := rfl
    rw [pageAreas, List.map_map, hconst, List.map_const', List.sum_replicate_nat]
  rw [Context.areas, List.map_append, List.sum_append, hpages] at hlt
  exact hlt

/-- Blocks inside the address space are smaller than it together. -/
lemma Filled.blocks_lt (h : Filled c B) (hin : Inside c) (hR : ∀ x ∈ R, x ∈ B) :
    ∑ x ∈ R, (c.mem x).size < 2 ^ 64 := by
  have hapart : (R.toList.map fun x => (x, (c.mem x).size)).Pairwise Apart := by
    refine List.pairwise_map.mpr (R.nodup_toList.imp_of_mem fun {x y} hx hy hne => ?_)
    exact h.tiled.disjoint x (hR x (Finset.mem_toList.mp hx)) y (hR y (Finset.mem_toList.mp hy)) hne
  have hlt := sum_lt_of_apart (N := 2 ^ 64) hapart (by decide) fun y hy => by
    obtain ⟨x, hx, rfl⟩ := List.mem_map.mp hy
    have hok := h.tiled.block x (hR x (Finset.mem_toList.mp hx))
    have hle := hok.le
    have hfits := hok.fits
    have harea := List.mem_append_left c.extras
      (List.mem_map_of_mem (f := fun p => (p, 2 ^ c.kSize)) hok.page)
    have hpos := h.pos _ harea
    have hend := hin _ harea
    simp only at hpos hend ⊢
    omega
  rw [List.map_map] at hlt
  have hsum : (R.toList.map (Prod.snd ∘ fun x => (x, (c.mem x).size))).sum =
      ∑ x ∈ R, (c.mem x).size := Finset.sum_map_toList R _
  rw [hsum] at hlt
  exact hlt

/-- The pages of the blocks `R`. -/
def pagesOf (c : Context) (R : Finset ℕ) : Finset ℕ := R.image fun x => (c.mem x).basePtr

lemma Filled.pagesOf_le (h : Filled c B) (hR : ∀ x ∈ R, x ∈ B) :
    (pagesOf c R).card ≤ c.pages.length := by
  refine le_trans (Finset.card_le_card fun p hp => ?_) (List.toFinset_card_le c.pages)
  obtain ⟨x, hx, rfl⟩ := Finset.mem_image.mp hp
  exact List.mem_toFinset.mpr (h.tiled.block x (hR x hx)).page

lemma pagesOf_congr (h : ∀ x ∈ R, (c'.mem x).core = (c.mem x).core) :
    pagesOf c' R = pagesOf c R :=
  Finset.image_congr fun x hx => (BuddyBlock.core_eq.mp (h x hx)).1

lemma sum_size_congr (h : ∀ x ∈ R, (c'.mem x).core = (c.mem x).core) :
    ∑ x ∈ R, (c'.mem x).size = ∑ x ∈ R, (c.mem x).size :=
  Finset.sum_congr rfl fun x hx => size_congr (h x hx)

/-! ## What the statistics say -/

/-- The amounts and numbers that concern the areas. -/
structure AreasCounted (c : Context) : Prop where
  inside : Inside c
  few : c.areas.length < 2 ^ 32
  stdPageSize : c.stats.stdPageSize = 2 ^ c.kSize
  nbStdPages : c.stats.nbStdPages = c.pages.length
  stdMemSpace : c.stats.stdMemSpace = c.pages.length * 2 ^ c.kSize
  extraMemSpace : c.stats.extraMemSpace = (c.extras.map Prod.snd).sum
  nbExtraPages : c.stats.nbExtraPages = c.extras.length
  totalMemSpace : c.stats.totalMemSpace =
    c.pages.length * 2 ^ c.kSize + (c.extras.map Prod.snd).sum

/-- The amounts and numbers that concern the reserved blocks `R`. -/
structure BlocksCounted (c : Context) (B : Set ℕ) (R : Finset ℕ) : Prop where
  reserved : ∀ x, x ∈ R ↔ x ∈ B ∧ (c.mem x).status = .reserved
  stdUsedSpace : c.stats.stdUsedSpace = ∑ x ∈ R, (c.mem x).size
  nbStdUsed : c.stats.nbStdUsed = (pagesOf c R).card

lemma BlocksCounted.mem (h : BlocksCounted c B R) : ∀ x ∈ R, x ∈ B :=
  fun x hx => ((h.reserved x).mp hx).1

lemma AreasCounted.length_pages (h : AreasCounted c) : c.pages.length < 2 ^ 32 := by
  have hfew := h.few
  rw [Context.areas, List.length_append, pageAreas, List.length_map] at hfew
  omega

lemma AreasCounted.length_extras (h : AreasCounted c) : c.extras.length < 2 ^ 32 := by
  have hfew := h.few
  rw [Context.areas, List.length_append] at hfew
  omega

/-- The statistics that concern the areas. -/
def Stats.ofAreas (s : Stats) : ℕ × ℕ × ℕ × ℕ × ℕ × ℕ :=
  (s.stdPageSize, s.nbStdPages, s.stdMemSpace, s.extraMemSpace, s.nbExtraPages, s.totalMemSpace)

/-- The statistics that concern the blocks. -/
def Stats.ofBlocks (s : Stats) : ℕ × ℕ := (s.stdUsedSpace, s.nbStdUsed)

/-- The counts of areas are right as long as pages, extras and counts stay. -/
lemma AreasCounted.congr (h : AreasCounted c) (hk : c'.kSize = c.kSize) (hpages : c'.pages = c.pages)
    (hextras : c'.extras = c.extras) (hstats : c'.stats.ofAreas = c.stats.ofAreas) :
    AreasCounted c' := by
  have hareas : c'.areas = c.areas := by rw [Context.areas, hk, hpages, hextras, Context.areas]
  simp only [Stats.ofAreas, Prod.mk.injEq] at hstats
  obtain ⟨hsize, hnb, hstd, hextra, hnbExtra, htotal⟩ := hstats
  constructor
  · rw [Inside, hareas]; exact h.inside
  · rw [hareas]; exact h.few
  · rw [hsize, hk]; exact h.stdPageSize
  · rw [hnb, hpages]; exact h.nbStdPages
  · rw [hstd, hpages, hk]; exact h.stdMemSpace
  · rw [hextra, hextras]; exact h.extraMemSpace
  · rw [hnbExtra, hextras]; exact h.nbExtraPages
  · rw [htotal, hpages, hk, hextras]; exact h.totalMemSpace

lemma BlocksCounted.congr (h : BlocksCounted c B R)
    (hreserved : ∀ x, x ∈ R ↔ x ∈ B' ∧ (c'.mem x).status = .reserved)
    (hcore : ∀ x ∈ R, (c'.mem x).core = (c.mem x).core)
    (hstats : c'.stats.ofBlocks = c.stats.ofBlocks) : BlocksCounted c' B' R := by
  simp only [Stats.ofBlocks, Prod.mk.injEq] at hstats
  refine ⟨hreserved, ?_, ?_⟩
  · rw [hstats.1, sum_size_congr hcore]; exact h.stdUsedSpace
  · rw [hstats.2, pagesOf_congr hcore]; exact h.nbStdUsed

/-! ## BuddyMalloc -/

variable {size : ℕ}

/-- A large block counts as one more area. -/
lemma AreasCounted.addExtra (h : AreasCounted c) (hf : Filled c' B) (hextra : c.config.extraAlloc = true)
    (hsize : size + sizeHeader64 < 2 ^ 64) (hc' : c' = (allocLargeBlock c size (some a)).2)
    (hend : a + (size + sizeHeader64) ≤ 2 ^ 64) (hfew : c.areas.length + 1 < 2 ^ 32) : AreasCounted c' := by
  obtain ⟨-, hk, -, hpages, hextras, hstats, -⟩ := allocLargeBlock_frame (a := a) hextra hsize
  rw [← hc'] at hk hpages hextras hstats
  have hmem : ∀ x, x ∈ c'.areas ↔ x = (a, size + sizeHeader64) ∨ x ∈ c.areas := fun x => by
    rw [Context.areas, hk, hpages, hextras, Context.areas]
    simp only [List.mem_append, List.mem_cons]
    tauto
  have hlength : c'.areas.length = c.areas.length + 1 := by
    rw [Context.areas, hk, hpages, hextras, Context.areas]
    simp only [List.length_append, List.length_cons]
    omega
  have hin : Inside c' := fun x hx => by
    rcases (hmem x).mp hx with rfl | hx
    · exact hend
    · exact h.inside x hx
  -- the areas are apart, so the amounts do not overflow
  have hlt := hf.areas_lt hin
  rw [hk, hpages, hextras, List.map_cons, List.sum_cons] at hlt
  have hnb := h.length_extras
  have hfewer : c.extras.length + 1 < 2 ^ 32 := by
    have hfew' := hfew
    rw [Context.areas, List.length_append] at hfew'
    omega
  constructor
  · exact hin
  · omega
  · rw [hstats, hk]; exact h.stdPageSize
  · rw [hstats, hpages]; exact h.nbStdPages
  · rw [hstats, hpages, hk]; exact h.stdMemSpace
  · have hadd : add64 c.stats.extraMemSpace (size + sizeHeader64) =
        c.stats.extraMemSpace + (size + sizeHeader64) := add64_of_lt (by rw [h.extraMemSpace]; omega)
    rw [hstats, hextras, List.map_cons, List.sum_cons]
    simp only [updateStatsAddExtraPage, hadd]
    rw [h.extraMemSpace]
    omega
  · have hincr : incr32 c.stats.nbExtraPages = c.stats.nbExtraPages + 1 :=
      incr32_of_lt (by rw [h.nbExtraPages]; omega)
    rw [hstats, hextras, List.length_cons]
    simp only [updateStatsAddExtraPage, hincr]
    rw [h.nbExtraPages]
  · have hadd : add64 c.stats.totalMemSpace (size + sizeHeader64) =
        c.stats.totalMemSpace + (size + sizeHeader64) := add64_of_lt (by rw [h.totalMemSpace]; omega)
    rw [hstats, hpages, hk, hextras, List.map_cons, List.sum_cons]
    simp only [updateStatsAddExtraPage, hadd]
    rw [h.totalMemSpace]
    omega

/-- So does a page. -/
lemma AreasCounted.addPage (h : AreasCounted c) (hpage : PageAdded c c' B a)
    (hend : a + 2 ^ c.kSize ≤ 2 ^ 64) (hfew : c.areas.length + 1 < 2 ^ 32) : AreasCounted c' := by
  have hareas := hpage.areas
  have hk := hpage.tracked.kSize
  have hextras := hpage.tracked.extras
  -- the new page ends below 2^64, as the others do
  have hin : Inside c' := fun x hx => by
    rw [hareas] at hx
    rcases List.mem_cons.mp hx with rfl | hx
    · exact hend
    · exact h.inside x hx
  have hlt := hpage.toFilled.areas_lt hin
  rw [hk, hpage.pages, hextras, List.length_cons, Nat.succ_mul] at hlt
  have hfewer : c.pages.length + 1 < 2 ^ 32 := by
    have hfew' := hfew
    rw [Context.areas, List.length_append, pageAreas, List.length_map] at hfew'
    omega
  constructor
  · exact hin
  · rw [hareas, List.length_cons]; exact hfew
  · rw [hpage.stats, hk]; exact h.stdPageSize
  · have hincr : incr32 c.stats.nbStdPages = c.stats.nbStdPages + 1 :=
      incr32_of_lt (by rw [h.nbStdPages]; exact hfewer)
    rw [hpage.stats, hpage.pages, List.length_cons]
    simp only [updateStatsInsertStdPage, hincr]
    rw [h.nbStdPages]
  · have hadd : add64 c.stats.stdMemSpace c.stats.stdPageSize =
        c.stats.stdMemSpace + c.stats.stdPageSize :=
      add64_of_lt (by rw [h.stdMemSpace, h.stdPageSize]; omega)
    rw [hpage.stats, hpage.pages, hk, List.length_cons, Nat.succ_mul]
    simp only [updateStatsInsertStdPage, hadd]
    rw [h.stdMemSpace, h.stdPageSize]
  · rw [hpage.stats, hextras]; exact h.extraMemSpace
  · rw [hpage.stats, hextras]; exact h.nbExtraPages
  · have hadd : add64 c.stats.totalMemSpace c.stats.stdPageSize =
        c.stats.totalMemSpace + c.stats.stdPageSize :=
      add64_of_lt (by rw [h.totalMemSpace, h.stdPageSize]; omega)
    rw [hpage.stats, hpage.pages, hk, hextras, List.length_cons, Nat.succ_mul]
    simp only [updateStatsInsertStdPage, hadd]
    rw [h.totalMemSpace, h.stdPageSize]
    omega

/-- A new page. -/
lemma BlocksCounted.addPage (h : BlocksCounted c B R) (hpage : PageAdded c c' B a) :
    BlocksCounted c' (insert a B) R := by
  have hkept : ∀ x ∈ R, x ∈ insert a B ∧ (c'.mem x).core = (c.mem x).core := fun x hx => by
    obtain ⟨hxB, hres⟩ := (h.reserved x).mp hx
    exact hpage.tracked.reserved x hxB (fun heq => hpage.notMem (heq ▸ hxB)) hres
  refine h.congr (fun x => ⟨fun hx => ?_, fun ⟨hx, hres⟩ => ?_⟩) (fun x hx => (hkept x hx).2) ?_
  · obtain ⟨hxB, hres⟩ := (h.reserved x).mp hx
    exact ⟨(hkept x hx).1, (status_congr (hkept x hx).2).trans hres⟩
  · exact (h.reserved x).mpr (hpage.tracked.noNew x hx hres)
  · rw [hpage.stats]
    rfl

/-- A free block is a whole page exactly if no reserved block is in its page. -/
lemma Rest.isWholePage_iff (hrest : Rest c B) (hco : Coalesced c.kSize c.mem B) (ha : a ∈ B)
    (hfree : (c.mem a).status = .free)
    (hR : ∀ x, x ∈ R ↔ x ∈ B ∧ (c.mem x).status = .reserved) :
    c.isWholePage a = true ↔ (c.mem a).basePtr ∉ pagesOf c R := by
  have hok := hrest.tiled.block a ha
  simp only [Context.isWholePage, Bool.and_eq_true, beq_iff_eq]
  constructor
  · rintro ⟨hbase, hk⟩ hmem
    obtain ⟨x, hx, hbasex⟩ := Finset.mem_image.mp hmem
    obtain ⟨hxB, hres⟩ := (hR x).mp hx
    have hokx := hrest.tiled.block x hxB
    have hle := hokx.le
    have hfits := hokx.fits
    have hxpos := (c.mem x).size_pos
    have hsize : (c.mem a).size = 2 ^ c.kSize := by rw [BuddyBlock.size, ← hk, hok.base]
    have heq := hrest.tiled.eq_of_mem ha hxB (x := x) (by omega) (by omega) le_rfl (by omega)
    rw [← heq, hfree] at hres
    cases hres
  · intro hnone
    -- all blocks of the page are free
    have hall : ∀ x ∈ B, (c.mem x).basePtr = (c.mem a).basePtr →
        (c.mem x).status = .free := fun x hx hbase => by
      cases hs : (c.mem x).status with
      | free => rfl
      | reserved => exact absurd (Finset.mem_image.mpr ⟨x, (hR x).mpr ⟨hx, hs⟩, hbase⟩) hnone
    obtain ⟨hpB, hk, hbase⟩ :=
      hrest.tiled.whole_page hrest.toFilled.apart_pages hco hok.page hall
    have hle := hok.le
    have hfits := hok.fits
    have hpos := (c.mem a).size_pos
    have hsize : (c.mem (c.mem a).basePtr).size = 2 ^ c.kSize := by rw [BuddyBlock.size, hk]
    have heq := hrest.tiled.eq_of_mem hpB ha (x := a) hle (by omega) le_rfl (by omega)
    rw [heq] at hk
    exact ⟨heq, hok.base.trans hk.symm⟩

/-- A block that is taken counts as used, with its page. -/
lemma BlocksCounted.take (h : BlocksCounted c B R) (hrest : Rest c B)
    (hco : Coalesced c.kSize c.mem B) (ha : a ∈ B) (hfree : (c.mem a).status = .free)
    (htaken : Taken c c' B B' a n) (hamount : intShiftLeft n = 2 ^ min n (c.mem a).kSize)
    (hin : Inside c) (hfew : c.pages.length < 2 ^ 32) : BlocksCounted c' B' (insert a R) := by
  -- a block that is free is not among the reserved ones
  have hnot : a ∉ R := fun hmem => by
    have hres := ((h.reserved a).mp hmem).2
    rw [hfree] at hres
    cases hres
  have hkept : ∀ x ∈ R, x ∈ B' ∧ (c'.mem x).core = (c.mem x).core := fun x hx => by
    obtain ⟨hxB, hres⟩ := (h.reserved x).mp hx
    exact htaken.kept.reserved x hxB (fun heq => hnot (heq ▸ hx)) hres
  have hcore : ∀ x ∈ R, (c'.mem x).core = (c.mem x).core := fun x hx => (hkept x hx).2
  have hreserved : ∀ x, x ∈ insert a R ↔ x ∈ B' ∧ (c'.mem x).status = .reserved := by
    intro x
    rw [Finset.mem_insert]
    constructor
    · rintro (rfl | hx)
      · exact ⟨htaken.mem, htaken.status⟩
      · exact ⟨(hkept x hx).1, (status_congr (hcore x hx)).trans ((h.reserved x).mp hx).2⟩
    · rintro ⟨hx, hres⟩
      by_cases hxa : x = a
      · exact .inl hxa
      · exact .inr ((h.reserved x).mpr (htaken.noNew x hx hxa hres))
  have hareas : c'.areas = c.areas := by
    rw [Context.areas, htaken.kept.kSize, htaken.pages, htaken.kept.extras, Context.areas]
  have hin' : Inside c' := by
    rw [Inside, hareas]
    exact hin
  have hsum : ∑ x ∈ insert a R, (c'.mem x).size = c.stats.stdUsedSpace + intShiftLeft n := by
    rw [Finset.sum_insert hnot, sum_size_congr hcore, h.stdUsedSpace, BuddyBlock.size,
      htaken.kSize_eq, hamount]
    omega
  have hlt := htaken.toFilled.blocks_lt (R := insert a R) hin' fun x hx =>
    ((hreserved x).mp hx).1
  rw [hsum] at hlt
  have hpages : pagesOf c' (insert a R) = insert (c.mem a).basePtr (pagesOf c R) := by
    rw [pagesOf, Finset.image_insert, htaken.basePtr, ← pagesOf_congr hcore]
    rfl
  refine ⟨hreserved, ?_, ?_⟩
  · rw [hsum, htaken.stats]
    split_ifs
    · exact add64_of_lt hlt
    · exact add64_of_lt hlt
  · have hiff := hrest.isWholePage_iff hco ha hfree h.reserved
    rw [hpages, htaken.stats]
    by_cases hwhole : c.isWholePage a = true
    · have hnew := hiff.mp hwhole
      have hle := htaken.toFilled.pagesOf_le (R := insert a R) fun x hx => ((hreserved x).mp hx).1
      rw [hpages, Finset.card_insert_of_notMem hnew, htaken.pages, ← h.nbStdUsed] at hle
      rw [if_pos hwhole, Finset.card_insert_of_notMem hnew, ← h.nbStdUsed]
      exact incr32_of_lt (by omega)
    · have hold : (c.mem a).basePtr ∈ pagesOf c R := not_not.mp fun hnone => hwhole (hiff.mpr hnone)
      rw [if_neg hwhole, Finset.insert_eq_of_mem hold, ← h.nbStdUsed]
      rfl

/-! ## BuddyFree -/

/-- The ends of `__BuddyFree`. -/
inductive Settled (c : Context) (a : ℕ) : Context → Prop
  | part (hwhole : ¬ c.isWholePage a = true) : Settled c a c
  | whole (hwhole : c.isWholePage a = true) : Settled c a (c.count updateStatsFreeStdPage)
  | collected (hwhole : c.isWholePage a = true) (hmin : c.config.keepMinimum < c.stats.nbStdPages)
    (hfactor : mul32 c.config.keepFactor (decr32 c.stats.nbStdUsed) < c.stats.nbStdPages)
    (hpages : (settle c a).pages = c.pages.erase a)
    (hstats : (settle c a).stats = updateStatsRemoveStdPage (updateStatsFreeStdPage c.stats)) :
    Settled c a (settle c a)

/-- What `settle` does to the counts. -/
lemma settle_settled (c : Context) (a : ℕ) : Settled c a (settle c a) := by
  by_cases hwhole : c.isWholePage a = true
  · by_cases hareas : (c.count updateStatsFreeStdPage).config.freeAreas = true
    · have hrun : settle c a = garbageStdPages (c.count updateStatsFreeStdPage) a := by
        rw [settle, if_pos hwhole, if_pos hareas]
      rw [garbageStdPages, if_neg (not_not_intro hareas)] at hrun
      by_cases hmin : (c.count updateStatsFreeStdPage).stats.nbStdPages ≤
          (c.count updateStatsFreeStdPage).config.keepMinimum
      · rw [hrun, if_pos hmin]
        exact .whole hwhole
      rw [if_neg hmin] at hrun
      by_cases hfactor : (c.count updateStatsFreeStdPage).stats.nbStdPages ≤
          mul32 (c.count updateStatsFreeStdPage).config.keepFactor
            (c.count updateStatsFreeStdPage).stats.nbStdUsed
      · rw [hrun, if_pos hfactor]
        exact .whole hwhole
      rw [if_neg hfactor] at hrun
      refine .collected hwhole (not_le.mp hmin) (not_le.mp hfactor) ?_ ?_
      · rw [hrun]
        exact congrArg (List.erase · a) (sameBut_removeFreeBlock _ a).pages
      · rw [hrun]
        exact congrArg updateStatsRemoveStdPage (removeFreeBlock_stats _ a)
    · rw [settle, if_pos hwhole, if_neg hareas]
      exact .whole hwhole
  · have hrun : settle c a = c := by rw [settle, if_neg hwhole]
    rw [hrun]
    exact .part hwhole

/-- The reserved blocks after one was joined. -/
lemma BlocksCounted.reserved_erase (h : BlocksCounted c B R) (hjoined : Joined c c₁ B B₁ a a') :
    (∀ x ∈ R.erase a, (c₁.mem x).core = (c.mem x).core) ∧
      ∀ x, x ∈ R.erase a ↔ x ∈ B₁ ∧ (c₁.mem x).status = .reserved := by
  have hkept : ∀ x ∈ R.erase a, x ∈ B₁ ∧ (c₁.mem x).core = (c.mem x).core := fun x hx => by
    obtain ⟨hne, hxR⟩ := Finset.mem_erase.mp hx
    obtain ⟨hxB, hres⟩ := (h.reserved x).mp hxR
    exact hjoined.kept.reserved x hxB hne hres
  refine ⟨fun x hx => (hkept x hx).2, fun x => ⟨fun hx => ?_, fun ⟨hx, hres⟩ => ?_⟩⟩
  · have hres := ((h.reserved x).mp (Finset.mem_of_mem_erase hx)).2
    exact ⟨(hkept x hx).1, (status_congr (hkept x hx).2).trans hres⟩
  · obtain ⟨hx, hne, hres⟩ := hjoined.noNew x hx hres
    exact Finset.mem_erase.mpr ⟨hne, (h.reserved x).mpr ⟨hx, hres⟩⟩

/-- A block that is given back does not count any more, nor its page if that is empty. -/
lemma BlocksCounted.giveBack (h : BlocksCounted c B R) (hsmall : Filled c B) (ha : a ∈ R)
    (hco : Coalesced c.kSize c.mem B) (hjoined : Joined c c₁ B B₁ a a')
    (htracked : Tracked c₁ (settle c₁ a') B₁ B' a') :
    BlocksCounted (settle c₁ a') B' (R.erase a) := by
  obtain ⟨hcore, hreserved⟩ := h.reserved_erase hjoined
  have hok := hsmall.tiled.block a (h.mem a ha)
  have hshift : intShiftLeft (c.mem a).kSize = (c.mem a).size :=
    intShiftLeft_of_lt (Nat.lt_of_le_of_lt hok.kSize_le hsmall.small)
  -- the amount
  have hused : c₁.stats.stdUsedSpace = ∑ x ∈ R.erase a, (c₁.mem x).size := by
    have hsum := Finset.add_sum_erase R (fun x => (c.mem x).size) ha
    have hsub : sub64 c.stats.stdUsedSpace (c.mem a).size = c.stats.stdUsedSpace - (c.mem a).size :=
      sub64_of_le (by rw [h.stdUsedSpace]; omega)
    rw [hjoined.stats, hshift, sum_size_congr hcore]
    simp only [updateStatsFreeStdMemSpace, hsub]
    rw [h.stdUsedSpace]
    omega
  -- the number of pages that were used before
  have hnb : c₁.stats.nbStdUsed = (insert (c₁.mem a').basePtr (pagesOf c₁ (R.erase a))).card := by
    have hinsert : pagesOf c R = insert (c.mem a).basePtr (pagesOf c (R.erase a)) := by
      have himage := Finset.image_insert (fun x => (c.mem x).basePtr) a (R.erase a)
      rw [Finset.insert_erase ha] at himage
      exact himage
    rw [hjoined.stats, hjoined.basePtr, pagesOf_congr hcore, ← hinsert]
    exact h.nbStdUsed
  have hiff := hjoined.toRest.isWholePage_iff (hjoined.coalesced hco) hjoined.mem hjoined.free
    hreserved
  -- the end of the call leaves the reserved blocks alone
  have hreserved' : ∀ x, x ∈ R.erase a ↔
      x ∈ B' ∧ ((settle c₁ a').mem x).status = .reserved := by
    intro x
    rw [hreserved]
    constructor
    · rintro ⟨hx, hres⟩
      have hne : x ≠ a' := by
        rintro rfl
        rw [hjoined.free] at hres
        cases hres
      obtain ⟨hx', hcore'⟩ := htracked.reserved x hx hne hres
      exact ⟨hx', (status_congr hcore').trans hres⟩
    · rintro ⟨hx, hres⟩
      exact htracked.noNew x hx hres
  have hcore' : ∀ x ∈ R.erase a, ((settle c₁ a').mem x).core = (c₁.mem x).core := fun x hx => by
    obtain ⟨hx₁, hres⟩ := (hreserved x).mp hx
    have hne : x ≠ a' := by
      rintro rfl
      rw [hjoined.free] at hres
      cases hres
    exact (htracked.reserved x hx₁ hne hres).2
  have hfreed : c₁.isWholePage a' = true →
      decr32 c₁.stats.nbStdUsed = (pagesOf c₁ (R.erase a)).card := fun hwhole => by
    rw [hnb, Finset.card_insert_of_notMem (hiff.mp hwhole), decr32_of_pos (by omega)]
    omega
  have hresult := settle_settled c₁ a'
  generalize hc' : settle c₁ a' = c' at hreserved' hcore' hresult
  refine ⟨hreserved', ?_, ?_⟩
  · rw [sum_size_congr hcore', ← hused]
    cases hresult with
    | part hwhole => rfl
    | whole hwhole => rfl
    | collected hwhole hmin hfactor hpages hstats =>
      rw [← hc', hstats]
      rfl
  · rw [pagesOf_congr hcore']
    cases hresult with
    | part hwhole =>
      have hmem := not_not.mp fun hnone => hwhole (hiff.mpr hnone)
      rw [hnb, Finset.insert_eq_of_mem hmem]
    | whole hwhole => exact hfreed hwhole
    | collected hwhole hmin hfactor hpages hstats =>
      rw [← hfreed hwhole, ← hc', hstats]
      rfl

/-- A page that is given back does not count any more. -/
lemma AreasCounted.dropPage (h : AreasCounted c) (hpage : a ∈ c.pages) (hk : c'.kSize = c.kSize)
    (hextras : c'.extras = c.extras) (hpages : c'.pages = c.pages.erase a)
    (hstats : c'.stats = updateStatsRemoveStdPage (updateStatsFreeStdPage c.stats)) :
    AreasCounted c' := by
  have hlength : c'.pages.length + 1 = c.pages.length := by
    rw [hpages, List.length_erase_of_mem hpage]
    have := List.length_pos_of_mem hpage
    omega
  have hsub : c'.areas.Sublist c.areas := by
    rw [Context.areas, Context.areas, hk, hextras, hpages]
    exact (List.erase_sublist.map _).append_right _
  have hmul : c.pages.length * 2 ^ c.kSize = c'.pages.length * 2 ^ c.kSize + 2 ^ c.kSize := by
    rw [← hlength, Nat.succ_mul]
  constructor
  · exact fun x hx => h.inside x (hsub.subset hx)
  · exact Nat.lt_of_le_of_lt hsub.length_le h.few
  · rw [hstats, hk]; exact h.stdPageSize
  · have hfield : c'.stats.nbStdPages = decr32 c.stats.nbStdPages := by rw [hstats]; rfl
    have hnb := h.nbStdPages
    have hdecr := decr32_of_pos (x := c.stats.nbStdPages) (by omega)
    omega
  · have hfield : c'.stats.stdMemSpace = sub64 c.stats.stdMemSpace c.stats.stdPageSize := by
      rw [hstats]; rfl
    have hdiff := sub64_of_le (x := c.stats.stdMemSpace) (y := c.stats.stdPageSize)
      (by rw [h.stdMemSpace, h.stdPageSize]; omega)
    rw [hfield, hdiff, h.stdMemSpace, h.stdPageSize, hk]
    omega
  · rw [hstats, hextras]; exact h.extraMemSpace
  · rw [hstats, hextras]; exact h.nbExtraPages
  · have hfield : c'.stats.totalMemSpace = sub64 c.stats.totalMemSpace c.stats.stdPageSize := by
      rw [hstats]; rfl
    have hdiff := sub64_of_le (x := c.stats.totalMemSpace) (y := c.stats.stdPageSize)
      (by rw [h.totalMemSpace, h.stdPageSize]; omega)
    rw [hfield, hdiff, h.totalMemSpace, h.stdPageSize, hk, hextras]
    omega

lemma Joined.mem_pages (h : Joined c c₁ B B₁ a a') (hwhole : c₁.isWholePage a' = true) :
    a' ∈ c₁.pages := by
  simp only [Context.isWholePage, Bool.and_eq_true, beq_iff_eq] at hwhole
  have hpage := (h.toRest.tiled.block a' h.mem).page
  rw [hwhole.1] at hpage
  exact hpage

/-- The areas are counted after a block is given back. -/
lemma AreasCounted.giveBack (h : AreasCounted c) (hjoined : Joined c c₁ B B₁ a a')
    (htracked : Tracked c₁ (settle c₁ a') B₁ B' a') : AreasCounted (settle c₁ a') := by
  have h₁ : AreasCounted c₁ := by
    refine h.congr hjoined.kept.kSize hjoined.pages hjoined.kept.extras ?_
    rw [hjoined.stats]
    rfl
  have hk := htracked.kSize
  have hextras := htracked.extras
  have hresult := settle_settled c₁ a'
  generalize settle c₁ a' = c' at hk hextras hresult ⊢
  cases hresult with
  | part hwhole => exact h₁
  | whole hwhole => exact h₁.congr rfl rfl rfl rfl
  | collected hwhole hmin hfactor hpages hstats =>
    exact h₁.dropPage (hjoined.mem_pages hwhole) hk hextras hpages hstats

/-- A large block that is given back does not count any more. -/
lemma AreasCounted.freeLarge {total : ℕ} (h : AreasCounted c) (hextra : (a, total) ∈ c.extras)
    (hbase : (c.mem a).basePtr = 0) (hinfo : (c.mem a).extraInfo = total) :
    AreasCounted (freeLargeBlock c a) := by
  have hrun : freeLargeBlock c a = Context.count { c with extras := c.extras.erase (a, total) }
      fun s => updateStatsRemoveExtraPage s total := by
    rw [freeLargeBlock, if_neg (not_not_intro hbase), hinfo]
  -- the amount given back was part of the sum
  have hsum : total + ((c.extras.erase (a, total)).map Prod.snd).sum =
      (c.extras.map Prod.snd).sum := by
    have hperm := ((List.perm_cons_erase hextra).map Prod.snd).sum_eq
    rw [hperm]
    rfl
  have hlength : (c.extras.erase (a, total)).length + 1 = c.extras.length := by
    rw [List.length_erase_of_mem hextra]
    have := List.length_pos_of_mem hextra
    omega
  have hsub : (Context.areas { c with extras := c.extras.erase (a, total) }).Sublist c.areas :=
    List.erase_sublist.append_left _
  have hextraMem := h.extraMemSpace
  have htotal := h.totalMemSpace
  have hnb := h.nbExtraPages
  rw [hrun]
  refine ⟨fun x hx => h.inside x (hsub.subset hx), Nat.lt_of_le_of_lt hsub.length_le h.few,
    h.stdPageSize, h.nbStdPages, h.stdMemSpace, ?_, ?_, ?_⟩
  · show sub64 c.stats.extraMemSpace total = _
    rw [sub64_of_le (by omega)]
    show c.stats.extraMemSpace - total = ((c.extras.erase (a, total)).map Prod.snd).sum
    omega
  · show decr32 c.stats.nbExtraPages = _
    rw [decr32_of_pos (by omega)]
    show c.stats.nbExtraPages - 1 = (c.extras.erase (a, total)).length
    omega
  · show sub64 c.stats.totalMemSpace total = _
    rw [sub64_of_le (by omega)]
    show c.stats.totalMemSpace - total =
      c.pages.length * 2 ^ c.kSize + ((c.extras.erase (a, total)).map Prod.snd).sum
    omega

/-! ## Runs -/

/-- The condition on a call. The amount `1 << sizelog2` is the size of the block if the block is not
larger than a page, or if the count wraps to the size of a page; the areas held are fewer than 2^32,
and `keep_factor` times the used pages is no more. -/
def EventCounted (s : System) : Event → Prop
  | .malloc size answer => NoBlock s.context size answer ∨
    (sizeHeader64 + minAllocSize ≤ 2 ^ sizeLog2 size ∧
      (sizeLog2 size ≤ s.context.kSize ∨ sizeLog2 size = 32 + s.context.kSize ∨
        intShiftLeft (sizeLog2 size) > 2 ^ s.context.kSize) ∧
      s.context.areas.length + 1 < 2 ^ 32)
  | .free _ => s.context.config.keepFactor * s.context.stats.nbStdUsed < 2 ^ 32

instance (s : System) : ∀ e, Decidable (EventCounted s e)
  | .malloc _ _ => inferInstanceAs (Decidable (_ ∨ _))
  | .free _ => inferInstanceAs (Decidable (_ < _))

/-- The statistics are those of the blocks and pages. -/
structure Accurate (s : System) : Prop where
  blocks : ∃ (B : Set ℕ) (R : Finset ℕ),
    Tiled s.context.kSize s.context.pages s.context.mem B ∧
      (∀ x, x ∈ R ↔ x ∈ B ∧ (s.context.mem x).status = .reserved) ∧
      s.context.stats.stdUsedSpace = ∑ x ∈ R, 2 ^ (s.context.mem x).kSize ∧
      s.context.stats.nbStdUsed = (R.image fun x => (s.context.mem x).basePtr).card
  stdPageSize : s.context.stats.stdPageSize = 2 ^ s.context.kSize
  nbStdPages : s.context.stats.nbStdPages = s.context.pages.length
  stdMemSpace : s.context.stats.stdMemSpace =
    s.context.stats.nbStdPages * s.context.stats.stdPageSize
  extraMemSpace : s.context.stats.extraMemSpace = (s.context.extras.map Prod.snd).sum
  totalMemSpace : s.context.stats.totalMemSpace =
    s.context.stats.stdMemSpace + s.context.stats.extraMemSpace

/-- A page that a call returns is wholly free, and enough pages are left. -/
def Retains (s s' : System) : Prop :=
  ∀ p ∈ s.context.pages, p ∉ s'.context.pages →
    (∀ q ∈ s'.live.map Prod.fst,
      ¬ (p ≤ q - sizeHeader64 ∧ q - sizeHeader64 < p + 2 ^ s.context.kSize)) ∧
    s.context.config.keepMinimum ≤ s'.context.pages.length ∧
    s.context.config.keepFactor * s'.context.stats.nbStdUsed ≤ s'.context.pages.length

/-- What every call keeps. -/
structure Tallied (s : System) (B : Set ℕ) (R : Finset ℕ) : Prop extends Sole s B where
  areas : AreasCounted s.context
  blocks : BlocksCounted s.context B R

lemma Tallied.accurate (h : Tallied s B R) : Accurate s where
  blocks := ⟨B, R, h.ready.tiled, h.blocks.reserved, h.blocks.stdUsedSpace, h.blocks.nbStdUsed⟩
  stdPageSize := h.areas.stdPageSize
  nbStdPages := h.areas.nbStdPages
  stdMemSpace := by rw [h.areas.stdMemSpace, h.areas.nbStdPages, h.areas.stdPageSize]
  extraMemSpace := h.areas.extraMemSpace
  totalMemSpace := by rw [h.areas.totalMemSpace, h.areas.stdMemSpace, h.areas.extraMemSpace]

variable {answer : Option ℕ}

lemma EventCounted.sound (h : EventCounted s (.malloc size answer)) : Sound s.context size answer := by
  rcases h with hnone | ⟨hlarge, -⟩
  · exact .inr hnone
  · exact .inl hlarge

lemma intShiftLeft_of_page {K : ℕ} (hK : K < 31) (h : n ≤ K ∨ n = 32 + K) :
    intShiftLeft n = 2 ^ min n K := by
  rcases h with hle | rfl
  · rw [intShiftLeft_of_lt (by omega), Nat.min_eq_left hle]
  · rw [intShiftLeft, if_neg (by omega), Nat.min_eq_right (by omega)]
    congr 1
    omega

/-- A request keeps the counts right. -/
lemma Tallied.served {m : ℕ} {p : Option ℕ} (h : Tallied s B R) (hfresh : Fresh s.context size answer)
    (hcounted : EventCounted s (.malloc size answer)) (hserved : Served s.context B size answer p c' B')
    (hserves : ServesOnly s.context c' B B' p m) : ∃ R', AreasCounted c' ∧ BlocksCounted c' B' R' := by
  have hrest := h.ready.toRest
  have hlimits : ¬ NoBlock s.context size answer → _ := fun hsome => hcounted.resolve_left hsome
  cases hserved with
  | fails e hnone => exact ⟨R, h.areas.congr rfl rfl rfl rfl, h.blocks.congr h.blocks.reserved
      (fun _ _ => rfl) rfl⟩
  | extra a hsome ha hnot hsize hlarge hextra =>
    -- a large block is no block of a page
    obtain ⟨-, -, hfew⟩ := hlimits hsome
    have hend := (hfresh a ha).2.1
    rw [osRequest, if_pos hlarge, Nat.mod_eq_of_lt hsize] at hend
    obtain ⟨hmem, -, -, -, -, hstats, -⟩ := allocLargeBlock_frame (a := a) hextra hsize
    have hsame : ∀ x ∈ B, (allocLargeBlock s.context size (some a)).2.mem x = s.context.mem x :=
      fun x hx => hmem x fun heq => hnot (heq ▸ hx)
    refine ⟨R, h.areas.addExtra hserves.ready.toFilled hextra hsize rfl hend hfew,
      h.blocks.congr (fun x => ?_) (fun x hx => ?_) ?_⟩
    · rw [h.blocks.reserved]
      exact and_congr_right fun hx => by rw [hsame x hx]
    · rw [hsame x (h.blocks.mem x hx)]
    · rw [hstats]
      rfl
  | found a _ _ hsome ha hfree hle htaken =>
    have hkSize := (hrest.tiled.block a ha).kSize_le
    have hsmall := hrest.small
    have hamount : intShiftLeft (sizeLog2 size) = 2 ^ min (sizeLog2 size) (s.context.mem a).kSize :=
      intShiftLeft_of_page (by omega) (.inl hle)
    refine ⟨insert a R, h.areas.congr htaken.kept.kSize htaken.pages htaken.kept.extras ?_,
      h.blocks.take hrest h.coalesced ha hfree htaken hamount h.areas.inside h.areas.length_pages⟩
    rw [htaken.stats]
    split_ifs
    · rfl
    · rfl
  | newPage a c₁ _ _ hsome ha hpage hstd htaken =>
    obtain ⟨-, hpageSize, hfew⟩ := hlimits hsome
    have hend := (hfresh a ha).2.1
    rw [osRequest, if_neg hstd] at hend
    have hareas := h.areas.addPage hpage hend hfew
    have hsmall := hrest.small
    have hamount : intShiftLeft (sizeLog2 size) = 2 ^ min (sizeLog2 size) (c₁.mem a).kSize := by
      rw [hpage.kSize_eq]
      refine intShiftLeft_of_page hsmall ?_
      rcases hpageSize with hle | hwrap | hlarge
      · exact .inl hle
      · exact .inr hwrap
      · exact absurd hlarge hstd
    refine ⟨insert a R, hareas.congr htaken.kept.kSize htaken.pages htaken.kept.extras ?_,
      (h.blocks.addPage hpage).take hpage.toRest (hpage.coalesced h.coalesced) (.inl rfl)
        hpage.free htaken hamount hareas.inside hareas.length_pages⟩
    rw [htaken.stats]
    split_ifs
    · rfl
    · rfl

/-- What is shown after a free is right. -/
lemma Tallied.retains {ptr : ℕ} (h : Tallied s B R) (hjoined : Joined s.context c₁ B B₁ a a')
    (htracked : Tracked c₁ (settle c₁ a') B₁ B' a') (hcounted : EventCounted s (.free ptr))
    (hsole : Sole ⟨settle c₁ a', s.live.filter (·.1 ≠ ptr)⟩ B')
    (hblocks : BlocksCounted (settle c₁ a') B' (R.erase a)) :
    Retains s ⟨settle c₁ a', s.live.filter (·.1 ≠ ptr)⟩ := by
  intro p hp hgone
  have hk := hjoined.kept.kSize
  have hnbUsed := hblocks.nbStdUsed
  have hresult := settle_settled c₁ a'
  generalize hc' : settle c₁ a' = c' at htracked hsole hblocks hresult hgone hnbUsed ⊢
  cases hresult with
  | part hwhole => exact absurd (hjoined.pages ▸ hp) hgone
  | whole hwhole => exact absurd (hjoined.pages ▸ hp) hgone
  | collected hwhole hmin hfactor hpages hstats =>
    have hpage := hjoined.mem_pages hwhole
    have hok := hjoined.toRest.tiled.block a' hjoined.mem
    simp only [Context.isWholePage, Bool.and_eq_true, beq_iff_eq] at hwhole
    -- the page that has gone is the block
    obtain rfl : p = a' := by
      by_contra hne
      refine hgone ?_
      simp only [hpages, hjoined.pages]
      exact (List.mem_erase_of_ne hne).mpr hp
    have hsize : (c₁.mem p).size = 2 ^ s.context.kSize := by
      rw [BuddyBlock.size, ← hwhole.2, hok.base, hk]
    have hnb : c₁.stats.nbStdPages = c₁.pages.length := by
      rw [hjoined.stats, hjoined.pages]
      exact h.areas.nbStdPages
    have hlength : (settle c₁ p).pages.length + 1 = c₁.pages.length := by
      rw [hpages, List.length_erase_of_mem hpage]
      have := List.length_pos_of_mem hpage
      omega
    have hconfig := hjoined.kept.config
    refine ⟨fun q hq hin => ?_, ?_, ?_⟩
    · obtain ⟨n, hn⟩ := hsole.inUse q hq
      rcases hn.room with ⟨hqB, -⟩ | ⟨hqE, -⟩
      · obtain ⟨hq₁, hres⟩ := htracked.noNew _ hqB hn.status
        have hpos := (c₁.mem (q - sizeHeader64)).size_pos
        have heq := hjoined.toRest.tiled.eq_of_mem hjoined.mem hq₁ (x := q - sizeHeader64)
          hin.1 (by omega) le_rfl (by simp only; omega)
        simp only at heq hres
        rw [← heq, hjoined.free] at hres
        cases hres
      · rw [htracked.extras] at hqE
        have hout := hjoined.toRest.toFilled.extra_out hqE hpage
        simp only [hk] at hout
        omega
    · rw [hconfig] at hmin
      simp only
      omega
    · -- the product does not overflow, and one page less is used
      have hused : (settle c₁ p).stats.nbStdUsed ≤ s.context.stats.nbStdUsed := by
        have hcore := (h.blocks.reserved_erase hjoined).1
        have hreserved := (h.blocks.reserved_erase hjoined).2
        have hcore' : ∀ x ∈ R.erase a, ((settle c₁ p).mem x).core = (s.context.mem x).core := by
          intro x hx
          obtain ⟨hx₁, hres⟩ := (hreserved x).mp hx
          have hne : x ≠ p := by
            rintro rfl
            rw [hjoined.free] at hres
            cases hres
          exact ((htracked.reserved x hx₁ hne hres).2).trans (hcore x hx)
        rw [hnbUsed, h.blocks.nbStdUsed, pagesOf_congr hcore']
        exact Finset.card_le_card (Finset.image_subset_image (Finset.erase_subset a R))
      have hfield : (settle c₁ p).stats.nbStdUsed = decr32 c₁.stats.nbStdUsed := by
        rw [hstats]
        rfl
      have hproduct : s.context.config.keepFactor * (settle c₁ p).stats.nbStdUsed < 2 ^ 32 :=
        Nat.lt_of_le_of_lt (Nat.mul_le_mul_left _ hused) hcounted
      rw [hconfig, ← hfield, mul32_of_lt hproduct] at hfactor
      simp only
      omega

/-- Every free keeps the counts right. -/
lemma Tallied.free {ptr : ℕ} (h : Tallied s B R) (hallowed : Possible s (.free ptr))
    (hcounted : EventCounted s (.free ptr)) :
    ∃ s' B' R', step s (.free ptr) = some s' ∧ Tallied s' B' R' ∧ Retains s s' := by
  rcases h.toSole.free_cases hallowed with ⟨hnot, hrun⟩ | ⟨n, hn, hrun⟩
  · exact ⟨s, B, R, step_free_of_not_mem hnot hrun, h, fun p hp hgone => absurd hp hgone⟩
  obtain ⟨c', B', hfree, hreleases⟩ := buddyFreeBlock_spec h.ready hn
  have hsole := h.toSole.freed hn hfree hreleases
  have hstep : step s (.free ptr) = some ⟨c', s.live.filter (·.1 ≠ ptr)⟩ := by
    rw [step, hrun, hfree]
    rfl
  rcases hn.room with ⟨ha, -⟩ | ⟨hextra, hbase, hinfo⟩
  · obtain ⟨c₁, a', B₁, hrun₁, hjoined⟩ := buddyFreeStd_joined h.ready.toRest ha hn.status
    obtain ⟨B₂, hrest, htracked, -⟩ := settle_spec hjoined.toRest hjoined.mem hjoined.free
    rw [h.ready.buddyFreeBlock_of_mem ha, hrun₁, Option.some.injEq] at hfree
    subst hfree
    -- the blocks after freeing are determined
    obtain rfl : B' = B₂ := hreleases.ready.toFilled.unique hrest.toFilled
    have hmem := (h.blocks.reserved _).mpr ⟨ha, hn.status⟩
    have hblocks := h.blocks.giveBack h.ready.toFilled hmem h.coalesced hjoined htracked
    exact ⟨_, B', _, hstep, ⟨hsole, h.areas.giveBack hjoined htracked, hblocks⟩,
      h.retains hjoined htracked hcounted hsole hblocks⟩
  · rw [buddyFreeBlock, if_pos hbase, Option.some.injEq] at hfree
    have hareas := h.areas.freeLarge hextra hbase hinfo
    have hmem : c'.mem = s.context.mem ∧ c'.pages = s.context.pages ∧ c'.kSize = s.context.kSize ∧
        c'.stats.ofBlocks = s.context.stats.ofBlocks := by
      rw [← hfree, freeLargeBlock, if_neg (not_not_intro hbase)]
      exact ⟨rfl, rfl, rfl, rfl⟩
    obtain ⟨hmem, hpages, hk, hstats⟩ := hmem
    obtain rfl : B' = B := by
      have htiled := hreleases.ready.tiled
      rw [hmem, hpages, hk] at htiled
      exact Set.Subset.antisymm (htiled.unique h.ready.tiled h.ready.toFilled.apart_pages)
        (h.ready.tiled.unique htiled h.ready.toFilled.apart_pages)
    refine ⟨_, B', R, hstep, ⟨hsole, hfree ▸ hareas, h.blocks.congr ?_ (fun x _ => ?_) hstats⟩,
      fun p hp hgone => absurd (hpages ▸ hp) hgone⟩
    · simp only [hmem]
      exact h.blocks.reserved
    · simp only [hmem]

/-- A call has an effect and keeps the statistics right. -/
theorem Tallied.step (h : Tallied s B R) (hallowed : Allowed s e) (hcounted : EventCounted s e) :
    ∃ s' B' R', BuddyMalloc.step s e = some s' ∧ Tallied s' B' R' ∧ Retains s s' := by
  cases e with
  | free ptr => exact h.free hallowed hcounted
  | malloc size answer =>
    obtain ⟨p, c', B', hrun, hserved, n, hserves⟩ :=
      h.ready.request hallowed.1 hallowed.2 hcounted.sound
    obtain ⟨R', hareas, hblocks⟩ := h.served hallowed.2 hcounted hserved hserves
    refine ⟨_, B', R', by rw [BuddyMalloc.step, hrun]; rfl,
      ⟨h.toSole.served hserved hserves, hareas, hblocks⟩, fun q hq hgone => ?_⟩
    exact absurd (hserved.pages hq) hgone

/-- They are right after `BuddyInit`. -/
lemma Tallied.init {config : Config} {self : ℕ} {mem : ℕ → BuddyBlock}
    (harea : config.memoryAreaSize ≤ 2 ^ 30)
    (hanswer : ∀ a ∈ answer, 0 < a ∧ a + 2 ^ log2Ceil config.memoryAreaSize ≤ 2 ^ 64)
    (hinit : (buddyInit config self mem answer).1 = .success) :
    ∃ B R, Tallied ⟨(buddyInit config self mem answer).2, []⟩ B R := by
  have hpos : ∀ a ∈ answer, 0 < a := fun a ha => (hanswer a ha).1
  obtain ⟨a, hpage, hlarge, hsmall, ha⟩ := buddyInit_added harea hpos hinit
  obtain ⟨B, hsole⟩ := Sole.init harea hpos hinit
  obtain rfl : B = insert a ∅ := hsole.ready.toFilled.unique hpage.toFilled
  have hnil : (emptyContext config self mem).areas.length < 2 ^ 32 := Nat.two_pow_pos 32
  have hempty : AreasCounted (emptyContext config self mem) := by
    constructor
    · exact fun x hx => absurd hx List.not_mem_nil
    · exact hnil
    · exact intShiftLeft_of_lt hsmall
    · rfl
    · exact (Nat.zero_mul _).symm
    · rfl
    · rfl
    · exact (Nat.zero_mul _).symm
  have hone : (emptyContext config self mem).areas.length + 1 < 2 ^ 32 := by
    have hlength : (emptyContext config self mem).areas.length = 0 := rfl
    omega
  have hnone : BlocksCounted (emptyContext config self mem) ∅ ∅ :=
    ⟨fun x => ⟨fun hx => absurd hx (Finset.notMem_empty x), fun hx => hx.1.elim⟩, rfl, rfl⟩
  exact ⟨insert a ∅, ∅, hsole, hempty.addPage hpage (hanswer a ha).2 hone,
    hnone.addPage hpage⟩

/-- In every run whose requests are noted with the size of their blocks the statistics are right and
enough pages are kept, and no such call is stuck. -/
theorem accurate_of_counted {config : Config} {self : ℕ} {mem : ℕ → BuddyBlock}
    {answer : Option ℕ} (harea : config.memoryAreaSize ≤ 2 ^ 30)
    (hanswer : ∀ a ∈ answer, 0 < a ∧ a + 2 ^ log2Ceil config.memoryAreaSize ≤ 2 ^ 64)
    (hinit : (buddyInit config self mem answer).1 = .success)
    (h : ReachableBy BuddyMalloc.step (fun s e => Allowed s e ∧ EventCounted s e)
      ⟨(buddyInit config self mem answer).2, []⟩ s) :
    Accurate s ∧ ∀ e, Allowed s e → EventCounted s e →
      ∃ s', BuddyMalloc.step s e = some s' ∧ Retains s s' := by
  have hinv : ∃ B R, Tallied s B R := by
    refine h.invariant (I := fun s => ∃ B R, Tallied s B R) (Tallied.init harea hanswer hinit) ?_
    intro s e s' ⟨B, R, hs⟩ hC hstep
    obtain ⟨s'', B', R', hstep'', htallied, -⟩ := hs.step hC.1 hC.2
    rw [hstep] at hstep''
    exact ⟨B', R', Option.some.inj hstep'' ▸ htallied⟩
  obtain ⟨B, R, htallied⟩ := hinv
  refine ⟨htallied.accurate, fun e hallowed hcounted => ?_⟩
  obtain ⟨s', -, -, hstep, -, hretains⟩ := htallied.step hallowed hcounted
  exact ⟨s', hstep, hretains⟩

/-- Two pages are filled, one of them is freed and returned, the other one is kept. -/
theorem accurate_after_collection :
    ∃ s, execute BuddyMalloc.step
        (start { defaultBuddyParameter with memoryAreaSize := 1024, keepFactor := 1, keepMinimum := 1 })
        [.malloc 900 none, .malloc 900 (some (2 ^ 21)), .malloc 2000 (some (2 ^ 22)),
          .free (2 ^ 21 + 48)] = some s ∧
      s.context.pages = [2 ^ 20] ∧ s.context.stats.stdUsedSpace = 1024 ∧
      s.context.stats.nbStdUsed = 1 ∧ s.context.stats.totalMemSpace = 3072 ∧ Accurate s := by
  have hrun : (execute BuddyMalloc.step
      (start { defaultBuddyParameter with memoryAreaSize := 1024, keepFactor := 1, keepMinimum := 1 })
      [.malloc 900 none, .malloc 900 (some (2 ^ 21)), .malloc 2000 (some (2 ^ 22)),
        .free (2 ^ 21 + 48)]).map (fun s => (s.context.pages, s.context.stats.stdUsedSpace,
          s.context.stats.nbStdUsed, s.context.stats.totalMemSpace)) =
      some ([2 ^ 20], 1024, 1, 3072) := by decide +kernel
  obtain ⟨s, hs, hfinal⟩ := Option.map_eq_some_iff.mp hrun
  simp only [Prod.mk.injEq] at hfinal
  obtain ⟨hpages, hused, hnb, htotal⟩ := hfinal
  have hmeets : Meets BuddyMalloc.step (fun s e => Allowed s e ∧ EventCounted s e)
      (start { defaultBuddyParameter with memoryAreaSize := 1024, keepFactor := 1, keepMinimum := 1 })
      [.malloc 900 none, .malloc 900 (some (2 ^ 21)), .malloc 2000 (some (2 ^ 22)),
        .free (2 ^ 21 + 48)] := by decide +kernel
  exact ⟨s, hs, hpages, hused, hnb, htotal, (accurate_of_counted (by decide) (by decide +kernel)
    (by decide) (reachableBy_of_execute hs hmeets)).1⟩

/-- A request of 4 GiB is noted as one byte, and a page is given out for it. -/
theorem not_accurate_of_four_gib :
    ¬ ∀ s, ReachableBy BuddyMalloc.step Allowed (start defaultBuddyParameter) s → Accurate s := by
  intro hall
  have hrun : (execute BuddyMalloc.step (start defaultBuddyParameter)
      [.malloc (2 ^ 32 - 48) (some (2 ^ 21))]).any (fun s => decide
        (s.context.stats.stdUsedSpace = 1 ∧ s.context.stats.nbStdUsed = 1 ∧
          s.context.pages = [2 ^ 21, 2 ^ 20] ∧ s.context.kSize = 20 ∧
          (s.context.mem (2 ^ 21)).status = .reserved ∧ (s.context.mem (2 ^ 21)).kSize = 20)) =
      true := by decide +kernel
  have hmeets : Meets BuddyMalloc.step Allowed (start defaultBuddyParameter)
      [.malloc (2 ^ 32 - 48) (some (2 ^ 21))] := by decide +kernel
  rw [Option.any_eq_true] at hrun
  obtain ⟨s, hs, hfinal⟩ := hrun
  obtain ⟨hused, -, hpages, hK, hres, hk⟩ := of_decide_eq_true hfinal
  obtain ⟨B, R, htiled, hreserved, hsum, -⟩ := (hall s (reachableBy_of_execute hs hmeets)).blocks
  -- the block at 2 MiB is one of the blocks of the pages
  have hpage : (2 ^ 21 : ℕ) ∈ s.context.pages := by
    rw [hpages]
    exact List.mem_cons_self
  obtain ⟨x, hx, hle, hlt⟩ := htiled.cover _ hpage (2 ^ 21) le_rfl
    (Nat.lt_add_of_pos_right (Nat.two_pow_pos _))
  have hok := htiled.block x hx
  have hbase := hok.page
  have hlex := hok.le
  have hfits := hok.fits
  rw [hpages] at hbase
  rw [hK] at hfits
  obtain rfl : x = 2 ^ 21 := by
    rcases List.mem_cons.mp hbase with hbase | hbase
    · omega
    · rw [List.mem_singleton] at hbase
      omega
  have hsingle := Finset.single_le_sum (f := fun y => 2 ^ (s.context.mem y).kSize)
    (fun y _ => Nat.zero_le _) ((hreserved _).mpr ⟨hx, hres⟩)
  simp only [hk] at hsingle
  omega

end Ganesha.BuddyMalloc
