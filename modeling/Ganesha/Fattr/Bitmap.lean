import Mathlib.Data.List.Sort

/-!
# Bitmaps of attributes

`NFS_Protocols/nfs_proto_tools.c`: `nfs4_bitmap4_to_list` and `nfs4_list_to_bitmap4`.
-/

namespace Ganesha.Fattr

/-- The two builds of the server: with `_USE_NFS4_1` there are more attributes. -/
inductive Build
  | nfs40
  | nfs41
  deriving DecidableEq

/-- The words of the largest bitmap, up to `FATTR4_MOUNTED_ON_FILEID` or `FATTR4_FS_CHARSET_CAP`. -/
def Build.words : Build → ℕ
  | .nfs40 => 2
  | .nfs41 => 3

/-- `bitmap4`: the length, and the words that are allocated. -/
structure Bitmap4 where
  len : ℕ
  val : List (BitVec 32)
  deriving DecidableEq

/-- A word of the bitmap; those that count are allocated. -/
def Bitmap4.word (b : Bitmap4) (offset : ℕ) : BitVec 32 := b.val.getD offset 0

/-- The bit of an attribute is set. -/
def Bitmap4.bit (b : Bitmap4) (a : ℕ) : Bool :=
  a / 32 < b.len && (b.word (a / 32)).getLsbD (a % 32)

/-- The inner loop of `nfs4_bitmap4_to_list`: the attributes of one word. -/
def wordToList (b : Bitmap4) (offset : ℕ) : List ℕ :=
  ((List.range 32).filter fun i => b.word offset &&& 1#32 <<< i ≠ 0).map fun i => i + 32 * offset

def nfs4Bitmap4ToList (b : Bitmap4) : List ℕ := (List.range b.len).flatMap (wordToList b)

/-- One attribute in the loop of `nfs4_list_to_bitmap4`. -/
def setBit (b : Bitmap4) (a : ℕ) : Bitmap4 where
  len := if a / 32 ≠ 0 then 2 else b.len
  val := b.val.modify (a / 32) (· ||| 1#32 <<< (a % 32))

/-- `nfs4_list_to_bitmap4`, with the words that the caller has allocated: the first two are cleared. -/
def nfs4ListToBitmap4 (val : List (BitVec 32)) (pval : List ℕ) : Bitmap4 :=
  pval.foldl setBit { len := 1, val := (val.set 0 0).set 1 0 }

variable {b : Bitmap4} {build : Build} {val : List (BitVec 32)} {l : List ℕ} {a i : ℕ}

/-! ## From a bitmap to a list -/

/-- A bit tested with a mask. -/
lemma and_bit_ne_zero (w : BitVec 32) (hi : i < 32) :
    w &&& 1#32 <<< i ≠ 0 ↔ w.getLsbD i = true := by
  rw [← BitVec.twoPow_eq, BitVec.and_twoPow]
  have hne : BitVec.twoPow 32 i ≠ 0#32 := by
    intro h
    have hbit := BitVec.getLsbD_twoPow (w := 32) i i
    rw [h] at hbit
    simp [hi] at hbit
  split_ifs with hbit
  · exact ⟨fun _ => hbit, fun _ => hne⟩
  · exact ⟨fun h => absurd rfl h, fun h => absurd h hbit⟩

/-- The attributes of one word. -/
lemma mem_wordToList {offset : ℕ} :
    a ∈ wordToList b offset ↔ a / 32 = offset ∧ (b.word offset).getLsbD (a % 32) = true := by
  unfold wordToList
  rw [List.mem_map]
  constructor
  · rintro ⟨i, hi, rfl⟩
    obtain ⟨hi, hbit⟩ := List.mem_filter.mp hi
    rw [List.mem_range] at hi
    have hdiv : (i + 32 * offset) / 32 = offset := by omega
    have hmod : (i + 32 * offset) % 32 = i := by omega
    rw [hmod, ← and_bit_ne_zero _ hi]
    exact ⟨hdiv, of_decide_eq_true hbit⟩
  · rintro ⟨hdiv, hbit⟩
    have hlt : a % 32 < 32 := Nat.mod_lt _ (by decide)
    rw [← and_bit_ne_zero _ hlt] at hbit
    refine ⟨a % 32, List.mem_filter.mpr ⟨List.mem_range.mpr hlt, decide_eq_true hbit⟩, ?_⟩
    omega

/-- The list holds the bits that are set. -/
lemma mem_bitmap4ToList : a ∈ nfs4Bitmap4ToList b ↔ b.bit a = true := by
  unfold nfs4Bitmap4ToList Bitmap4.bit
  rw [List.mem_flatMap, Bool.and_eq_true, decide_eq_true_eq]
  constructor
  · rintro ⟨offset, hoffset, ha⟩
    obtain ⟨rfl, hbit⟩ := mem_wordToList.mp ha
    exact ⟨List.mem_range.mp hoffset, hbit⟩
  · rintro ⟨hlt, hbit⟩
    exact ⟨a / 32, List.mem_range.mpr hlt, mem_wordToList.mpr ⟨rfl, hbit⟩⟩

lemma wordToList_sorted (b : Bitmap4) (offset : ℕ) : (wordToList b offset).Pairwise (· < ·) := by
  unfold wordToList
  rw [List.pairwise_map]
  refine (List.Pairwise.filter _ List.pairwise_lt_range).imp ?_
  intro i j hlt
  omega

/-- The list is in order. -/
lemma bitmap4ToList_sorted (b : Bitmap4) : (nfs4Bitmap4ToList b).Pairwise (· < ·) := by
  unfold nfs4Bitmap4ToList
  rw [List.pairwise_flatMap]
  refine ⟨fun offset _ => wordToList_sorted b offset, List.pairwise_lt_range.imp ?_⟩
  intro j k hlt x hx y hy
  obtain ⟨hj, -⟩ := mem_wordToList.mp hx
  obtain ⟨hk, -⟩ := mem_wordToList.mp hy
  omega

/-! ## From a list to a bitmap -/

/-- The bits of a word after all attributes were set. -/
lemma word_foldl_setBit (l : List ℕ) (hb : ∀ a ∈ l, a / 32 < b.val.length) (offset i : ℕ)
    (hoffset : offset < b.val.length) (hi : i < 32) :
    ((l.foldl setBit b).word offset).getLsbD i = true ↔
      (b.word offset).getLsbD i = true ∨ i + 32 * offset ∈ l := by
  induction l generalizing b with
  | nil => simp
  | cons a l ih =>
    have hlen : (setBit b a).val.length = b.val.length := List.length_modify ..
    have htail : ∀ a' ∈ l, a' / 32 < (setBit b a).val.length := by
      intro a' ha'
      rw [hlen]
      exact hb a' (List.mem_cons_of_mem _ ha')
    have hword : (setBit b a).word offset = if a / 32 = offset then
        b.word offset ||| 1#32 <<< (a % 32) else b.word offset := by
      unfold Bitmap4.word setBit
      rw [List.getD_eq_getElem?_getD, List.getElem?_modify, List.getD_eq_getElem?_getD]
      rw [List.getElem?_eq_getElem hoffset]
      split_ifs
      · rfl
      · rfl
    rw [List.foldl_cons, ih htail (by rw [hlen]; exact hoffset), hword, List.mem_cons]
    have hbit : (1#32 <<< (a % 32)).getLsbD i = true ↔ a % 32 = i := by
      rw [← BitVec.twoPow_eq, BitVec.getLsbD_twoPow]
      have hlt : a % 32 < 32 := Nat.mod_lt _ (by decide)
      simp [hlt]
    split_ifs with hdiv
    · rw [BitVec.getLsbD_or, Bool.or_eq_true, hbit]
      have ha : i + 32 * offset = a ↔ a % 32 = i := by omega
      rw [ha, or_assoc]
    · have ha : i + 32 * offset ≠ a := by omega
      simp [ha]

/-- The length after all attributes were set. -/
lemma len_foldl_setBit (l : List ℕ) (b : Bitmap4) :
    (l.foldl setBit b).len = if ∃ a ∈ l, a / 32 ≠ 0 then 2 else b.len := by
  induction l generalizing b with
  | nil => simp
  | cons a l ih =>
    rw [List.foldl_cons, ih, setBit]
    by_cases htail : ∃ a' ∈ l, a' / 32 ≠ 0
    · have hall : ∃ a' ∈ a :: l, a' / 32 ≠ 0 := by
        obtain ⟨a', ha', hne⟩ := htail
        exact ⟨a', List.mem_cons_of_mem _ ha', hne⟩
      rw [if_pos htail, if_pos hall]
    · rw [if_neg htail]
      dsimp only
      by_cases ha : a / 32 ≠ 0
      · rw [if_pos ha, if_pos ⟨a, List.mem_cons_self, ha⟩]
      · rw [if_neg ha, if_neg]
        rintro ⟨a', ha', hne⟩
        rcases List.mem_cons.mp ha' with rfl | ha'
        · exact ha hne
        · exact htail ⟨a', ha', hne⟩

/-- The bitmap of a list holds its attributes below 64. -/
lemma bit_listToBitmap4 (hval : val.length = build.words) (hl : ∀ a ∈ l, a < 32 * build.words) :
    (nfs4ListToBitmap4 val l).bit a = true ↔ a ∈ l ∧ a < 64 := by
  have hwords : 2 ≤ build.words := by cases build <;> decide
  have hlength : ((val.set 0 0).set 1 0).length = build.words := by simpa using hval
  have hlen := len_foldl_setBit l { len := 1, val := (val.set 0 0).set 1 0 }
  have hmod : a % 32 < 32 := Nat.mod_lt _ (by decide)
  unfold Bitmap4.bit nfs4ListToBitmap4
  rw [Bool.and_eq_true, decide_eq_true_eq]
  have hword : a / 32 < 2 → (((l.foldl setBit { len := 1, val := (val.set 0 0).set 1 0 }).word
      (a / 32)).getLsbD (a % 32) = true ↔ a ∈ l) := by
    intro hlt
    rw [word_foldl_setBit l (fun a' ha' => ?_) _ _ (by rw [hlength]; omega) hmod]
    · -- the array starts with two zero words
      have hzero : ((val.set 0 0).set 1 0).getD (a / 32) 0 = (0 : BitVec 32) := by
        have hcases : a / 32 = 0 ∨ a / 32 = 1 := by omega
        rw [List.getD_eq_getElem?_getD]
        rcases hcases with h | h
        · rw [h, List.getElem?_set_ne (by decide), List.getElem?_set_self (by omega)]
          rfl
        · rw [h, List.getElem?_set_self (by rw [List.length_set]; omega)]
          rfl
      have heq : a % 32 + 32 * (a / 32) = a := by omega
      unfold Bitmap4.word
      rw [hzero, heq]
      simp
    · have := hl a' ha'
      rw [hlength]
      omega
  constructor
  · rintro ⟨hlt, hbit⟩
    rw [hlen] at hlt
    have hlt' : a / 32 < 2 := by
      split_ifs at hlt
      · exact hlt
      · dsimp only at hlt
        omega
    exact ⟨(hword hlt').mp hbit, by omega⟩
  · rintro ⟨ha, hlt⟩
    refine ⟨?_, (hword (by omega)).mpr ha⟩
    rw [hlen]
    split_ifs with hbehind
    · omega
    · have hfirst : a / 32 = 0 := by
        by_contra hne
        exact hbehind ⟨a, ha, hne⟩
      rw [hfirst]
      exact Nat.zero_lt_one

/-- A bitmap gives the list of its set bits in order, and a list comes back from its bitmap. -/
structure BitmapLaw (b : Bitmap4) (val : List (BitVec 32)) (l : List ℕ) : Prop where
  sorted : (nfs4Bitmap4ToList b).Pairwise (· < ·)
  mem_iff : ∀ a, a ∈ nfs4Bitmap4ToList b ↔ b.bit a = true
  roundTrip : nfs4Bitmap4ToList (nfs4ListToBitmap4 val l) = l

/-- The two conversions agree on the lists whose attributes are below 64; the length of a bitmap
never becomes 3. -/
theorem bitmapLaw_iff {build : Build} {b : Bitmap4} {val : List (BitVec 32)} {l : List ℕ}
    (hval : val.length = build.words) (hl : ∀ a ∈ l, a < 32 * build.words)
    (hsorted : l.Pairwise (· < ·)) : BitmapLaw b val l ↔ ∀ a ∈ l, a < 64 := by
  have hmem : ∀ a, a ∈ nfs4Bitmap4ToList (nfs4ListToBitmap4 val l) ↔ a ∈ l ∧ a < 64 := by
    intro a
    rw [mem_bitmap4ToList, bit_listToBitmap4 hval hl]
  constructor
  · intro hlaw a ha
    rw [← hlaw.roundTrip] at ha
    exact ((hmem a).mp ha).2
  · intro hsmall
    refine ⟨bitmap4ToList_sorted b, fun a => mem_bitmap4ToList, ?_⟩
    refine (bitmap4ToList_sorted _).eq_of_mem_iff hsorted fun a => ?_
    rw [hmem]
    exact and_iff_left_of_imp (hsmall a)

/-- The attributes of type, size and mode. -/
theorem bitmapLaw_of_mode :
    BitmapLaw { len := 2, val := [98, 18] } [7, 7] [1, 4, 33] := by
  have hval : ([7, 7] : List (BitVec 32)).length = Build.nfs40.words := rfl
  have hl : ∀ a ∈ [1, 4, 33], a < 32 * Build.nfs40.words := by decide
  exact (bitmapLaw_iff hval hl (by decide)).mpr (by decide)

/-- The size of a block of a layout, in the build for NFSv4.1: the list comes back without it. -/
theorem not_bitmapLaw_of_layoutBlksize :
    ¬ BitmapLaw { len := 3, val := [98, 18, 2] } [0, 0, 0] [1, 65] := by
  intro h
  have hback := h.roundTrip
  revert hback
  decide +kernel

end Ganesha.Fattr
