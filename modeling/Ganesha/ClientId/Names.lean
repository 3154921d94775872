import Mathlib
import Ganesha.ClientId.Setclientid

/-!
# Names and clientids

The clientid of a client depends on its name only, and only on every other byte of it (`nameDigest`). Two
names have different clientids if one byte of those that are read differs, or if the sums of these bytes
differ by more than what the exclusive or with the positions can make up for (`Legible`).
-/

namespace Ganesha.ClientId

variable {clientid : UInt64} {N : Set (List UInt8)}

/-! ## The digest of a name -/

/-- What the clientid is made of: every other byte of the name, weighted by its position, and one
summand for each position up to the end of the name. -/
def nameDigest (name : List UInt8) : UInt32 :=
  ((List.range (cString name).length).map fun i => term ((cString name).getD (2 * i) 0) i).sum

lemma cString_cString (bytes : List UInt8) : cString (cString bytes) = cString bytes :=
  List.takeWhile_idem

lemma ne_zero_of_mem_cString {bytes : List UInt8} {b : UInt8} (hb : b ∈ cString bytes) : b ≠ 0 := by
  have hb := List.mem_takeWhile_imp hb
  exact of_decide_eq_true hb

variable {name : List UInt8}

/-- A byte of the copy is a byte of the name. -/
lemma strncpy_getElem? (hname : cString name = name) {n i : ℕ} {b : UInt8} (hlength : name.length ≤ n)
    (hb : (strncpy name n)[i]? = some b) : b = name.getD i 0 := by
  have hstock : strncpy name n = name ++ List.replicate (n - name.length) 0 := by
    simp only [strncpy, hname, List.take_of_length_le hlength]
  rw [hstock, List.getElem?_append] at hb
  rw [List.getD_eq_getElem?_getD]
  split_ifs at hb with hi
  · rw [hb]
    rfl
  · rw [List.getElem?_eq_none (Nat.le_of_not_lt hi), Option.getD_none]
    rw [List.getElem?_replicate] at hb
    split_ifs at hb
    exact (Option.some.inj hb).symm

/-- The loop adds a term for each letter, modulo 2^32. -/
lemma basicComputeLoop_eq (hname : cString name = name) {n fuel i k : ℕ} {sum r : UInt32}
    (hlength : name.length ≤ n) (hk : i + k = name.length)
    (h : basicComputeLoop (strncpy name n) fuel i sum = some r) :
    r = sum + ((List.range' i k).map fun j => term (name.getD (2 * j) 0) j).sum := by
  induction fuel generalizing i k sum with
  | zero => cases h
  | succ fuel ih =>
    unfold basicComputeLoop at h
    split at h
    · cases h
    · rename_i b hb
      have hb := strncpy_getElem? hname hlength hb
      cases k with
      | zero =>
        -- the end of the name
        have hzero : b = 0 := by
          rw [hb, List.getD_eq_getElem?_getD, List.getElem?_eq_none (by omega), Option.getD_none]
        rw [if_pos hzero] at h
        rw [← Option.some.inj h]
        simp
      | succ k =>
        have hne : b ≠ 0 := by
          have hi : i < name.length := by omega
          rw [hb, List.getD_eq_getElem?_getD, List.getElem?_eq_getElem hi, Option.getD_some]
          apply ne_zero_of_mem_cString
          rw [hname]
          exact List.getElem_mem hi
        rw [if_neg hne] at h
        split at h
        · cases h
        · rename_i d hd
          have hd := strncpy_getElem? hname hlength hd
          rw [← two_mul] at hd
          have hrest : i + 1 + k = name.length := by omega
          rw [ih hrest h, List.range'_succ, List.map_cons, List.sum_cons, hd, UInt32.add_assoc]

/-- The clientid is the digest of the name. -/
theorem nfsClientIdBasicCompute_eq (hlength : name.length ≤ maxnamlen)
    (h : nfsClientIdBasicCompute (cString name) = some clientid) : clientid = (nameDigest name).toUInt64 := by
  unfold nfsClientIdBasicCompute at h
  rw [Option.map_eq_some_iff] at h
  obtain ⟨r, hr, rfl⟩ := h
  have hle : (cString name).length ≤ maxnamlen :=
    (List.takeWhile_sublist _).length_le.trans hlength
  rw [basicComputeLoop_eq (cString_cString name) hle (Nat.zero_add _) hr, nameDigest,
    List.range_eq_range']
  simp

/-! ## Names that are told apart -/

/-- An exclusive or is at most the sum. -/
lemma xor_le_add (m n : ℕ) : m ^^^ n ≤ m + n := by
  induction m using Nat.strong_induction_on generalizing n with
  | _ m ih =>
    by_cases hm : m = 0
    · rw [hm, Nat.zero_xor, Nat.zero_add]
    · have hhalf := ih (m / 2) (by omega) (n / 2)
      rw [← Nat.xor_div_two] at hhalf
      have hodd : (m ^^^ n) % 2 = (m + n) % 2 := Nat.xor_mod_two_eq
      omega

/-- A summand of the digest, as a signed number. -/
def termInt (c : UInt8) (i : ℕ) : ℤ := (term c i).toBitVec.toInt

/-- Ten times a signed letter, modulo 2^32. -/
lemma mul_ten (c : UInt8) : (c.toInt8.toInt32 * 10).toUInt32.toNat < 1280 ∧
      ((c.toInt8.toInt32 * 10).toUInt32.toNat : ℤ) = 10 * c.toInt8.toInt ∨
    2 ^ 32 - 1280 ≤ (c.toInt8.toInt32 * 10).toUInt32.toNat ∧
      ((c.toInt8.toInt32 * 10).toUInt32.toNat : ℤ) = 2 ^ 32 + 10 * c.toInt8.toInt := by
  have hall : ∀ n < 256, (((UInt8.ofNat n).toInt8.toInt32 * 10).toUInt32.toNat < 1280 ∧
      (((UInt8.ofNat n).toInt8.toInt32 * 10).toUInt32.toNat : ℤ) = 10 * (UInt8.ofNat n).toInt8.toInt ∨
    2 ^ 32 - 1280 ≤ ((UInt8.ofNat n).toInt8.toInt32 * 10).toUInt32.toNat ∧
      (((UInt8.ofNat n).toInt8.toInt32 * 10).toUInt32.toNat : ℤ) =
        2 ^ 32 + 10 * (UInt8.ofNat n).toInt8.toInt) := by decide +kernel
  have hc := hall c.toNat c.toNat_lt
  rwa [UInt8.ofNat_toNat] at hc

/-- A term is within its index of ten times the letter. -/
lemma termInt_bounds (c : UInt8) {i : ℕ} (hi : i < 128) :
    10 * c.toInt8.toInt - i ≤ termInt c i ∧ termInt c i ≤ 10 * c.toInt8.toInt + i := by
  set m := (c.toInt8.toInt32 * 10).toUInt32.toNat with hm
  have hnat : (term c i).toBitVec.toNat = m ^^^ i := by
    show (term c i).toNat = _
    rw [term, UInt32.toNat_xor, UInt32.toNat_ofNat_of_lt' (Nat.lt_trans hi (by decide))]
  have hle := xor_le_add m i
  have hge : m ≤ (m ^^^ i) + i := by
    have hback := xor_le_add (m ^^^ i) i
    rwa [Nat.xor_assoc, Nat.xor_self, Nat.xor_zero] at hback
  have hlt : m ^^^ i < 2 ^ 32 := hnat ▸ (term c i).toBitVec.isLt
  have hint : termInt c i = if 2 * (m ^^^ i) < 2 ^ 32 then ((m ^^^ i : ℕ) : ℤ)
      else ((m ^^^ i : ℕ) : ℤ) - 2 ^ 32 := by
    rw [termInt, BitVec.toInt_eq_toNat_cond, hnat]
    rfl
  rcases mul_ten c with ⟨hsmall, hten⟩ | ⟨hlarge, hten⟩
  · rw [hint, if_pos (by omega)]
    omega
  · rw [hint, if_neg (by omega)]
    omega


/-- The sum of the first `n` bytes of `f`, a `char` being signed. -/
def letterSum (f : ℕ → UInt8) (n : ℕ) : ℤ := ((List.range n).map fun i => (f i).toInt8.toInt).sum

/-- The sum of the summands of a digest, if it does not wrap. -/
def digestInt (f : ℕ → UInt8) (n : ℕ) : ℤ := ((List.range n).map fun i => termInt (f i) i).sum

variable {f g : ℕ → UInt8} {n : ℕ}

lemma letterSum_succ : letterSum f (n + 1) = letterSum f n + (f n).toInt8.toInt := by
  simp [letterSum, List.range_succ]

lemma digestInt_succ : digestInt f (n + 1) = digestInt f n + termInt (f n) n := by
  simp [digestInt, List.range_succ]

/-- The digest is ten times the letter sum, up to half the square of the length. -/
lemma digestInt_bounds (hn : n ≤ 128) :
    |digestInt f n| ≤ 1408 * n ∧ 2 * |digestInt f n - 10 * letterSum f n| ≤ n ^ 2 := by
  induction n with
  | zero => simp [digestInt, letterSum]
  | succ n ih =>
    obtain ⟨hsize, hnear⟩ := ih (by omega)
    obtain ⟨hlow, hhigh⟩ := termInt_bounds (f n) (i := n) (by omega)
    have hletter := (f n).toInt8.toInt_lt
    have hletter' := (f n).toInt8.le_toInt
    rw [digestInt_succ, letterSum_succ]
    constructor
    · rw [abs_le] at hsize ⊢
      push_cast
      constructor <;> omega
    · have hsquare : ((n + 1 : ℕ) : ℤ) ^ 2 = (n : ℤ) ^ 2 + 2 * n + 1 := by
        push_cast
        ring
      have hsplit : digestInt f n + termInt (f n) n - 10 * (letterSum f n + (f n).toInt8.toInt) =
          (digestInt f n - 10 * letterSum f n) + (termInt (f n) n - 10 * (f n).toInt8.toInt) := by ring
      have hlast : |termInt (f n) n - 10 * (f n).toInt8.toInt| ≤ n := abs_le.mpr ⟨by omega, by omega⟩
      have htriangle := abs_add_le (digestInt f n - 10 * letterSum f n)
        (termInt (f n) n - 10 * (f n).toInt8.toInt)
      rw [hsquare, hsplit]
      omega

/-- Up to 128 letters the sum modulo 2^32 is the sum of integers. -/
lemma digest_toInt (hn : n ≤ 128) :
    ((List.range n).map fun i => term (f i) i).sum.toBitVec.toInt = digestInt f n := by
  induction n with
  | zero => rfl
  | succ n ih =>
    have hbound := (digestInt_bounds (f := f) hn).1
    rw [abs_le, digestInt_succ] at hbound
    rw [List.range_succ, List.map_append, List.sum_append, digestInt_succ]
    simp only [List.map_cons, List.map_nil, List.sum_cons, List.sum_nil, add_zero]
    rw [UInt32.toBitVec_add, BitVec.toInt_add, ih (by omega)]
    show (digestInt f n + termInt (f n) n).bmod (2 ^ 32) = _
    exact Int.bmod_eq_of_le (by omega) (by omega)

lemma digestInt_congr (h : ∀ i < n, f i = g i) : digestInt f n = digestInt g n := by
  unfold digestInt
  congr 1
  refine List.map_congr_left fun i hi => ?_
  rw [h i (List.mem_range.mp hi)]

/-- One byte that differs makes another sum. -/
lemma digestInt_ne {k : ℕ} (hk : k < n) (hne : f k ≠ g k) (hsame : ∀ i < n, i ≠ k → f i = g i) :
    digestInt f n ≠ digestInt g n := by
  induction n with
  | zero => omega
  | succ n ih =>
    rw [digestInt_succ, digestInt_succ]
    rcases Nat.lt_succ_iff_lt_or_eq.mp hk with hlt | rfl
    · have hrest := ih hlt fun i hi => hsame i (by omega)
      rw [hsame n (by omega) (by omega)]
      exact fun heq => hrest (add_right_cancel heq)
    · rw [digestInt_congr fun i hi => hsame i (by omega) (by omega)]
      intro heq
      have hterm : term (f k) k = term (g k) k := by
        apply UInt32.toBitVec_inj.mp
        exact BitVec.toInt_inj.mp (add_left_cancel heq)
      apply hne
      unfold term at hterm
      have hten := (UInt32.xor_left_inj _).mp hterm
      have hf := mul_ten (f k)
      have hg := mul_ten (g k)
      rw [hten] at hf
      have hletter : (f k).toInt8.toInt = (g k).toInt8.toInt := by omega
      exact congrArg Int8.toUInt8 (Int8.toInt_inj.mp hletter)

/-- The byte of a name that turn `i` of the loop reads. -/
def evenByte (name : List UInt8) (i : ℕ) : UInt8 := name.getD (2 * i) 0

/-- Names of which what is read can be told apart: they are as long and one byte that is read differs, or
the sums of the bytes that are read are far from each other. -/
def Apart (a b : List UInt8) : Prop :=
  (a.length = b.length ∧ ∃ k < a.length, evenByte a k ≠ evenByte b k ∧
    ∀ i < a.length, i ≠ k → evenByte a i = evenByte b i) ∨
  (a.length ^ 2 + b.length ^ 2 : ℤ) <
    20 * |letterSum (evenByte a) a.length - letterSum (evenByte b) b.length|

instance (a b : List UInt8) : Decidable (Apart a b) := inferInstanceAs (Decidable (_ ∨ _))

/-- Letter sums that are far enough apart give different digests. -/
lemma Apart.digestInt_ne {a b : List UInt8} (h : Apart a b) (ha : a.length ≤ 128) (hb : b.length ≤ 128) :
    digestInt (evenByte a) a.length ≠ digestInt (evenByte b) b.length := by
  rcases h with ⟨hlength, k, hk, hne, hsame⟩ | hfar
  · rw [← hlength]
    exact ClientId.digestInt_ne hk hne hsame
  · intro heq
    have hnear := (digestInt_bounds (f := evenByte a) ha).2
    have hnear' := (digestInt_bounds (f := evenByte b) hb).2
    rw [← heq] at hnear'
    have hsplit : 10 * (letterSum (evenByte a) a.length - letterSum (evenByte b) b.length) =
        (digestInt (evenByte a) a.length - 10 * letterSum (evenByte b) b.length) -
          (digestInt (evenByte a) a.length - 10 * letterSum (evenByte a) a.length) := by ring
    have htriangle := abs_sub (digestInt (evenByte a) a.length - 10 * letterSum (evenByte b) b.length)
      (digestInt (evenByte a) a.length - 10 * letterSum (evenByte a) a.length)
    rw [← hsplit, abs_mul, show |(10 : ℤ)| = 10 from rfl] at htriangle
    omega

/-- The names fit into the buffers of the code, and can be told apart. -/
structure Legible (N : Set (List UInt8)) : Prop where
  fits : ∀ a ∈ N, a.length < maxnamlen
  short : ∀ a ∈ N, (cString a).length ≤ 128
  apart : ∀ a ∈ N, ∀ b ∈ N, a ≠ b → Apart (cString a) (cString b)

/-- Names that can be told apart have different digests. -/
theorem Legible.injOn (h : Legible N) : Set.InjOn nameDigest N := by
  intro a ha b hb heq
  by_contra hne
  refine (h.apart a ha b hb hne).digestInt_ne (h.short a ha) (h.short b hb) ?_
  rw [← digest_toInt (h.short a ha), ← digest_toInt (h.short b hb)]
  exact congrArg (fun sum : UInt32 => sum.toBitVec.toInt) heq

end Ganesha.ClientId
