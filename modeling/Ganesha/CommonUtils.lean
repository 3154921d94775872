import Mathlib.Data.Int.Basic
import Mathlib.Data.List.Basic
import Mathlib.Data.List.TakeWhile

/-!
# The hexadecimal codec of `common_utils.c`

`snprintmem` and `sscanmem`, on buffers that are lists of bytes: to write or to read outside of one, or to take a
counter out of the range of `int`, is an error (`none`).
-/

namespace Ganesha.Hexa

def intMax : ℕ := 2147483647

/-! ## snprintmem -/

/-- A digit of `%X`. -/
def hexDigit (d : UInt8) : UInt8 := if d < 10 then 48 + d else 55 + d

/-- `%.2X` of a byte. -/
def formatByte (c : UInt8) : List UInt8 := [hexDigit (c / 16), hexDigit (c % 16)]

/-- Write a byte. -/
def store (target : List UInt8) (i : ℕ) (x : UInt8) : Option (List UInt8) :=
  if i < target.length then some (target.set i x) else none

/-- Write bytes one after the other. -/
def storeAll : List UInt8 → ℕ → List UInt8 → Option (List UInt8)
  | target, _, [] => some target
  | target, i, x :: l => (store target i x).bind fun target => storeAll target (i + 1) l

/-- `snprintf(target + i, size, "%.2X", c)`. -/
def snprintfByte (target : List UInt8) (i size : ℕ) (c : UInt8) : Option (List UInt8) :=
  if size = 0 then some target else storeAll target i ((formatByte c).take (size - 1) ++ [0])

/-- The loop of `snprintmem`, from the number of characters that `snprintf` has reported so far. -/
def snprintmemLoop : List UInt8 → ℕ → List UInt8 → Option (ℕ × List UInt8)
  | [], wrote, target => some (wrote, target)
  | c :: source, wrote, target =>
    if target.length ≤ wrote then (store target (target.length - 1) 0).map fun target => (wrote, target)
    else (snprintfByte target wrote (target.length - wrote) c).bind fun target =>
      if wrote + 2 ≤ intMax then snprintmemLoop source (wrote + 2) target else none

/-- `snprintmem`: what it returns, and the target. -/
def snprintmem (target source : List UInt8) : Option (ℕ × List UInt8) := snprintmemLoop source 0 target

/-! ## sscanmem -/

def isHexa (c : UInt8) : Bool := (48 ≤ c && c ≤ 57) || (65 ≤ c && c ≤ 70) || (97 ≤ c && c ≤ 102)

def hexa2Byte (c : UInt8) : UInt8 :=
  if 48 ≤ c ∧ c ≤ 57 then c - 48 else if 65 ≤ c ∧ c ≤ 70 then c - 65 + 10
  else if 97 ≤ c ∧ c ≤ 102 then c - 97 + 10 else 0

/-- The loop of `sscanmem`, from the characters that are left and the number of those read: what it returns, and the
bytes it writes. -/
def sscanmemLoop : ℕ → List UInt8 → ℕ → Option (ℤ × List UInt8)
  | 0, _, read => some (read, [])
  | n + 1, src, read =>
    (src[0]?).bind fun a =>
      if a = 0 then some (-1, [])
      else (src[1]?).bind fun b =>
        if b = 0 then some (-1, [])
        else if ¬isHexa a ∨ ¬isHexa b then some (-1, [])
        else if read + 2 ≤ intMax then
          (sscanmemLoop n (src.drop 2) (read + 2)).map fun p => (p.1, (hexa2Byte a * 16 + hexa2Byte b) :: p.2)
        else none

def sscanmem (src : List UInt8) (n : ℕ) : Option (ℤ × List UInt8) := sscanmemLoop n src 0

/-! ## Digits -/

/-- A letter in upper case. -/
def toUpper (c : UInt8) : UInt8 := if 97 ≤ c ∧ c ≤ 122 then c - 32 else c

/-- The number of hexadecimal digits that a string begins with. -/
def digits (s : List UInt8) : ℕ := (s.takeWhile isHexa).length

section Digits

variable {a b c d : UInt8}

lemma isHexa_iff : isHexa c = true ↔
    (48 ≤ c.toNat ∧ c.toNat ≤ 57) ∨ (65 ≤ c.toNat ∧ c.toNat ≤ 70) ∨ (97 ≤ c.toNat ∧ c.toNat ≤ 102) := by
  simp only [isHexa, Bool.or_eq_true, Bool.and_eq_true, decide_eq_true_eq, UInt8.le_iff_toNat_le, or_assoc]
  exact Iff.rfl

/-- The code of a digit. -/
lemma hexDigit_toNat (hd : d.toNat < 16) :
    (hexDigit d).toNat = if d.toNat < 10 then 48 + d.toNat else 55 + d.toNat := by
  unfold hexDigit
  by_cases h : d < 10
  · have hlt : d.toNat < 10 := UInt8.lt_iff_toNat_lt.mp h
    rw [if_pos h, if_pos hlt, UInt8.toNat_add]
    show (48 + d.toNat) % 256 = _
    omega
  · have hge : ¬d.toNat < 10 := fun hlt => h (UInt8.lt_iff_toNat_lt.mpr hlt)
    rw [if_neg h, if_neg hge, UInt8.toNat_add]
    show (55 + d.toNat) % 256 = _
    omega

/-- The value of a digit. -/
lemma hexa2Byte_toNat (hc : isHexa c = true) : (hexa2Byte c).toNat =
    if c.toNat ≤ 57 then c.toNat - 48 else if c.toNat ≤ 70 then c.toNat - 55 else c.toNat - 87 := by
  have hrange := isHexa_iff.mp hc
  unfold hexa2Byte
  simp only [UInt8.le_iff_toNat_le]
  show (if 48 ≤ c.toNat ∧ c.toNat ≤ 57 then c - 48 else if 65 ≤ c.toNat ∧ c.toNat ≤ 70 then c - 65 + 10
    else if 97 ≤ c.toNat ∧ c.toNat ≤ 102 then c - 97 + 10 else 0).toNat = _
  by_cases h₁ : c.toNat ≤ 57
  · rw [if_pos ⟨by omega, h₁⟩, if_pos h₁, UInt8.toNat_sub_of_le _ _ (UInt8.le_iff_toNat_le.mpr (by
      show 48 ≤ c.toNat
      omega))]
    rfl
  · rw [if_neg (fun h => h₁ h.2), if_neg h₁]
    by_cases h₂ : c.toNat ≤ 70
    · have hle : (65 : UInt8) ≤ c := UInt8.le_iff_toNat_le.mpr (by
        show 65 ≤ c.toNat
        omega)
      rw [if_pos ⟨by omega, h₂⟩, if_pos h₂, UInt8.toNat_add, UInt8.toNat_sub_of_le _ _ hle]
      show (c.toNat - 65 + 10) % 256 = _
      omega
    · have hle : (97 : UInt8) ≤ c := UInt8.le_iff_toNat_le.mpr (by
        show 97 ≤ c.toNat
        omega)
      rw [if_neg (fun h => h₂ h.2), if_neg h₂, if_pos ⟨by omega, by omega⟩, UInt8.toNat_add,
        UInt8.toNat_sub_of_le _ _ hle]
      show (c.toNat - 97 + 10) % 256 = _
      omega

lemma hexa2Byte_lt (hc : isHexa c = true) : (hexa2Byte c).toNat < 16 := by
  have hrange := isHexa_iff.mp hc
  rw [hexa2Byte_toNat hc]
  split_ifs <;> omega

/-- Printing what was read gives the upper case letter. -/
lemma hexDigit_hexa2Byte (hc : isHexa c = true) : hexDigit (hexa2Byte c) = toUpper c := by
  have hrange := isHexa_iff.mp hc
  apply UInt8.toNat.inj
  rw [hexDigit_toNat (hexa2Byte_lt hc), hexa2Byte_toNat hc]
  unfold toUpper
  simp only [UInt8.le_iff_toNat_le]
  show _ = (if 97 ≤ c.toNat ∧ c.toNat ≤ 122 then c - 32 else c).toNat
  by_cases h : 97 ≤ c.toNat ∧ c.toNat ≤ 122
  · have hle : (32 : UInt8) ≤ c := UInt8.le_iff_toNat_le.mpr (by
      show 32 ≤ c.toNat
      omega)
    rw [if_pos h, UInt8.toNat_sub_of_le _ _ hle]
    show _ = c.toNat - 32
    split_ifs <;> omega
  · rw [if_neg h]
    split_ifs <;> omega

lemma isHexa_hexDigit (hd : d.toNat < 16) : isHexa (hexDigit d) = true := by
  rw [isHexa_iff, hexDigit_toNat hd]
  split_ifs <;> omega

lemma hexa2Byte_hexDigit (hd : d.toNat < 16) : hexa2Byte (hexDigit d) = d := by
  apply UInt8.toNat.inj
  rw [hexa2Byte_toNat (isHexa_hexDigit hd), hexDigit_toNat hd]
  split_ifs <;> omega

lemma div_toNat_lt (c : UInt8) : (c / 16).toNat < 16 := by
  have hc := c.toNat_lt
  rw [UInt8.toNat_div]
  show c.toNat / 16 < 16
  omega

lemma mod_toNat_lt (c : UInt8) : (c % 16).toNat < 16 := by
  rw [UInt8.toNat_mod]
  exact Nat.mod_lt _ (by decide)

lemma div_mod_byte (c : UInt8) : c / 16 * 16 + c % 16 = c := by
  have hc := c.toNat_lt
  apply UInt8.toNat.inj
  rw [UInt8.toNat_add, UInt8.toNat_mul, UInt8.toNat_div, UInt8.toNat_mod]
  show (c.toNat / 16 * 16 % 256 + c.toNat % 16) % 256 = c.toNat
  omega

lemma byte_div (ha : a.toNat < 16) (hb : b.toNat < 16) : (a * 16 + b) / 16 = a := by
  apply UInt8.toNat.inj
  rw [UInt8.toNat_div, UInt8.toNat_add, UInt8.toNat_mul]
  show (a.toNat * 16 % 256 + b.toNat) % 256 / 16 = a.toNat
  omega

lemma byte_mod (hb : b.toNat < 16) : (a * 16 + b) % 16 = b := by
  apply UInt8.toNat.inj
  rw [UInt8.toNat_mod, UInt8.toNat_add, UInt8.toNat_mul]
  show (a.toNat * 16 % 256 + b.toNat) % 256 % 16 = b.toNat
  omega

lemma isHexa_ne_zero (hc : isHexa c = true) : c ≠ 0 := by
  rintro rfl
  cases hc

end Digits

/-! ## Printing -/

section Print

variable {target pre rest source xs : List UInt8} {c : UInt8} {wrote i size : ℕ}

lemma store_append {x y : UInt8} : store (pre ++ x :: rest) pre.length y = some (pre ++ y :: rest) := by
  have hlt : pre.length < (pre ++ x :: rest).length := by
    rw [List.length_append, List.length_cons]
    omega
  rw [store, if_pos hlt, List.set_append_right _ _ (Nat.le_refl _), Nat.sub_self]
  rfl

/-- Bytes stored behind what is there. -/
lemma storeAll_append (hlen : xs.length ≤ rest.length) :
    storeAll (pre ++ rest) pre.length xs = some (pre ++ xs ++ rest.drop xs.length) := by
  induction xs generalizing pre rest with
  | nil => rw [List.append_nil]; rfl
  | cons x xs ih =>
    cases rest with
    | nil => exact absurd hlen (Nat.not_succ_le_zero _)
    | cons y rest =>
      rw [storeAll, store_append, Option.bind_some]
      have hlen' : xs.length ≤ rest.length := Nat.le_of_succ_le_succ hlen
      have hnext : storeAll ((pre ++ [x]) ++ rest) (pre ++ [x]).length xs =
          some ((pre ++ [x]) ++ xs ++ rest.drop xs.length) := ih hlen'
      rw [List.length_append, List.length_singleton, List.append_assoc, List.singleton_append] at hnext
      rw [hnext, List.append_assoc, List.append_assoc, List.append_assoc]
      rfl

/-- The digits of all bytes. -/
def format (source : List UInt8) : List UInt8 := source.flatMap formatByte

lemma format_cons : format (c :: source) = formatByte c ++ format source := List.flatMap_cons

/-- Two digits for each byte. -/
lemma length_format : (format source).length = 2 * source.length := by
  induction source with
  | nil => rfl
  | cons c source ih =>
    rw [format_cons, List.length_append, ih, List.length_cons]
    show 2 + _ = _
    omega

/-- With room for all of it the text is printed. -/
lemma snprintmemLoop_fits (hrest : 2 * source.length + 1 ≤ rest.length)
    (hmax : pre.length + 2 * source.length ≤ intMax) :
    ∃ tail, snprintmemLoop source pre.length (pre ++ rest) =
      some (pre.length + 2 * source.length, pre ++ format source ++ tail) := by
  induction source generalizing pre rest with
  | nil =>
    refine ⟨rest, ?_⟩
    rw [snprintmemLoop, List.append_assoc]
    rfl
  | cons c source ih =>
    rw [List.length_cons] at hrest hmax
    -- there is room for one byte more
    have hlt : ¬(pre ++ rest).length ≤ pre.length := by
      rw [List.length_append]
      omega
    have hsize : (pre ++ rest).length - pre.length = rest.length := by
      rw [List.length_append]
      omega
    have htake : (formatByte c).take (rest.length - 1) = formatByte c := by
      apply List.take_of_length_le
      show 2 ≤ _
      omega
    have hstored : snprintfByte (pre ++ rest) pre.length rest.length c =
        some (pre ++ (formatByte c ++ [0]) ++ rest.drop 3) := by
      rw [snprintfByte, if_neg (by omega), htake]
      exact storeAll_append (by show 3 ≤ _; omega)
    have hshift : pre ++ (formatByte c ++ [0]) ++ rest.drop 3 = (pre ++ formatByte c) ++ (0 :: rest.drop 3) := by
      simp only [List.append_assoc, List.cons_append, List.nil_append]
    have hlen : pre.length + 2 = (pre ++ formatByte c).length := by
      rw [List.length_append]
      rfl
    have hrest' : 2 * source.length + 1 ≤ ((0 : UInt8) :: rest.drop 3).length := by
      rw [List.length_cons, List.length_drop]
      omega
    obtain ⟨tail, htail⟩ : ∃ tail, snprintmemLoop source (pre ++ formatByte c).length
        ((pre ++ formatByte c) ++ (0 :: rest.drop 3)) = some ((pre ++ formatByte c).length + 2 * source.length,
          (pre ++ formatByte c) ++ format source ++ tail) := ih hrest' (by omega)
    refine ⟨tail, ?_⟩
    rw [snprintmemLoop, if_neg hlt, hsize, hstored, Option.bind_some, if_pos (by omega), hshift, hlen, htail,
      format_cons, List.append_assoc, List.append_assoc, List.append_assoc, List.append_assoc, ← hlen,
      List.length_cons]
    congr 2
    omega

/-- With room for all of it the bytes are printed. -/
lemma snprintmem_fits (hfits : 2 * source.length + 1 ≤ target.length) (hmax : target.length ≤ intMax) :
    ∃ tail, snprintmem target source = some (2 * source.length, format source ++ tail) := by
  have hmax' : ([] : List UInt8).length + 2 * source.length ≤ intMax := by
    rw [List.length_nil]
    omega
  obtain ⟨tail, htail⟩ := snprintmemLoop_fits hfits hmax'
  rw [List.length_nil, Nat.zero_add] at htail
  exact ⟨tail, htail⟩

/-- Bytes that fit are stored. -/
lemma storeAll_some (hlen : i + xs.length ≤ target.length) :
    ∃ out, storeAll target i xs = some out ∧ out.length = target.length ∧ ∀ x ∈ xs, x ∈ out := by
  have hi : (target.take i).length = i := List.length_take_of_le (by omega)
  have hdrop : xs.length ≤ (target.drop i).length := by
    rw [List.length_drop]
    omega
  have hstored : storeAll (target.take i ++ target.drop i) (target.take i).length xs =
      some (target.take i ++ xs ++ (target.drop i).drop xs.length) := storeAll_append hdrop
  rw [List.take_append_drop, hi] at hstored
  refine ⟨_, hstored, ?_, ?_⟩
  · rw [List.length_append, List.length_append, List.length_drop, List.length_drop, hi]
    omega
  · intro x hx
    exact List.mem_append_left _ (List.mem_append_right _ hx)

/-- One byte is printed, with its zero. -/
lemma snprintfByte_some (hlt : wrote < target.length) :
    ∃ out, snprintfByte target wrote (target.length - wrote) c = some out ∧ out.length = target.length ∧ 0 ∈ out := by
  have hxs : wrote + ((formatByte c).take (target.length - wrote - 1) ++ [0]).length ≤ target.length := by
    rw [List.length_append, List.length_take, List.length_singleton]
    omega
  obtain ⟨out, hout, hlen, hmem⟩ := storeAll_some hxs
  refine ⟨out, ?_, hlen, hmem 0 (List.mem_append_right _ (List.mem_singleton_self 0))⟩
  rw [snprintfByte, if_neg (by omega)]
  exact hout

variable (source) in
/-- Printing stays in the target and leaves it terminated, unless the count of the characters leaves the range of
`int`, which the largest target does not prevent. -/
lemma snprintmemLoop_iff (hpos : 0 < target.length) (hmax : target.length ≤ intMax) (heven : wrote % 2 = 0)
    (hwrote : wrote ≤ intMax) :
    (¬(target.length = intMax ∧ intMax < wrote + 2 * source.length) →
      ∃ r out, snprintmemLoop source wrote target = some (r, out) ∧ (source ≠ [] ∨ 0 ∈ target → 0 ∈ out)) ∧
    (target.length = intMax → intMax < wrote + 2 * source.length → snprintmemLoop source wrote target = none) := by
  induction source generalizing wrote target with
  | nil =>
    constructor
    · exact fun _ => ⟨wrote, target, rfl, fun h => h.resolve_left (not_not_intro rfl)⟩
    · intro _ hlt
      rw [List.length_nil] at hlt
      omega
  | cons c source ih =>
    rw [List.length_cons]
    -- the target is full already, so the last byte is a zero
    by_cases hfull : target.length ≤ wrote
    · have hlast : target.length - 1 < target.length := by omega
      rw [snprintmemLoop, if_pos hfull, store, if_pos hlast]
      refine ⟨fun _ => ⟨wrote, _, rfl, fun _ => ?_⟩, fun heq _ => ?_⟩
      · exact List.mem_set hlast 0
      · have hodd : wrote = intMax := by omega
        rw [hodd] at heven
        cases heven
    · obtain ⟨out, hout, hlen, hzero⟩ := snprintfByte_some (c := c) (Nat.lt_of_not_le hfull)
      rw [snprintmemLoop, if_neg hfull, hout, Option.bind_some]
      by_cases hnext : wrote + 2 ≤ intMax
      · rw [if_pos hnext]
        have heven' : (wrote + 2) % 2 = 0 := by omega
        obtain ⟨hok, hnone⟩ := ih (hlen ▸ hpos) (hlen ▸ hmax) heven' hnext
        rw [hlen] at hok hnone
        constructor
        · intro hnot
          obtain ⟨r, out', hrun, hzero'⟩ := hok (fun h => hnot ⟨h.1, by omega⟩)
          exact ⟨r, out', hrun, fun _ => hzero' (.inr hzero)⟩
        · intro heq hlt
          exact hnone heq (by omega)
      · rw [if_neg hnext]
        refine ⟨fun hnot => ?_, fun _ _ => rfl⟩
        refine absurd ⟨?_, ?_⟩ hnot
        · unfold intMax at *
          omega
        · omega

end Print

/-! ## Scanning -/

section Scan

variable {src rest source : List UInt8} {a b : UInt8} {n read : ℕ}

lemma sscanmemLoop_digits (ha : isHexa a = true) (hb : isHexa b = true) :
    sscanmemLoop (n + 1) (a :: b :: rest) read =
      if read + 2 ≤ intMax then
        (sscanmemLoop n rest (read + 2)).map fun p => (p.1, (hexa2Byte a * 16 + hexa2Byte b) :: p.2)
      else none := by
  have hhexa : ¬(¬isHexa a = true ∨ ¬isHexa b = true) := not_or.mpr ⟨not_not_intro ha, not_not_intro hb⟩
  rw [sscanmemLoop]
  show (if a = 0 then _ else if b = 0 then _ else if ¬isHexa a = true ∨ ¬isHexa b = true then _ else _) = _
  rw [if_neg (isHexa_ne_zero ha), if_neg (isHexa_ne_zero hb), if_neg hhexa]
  rfl

/-- Reading printed text. -/
lemma sscanmemLoop_format (hmax : read + 2 * source.length ≤ intMax) :
    sscanmemLoop source.length (format source ++ rest) read = some ((read : ℤ) + 2 * source.length, source) := by
  induction source generalizing read with
  | nil => rfl
  | cons c source ih =>
    rw [List.length_cons] at hmax ⊢
    show sscanmemLoop (source.length + 1) (hexDigit (c / 16) :: hexDigit (c % 16) :: (format source ++ rest)) read = _
    rw [sscanmemLoop_digits (isHexa_hexDigit (div_toNat_lt c)) (isHexa_hexDigit (mod_toNat_lt c)),
      if_pos (by omega), ih (by omega), Option.map_some, hexa2Byte_hexDigit (div_toNat_lt c),
      hexa2Byte_hexDigit (mod_toNat_lt c), div_mod_byte]
    congr 2
    push_cast
    omega

/-- The reader stops at what is no digit. -/
lemma sscanmemLoop_stops (h : ¬(isHexa a = true ∧ isHexa b = true)) :
    sscanmemLoop (n + 1) (a :: b :: rest) read = some (-1, []) := by
  rw [sscanmemLoop]
  show (if a = 0 then _ else if b = 0 then _ else if ¬isHexa a = true ∨ ¬isHexa b = true then _ else _) = _
  rw [if_pos (not_and_or.mp h)]
  split_ifs
  · rfl
  · rfl
  · rfl

lemma digits_cons_cons (ha : isHexa a = true) (hb : isHexa b = true) : digits (a :: b :: rest) = digits rest + 2 := by
  unfold digits
  rw [List.takeWhile_cons_of_pos ha, List.takeWhile_cons_of_pos hb]
  rfl

variable (rest) in
/-- No byte is left to read. -/
lemma digits_lt_two (h : ¬(isHexa a = true ∧ isHexa b = true)) : digits (a :: b :: rest) < 2 := by
  unfold digits
  by_cases ha : isHexa a = true
  · have hb : ¬isHexa b = true := fun hb => h ⟨ha, hb⟩
    rw [List.takeWhile_cons_of_pos ha, List.takeWhile_cons_of_neg hb]
    exact Nat.lt_succ_self 1
  · rw [List.takeWhile_cons_of_neg ha]
    exact Nat.zero_lt_two

/-- A string that begins with too few digits is rejected, if the count of those that are read is an `int`. -/
lemma sscanmemLoop_rejects (hzero : 0 ∈ src) (hdigits : digits src < 2 * n) (hread : read ≤ intMax) :
    (read + 2 * (digits src / 2) ≤ intMax → ∃ bytes, sscanmemLoop n src read = some (-1, bytes)) ∧
    (intMax < read + 2 * (digits src / 2) → sscanmemLoop n src read = none) := by
  induction n generalizing src read with
  | zero => exact absurd hdigits (Nat.not_lt_zero _)
  | succ n ih =>
    cases src with
    | nil => cases hzero
    | cons a rest =>
      cases rest with
      | nil =>
        obtain rfl := List.mem_singleton.mp hzero
        refine ⟨fun _ => ⟨[], rfl⟩, fun hmax => ?_⟩
        have hnone : digits [0] = 0 := rfl
        omega
      | cons b rest =>
        by_cases hhexa : isHexa a = true ∧ isHexa b = true
        · obtain ⟨ha, hb⟩ := hhexa
          have hzero' : 0 ∈ rest := by
            obtain h | h := List.mem_cons.mp hzero
            · exact absurd h.symm (isHexa_ne_zero ha)
            · exact (List.mem_cons.mp h).resolve_left (Ne.symm (isHexa_ne_zero hb))
          rw [digits_cons_cons ha hb] at hdigits ⊢
          rw [sscanmemLoop_digits ha hb]
          by_cases hmax : read + 2 ≤ intMax
          · obtain ⟨hok, hnone⟩ := ih hzero' (by omega) hmax
            rw [if_pos hmax]
            constructor
            · intro hle
              obtain ⟨bytes, hbytes⟩ := hok (by omega)
              rw [hbytes]
              exact ⟨_, rfl⟩
            · intro hlt
              rw [hnone (by omega)]
              rfl
          · rw [if_neg hmax]
            refine ⟨fun hle => ?_, fun _ => rfl⟩
            omega
        · rw [sscanmemLoop_stops hhexa]
          refine ⟨fun _ => ⟨[], rfl⟩, fun hmax => ?_⟩
          have hfew := digits_lt_two rest hhexa
          omega

/-- What the reader takes, as far as an `int` counts. -/
lemma sscanmemLoop_accepts (hdigits : 2 * n ≤ digits src) (hread : read ≤ intMax) :
    (read + 2 * n ≤ intMax → ∃ bytes, sscanmemLoop n src read = some ((read : ℤ) + 2 * n, bytes) ∧ bytes.length = n ∧
      format bytes = (src.take (2 * n)).map toUpper) ∧
    (intMax < read + 2 * n → sscanmemLoop n src read = none) := by
  induction n generalizing src read with
  | zero =>
    constructor
    · exact fun _ => ⟨[], rfl, rfl, rfl⟩
    · intro hmax
      omega
  | succ n ih =>
    -- two digits for each byte that is left
    obtain ⟨a, b, rest, rfl, ha, hb⟩ : ∃ a b rest, src = a :: b :: rest ∧ isHexa a = true ∧ isHexa b = true := by
      cases src with
      | nil => exact absurd hdigits (Nat.not_succ_le_zero _)
      | cons a rest =>
        cases rest with
        | nil =>
          have hle : digits [a] ≤ [a].length := (List.takeWhile_prefix _).length_le
          rw [List.length_singleton] at hle
          omega
        | cons b rest =>
          by_cases hhexa : isHexa a = true ∧ isHexa b = true
          · exact ⟨a, b, rest, rfl, hhexa.1, hhexa.2⟩
          · have hfew := digits_lt_two rest hhexa
            omega
    rw [digits_cons_cons ha hb] at hdigits
    rw [sscanmemLoop_digits ha hb]
    -- the count of characters stays an `int`
    by_cases hmax : read + 2 ≤ intMax
    · obtain ⟨hok, hnone⟩ := ih (show 2 * n ≤ digits rest by omega) hmax
      rw [if_pos hmax]
      constructor
      · intro hle
        obtain ⟨bytes, hbytes, hlen, hformat⟩ := hok (by omega)
        refine ⟨(hexa2Byte a * 16 + hexa2Byte b) :: bytes, ?_, ?_, ?_⟩
        · rw [hbytes, Option.map_some]
          congr 2
          push_cast
          omega
        · rw [List.length_cons, hlen]
        · rw [format_cons, hformat, formatByte, byte_div (hexa2Byte_lt ha) (hexa2Byte_lt hb),
            byte_mod (hexa2Byte_lt hb), hexDigit_hexa2Byte ha, hexDigit_hexa2Byte hb]
          rfl
      · intro hlt
        rw [hnone (by omega)]
        rfl
    · rw [if_neg hmax]
      refine ⟨fun hle => ?_, fun _ => rfl⟩
      omega

end Scan

/-! ## The codec -/

/-- What is printed into a target that is large enough is scanned as it was. -/
def RoundTrip (b target : List UInt8) : Prop :=
  2 * b.length + 1 ≤ target.length →
    ∃ r out, snprintmem target b = some (r, out) ∧ sscanmem out b.length = some (2 * (b.length : ℤ), b)

/-- Printing stays in the target and leaves it terminated. -/
def PrintSafe (b target : List UInt8) : Prop := ∃ r out, snprintmem target b = some (r, out) ∧ (b ≠ [] → 0 ∈ out)

/-- A string is scanned up to its terminator: with too few digits it is rejected, and what is accepted is printed as it
was, but for the case of the letters. -/
def ScanLaw (s : List UInt8) (n : ℕ) : Prop :=
  ∃ r bytes, sscanmem (s ++ [0]) n = some (r, bytes) ∧ (digits s < 2 * n → r = -1) ∧
    (r ≠ -1 → bytes.length = n ∧ ∀ target : List UInt8, 2 * n + 1 ≤ target.length → target.length ≤ intMax →
      ∃ r out, snprintmem target bytes = some (r, out) ∧ out.take (2 * n) = (s.take (2 * n)).map toUpper)

section Codec

variable {b target s : List UInt8} {n : ℕ}

/-- Printing and reading back. -/
lemma roundTrip (hmax : target.length ≤ intMax) : RoundTrip b target := by
  intro hfits
  obtain ⟨tail, hprint⟩ := snprintmem_fits hfits hmax
  refine ⟨_, _, hprint, ?_⟩
  have hscan : sscanmemLoop b.length (format b ++ tail) 0 = some (((0 : ℕ) : ℤ) + 2 * b.length, b) :=
    sscanmemLoop_format (show 0 + 2 * b.length ≤ intMax by omega)
  refine hscan.trans ?_
  congr 2
  exact Int.zero_add _

/-- When the printer stays in its target. -/
lemma printSafe_iff (hpos : 0 < target.length) (hmax : target.length ≤ intMax) :
    PrintSafe b target ↔ ¬(target.length = intMax ∧ intMax < 2 * b.length) := by
  obtain ⟨hok, hnone⟩ := snprintmemLoop_iff b hpos hmax (show 0 % 2 = 0 from rfl) (Nat.zero_le _)
  rw [Nat.zero_add] at hok hnone
  constructor
  · rintro ⟨r, out, hrun, -⟩ ⟨heq, hlt⟩
    rw [snprintmem, hnone heq hlt] at hrun
    cases hrun
  · intro hnot
    obtain ⟨r, out, hrun, hzero⟩ := hok hnot
    exact ⟨r, out, hrun, fun hne => hzero (.inl hne)⟩

/-- The zero at the end is no digit. -/
lemma digits_append_zero : digits (s ++ [0]) = digits s := by
  unfold digits
  induction s with
  | nil => rfl
  | cons c s ih =>
    rw [List.cons_append]
    by_cases hc : isHexa c = true
    · rw [List.takeWhile_cons_of_pos hc, List.takeWhile_cons_of_pos hc, List.length_cons, List.length_cons, ih]
    · rw [List.takeWhile_cons_of_neg hc, List.takeWhile_cons_of_neg hc]

/-- When the reader keeps its law. -/
lemma scanLaw_iff : ScanLaw s n ↔ ¬intMax < 2 * min n (digits s / 2) := by
  have hzero : (0 : UInt8) ∈ s ++ [0] := List.mem_append_right _ (List.mem_singleton_self 0)
  -- with too few digits the reader ends where they do
  by_cases hfew : digits s < 2 * n
  · obtain ⟨hok, hnone⟩ := sscanmemLoop_rejects (n := n) hzero (by rw [digits_append_zero]; exact hfew) (Nat.zero_le _)
    rw [digits_append_zero, Nat.zero_add] at hok hnone
    have hmin : min n (digits s / 2) = digits s / 2 := by omega
    rw [hmin]
    constructor
    · rintro ⟨r, bytes, hrun, -⟩ hlt
      rw [sscanmem, hnone hlt] at hrun
      cases hrun
    · intro hle
      obtain ⟨bytes, hrun⟩ := hok (by omega)
      exact ⟨-1, bytes, hrun, fun _ => rfl, fun hne => absurd rfl hne⟩
  · have hmany : 2 * n ≤ digits (s ++ [0]) := by
      rw [digits_append_zero]
      omega
    obtain ⟨hok, hnone⟩ := sscanmemLoop_accepts hmany (Nat.zero_le _)
    rw [Nat.zero_add] at hok hnone
    have hmin : min n (digits s / 2) = n := by omega
    rw [hmin]
    constructor
    · rintro ⟨r, bytes, hrun, -⟩ hlt
      rw [sscanmem, hnone hlt] at hrun
      cases hrun
    · intro hle
      obtain ⟨bytes, hrun, hlen, hformat⟩ := hok (by omega)
      refine ⟨_, bytes, hrun, fun hlt => absurd hlt hfew, fun _ => ⟨hlen, ?_⟩⟩
      intro target hfits hmax
      rw [← hlen] at hfits
      obtain ⟨tail, hprint⟩ := snprintmem_fits hfits hmax
      have hlength : (format bytes).length = 2 * n := by rw [length_format, hlen]
      have hs : 2 * n ≤ s.length := by
        have hle : digits s ≤ s.length := (List.takeWhile_prefix _).length_le
        omega
      refine ⟨_, _, hprint, ?_⟩
      have htake : (format bytes ++ tail).take (2 * n) = format bytes := by
        rw [← hlength]
        exact List.take_left
      rw [htake, hformat, List.take_append_of_le_length hs]

end Codec

/-- The laws of the codec hold unless a count leaves the range of `int`: that of the characters printed into the largest
target, or that of the digits read. -/
theorem hexa_codec_iff (b target s : List UInt8) (n : ℕ) (hpos : 0 < target.length) (hmax : target.length ≤ intMax) :
    (RoundTrip b target ∧ PrintSafe b target ∧ ScanLaw s n) ↔
      ¬(target.length = intMax ∧ intMax < 2 * b.length) ∧ ¬intMax < 2 * min n (digits s / 2) := by
  rw [printSafe_iff hpos hmax, scanLaw_iff]
  exact ⟨fun h => h.2, fun h => ⟨roundTrip hmax, h⟩⟩

/-- The byte `ab` with room for it. -/
theorem hexa_codec_iff_sample : 0 < (List.replicate 3 (0 : UInt8)).length ∧
    (List.replicate 3 (0 : UInt8)).length ≤ intMax ∧
    ((RoundTrip [0xab] (List.replicate 3 0) ∧ PrintSafe [0xab] (List.replicate 3 0) ∧ ScanLaw [97, 66] 1) ↔
      ¬((List.replicate 3 (0 : UInt8)).length = intMax ∧ intMax < 2 * [(0xab : UInt8)].length) ∧
        ¬intMax < 2 * min 1 (digits [97, 66] / 2)) :=
  ⟨by decide, by decide, hexa_codec_iff [0xab] (List.replicate 3 0) [97, 66] 1 (by decide) (by decide)⟩

/-- The count of the characters of `2 ^ 30 + 2` bytes leaves the range of `int` in a target of `INT_MAX` bytes, and
there are bytes left to print. -/
theorem not_printSafe_of_count : ¬PrintSafe (List.replicate 1073741826 0) (List.replicate 2147483647 0) := by
  have hlen : (List.replicate 2147483647 (0 : UInt8)).length = intMax := List.length_replicate
  rw [printSafe_iff (by rw [hlen]; decide) (Nat.le_of_eq hlen)]
  intro hnot
  apply hnot
  refine ⟨hlen, ?_⟩
  rw [List.length_replicate]
  decide

end Ganesha.Hexa
