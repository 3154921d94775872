import Mathlib.Data.List.Basic

/-!
# Buffers of bytes

Memory that is written at a position, where a write that does not fit is an error, and strings that a zero
byte ends.
-/

namespace Library.Buffer

/-- Write bytes at a position. There is no result where they do not fit. -/
def put (buffer : List UInt8) (i : ℕ) (bytes : List UInt8) : Option (List UInt8) :=
  if i + bytes.length ≤ buffer.length then some (buffer.take i ++ bytes ++ buffer.drop (i + bytes.length)) else none

/-- The number of bytes before the first zero, looking at no more than a number of them. -/
def strnlen (str : List UInt8) (maxlen : ℕ) : ℕ := ((str.take maxlen).takeWhile (· ≠ 0)).length

variable {buffer bytes after str : List UInt8} {i n : ℕ}

lemma put_eq (h : i + bytes.length ≤ buffer.length) :
    put buffer i bytes = some (buffer.take i ++ bytes ++ buffer.drop (i + bytes.length)) := if_pos h

/-- Writing keeps the length. -/
lemma length_put (h : put buffer i bytes = some after) : after.length = buffer.length := by
  unfold put at h
  by_cases hfits : i + bytes.length ≤ buffer.length
  · rw [if_pos hfits] at h
    rw [← Option.some.inj h, List.length_append, List.length_append, List.length_take, List.length_drop]
    omega
  · rw [if_neg hfits] at h
    cases h

/-- The length up to the zero. -/
lemma strnlen_append_zero {w rest : List UInt8} (hw : ∀ c ∈ w, c ≠ 0) (hn : w.length < n) :
    strnlen (w ++ 0 :: rest) n = w.length := by
  have htake : (w ++ 0 :: rest).take n = w ++ 0 :: rest.take (n - w.length - 1) := by
    rw [List.take_append, List.take_of_length_le (Nat.le_of_lt hn)]
    obtain ⟨k, hk⟩ : ∃ k, n - w.length = k + 1 := ⟨n - w.length - 1, by omega⟩
    rw [hk, List.take_succ_cons]
    rfl
  have hall : ∀ c ∈ w, decide (c ≠ 0) = true := fun c hc => decide_eq_true (hw c hc)
  unfold strnlen
  rw [htake, List.takeWhile_append_of_pos hall, List.takeWhile_cons_of_neg (by decide), List.append_nil]

lemma strnlen_append {w rest : List UInt8} (hw : ∀ c ∈ w, c ≠ 0) : strnlen (w ++ rest) w.length = w.length := by
  have hall : ∀ c ∈ w, decide (c ≠ 0) = true := fun c hc => decide_eq_true (hw c hc)
  unfold strnlen
  have hself := @List.takeWhile_append_of_pos _ _ w [] hall
  rw [List.takeWhile_nil, List.append_nil] at hself
  rw [List.take_left, hself]

end Library.Buffer
