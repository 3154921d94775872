import Mathlib.Data.Nat.Notation
import Mathlib.Tactic.Common

/-!
# Contents of files

A file has a size, and its bytes behind the end are 0, as they are read when a later write leaves a
hole before it.
-/

namespace Library.File

/-- The bytes `mem` with the first `n` bytes of `data` from `start` on. -/
def splice (mem : ℕ → UInt8) (start n : ℕ) (data : ℕ → UInt8) : ℕ → UInt8 :=
  fun j => if start ≤ j ∧ j < start + n then data (j - start) else mem j

/-- The content of a file. -/
@[ext]
structure Content where
  bytes : ℕ → UInt8
  size : ℕ
  zero : ∀ i, size ≤ i → bytes i = 0

namespace Content

/-- The first `n` bytes of `data` are written at `offset`; a write of nothing does not extend the
file. -/
def pwrite (f : Content) (offset n : ℕ) (data : ℕ → UInt8) : Content :=
  if hn : n = 0 then f
  else
    { bytes := splice f.bytes offset n data
      size := max f.size (offset + n)
      zero := by
        intro i hi
        have hsize : f.size ≤ i := by omega
        have hout : ¬ (offset ≤ i ∧ i < offset + n) := by omega
        rw [splice, if_neg hout]
        exact f.zero i hsize }

variable {f : Content} {o n o' n' k len : ℕ} {d d' b : ℕ → UInt8}

/-- The bytes after a write. -/
lemma pwrite_bytes (i : ℕ) :
    (f.pwrite o n d).bytes i = if o ≤ i ∧ i < o + n then d (i - o) else f.bytes i := by
  unfold pwrite
  split_ifs with hn hi hi
  · omega
  · rfl
  · exact if_pos hi
  · exact if_neg hi

lemma pwrite_size : (f.pwrite o n d).size = if n = 0 then f.size else max f.size (o + n) := by
  unfold pwrite
  split_ifs <;> rfl

/-- Only the bytes written count. -/
lemma pwrite_congr (h : ∀ i < n, d i = d' i) : f.pwrite o n d = f.pwrite o n d' := by
  apply Content.ext
  · funext i
    rw [pwrite_bytes, pwrite_bytes]
    split_ifs with hi
    · exact h _ (by omega)
    · rfl
  · rw [pwrite_size, pwrite_size]

/-- Writes to different places commute. -/
theorem pwrite_comm (h : n = 0 ∨ n' = 0 ∨ o + n ≤ o' ∨ o' + n' ≤ o) :
    (f.pwrite o n d).pwrite o' n' d' = (f.pwrite o' n' d').pwrite o n d := by
  apply Content.ext
  · funext i
    rw [pwrite_bytes, pwrite_bytes, pwrite_bytes, pwrite_bytes]
    split_ifs with hi hi' hi'
    · omega
    · rfl
    · rfl
    · rfl
  · rw [pwrite_size, pwrite_size, pwrite_size, pwrite_size]
    split_ifs <;> omega

/-- A write that starts in another one, or right behind it, and goes on at least as far. -/
theorem pwrite_extend (hstart : k ≤ len) (hend : len ≤ k + n) :
    (f.pwrite o len b).pwrite (o + k) n d = f.pwrite o (k + n) (splice b k n d) := by
  apply Content.ext
  · funext i
    rw [pwrite_bytes, pwrite_bytes, pwrite_bytes, splice]
    by_cases hin : o + k ≤ i ∧ i < o + k + n
    · have hout : o ≤ i ∧ i < o + (k + n) := by omega
      have hpart : k ≤ i - o ∧ i - o < k + n := by omega
      have hidx : i - (o + k) = i - o - k := by omega
      rw [if_pos hin, if_pos hout, if_pos hpart, hidx]
    · rw [if_neg hin]
      by_cases hout : o ≤ i ∧ i < o + (k + n)
      · have hlen : o ≤ i ∧ i < o + len := by omega
        have hpart : ¬ (k ≤ i - o ∧ i - o < k + n) := by omega
        rw [if_pos hout, if_pos hlen, if_neg hpart]
      · have hlen : ¬ (o ≤ i ∧ i < o + len) := by omega
        rw [if_neg hout, if_neg hlen]
  · rw [pwrite_size, pwrite_size, pwrite_size]
    split_ifs <;> omega

/-- A part of the bytes is written before all of them. -/
theorem pwrite_within (h : k + n ≤ len) :
    (f.pwrite (o + k) n fun i => b (k + i)).pwrite o len b = f.pwrite o len b := by
  apply Content.ext
  · funext i
    rw [pwrite_bytes, pwrite_bytes, pwrite_bytes]
    split_ifs with hi hi'
    · rfl
    · omega
    · rfl
  · rw [pwrite_size, pwrite_size, pwrite_size]
    split_ifs <;> omega

end Content

end Library.File
