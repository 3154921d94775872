import Mathlib.Data.List.Basic

/-!
# Moving a list piece by piece

In each round a piece is taken from the front of what is left of a source, and a part of the piece is put at
the end of a target.
-/

namespace Library.Transfer

variable {α : Type}

/-- What is left before a round, where `n i` elements are taken in round `i`. -/
def left (n : ℕ → ℕ) (src : List α) : ℕ → List α
  | 0 => src
  | i + 1 => (left n src i).drop (n i)

/-- The piece of a round. -/
def piece (n : ℕ → ℕ) (src : List α) (i : ℕ) : List α := (left n src i).take (n i)

/-- What has been put before a round, where at most `w i` elements are put in round `i`. -/
def moved (n w : ℕ → ℕ) (src : List α) : ℕ → List α
  | 0 => []
  | i + 1 => moved n w src i ++ (piece n src i).take (w i)

variable {n w : ℕ → ℕ} {src : List α} {i k : ℕ}

lemma length_left_succ : (left n src (i + 1)).length + (piece n src i).length = (left n src i).length := by
  rw [left, piece, List.length_drop, List.length_take]
  omega

/-- The pieces before a round, with what is left, are as long as the source; what has been put is no
longer. -/
lemma length_moved_le : (moved n w src i).length + (left n src i).length ≤ src.length := by
  induction i with
  | zero => simp only [moved, left, List.length_nil, Nat.zero_add, Nat.le_refl]
  | succ i ih =>
    have hleft := @length_left_succ α n src i
    have hput : ((piece n src i).take (w i)).length ≤ (piece n src i).length := List.length_take_le' _ _
    rw [moved, List.length_append]
    omega

/-- A short write leaves bytes behind. -/
lemma length_moved_lt (hi : i < k) (hshort : w i < (piece n src i).length) :
    (moved n w src k).length + (left n src k).length < src.length := by
  induction k with
  | zero => exact absurd hi (Nat.not_lt_zero i)
  | succ k ih =>
    have hleft := @length_left_succ α n src k
    have hput : ((piece n src k).take (w k)).length ≤ (piece n src k).length := List.length_take_le' _ _
    rw [moved, List.length_append]
    rcases Nat.lt_succ_iff_lt_or_eq.mp hi with hlt | rfl
    · have hk := ih hlt
      omega
    · have hmoved := @length_moved_le α n w src i
      have hpart : ((piece n src i).take (w i)).length = w i := by
        rw [List.length_take, Nat.min_eq_left (Nat.le_of_lt hshort)]
      omega

/-- Whole writes lose nothing. -/
lemma moved_append_left (hwhole : ∀ j < k, (piece n src j).length ≤ w j) :
    moved n w src k ++ left n src k = src := by
  induction k with
  | zero => rfl
  | succ k ih =>
    have hpiece : (piece n src k).take (w k) = (left n src k).take (n k) :=
      List.take_of_length_le (hwhole k (Nat.lt_succ_self k))
    rw [moved, left, hpiece, List.append_assoc, List.take_append_drop]
    exact ih fun j hj => hwhole j (Nat.lt_succ_of_lt hj)

/-- Once nothing is left, the target is the source exactly if every piece was put whole. -/
theorem moved_eq_iff (hend : left n src k = []) :
    moved n w src k = src ↔ ∀ j < k, (piece n src j).length ≤ w j := by
  constructor
  · intro heq j hj
    by_contra hshort
    have hlt := length_moved_lt hj (Nat.lt_of_not_le hshort)
    rw [heq] at hlt
    omega
  · intro hwhole
    have happend := moved_append_left hwhole
    rwa [hend, List.append_nil] at happend

lemma left_of_nil (hend : left n src i = []) (hik : i ≤ k) : left n src k = [] := by
  induction hik with
  | refl => exact hend
  | step _ ih => rw [left, ih, List.drop_nil]

end Library.Transfer
