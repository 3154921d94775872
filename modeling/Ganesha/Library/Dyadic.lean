import Mathlib.Data.Nat.Bitwise

/-!
# Aligned blocks of power-of-two size

Offsets inside an area of size `2 ^ n`. The buddy of the block of size `2 ^ k` at the aligned offset
`x` is at `x ^^^ 2 ^ k`: both together are one aligned block of size `2 ^ (k + 1)`
(`buddy_cases`), and every larger aligned block that holds one of them holds the other one
(`buddy_div`).
-/

namespace Library.Dyadic

variable {x y k j n : ℕ}

/-- The buddy is next to the block, and the lower one of the two starts a block of twice the size. -/
theorem buddy_cases (h : 2 ^ k ∣ x) :
    (x ^^^ 2 ^ k = x + 2 ^ k ∧ 2 ^ (k + 1) ∣ x) ∨
      ((x ^^^ 2 ^ k) + 2 ^ k = x ∧ 2 ^ (k + 1) ∣ x ^^^ 2 ^ k) := by
  obtain ⟨m, rfl⟩ := h
  have hxor : 2 ^ k * m ^^^ 2 ^ k = 2 ^ k * (m ^^^ 1) := by
    have hshift := Nat.shiftLeft_xor_distrib (i := k) (a := m) (b := 1)
    rw [Nat.shiftLeft_eq, Nat.shiftLeft_eq, Nat.shiftLeft_eq, one_mul] at hshift
    rw [mul_comm (2 ^ k) m, mul_comm (2 ^ k) (m ^^^ 1)]
    exact hshift.symm
  rw [hxor, pow_succ]
  rcases Nat.even_or_odd m with heven | hodd
  · left
    rw [Nat.xor_one_of_even heven]
    refine ⟨by rw [mul_add, mul_one], ?_⟩
    exact mul_dvd_mul_left _ heven.two_dvd
  · right
    obtain ⟨c, rfl⟩ := hodd
    rw [Nat.xor_one_of_odd ⟨c, rfl⟩, Nat.add_sub_cancel]
    refine ⟨by rw [mul_add, mul_one], ?_⟩
    exact mul_dvd_mul_left _ (Dvd.intro c rfl)

/-- The buddy is aligned as the block is. -/
theorem dvd_buddy (h : 2 ^ k ∣ x) : 2 ^ k ∣ x ^^^ 2 ^ k := by
  rcases buddy_cases h with ⟨heq, -⟩ | ⟨-, hdvd⟩
  · rw [heq]
    exact (Nat.dvd_add_right h).mpr dvd_rfl
  · exact (pow_dvd_pow 2 (Nat.le_succ k)).trans hdvd

/-- The buddy is in the area. -/
theorem buddy_lt (hx : x < 2 ^ n) (hk : k < n) : x ^^^ 2 ^ k < 2 ^ n :=
  Nat.xor_lt_two_pow hx (Nat.pow_lt_pow_right (by omega) hk)

/-- Larger aligned blocks do not tell a block and its buddy apart. -/
theorem buddy_div (hk : k < j) : (x ^^^ 2 ^ k) / 2 ^ j = x / 2 ^ j := by
  rw [Nat.xor_div_two_pow, Nat.div_eq_of_lt (Nat.pow_lt_pow_right (by omega) hk), Nat.xor_zero]

/-- An aligned block that holds an offset with the same alignment starts there. -/
theorem eq_of_dvd (hx : 2 ^ j ∣ x) (hy : 2 ^ j ∣ y) (hle : x ≤ y) (hlt : y < x + 2 ^ j) : x = y := by
  obtain ⟨a, rfl⟩ := hx
  obtain ⟨b, rfl⟩ := hy
  have hb : b < a + 1 := by
    refine Nat.lt_of_mul_lt_mul_left (a := 2 ^ j) ?_
    rw [mul_add, mul_one]
    exact hlt
  have ha : a ≤ b := Nat.le_of_mul_le_mul_left hle (Nat.two_pow_pos j)
  rw [show a = b by omega]

/-- The offsets of an aligned block are those with its quotient. -/
theorem mem_iff_div (hx : 2 ^ j ∣ x) : x ≤ y ∧ y < x + 2 ^ j ↔ y / 2 ^ j = x / 2 ^ j := by
  obtain ⟨a, rfl⟩ := hx
  rw [Nat.mul_div_cancel_left a (Nat.two_pow_pos j), Nat.div_eq_iff (Nat.two_pow_pos j), mul_comm]
  have hpos := Nat.two_pow_pos j
  omega

/-- A larger aligned block that holds the buddy holds the block. -/
theorem mem_of_buddy_mem (hy : 2 ^ j ∣ y) (hk : k < j) (hle : y ≤ x ^^^ 2 ^ k)
    (hlt : x ^^^ 2 ^ k < y + 2 ^ j) : y ≤ x ∧ x < y + 2 ^ j := by
  rw [mem_iff_div hy, ← (mem_iff_div hy).mp ⟨hle, hlt⟩, buddy_div hk]

end Library.Dyadic
