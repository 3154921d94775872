import Mathlib.Logic.Function.Basic
import Mathlib.Data.List.Nodup

/-!
# Objects from a pool

Objects of one type, each at an address. An object is allocated at the address that was released last,
or at a new one. The fields say that nothing is at an address that can be allocated.
-/

namespace Library

/-- Objects, the addresses that were released, and the number of addresses that were ever used. -/
structure Pool (α : Type*) where
  cell : ℕ → Option α
  released : List ℕ
  count : ℕ
  nodup : released.Nodup
  cell_released : ∀ p ∈ released, cell p = none ∧ p < count
  cell_new : ∀ p, count ≤ p → cell p = none

namespace Pool

variable {α : Type*} (m : Pool α) {p q : ℕ} {a : α}

/-- No object. -/
def empty : Pool α := ⟨fun _ => none, [], 0, List.nodup_nil, fun _ hp => (by cases hp), fun _ _ => rfl⟩

/-- The address of the next object. -/
def next : ℕ := m.released.headD m.count

lemma cell_next : m.cell m.next = none := by
  unfold next
  cases h : m.released with
  | nil => exact m.cell_new m.count (Nat.le_refl _)
  | cons p ps => exact (m.cell_released p (by rw [h]; exact List.mem_cons_self)).1

/-- Allocate an object at the next address. -/
def alloc (a : α) : Pool α where
  cell := Function.update m.cell m.next (some a)
  released := m.released.tail
  count := if m.released = [] then m.count + 1 else m.count
  nodup := m.nodup.sublist (List.tail_sublist _)
  cell_released p hp := by
    cases h : m.released with
    | nil =>
      rw [h] at hp
      cases hp
    | cons q ps =>
      rw [h] at hp
      have hnodup := m.nodup
      rw [h] at hnodup
      have hmem := m.cell_released p (by rw [h]; exact List.mem_cons_of_mem _ hp)
      have hne : p ≠ m.next := by
        rw [next, h, List.headD_cons]
        rintro rfl
        exact (List.nodup_cons.mp hnodup).1 hp
      rw [Function.update_of_ne hne, if_neg (List.cons_ne_nil _ _)]
      exact hmem
  cell_new p hp := by
    cases h : m.released with
    | nil =>
      rw [if_pos h] at hp
      have hne : p ≠ m.next := by
        rw [next, h]
        exact Nat.ne_of_gt hp
      rw [Function.update_of_ne hne]
      exact m.cell_new p (Nat.le_of_succ_le hp)
    | cons q ps =>
      rw [if_neg (by rw [h]; exact List.cons_ne_nil _ _)] at hp
      have hq := (m.cell_released q (by rw [h]; exact List.mem_cons_self)).2
      have hne : p ≠ m.next := by
        rw [next, h]
        exact Nat.ne_of_gt (Nat.lt_of_lt_of_le hq hp)
      rw [Function.update_of_ne hne]
      exact m.cell_new p hp

lemma cell_alloc : (m.alloc a).cell p = if p = m.next then some a else m.cell p := by
  rw [alloc]
  exact Function.update_apply _ _ _ _

/-- Change the object at an address, if there is one. -/
def modify (p : ℕ) (f : α → α) : Pool α where
  cell := Function.update m.cell p ((m.cell p).map f)
  released := m.released
  count := m.count
  nodup := m.nodup
  cell_released q hq := by
    refine ⟨?_, (m.cell_released q hq).2⟩
    by_cases h : q = p
    · rw [h, Function.update_self, ← h, (m.cell_released q hq).1]
      rfl
    · rw [Function.update_of_ne h]
      exact (m.cell_released q hq).1
  cell_new q hq := by
    by_cases h : q = p
    · rw [h, Function.update_self, ← h, m.cell_new q hq]
      rfl
    · rw [Function.update_of_ne h]
      exact m.cell_new q hq

/-- The cells after one was changed. -/
lemma cell_modify {f : α → α} : (m.modify p f).cell q = if q = p then (m.cell q).map f else m.cell q := by
  rw [modify]
  by_cases h : q = p
  · rw [h, if_pos rfl]
    exact Function.update_self _ _ _
  · rw [if_neg h]
    exact Function.update_of_ne h _ _

/-- Release the object at an address. Nothing happens if there is none. -/
def release (p : ℕ) : Pool α :=
  match h : m.cell p with
  | none => m
  | some a =>
    { cell := Function.update m.cell p none
      released := p :: m.released
      count := m.count
      nodup := by
        refine List.nodup_cons.mpr ⟨fun hp => ?_, m.nodup⟩
        rw [(m.cell_released p hp).1] at h
        cases h
      cell_released := by
        intro q hq
        by_cases hqp : q = p
        · refine ⟨by rw [hqp, Function.update_self], ?_⟩
          rw [hqp]
          refine Nat.lt_of_not_le fun hle => ?_
          rw [m.cell_new p hle] at h
          cases h
        · rw [Function.update_of_ne hqp]
          exact m.cell_released q ((List.mem_cons.mp hq).resolve_left hqp)
      cell_new := by
        intro q hq
        by_cases hqp : q = p
        · rw [hqp, Function.update_self]
        · rw [Function.update_of_ne hqp]
          exact m.cell_new q hq }

/-- The cells after one was released. -/
lemma cell_release : (m.release p).cell q = if q = p then none else m.cell q := by
  unfold release
  split
  · rename_i h
    split_ifs with hqp
    · rw [hqp, h]
    · rfl
  · exact Function.update_apply _ _ _ _

end Pool

end Library
