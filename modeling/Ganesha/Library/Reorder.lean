import Mathlib.Data.List.Basic
import Mathlib.Data.List.Nodup

/-!
# Operations in another order

Operations `0, 1, …` on a state are executed in some order. The result is that of the order of their
numbers if each one commutes, when it is executed, with those of a smaller number that are not
executed yet.
-/

namespace Library.Reorder

variable {σ : Type*} {op : ℕ → σ → σ}

/-- The operations of a list of numbers, applied one after the other. -/
def applyAll (op : ℕ → σ → σ) (l : List ℕ) (s : σ) : σ := l.foldl (fun s i => op i s) s

/-- Two operations can be exchanged. -/
def Commutes (f g : σ → σ) : Prop := ∀ s, f (g s) = g (f s)

@[simp] lemma applyAll_nil {s : σ} : applyAll op [] s = s := rfl

@[simp] lemma applyAll_cons {i : ℕ} {l : List ℕ} {s : σ} :
    applyAll op (i :: l) s = applyAll op l (op i s) := rfl

lemma applyAll_append {l₁ l₂ : List ℕ} {s : σ} :
    applyAll op (l₁ ++ l₂) s = applyAll op l₂ (applyAll op l₁ s) := List.foldl_append

variable {i : ℕ}

lemma applyAll_pull {l₁ l₂ : List ℕ} (h : ∀ j ∈ l₁, Commutes (op j) (op i)) (s : σ) :
    applyAll op (l₁ ++ i :: l₂) s = applyAll op (l₁ ++ l₂) (op i s) := by
  induction l₁ generalizing s with
  | nil => rfl
  | cons j l₁ ih =>
    rw [List.cons_append, List.cons_append, applyAll_cons, applyAll_cons,
      ih (fun j' hj' => h j' (List.mem_cons_of_mem j hj')), h j List.mem_cons_self s]

/-- The numbers below `n` that are not in `done`, in order. -/
def remaining (n : ℕ) (done : List ℕ) : List ℕ := (List.range n).filter (· ∉ done)

variable {n : ℕ} {done : List ℕ}

lemma mem_remaining : i ∈ remaining n done ↔ i < n ∧ i ∉ done := by
  rw [remaining, List.mem_filter, List.mem_range, decide_eq_true_eq]

lemma remaining_succ (h : n ∉ done) : remaining (n + 1) done = remaining n done ++ [n] := by
  rw [remaining, List.range_succ, List.filter_append, remaining]
  simp [h]

/-- One index more is done. -/
lemma remaining_append (hi : i < n) (hnot : i ∉ done) :
    ∃ l₁ l₂, remaining n done = l₁ ++ i :: l₂ ∧ remaining n (done ++ [i]) = l₁ ++ l₂ ∧
      ∀ j ∈ l₁, j < i ∧ j ∉ done := by
  obtain ⟨k, rfl⟩ : ∃ k, n = i + 1 + k := ⟨n - (i + 1), by omega⟩
  have hsplit : ∀ done', remaining (i + 1 + k) done' =
      remaining i done' ++ ((if i ∈ done' then [] else [i]) ++
        ((List.range k).map (i + 1 + ·)).filter (· ∉ done')) := by
    intro done'
    rw [remaining, List.range_add, List.range_succ, List.filter_append, List.filter_append,
      List.append_assoc, remaining, List.filter_cons, List.filter_nil]
    simp
  have hother : ∀ l : List ℕ, i ∉ l → l.filter (· ∉ done ++ [i]) = l.filter (· ∉ done) := by
    intro l hl
    refine List.filter_congr fun j hj => ?_
    have hne : j ≠ i := fun heq => hl (heq ▸ hj)
    simp [hne]
  refine ⟨remaining i done, ((List.range k).map (i + 1 + ·)).filter (· ∉ done), ?_, ?_,
    fun j hj => mem_remaining.mp hj⟩
  · rw [hsplit, if_neg hnot]
    rfl
  · rw [hsplit, if_pos (by simp), List.nil_append, remaining, hother _ (by simp), hother, remaining]
    simp only [List.mem_map, List.mem_range, not_exists, not_and]
    intro j _
    omega

lemma applyAll_remaining (hi : i < n) (hnot : i ∉ done) (h : ∀ j < i, j ∉ done → Commutes (op j) (op i))
    (s : σ) : applyAll op (remaining n (done ++ [i])) (op i s) = applyAll op (remaining n done) s := by
  obtain ⟨l₁, l₂, heq, heq', hbefore⟩ := remaining_append hi hnot
  rw [heq, heq', applyAll_pull fun j hj => h j (hbefore j hj).1 (hbefore j hj).2]

end Library.Reorder
