import Mathlib.Data.Finset.Card
import Ganesha.RWLock.Common

/-!
# Exclusion for the readers-writer lock

The counters count the threads (`Counted`), whatever the interleaving. Exclusion itself depends on
the step by which a reader comes back from `pthread_cond_wait`: `P_r` does not test its guard
again, so a writer that took the lock since the broadcast is not seen.
-/

namespace Ganesha.RWLock
open Library.Transition

/-! ## The counters count threads -/

section
variable {Thread : Type}

/-- Exactly `n` threads stand at `p`. -/
def Counts (pc : Thread → Pc) (p : Pc) (n : ℕ) : Prop :=
  ∃ F : Finset Thread, (∀ t, t ∈ F ↔ pc t = p) ∧ F.card = n

lemma Counts.pos {pc : Thread → Pc} {p : Pc} {n : ℕ} {t : Thread} (h : Counts pc p n)
    (ht : pc t = p) : 0 < n := by
  obtain ⟨F, hF, rfl⟩ := h
  exact Finset.card_pos.mpr ⟨t, (hF t).mpr ht⟩

/-- Each counter of the lock is the number of threads at the place it is about. -/
structure Counted (s : State Thread) : Prop where
  reading : Counts s.pc .reading s.lock.nbrActive
  waitRead : Counts s.pc .waitRead s.lock.nbrWaiting
  writing : Counts s.pc .writing s.lock.nbwActive
  waitWrite : Counts s.pc .waitWrite s.lock.nbwWaiting

/-- The part of the lock that exclusion is about. -/
def RwLock.counters (l : RwLock Thread) : ℕ × ℕ × ℕ × ℕ :=
  (l.nbrActive, l.nbrWaiting, l.nbwActive, l.nbwWaiting)

lemma rwLockDowngrade_counters (l : RwLock Thread) : (rwLockDowngrade l).counters =
    (l.nbrActive + 1, l.nbrWaiting, l.nbwActive - 1, l.nbwWaiting) := by
  unfold rwLockDowngrade
  simp only
  split <;> rfl

end

variable {Thread : Type} [DecidableEq Thread]

/-- One thread's share of the count at `q` while it stands at `p`. -/
def share (p q : Pc) : ℕ := if p = q then 1 else 0

/-- One thread moves. -/
lemma Counts.move {pc : Thread → Pc} {p q : Pc} {n m : ℕ} {t : Thread} (h : Counts pc p n)
    (hm : m + share (pc t) p = n + share q p) : Counts (Function.update pc t q) p m := by
  obtain ⟨F, hF, rfl⟩ := h
  unfold share at hm
  by_cases hq : q = p
  · -- after the move the thread is at `p`
    refine ⟨insert t F, fun u => ?_, ?_⟩
    · by_cases hu : u = t
      · simp [hu, hq]
      · simp [hu, hF u]
    · by_cases ht : pc t = p
      · rw [Finset.insert_eq_of_mem ((hF t).mpr ht)]
        simp only [ht, hq, if_true] at hm
        omega
      · rw [Finset.card_insert_of_notMem fun hin => ht ((hF t).mp hin)]
        simp only [ht, hq, if_true, if_false] at hm
        omega
  · -- after the move it is elsewhere
    refine ⟨F.erase t, fun u => ?_, ?_⟩
    · by_cases hu : u = t
      · simp [hu, hq]
      · simp [hu, hF u]
    · by_cases ht : pc t = p
      · rw [Finset.card_erase_of_mem ((hF t).mpr ht)]
        simp only [ht, hq, if_true, if_false] at hm
        omega
      · rw [Finset.erase_eq_of_notMem fun hin => ht ((hF t).mp hin)]
        simp only [ht, hq, if_false] at hm
        omega

lemma Counted.move {s : State Thread} {t : Thread} {p q : Pc} {l : RwLock Thread} {a b c d : ℕ}
    (hc : Counted s) (hpc : s.pc t = p) (hl : l.counters = (a, b, c, d))
    (h : a + share p .reading = s.lock.nbrActive + share q .reading ∧
      b + share p .waitRead = s.lock.nbrWaiting + share q .waitRead ∧
      c + share p .writing = s.lock.nbwActive + share q .writing ∧
      d + share p .waitWrite = s.lock.nbwWaiting + share q .waitWrite) :
    Counted (s.move t l q) := by
  simp only [RwLock.counters, Prod.mk.injEq] at hl
  obtain ⟨rfl, rfl, rfl, rfl⟩ := hl
  subst hpc
  obtain ⟨hr, hrw, hw, hww⟩ := h
  exact ⟨hc.reading.move hr, hc.waitRead.move hrw, hc.writing.move hw, hc.waitWrite.move hww⟩

/-- The counters after a reader left. -/
lemma vR_counters {l l' : RwLock Thread} {u : Thread} (h : vR l u = some l') :
    l'.counters = (l.nbrActive - 1, l.nbrWaiting, l.nbwActive, l.nbwWaiting) := by
  unfold vR at h
  simp only at h
  split at h
  · obtain ⟨q, -, rfl⟩ := Option.map_eq_some_iff.mp h
    rfl
  · cases h
    rfl

/-- The counters after the writer left. -/
lemma vW_counters {l l' : RwLock Thread} {u : Thread} (h : vW l u = some l') :
    l'.counters = (l.nbrActive, l.nbrWaiting, l.nbwActive - 1, l.nbwWaiting) := by
  unfold vW at h
  simp only at h
  split at h
  · obtain ⟨q, -, rfl⟩ := Option.map_eq_some_iff.mp h
    rfl
  · split at h <;> cases h <;> rfl

/-- All that a step can do to the counters and to the place of the thread that moves. A function
that may block has one disjunct for each outcome. -/
inductive Moves (s : State Thread) : Event Thread → State Thread → Prop
  | pRGranted {t l} : s.pc t = .idle → s.lock.nbwActive = 0 →
      l.counters = (s.lock.nbrActive + 1, s.lock.nbrWaiting, s.lock.nbwActive, s.lock.nbwWaiting) →
      Moves s (.pR t) (s.move t l .reading)
  | pRBlocked {t l} : s.pc t = .idle →
      l.counters = (s.lock.nbrActive, s.lock.nbrWaiting + 1, s.lock.nbwActive, s.lock.nbwWaiting) →
      Moves s (.pR t) (s.move t l .waitRead)
  | pRReturn {t l} : s.pc t = .waitRead →
      l.counters =
        (s.lock.nbrActive + 1, s.lock.nbrWaiting - 1, s.lock.nbwActive, s.lock.nbwWaiting) →
      Moves s (.pRReturn t) (s.move t l .reading)
  | vR {t u l} : s.pc t = .reading →
      l.counters = (s.lock.nbrActive - 1, s.lock.nbrWaiting, s.lock.nbwActive, s.lock.nbwWaiting) →
      Moves s (.vR t u) (s.move t l .idle)
  | pWGranted {t l} : s.pc t = .idle → s.lock.nbrActive = 0 → s.lock.nbwActive = 0 →
      l.counters = (s.lock.nbrActive, s.lock.nbrWaiting, s.lock.nbwActive + 1, s.lock.nbwWaiting) →
      Moves s (.pW t) (s.move t l .writing)
  | pWBlocked {t l} : s.pc t = .idle →
      l.counters = (s.lock.nbrActive, s.lock.nbrWaiting, s.lock.nbwActive, s.lock.nbwWaiting + 1) →
      Moves s (.pW t) (s.move t l .waitWrite)
  | pWReturnGranted {t l} : s.pc t = .waitWrite → s.lock.nbrActive = 0 → s.lock.nbwActive = 0 →
      l.counters =
        (s.lock.nbrActive, s.lock.nbrWaiting, s.lock.nbwActive + 1, s.lock.nbwWaiting - 1) →
      Moves s (.pWReturn t) (s.move t l .writing)
  | pWReturnBlocked {t l} : s.pc t = .waitWrite →
      l.counters = (s.lock.nbrActive, s.lock.nbrWaiting, s.lock.nbwActive, s.lock.nbwWaiting) →
      Moves s (.pWReturn t) (s.move t l .waitWrite)
  | vW {t u l} : s.pc t = .writing →
      l.counters = (s.lock.nbrActive, s.lock.nbrWaiting, s.lock.nbwActive - 1, s.lock.nbwWaiting) →
      Moves s (.vW t u) (s.move t l .idle)
  | rwLockDowngrade {t l} : s.pc t = .writing →
      l.counters =
        (s.lock.nbrActive + 1, s.lock.nbrWaiting, s.lock.nbwActive - 1, s.lock.nbwWaiting) →
      Moves s (.rwLockDowngrade t) (s.move t l .reading)
  | wake {t l} : l.counters = s.lock.counters →
      Moves s (.wake t) { s with lock := l }

/-- Every step is one of these moves. -/
theorem step_moves {s s' : State Thread} {e : Event Thread} (h : step s e = some s') :
    Moves s e s' := by
  cases e with
  | pR t =>
    simp only [step, Option.ite_none_right_eq_some, Option.some.injEq] at h
    obtain ⟨hpc, rfl⟩ := h
    unfold pR
    simp only
    split
    · -- a reader waits as long as a writer is active or waiting
      exact .pRBlocked hpc rfl
    · exact .pRGranted hpc (by omega) rfl
  | pRReturn t =>
    simp only [step, Option.ite_none_right_eq_some, Option.some.injEq] at h
    obtain ⟨⟨hpc, -⟩, rfl⟩ := h
    exact .pRReturn hpc rfl
  | vR t u =>
    simp only [step, Option.ite_none_right_eq_some, Option.map_eq_some_iff] at h
    obtain ⟨hpc, l, hl, rfl⟩ := h
    exact .vR hpc (vR_counters hl)
  | pW t =>
    simp only [step, Option.ite_none_right_eq_some, Option.some.injEq] at h
    obtain ⟨hpc, rfl⟩ := h
    unfold pW pWLoop
    simp only
    split
    · exact .pWBlocked hpc rfl
    · exact .pWGranted hpc (by omega) (by omega) rfl
  | pWReturn t =>
    simp only [step, Option.ite_none_right_eq_some, Option.some.injEq] at h
    obtain ⟨⟨hpc, -⟩, rfl⟩ := h
    unfold pWLoop
    split
    · exact .pWReturnBlocked hpc rfl
    · exact .pWReturnGranted hpc (by omega) (by omega) rfl
  | vW t u =>
    simp only [step, Option.ite_none_right_eq_some, Option.map_eq_some_iff] at h
    obtain ⟨hpc, l, hl, rfl⟩ := h
    exact .vW hpc (vW_counters hl)
  | rwLockDowngrade t =>
    simp only [step, Option.ite_none_right_eq_some, Option.some.injEq] at h
    obtain ⟨hpc, rfl⟩ := h
    exact .rwLockDowngrade hpc (rwLockDowngrade_counters s.lock)
  | wake t =>
    simp only [step, Option.some.injEq] at h
    subst h
    exact .wake rfl

/-- Every step keeps the counters. -/
lemma Counted.step {s s' : State Thread} {e : Event Thread} (hc : Counted s)
    (h : step s e = some s') : Counted s' := by
  cases step_moves h with
  | pRGranted hpc hw hl => exact hc.move hpc hl (by simp [share])
  | pRBlocked hpc hl => exact hc.move hpc hl (by simp [share])
  | pRReturn hpc hl =>
    have hpos := hc.waitRead.pos hpc
    exact hc.move hpc hl (by simp [share]; omega)
  | vR hpc hl =>
    have hpos := hc.reading.pos hpc
    exact hc.move hpc hl (by simp [share]; omega)
  | pWGranted hpc hr hw hl => exact hc.move hpc hl (by simp [share])
  | pWBlocked hpc hl => exact hc.move hpc hl (by simp [share])
  | pWReturnGranted hpc hr hw hl =>
    have hpos := hc.waitWrite.pos hpc
    exact hc.move hpc hl (by simp [share]; omega)
  | pWReturnBlocked hpc hl => exact hc.move hpc hl (by simp [share])
  | vW hpc hl =>
    have hpos := hc.writing.pos hpc
    exact hc.move hpc hl (by simp [share]; omega)
  | rwLockDowngrade hpc hl =>
    have hpos := hc.writing.pos hpc
    exact hc.move hpc hl (by simp [share]; omega)
  | wake hl =>
    simp only [RwLock.counters, Prod.mk.injEq] at hl
    obtain ⟨hr, hrw, hw, hww⟩ := hl
    exact ⟨hr ▸ hc.reading, hrw ▸ hc.waitRead, hw ▸ hc.writing, hww ▸ hc.waitWrite⟩

/-- In every reachable state the counters are the numbers of threads; in particular none is
decremented at 0. -/
theorem counted_of_reachable {s : State Thread} (h : Reachable step initialState s) :
    Counted s := by
  refine h.invariant ?_ fun s e s' hc _ hs => hc.step hs
  have hempty : ∀ p : Pc, p ≠ .idle → Counts (fun _ : Thread => Pc.idle) p 0 := fun p hp =>
    ⟨∅, fun t => by simp [hp.symm], rfl⟩
  exact ⟨hempty _ (by decide), hempty _ (by decide), hempty _ (by decide), hempty _ (by decide)⟩

/-- A writer and a reader that waits for it. -/
theorem counted_of_reachable_two : ∃ s : State (Fin 2),
    execute step initialState [.pW 0, .pR 1] = some s ∧ s.lock.nbrWaiting = 1 ∧ Counted s :=
  ⟨_, rfl, rfl, counted_of_reachable (@reachable_of_execute _ _ _ [.pW 0, .pR 1] _ _ rfl)⟩

/-! ## Exclusion -/

/-- At most one writer, and no reader beside it. -/
def RwLock.Exclusive (l : RwLock Thread) : Prop :=
  l.nbwActive ≤ 1 ∧ (l.nbwActive = 1 → l.nbrActive = 0)

/-- A reader that returns from `pthread_cond_wait` does so while no writer is active. -/
def ReturnsWithoutWriter (s : State Thread) : Event Thread → Prop
  | .pRReturn _ => s.lock.nbwActive = 0
  | _ => True

/-- Every step without a writer at the reader's return. -/
lemma RwLock.Exclusive.step {s s' : State Thread} {e : Event Thread} (hx : s.lock.Exclusive)
    (hC : ReturnsWithoutWriter s e) (h : step s e = some s') : s'.lock.Exclusive := by
  unfold RwLock.Exclusive at *
  cases step_moves h with
  | pRReturn hpc hl =>
    simp only [ReturnsWithoutWriter] at hC
    simp only [RwLock.counters, Prod.mk.injEq] at hl
    simp only [State.move]
    omega
  | wake hl =>
    simp only [RwLock.counters, Prod.mk.injEq] at hl
    simp only
    omega
  | _ =>
    rename_i hl
    simp only [RwLock.counters, Prod.mk.injEq] at hl
    simp only [State.move]
    omega

/-- The condition is sharp: a reader that returns beside an active writer breaks exclusion. -/
theorem not_exclusive_of_return_beside_writer {s s' : State Thread} {t : Thread}
    (hw : 0 < s.lock.nbwActive) (h : step s (.pRReturn t) = some s') : ¬ s'.lock.Exclusive := by
  unfold RwLock.Exclusive
  cases step_moves h with
  | pRReturn hpc hl =>
    simp only [RwLock.counters, Prod.mk.injEq] at hl
    simp only [State.move]
    omega

/-- For any threads and any interleaving in which readers return from `pthread_cond_wait` only
while no writer is active, every state reached is exclusive. -/
theorem exclusive_of_reachableBy_returnsWithoutWriter (s : State Thread)
    (h : ReachableBy step ReturnsWithoutWriter initialState s) :
    s.lock.nbwActive ≤ 1 ∧ (s.lock.nbwActive = 1 → s.lock.nbrActive = 0) := by
  have hinit : (initialState : State Thread).lock.Exclusive := by
    simp [RwLock.Exclusive, initialState, rwLockInit]
  exact h.invariant (I := fun s => s.lock.Exclusive) hinit fun s e s' hx hC hs => hx.step hC hs

/-- A writer, a reader that waits for it and comes back after its release. -/
theorem exclusive_after_reader_waited :
    ∃ s : State (Fin 2), execute step initialState [.pW 0, .pR 1, .vW 0 0, .pRReturn 1] = some s ∧
      s.lock.nbrActive = 1 ∧
      s.lock.nbwActive ≤ 1 ∧ (s.lock.nbwActive = 1 → s.lock.nbrActive = 0) := by
  have hmeets : Meets step ReturnsWithoutWriter (initialState : State (Fin 2))
      [.pW 0, .pR 1, .vW 0 0, .pRReturn 1] := ⟨trivial, trivial, trivial, rfl, trivial⟩
  exact ⟨_, rfl, rfl, exclusive_of_reachableBy_returnsWithoutWriter _
    (reachableBy_of_execute rfl hmeets)⟩

/-- Thread 1 waits for writer 0 and is woken by its release; writer 2 takes the lock before
thread 1 has the mutex again, and thread 1 becomes a reader beside it. -/
theorem not_exclusive_after_writer_overtakes :
    ¬ ∀ s : State (Fin 3), Reachable step initialState s →
      s.lock.nbwActive ≤ 1 ∧ (s.lock.nbwActive = 1 → s.lock.nbrActive = 0) := by
  intro hall
  have hrun : ∃ s : State (Fin 3), execute step initialState
      [.pW 0, .pR 1, .vW 0 0, .pW 2, .pRReturn 1] = some s ∧
      s.lock.nbwActive = 1 ∧ s.lock.nbrActive = 1 := ⟨_, rfl, rfl, rfl⟩
  obtain ⟨s, hs, hw, hr⟩ := hrun
  have hx := (hall s (reachable_of_execute hs)).2 hw
  omega

end Ganesha.RWLock
