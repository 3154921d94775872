import Ganesha.SemN.Common

/-!
# The counting semaphore, theorems

No more calls of `semaphore_P` return than there are tokens. A blocked thread gets a token that is
given if no `semaphore_V` finds two threads in `semaphore_P` and no thread enters `semaphore_P` at
`count` 0 beside one that is woken (`tokens_of_careful`). Else the woken thread finds `count` still
negative, waits again, and the token is lost (`not_tokens_of_two_waiters`).
-/

namespace Ganesha.SemN
open Library.Transition
open RWLock (pthreadCondSignal)

variable {Thread : Type} [DecidableEq Thread] {s s' : State Thread} {value : ℤ}

/-- The number of the threads in `semaphore_P`. -/
def State.inside (s : State Thread) : ℕ := s.sem.cond.length + s.woken.length

/-- What a step does: a thread enters and blocks or leaves, a woken one blocks again or leaves, a
token comes and a thread is woken or there is none to wake, a thread is woken for nothing. -/
lemma step_cases {e : Event Thread} (h : step s e = some s') :
    (∃ t, e = .semaphoreP t ∧ s.sem.count - 1 < 0 ∧
      s' = { s with sem := ⟨s.sem.count - 1, s.sem.cond ++ [t]⟩ }) ∨
    (∃ t, e = .semaphoreP t ∧ 0 ≤ s.sem.count - 1 ∧
      s' = { s with sem := ⟨s.sem.count - 1, s.sem.cond⟩, completed := s.completed + 1 }) ∨
    (∃ t ∈ s.woken, s.sem.count < 0 ∧ e = .semaphorePReturn t ∧
      s' = { s with sem := ⟨s.sem.count, s.sem.cond ++ [t]⟩, woken := s.woken.erase t }) ∨
    (∃ t ∈ s.woken, 0 ≤ s.sem.count ∧ e = .semaphorePReturn t ∧
      s' = { s with woken := s.woken.erase t, completed := s.completed + 1 }) ∨
    (∃ u ∈ s.sem.cond, e = .semaphoreV u ∧
      s' = ⟨⟨s.sem.count + 1, s.sem.cond.erase u⟩, u :: s.woken, s.completed, s.released + 1⟩) ∨
    (∃ u, e = .semaphoreV u ∧ (s.sem.cond = [] ∨ 0 < s.sem.count + 1) ∧
      s' = { s with sem := ⟨s.sem.count + 1, s.sem.cond⟩, released := s.released + 1 }) ∨
    (∃ t ∈ s.sem.cond, e = .wake t ∧
      s' = { s with sem := ⟨s.sem.count, s.sem.cond.erase t⟩, woken := t :: s.woken }) := by
  -- a waiting thread that is woken leaves the list
  have herase : ∀ u ∈ s.sem.cond, ¬ s.sem.cond.erase u = s.sem.cond := by
    intro u hu heq
    have hlength := List.length_erase_of_mem hu
    have hpos := List.length_pos_of_mem hu
    rw [heq] at hlength
    omega
  cases e with
  | semaphoreP t =>
    rw [step] at h
    split_ifs at h
    rw [Option.some.injEq, semaphoreP, waitLoop] at h
    by_cases hneg : s.sem.count - 1 < 0
    · rw [if_pos hneg] at h
      exact .inl ⟨t, rfl, hneg, h.symm⟩
    · rw [if_neg hneg] at h
      exact .inr (.inl ⟨t, rfl, by omega, h.symm⟩)
  | semaphorePReturn t =>
    rw [step] at h
    split_ifs at h with ht
    rw [Option.some.injEq, waitLoop] at h
    by_cases hneg : s.sem.count < 0
    · rw [if_pos hneg] at h
      exact .inr (.inr (.inl ⟨t, ht, hneg, rfl, h.symm⟩))
    · rw [if_neg hneg] at h
      exact .inr (.inr (.inr (.inl ⟨t, ht, by omega, rfl, h.symm⟩)))
  | semaphoreV u =>
    rw [step, semaphoreV, Option.map_eq_some_iff] at h
    obtain ⟨sem, hsem, rfl⟩ := h
    by_cases hle : s.sem.count + 1 ≤ 0
    · simp only [if_pos hle, pthreadCondSignal] at hsem
      by_cases hnil : s.sem.cond = []
      · rw [if_pos hnil, Option.map_some, Option.some.injEq] at hsem
        refine .inr (.inr (.inr (.inr (.inr (.inl ⟨u, rfl, .inl hnil, ?_⟩)))))
        rw [State.awaken, ← hsem, hnil, if_pos rfl]
      · rw [if_neg hnil] at hsem
        split_ifs at hsem with hu
        · rw [Option.map_some, Option.some.injEq] at hsem
          refine .inr (.inr (.inr (.inr (.inl ⟨u, hu, rfl, ?_⟩))))
          rw [State.awaken, ← hsem, if_neg (herase u hu)]
        · cases hsem
    · simp only [if_neg hle, Option.some.injEq] at hsem
      refine .inr (.inr (.inr (.inr (.inr (.inl ⟨u, rfl, .inr (by omega), ?_⟩)))))
      rw [State.awaken, ← hsem, if_pos rfl]
  | wake t =>
    rw [step] at h
    split_ifs at h with ht
    rw [Option.some.injEq] at h
    refine .inr (.inr (.inr (.inr (.inr (.inr ⟨t, ht, rfl, ?_⟩)))))
    rw [← h, State.awaken, if_neg (herase t ht)]

/-- `count` is what is left of the tokens when every thread in `semaphore_P` has taken one. -/
def Counted (value : ℤ) (s : State Thread) : Prop :=
  s.sem.count = value + s.released - s.completed - s.inside

/-- Every step keeps the count. -/
lemma Counted.step {e : Event Thread} (h : Counted value s) (hs : step s e = some s') :
    Counted value s' := by
  have hmem : ∀ {l : List Thread} {t : Thread}, t ∈ l → l.length = (l.erase t).length + 1 := by
    intro l t ht
    have hpos := List.length_pos_of_mem ht
    rw [List.length_erase_of_mem ht]
    omega
  rw [Counted, State.inside] at h ⊢
  rcases step_cases hs with ⟨t, -, -, rfl⟩ | ⟨t, -, -, rfl⟩ | ⟨t, ht, -, -, rfl⟩ | ⟨t, ht, -, -, rfl⟩ |
    ⟨u, hu, -, rfl⟩ | ⟨u, -, -, rfl⟩ | ⟨t, ht, -, rfl⟩
  · simp only [List.length_append, List.length_singleton]
    omega
  · simp only
    omega
  · have := hmem ht
    simp only [List.length_append, List.length_singleton]
    omega
  · have := hmem ht
    simp only
    omega
  · have := hmem hu
    simp only [List.length_cons]
    omega
  · simp only
    omega
  · have := hmem ht
    simp only [List.length_cons]
    omega

/-- The condition: a token comes only when at most one thread is in `semaphore_P`, and no thread
enters at `count` 0 while one that is woken is not back yet. -/
def Careful (s : State Thread) : Event Thread → Prop
  | .semaphoreP _ => s.woken = [] ∨ s.sem.count ≠ 0
  | .semaphoreV _ => s.inside ≤ 1
  | _ => True

instance (s : State Thread) : (e : Event Thread) → Decidable (Careful s e)
  | .semaphoreP _ => inferInstanceAs (Decidable (_ ∨ _))
  | .semaphoreV _ => inferInstanceAs (Decidable (_ ≤ _))
  | .semaphorePReturn _ => inferInstanceAs (Decidable True)
  | .wake _ => inferInstanceAs (Decidable True)

/-- What careful steps keep: no token is left when `count` is negative, and it is negative when a
thread is blocked. -/
structure Kept (s : State Thread) : Prop where
  none_left : s.sem.count < 0 → s.sem.count + s.inside ≤ 0
  blocked : s.sem.cond ≠ [] → s.sem.count < 0

/-- Every careful step keeps the tokens. -/
lemma Kept.step {e : Event Thread} (h : Kept s) (hcareful : Careful s e) (hs : step s e = some s') :
    Kept s' := by
  have hnone := h.none_left
  have hblocked := h.blocked
  rw [State.inside] at hnone
  rcases step_cases hs with ⟨t, rfl, hneg, rfl⟩ | ⟨t, -, hpos, rfl⟩ | ⟨t, ht, hneg, -, rfl⟩ |
    ⟨t, ht, hpos, -, rfl⟩ | ⟨u, hu, rfl, rfl⟩ | ⟨u, rfl, hnil, rfl⟩ | ⟨t, ht, -, rfl⟩
  · refine ⟨fun _ => ?_, fun _ => hneg⟩
    rw [State.inside]
    simp only [List.length_append, List.length_singleton]
    by_cases hcount : s.sem.count < 0
    · have := hnone hcount
      omega
    · -- `count` is 0, so no thread is blocked, and none is woken by the condition
      have hcond : s.sem.cond = [] := by
        by_contra hne
        exact hcount (hblocked hne)
      have hwoken : s.woken = [] := hcareful.resolve_right fun hne => by omega
      rw [hcond, hwoken]
      simp only [List.length_nil]
      omega
  · refine ⟨fun hneg => absurd hneg (by simp only; omega), fun hne => ?_⟩
    have := hblocked hne
    omega
  · refine ⟨fun _ => ?_, fun _ => hneg⟩
    have hlength := List.length_erase_of_mem ht
    have hposlen := List.length_pos_of_mem ht
    have := hnone hneg
    rw [State.inside]
    simp only [List.length_append, List.length_singleton]
    omega
  · refine ⟨fun hneg => absurd hneg (by simp only; omega), fun hne => ?_⟩
    have := hblocked hne
    omega
  · -- the one thread in `semaphore_P` is woken
    have hinside : s.sem.cond.length + s.woken.length ≤ 1 := hcareful
    have hposlen := List.length_pos_of_mem hu
    have hlength := List.length_erase_of_mem hu
    refine ⟨fun hneg => ?_, fun hne => ?_⟩
    · rw [State.inside]
      simp only [List.length_cons]
      simp only at hneg
      omega
    · have hcond : s.sem.cond.erase u = [] := List.eq_nil_of_length_eq_zero (by omega)
      exact absurd hcond hne
  · have hinside : s.sem.cond.length + s.woken.length ≤ 1 := hcareful
    refine ⟨fun hneg => ?_, fun hne => ?_⟩
    · rw [State.inside]
      simp only at hneg ⊢
      omega
    · have hcount := hblocked hne
      rcases hnil with hnil | hpos
      · exact absurd hnil hne
      · omega
  · have hlength := List.length_erase_of_mem ht
    have hposlen := List.length_pos_of_mem ht
    refine ⟨fun hneg => ?_, fun _ => hblocked (List.ne_nil_of_mem ht)⟩
    have := hnone hneg
    rw [State.inside]
    simp only [List.length_cons]
    omega

/-- A thread is blocked, no wake-up is pending, and there is a token that no call has taken. -/
def TokenLost (value : ℤ) (s : State Thread) : Prop :=
  s.sem.cond ≠ [] ∧ s.woken = [] ∧ (s.completed : ℤ) < value + s.released

instance (value : ℤ) (s : State Thread) : Decidable (TokenLost value s) :=
  inferInstanceAs (Decidable (_ ∧ _ ∧ _))

/-- Completed waits against tokens released. -/
lemma completed_le {s : State Thread} (h : Reachable step (initialState value) s) :
    Counted value s ∧ (s.completed : ℤ) ≤ max 0 (value + s.released) := by
  refine h.invariant (I := fun s => Counted value s ∧ (s.completed : ℤ) ≤ max 0 (value + s.released))
    ⟨?_, ?_⟩ fun s e s' hI _ hs => ⟨hI.1.step hs, ?_⟩
  · simp [Counted, State.inside, initialState, semaphoreInit]
  · simp [initialState]
  · obtain ⟨hcounted, hle⟩ := hI
    rw [Counted, State.inside] at hcounted
    rcases step_cases hs with ⟨t, -, -, rfl⟩ | ⟨t, -, hpos, rfl⟩ | ⟨t, ht, -, -, rfl⟩ |
      ⟨t, ht, hpos, -, rfl⟩ | ⟨u, hu, -, rfl⟩ | ⟨u, -, -, rfl⟩ | ⟨t, ht, -, rfl⟩
    · exact hle
    · simp only
      omega
    · exact hle
    · have hposlen := List.length_pos_of_mem ht
      simp only
      omega
    · simp only
      omega
    · simp only
      omega
    · exact hle

/-- No more calls of `semaphore_P` return than there are tokens, in any run. In a run of careful
steps no token is lost. -/
theorem tokens_of_careful (value : ℤ) :
    (∀ s : State Thread, Reachable step (initialState value) s →
      (s.completed : ℤ) ≤ max 0 (value + s.released)) ∧
    ∀ s : State Thread, ReachableBy step Careful (initialState value) s → ¬ TokenLost value s := by
  refine ⟨fun s h => (completed_le h).2, fun s h => ?_⟩
  have hkept : Counted value s ∧ Kept s := by
    refine h.invariant (I := fun s => Counted value s ∧ Kept s) ⟨?_, ⟨fun hneg => ?_, fun hne => ?_⟩⟩
      fun s e s' hI hcareful hs => ⟨hI.1.step hs, hI.2.step hcareful hs⟩
    · simp [Counted, State.inside, initialState, semaphoreInit]
    · simp only [State.inside, initialState, semaphoreInit] at hneg ⊢
      simp only [List.length_nil]
      omega
    · exact absurd rfl hne
  intro hlost
  obtain ⟨hcounted, hkept⟩ := hkept
  have hneg := hkept.blocked hlost.1
  have hnone := hkept.none_left hneg
  have htoken := hlost.2.2
  rw [Counted] at hcounted
  omega

/-- One token, given back while another thread is blocked. -/
def handOver : List (Event ℕ) := [.semaphoreP 0, .semaphoreP 1, .semaphoreV 1, .semaphorePReturn 1]

/-- Both calls return. -/
theorem tokens_of_careful_handOver :
    (execute step (initialState 1) handOver).any (fun s => s.completed = 2) = true ∧
      ∀ s, execute step (initialState 1) handOver = some s →
        (s.completed : ℤ) ≤ max 0 (1 + s.released) ∧ ¬ TokenLost 1 s := by
  refine ⟨by decide, fun s hs => ?_⟩
  obtain ⟨hle, hlost⟩ := @tokens_of_careful ℕ _ 1
  exact ⟨hle s (reachable_of_execute hs), hlost s (reachableBy_of_execute hs (by decide))⟩

/-- Two threads are blocked when a token comes. The one that is woken finds `count` at -1. -/
def twoWaiters : List (Event ℕ) :=
  [.semaphoreP 0, .semaphoreP 1, .semaphoreP 2, .semaphoreV 1, .semaphorePReturn 1]

/-- Two waiters and one token. -/
theorem not_tokens_of_two_waiters :
    ¬ ∀ s : State ℕ, Reachable step (initialState 1) s → ¬ TokenLost 1 s := by
  intro hall
  have hrun : (execute step (initialState 1) twoWaiters).any (fun s => TokenLost 1 s) = true := by
    decide
  rw [Option.any_eq_true] at hrun
  obtain ⟨s, hs, hlost⟩ := hrun
  exact hall s (reachable_of_execute hs) (of_decide_eq_true hlost)

end Ganesha.SemN
