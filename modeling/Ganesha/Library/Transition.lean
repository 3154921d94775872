import Mathlib.Logic.Relation
import Mathlib.Data.List.Basic

/-!
# Runs of a partial step function

A component is given as a partial step function `step : σ → ε → Option σ`: the event carries
every choice that is not the component's own (which thread moves, what the environment answers),
and `none` says that the event is not possible in this state.
-/

namespace Library.Transition

variable {σ ε : Type*}

/-- The states reached from `s₀` by steps each of which meets `C` (on the state it is taken in). -/
inductive ReachableBy (step : σ → ε → Option σ) (C : σ → ε → Prop) (s₀ : σ) : σ → Prop
  | init : ReachableBy step C s₀ s₀
  | next {s s' : σ} {e : ε} : ReachableBy step C s₀ s → C s e → step s e = some s' →
      ReachableBy step C s₀ s'

/-- The states reached from `s₀` by any steps. -/
abbrev Reachable (step : σ → ε → Option σ) (s₀ : σ) : σ → Prop :=
  ReachableBy step (fun _ _ => True) s₀

variable {step : σ → ε → Option σ} {C : σ → ε → Prop} {s₀ s : σ}

/-- An invariant of the initial state that every step meeting `C` keeps holds in every state
reached by such steps. -/
theorem ReachableBy.invariant {I : σ → Prop} (hinit : I s₀)
    (hstep : ∀ s e s', I s → C s e → step s e = some s' → I s')
    (h : ReachableBy step C s₀ s) : I s := by
  induction h with
  | init => exact hinit
  | next _ hC hs ih => exact hstep _ _ _ ih hC hs

/-- The run along a list of events, first event first. -/
def execute (step : σ → ε → Option σ) : σ → List ε → Option σ
  | s, [] => some s
  | s, e :: es => (step s e).bind fun s' => execute step s' es

/-- A run in two parts. -/
theorem execute_append {es₁ es₂ : List ε} :
    execute step s (es₁ ++ es₂) = (execute step s es₁).bind fun s' => execute step s' es₂ := by
  induction es₁ generalizing s with
  | nil => rfl
  | cons e es₁ ih =>
    simp only [List.cons_append, execute]
    cases step s e with
    | none => rfl
    | some s' => exact ih

/-- What is reached from a reachable state is reachable. -/
theorem ReachableBy.trans {s₁ : σ} (h₁ : ReachableBy step C s₀ s₁)
    (h₂ : ReachableBy step C s₁ s) : ReachableBy step C s₀ s := by
  induction h₂ with
  | init => exact h₁
  | next _ hC hs ih => exact ih.next hC hs

/-- Every step of the run along a list of events meets `C`. -/
def Meets (step : σ → ε → Option σ) (C : σ → ε → Prop) : σ → List ε → Prop
  | _, [] => True
  | s, e :: es => C s e ∧ match step s e with
    | none => True
    | some s' => Meets step C s' es

instance Meets.decidable (step : σ → ε → Option σ) (C : σ → ε → Prop)
    [∀ s e, Decidable (C s e)] : ∀ s es, Decidable (Meets step C s es)
  | _, [] => isTrue trivial
  | s, e :: es => match h : step s e with
    | none => decidable_of_iff (C s e) (by simp [Meets, h])
    | some s' =>
      have := Meets.decidable step C s' es
      decidable_of_iff (C s e ∧ Meets step C s' es) (by simp [Meets, h])

/-- A run whose steps meet `C` meets what follows from it. -/
theorem Meets.mono {C' : σ → ε → Prop} (hC : ∀ s e, C s e → C' s e) {es : List ε} {s : σ}
    (h : Meets step C s es) : Meets step C' s es := by
  induction es generalizing s with
  | nil => trivial
  | cons e es ih =>
    rw [Meets] at h ⊢
    refine ⟨hC s e h.1, ?_⟩
    cases hs : step s e with
    | none => trivial
    | some s' =>
      rw [hs] at h
      exact ih h.2

/-- The last state of a run whose steps meet `C`. -/
theorem reachableBy_of_execute {es : List ε} {s₀ s : σ} (h : execute step s₀ es = some s)
    (hC : Meets step C s₀ es) : ReachableBy step C s₀ s := by
  induction es generalizing s₀ with
  | nil =>
    simp only [execute, Option.some.injEq] at h
    exact h ▸ .init
  | cons e es ih =>
    simp only [execute, Option.bind_eq_some_iff] at h
    obtain ⟨s₁, hs, hes⟩ := h
    simp only [Meets, hs] at hC
    exact (ReachableBy.init.next hC.1 hs).trans (ih hes hC.2)

/-- The last state of a run is reachable. -/
theorem reachable_of_execute {es : List ε} {s₀ s : σ} (h : execute step s₀ es = some s) :
    Reachable step s₀ s := by
  refine reachableBy_of_execute h ?_
  induction es generalizing s₀ with
  | nil => trivial
  | cons e es ih =>
    simp only [execute, Option.bind_eq_some_iff] at h
    obtain ⟨s₁, hs, hes⟩ := h
    simp only [Meets, hs]
    exact ⟨trivial, ih hes⟩

end Library.Transition
