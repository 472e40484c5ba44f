import Mathlib.Data.List.Basic

/-! Runs of a partial step function, under a condition on the steps that they take. -/

namespace Buh.Library.Runs

variable {State Action : Type*}

/-- The states that an initial one leads to, when every step is allowed where it is taken. -/
inductive Run (step : State → Action → Option State) (allowed : State → Action → Prop) (initial : State → Prop) :
    State → Prop
  | start {state : State} : initial state → Run step allowed initial state
  | step {state next : State} {action : Action} : Run step allowed initial state → allowed state action →
      step state action = some next → Run step allowed initial next

/-- The actions can be taken one after the other, each where the condition allows it. -/
def Follows (step : State → Action → Option State) (allowed : State → Action → Prop) :
    State → List Action → State → Prop
  | state, [], after => after = state
  | state, action :: actions, after =>
    allowed state action ∧ ∃ between, step state action = some between ∧ Follows step allowed between actions after

variable {step : State → Action → Option State} {allowed other : State → Action → Prop} {initial motive : State → Prop}
  {state after : State} {actions : List Action}

/-- What holds at first and is kept by every allowed step holds of every state reached. -/
theorem Run.invariant (begins : ∀ ⦃state⦄, initial state → motive state)
    (keeps : ∀ ⦃state next action⦄, motive state → allowed state action → step state action = some next → motive next)
    (run : Run step allowed initial state) : motive state := by
  induction run with
  | start first => exact begins first
  | step _ fits stepped ih => exact keeps ih fits stepped

/-- A run under a condition is one under every weaker condition. -/
theorem Run.mono (weaker : ∀ ⦃state action⦄, allowed state action → other state action)
    (run : Run step allowed initial state) : Run step other initial state := by
  induction run with
  | start first => exact .start first
  | step _ fits stepped ih => exact ih.step (weaker fits) stepped

theorem Follows.invariant
    (keeps : ∀ ⦃state next action⦄, motive state → allowed state action → step state action = some next → motive next)
    (begins : motive state) (follows : Follows step allowed state actions after) : motive after := by
  induction actions generalizing state with
  | nil =>
    cases follows
    exact begins
  | cons action actions ih =>
    obtain ⟨fits, between, stepped, rest⟩ := follows
    exact ih (keeps begins fits stepped) rest

/-- Actions taken one after the other lead on from a run. -/
theorem Run.follow (run : Run step allowed initial state) (follows : Follows step allowed state actions after) :
    Run step allowed initial after :=
  follows.invariant (fun _ _ _ reached fits stepped => reached.step fits stepped) run

/-- Actions that are allowed everywhere follow each other where the steps can be taken. -/
theorem follows_of_foldlM (free : ∀ action ∈ actions, ∀ state, allowed state action)
    (ran : actions.foldlM step state = some after) : Follows step allowed state actions after := by
  induction actions generalizing state with
  | nil => exact (Option.some.inj ran).symm
  | cons action actions ih =>
    rw [List.foldlM_cons] at ran
    obtain ⟨between, stepped, rest⟩ := Option.bind_eq_some_iff.mp ran
    exact ⟨free action List.mem_cons_self state, between, stepped,
      ih (fun later member => free later (List.mem_cons_of_mem _ member)) rest⟩

end Buh.Library.Runs
