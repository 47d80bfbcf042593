import PointerAnalysis.Solver.Basic

/-! Statements about computations of the solver. A computation is described by what holds of its
value and state when it succeeds, and of its error and state when it is given up. -/
namespace PointerAnalysis.Solver

variable {E S α β : Type} [Coded E]

/-- What a computation leads to from a state. -/
def Outcome (m : Solver E S α) (s : State E S) (success : α → State E S → Prop)
    (failure : AnalysisError → State E S → Prop) : Prop :=
  match m.run s with
  | .ok x s' => success x s'
  | .error e s' => failure e s'

variable {s : State E S} {success : α → State E S → Prop}
  {failure : AnalysisError → State E S → Prop}

theorem Outcome.mono {m : Solver E S α} {success' : α → State E S → Prop}
    {failure' : AnalysisError → State E S → Prop} (outcome : Outcome m s success failure)
    (succeeds : ∀ x s', success x s' → success' x s')
    (fails : ∀ e s', failure e s' → failure' e s') : Outcome m s success' failure' := by
  unfold Outcome at outcome ⊢
  cases run : m.run s with
  | ok x s' =>
    rw [run] at outcome
    exact succeeds x s' outcome
  | error e s' =>
    rw [run] at outcome
    exact fails e s' outcome

/-- What two statements say about a computation holds together. -/
theorem Outcome.and {m : Solver E S α} {success' : α → State E S → Prop}
    {failure' : AnalysisError → State E S → Prop} (first : Outcome m s success failure)
    (second : Outcome m s success' failure') :
    Outcome m s (fun x s' => success x s' ∧ success' x s') (fun e s' => failure e s' ∧ failure' e s') := by
  unfold Outcome at first second ⊢
  cases run : m.run s with
  | ok x s' =>
    rw [run] at first second
    exact ⟨first, second⟩
  | error e s' =>
    rw [run] at first second
    exact ⟨first, second⟩

theorem Outcome.of_ok {m : Solver E S α} {x : α} {s' : State E S}
    (outcome : Outcome m s success failure) (ran : m.run s = .ok x s') : success x s' := by
  rwa [Outcome, ran] at outcome

theorem Outcome.of_error {m : Solver E S α} {e : AnalysisError} {s' : State E S}
    (outcome : Outcome m s success failure) (ran : m.run s = .error e s') : failure e s' := by
  rwa [Outcome, ran] at outcome

theorem outcome_of_run {m : Solver E S α} (succeeds : ∀ x s', m.run s = .ok x s' → success x s')
    (fails : ∀ e s', m.run s = .error e s' → failure e s') : Outcome m s success failure := by
  unfold Outcome
  cases run : m.run s with
  | ok x s' => exact succeeds x s' run
  | error e s' => exact fails e s' run

theorem outcome_pure {x : α} (holds : success x s) : Outcome (pure x) s success failure := holds

theorem outcome_throw {e : AnalysisError} (fails : failure e s) :
    Outcome (throw e : Solver E S α) s success failure := fails

theorem outcome_get {success : State E S → State E S → Prop} (holds : success s s) :
    Outcome (get : Solver E S (State E S)) s success failure := holds

theorem outcome_modify {success : Unit → State E S → Prop} {change : State E S → State E S}
    (holds : success () (change s)) :
    Outcome (modify change : Solver E S Unit) s success failure := holds

theorem outcome_modifyGet {change : State E S → α × State E S}
    (holds : success (change s).1 (change s).2) :
    Outcome (modifyGet change : Solver E S α) s success failure := holds

/-- Of a chain, the second part starts where the first has led. -/
theorem outcome_bind {m : Solver E S α} {f : α → Solver E S β} {success : β → State E S → Prop}
    (first : Outcome m s (fun x s' => Outcome (f x) s' success failure) failure) :
    Outcome (m >>= f) s success failure := by
  unfold Outcome at first ⊢
  show match EStateM.bind m f s with
    | .ok x s' => success x s'
    | .error e s' => failure e s'
  unfold EStateM.bind
  cases run : m s with
  | ok x s' =>
    rw [show m.run s = _ from run] at first
    exact first
  | error e s' =>
    rw [show m.run s = _ from run] at first
    exact first

theorem outcome_known {found : Except UnknownId α} {x : α} (same : found = .ok x)
    (holds : success x s) : Outcome (known found : Solver E S α) s success failure := by
  subst same
  exact holds

end PointerAnalysis.Solver
