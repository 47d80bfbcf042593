import PointerAnalysis.Proofs.Solver.Termination

/-! Runs without a bound. A loop of steps goes on until one of them finds nothing to do or is given
up, and nothing says beforehand how long that takes. A bounded run is such a loop cut short; its bound
is never met, so the loop comes to an end, and to the same one. -/
namespace PointerAnalysis.Solver

variable {E S : Type} [Coded E] [IdSet S .contextObject] {a : Analysis E} {s : State E S}

/-- How a run ends: with a last state, or given up in one. -/
abbrev Ending (E S : Type) [Coded E] := EStateM.Result AnalysisError (State E S) Unit

/-- Steps are repeated until one finds nothing to do or is given up, however many there are. -/
inductive Repeats (a : Analysis E) : State E S → Ending E S → Prop where
  | rest {s s' : State E S} : (step a).run s = .ok false s' → Repeats a s (.ok () s')
  | givenUp {s s' : State E S} {e : AnalysisError} :
      (step a).run s = .error e s' → Repeats a s (.error e s')
  | next {s s' : State E S} {ending : Ending E S} :
      (step a).run s = .ok true s' → Repeats a s' ending → Repeats a s ending

/-- A start with all the steps that follow it. -/
inductive RunsTo (a : Analysis E) : Ending E S → Prop where
  | givenUp {s : State E S} {e : AnalysisError} :
      (start a).run .empty = .error e s → RunsTo a (.error e s)
  | started {s : State E S} {ending : Ending E S} :
      (start a).run .empty = .ok () s → Repeats a s ending → RunsTo a ending

/-- A loop has one end at most. -/
theorem Repeats.unique {ending ending' : Ending E S} (first : Repeats a s ending)
    (second : Repeats a s ending') : ending = ending' := by
  induction first with
  | rest ran =>
    cases second with
    | rest ran' =>
      cases ran.symm.trans ran'
      rfl
    | givenUp ran' => cases ran.symm.trans ran'
    | next ran' => cases ran.symm.trans ran'
  | givenUp ran =>
    cases second with
    | rest ran' => cases ran.symm.trans ran'
    | givenUp ran' =>
      cases ran.symm.trans ran'
      rfl
    | next ran' => cases ran.symm.trans ran'
  | next ran _ ih =>
    cases second with
    | rest ran' => cases ran.symm.trans ran'
    | givenUp ran' => cases ran.symm.trans ran'
    | next ran' rest =>
      cases ran.symm.trans ran'
      exact ih rest

theorem RunsTo.unique {ending ending' : Ending E S} (first : RunsTo a ending)
    (second : RunsTo a ending') : ending = ending' := by
  cases first with
  | givenUp failed =>
    cases second with
    | givenUp failed' =>
      cases failed.symm.trans failed'
      rfl
    | started ran' => cases failed.symm.trans ran'
  | started ran repeats =>
    cases second with
    | givenUp failed' => cases ran.symm.trans failed'
    | started ran' repeats' =>
      cases ran.symm.trans ran'
      exact repeats.unique repeats'

/-- Where bounded steps have led from a state: to the end of its loop, or to a state from which the
loop goes on. -/
private def Continues (a : Analysis E) (s : State E S) (done : Bool) (s' : State E S) : Prop :=
  ∀ ending, (if done then ending = .ok () s' else Repeats a s' ending) → Repeats a s ending

private theorem continues_runFor (steps : Nat) (s : State E S) :
    Outcome (runFor a steps) s (Continues a s) (fun e s' => Repeats a s (.error e s')) := by
  induction steps generalizing s with
  | zero => exact outcome_pure fun _ repeats => repeats
  | succ steps ih =>
    refine outcome_bind (outcome_of_run ?_ fun e s' failed => .givenUp failed)
    intro more s' ran
    cases more with
    | false =>
      refine outcome_pure fun ending last => ?_
      rw [if_pos rfl] at last
      exact last ▸ .rest ran
    | true =>
      exact (ih s').mono (fun _ _ goes ending last => .next ran (goes ending last))
        fun _ _ => .next ran

private theorem continues_runRounds (budget rounds : Nat) (s : State E S) :
    Outcome (runRounds a budget rounds) s (Continues a s) (fun e s' => Repeats a s (.error e s')) := by
  induction rounds generalizing s budget with
  | zero => exact outcome_pure fun _ repeats => repeats
  | succ rounds ih =>
    refine outcome_bind ((continues_runFor budget s).mono ?_ fun _ _ => id)
    rintro (_ | _) s' goes
    · exact (ih (2 * budget) s').mono (fun _ _ goes' ending last => goes ending (goes' ending last))
        fun _ _ => goes _
    · exact outcome_pure goes

variable [LawfulIdSet S]

/-- A bounded run is the loop without bound. -/
theorem solve_runsTo (coherent : a.Coherent) {contexts : List (Context E)}
    {objects : List AbstractObject} (bounded : a.Bounded contexts objects) (ending : Ending E S) :
    RunsTo a ending ↔ (solve a).run .empty = ending := by
  have outcome : Outcome (solve a) (.empty : State E S) (fun _ s' => RunsTo a (.ok () s'))
      (fun e s' => RunsTo a (.error e s')) := by
    refine outcome_bind (outcome_of_run ?_ fun _ _ => .givenUp)
    intro _ s started
    have rounds := continues_runRounds (a := a) 1 a.rounds s
    refine outcome_bind (outcome_of_run ?_ fun _ _ ran => .started started (rounds.of_error ran))
    intro done s' ran
    -- Rounds that run out would leave the loop unfinished, but they are too many to run out.
    have all := runRounds_done coherent bounded started ran
    subst all
    exact outcome_pure (.started started (rounds.of_ok ran _ rfl))
  have runs : RunsTo a ((solve a).run (.empty : State E S)) := by
    cases ran : (solve a).run (.empty : State E S) with
    | ok _ s' => exact outcome.of_ok ran
    | error e s' => exact outcome.of_error ran
  exact ⟨fun runs' => runs.unique runs', fun same => same ▸ runs⟩

end PointerAnalysis.Solver
