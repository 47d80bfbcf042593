import PointerAnalysis.Proofs.Solver.Step
import PointerAnalysis.Solver.Run

/-! Whole runs of the solver. Every state of a run is orderly, and one with empty queues has recorded
all that the rules ask for; so a run that comes to an end has found the derivable facts and no
others. -/
namespace PointerAnalysis

variable {E S : Type} [Coded E] [IdSet S .contextObject]

namespace Solver

variable {a : Analysis E} {s : State E S}

/-- Nothing is owed between two steps. -/
def noDebts : Fact E → Prop := fun _ => False

/-- What every state between two steps satisfies. -/
abbrev State.Invariant (a : Analysis E) (s : State E S) : Prop := s.Orderly a noDebts

/-- The states after the start and any number of steps. -/
inductive State.Reachable (a : Analysis E) : State E S → Prop where
  | start {s : State E S} : (start a).run .empty = .ok () s → Reachable a s
  | step {s s' : State E S} {more : Bool} :
      Reachable a s → (step a).run s = .ok more s' → Reachable a s'

/-- The states that a run leaves behind: those between its steps, and the one in which it is given
up. -/
inductive State.Seen (a : Analysis E) : State E S → Prop where
  | reachable {s : State E S} : s.Reachable a → Seen a s
  | start {s : State E S} {e : AnalysisError} : (start a).run .empty = .error e s → Seen a s
  | step {s s' : State E S} {e : AnalysisError} :
      s.Reachable a → (step a).run s = .error e s' → Seen a s'

/-- With empty queues nothing waits, so all that is shown is recorded. -/
theorem State.AtRest.records (rest : s.AtRest) (scheduled : s.Scheduled) {f : Fact E}
    (shows : s.Shows f) : s.Records f := by
  rcases shows with recorded | awaited
  · exact recorded
  · cases awaited with
    | calls queued => simp [rest.2] at queued
    | @holds p id l o waits =>
      have waiting := (scheduled.waiting_iff p).mpr ⟨id, waits⟩
      simp [rest.1] at waiting

/-- An orderly state with empty queues holds all that the rules ask for. -/
theorem State.Orderly.closed (orderly : s.Invariant a) (rest : s.AtRest)
    (entered : ∀ m ∈ a.program.entries.toList, s.Entered m) : a.Closed s.Records where
  entry m listed := rest.records orderly.scheduled (entered m (Array.mem_toList_iff.mpr listed)).1
  answered f recorded := by
    rcases orderly.settled f recorded with owed | answered
    · exact owed.elim
    · exact answered.mono fun _ => rest.records orderly.scheduled

variable [LawfulIdSet S]

theorem invariant_empty (a : Analysis E) : (State.empty : State E S).Invariant a where
  grounded := {
    holds := by
      rintro p o (pending | propagated)
      · simp [State.empty] at pending
      · simp [State.empty] at propagated
    flows := fun there => by cases there
    reaches := fun there => by cases there
    calls := fun there => by cases there
    queued := fun there => by cases there
    starts := fun there => by cases there }
  settled := by
    intro f recorded
    cases recorded with
    | reached there => cases there
    | calls there => cases Array.mem_toList_iff.mpr there
    | flows there => cases Array.mem_toList_iff.mpr there
    | holds there => simp [State.empty] at there
  scheduled := {
    waiting_iff := by simp [State.empty, WorkList.empty]
    disjoint := by
      intro p o pending
      simp [State.empty] at pending }

/-- Every state of a run is orderly. -/
theorem State.Reachable.invariant (coherent : a.Coherent) (reachable : s.Reachable a) :
    s.Invariant a := by
  induction reachable with
  | start ran => exact ((keeps_start coherent (invariant_empty a)).of_ok ran).2.1
  | step _ ran ih => exact ((keeps_step coherent ih).of_ok ran).2.1

/-- Every state of a run has the entry methods marked and reachable. -/
theorem State.Reachable.entered (coherent : a.Coherent) (reachable : s.Reachable a) :
    ∀ m ∈ a.program.entries.toList, s.Entered m := by
  induction reachable with
  | start ran => exact ((keeps_start coherent (invariant_empty a)).of_ok ran).2.2
  | step before ran ih =>
    have follows := ((keeps_step coherent (before.invariant coherent)).of_ok ran).1
    exact fun m listed => (ih m listed).follows follows

/-- Every state of a run is later than the empty one. -/
theorem State.Reachable.advances (coherent : a.Coherent) (reachable : s.Reachable a) :
    State.empty.Advances s := by
  induction reachable with
  | start ran => exact ((keeps_start coherent (invariant_empty a)).of_ok ran).1.advances
  | step before ran ih =>
    exact ih.trans ((keeps_step coherent (before.invariant coherent)).of_ok ran).1.advances

theorem State.Seen.advances (coherent : a.Coherent) (seen : s.Seen a) : State.empty.Advances s := by
  cases seen with
  | reachable reachable => exact reachable.advances coherent
  | start failed => exact ((keeps_start coherent (invariant_empty a)).of_error failed).1
  | step before failed =>
    exact (before.advances coherent).trans
      ((keeps_step coherent (before.invariant coherent)).of_error failed).1

/-- Sets of objects are passed on no more often than there are propagated pairs of a pointer and an
object. -/
theorem State.Seen.propagations_le (coherent : a.Coherent) (seen : s.Seen a) :
    s.propagations ≤ s.pointsTo.relations := by
  have counted := (seen.advances coherent).propagations
  have none : (State.empty : State E S).propagations = 0 := rfl
  omega

private theorem outcome_runFor (coherent : a.Coherent) (steps : Nat) (reachable : s.Reachable a) :
    Outcome (runFor a steps) s (fun done s' => s'.Reachable a ∧ (done = true → s'.AtRest))
      (fun e s' => s'.Grounded a ∧ a.Obstructed e) := by
  induction steps generalizing s with
  | zero => exact outcome_pure ⟨reachable, by simp⟩
  | succ steps ih =>
    have keeps := keeps_step coherent (reachable.invariant coherent)
    refine outcome_bind (outcome_of_run ?_ fun e s' ran => (keeps.of_error ran).2)
    intro more s' ran
    have reachable' := reachable.step ran
    cases more with
    | true => exact ih reachable'
    | false => exact outcome_pure ⟨reachable', fun _ => (keeps.of_ok ran).2.2 rfl⟩

/-- Rounds of steps lead to a state of the run, with empty queues if they say so, or to an
obstruction. -/
theorem outcome_runRounds (coherent : a.Coherent) (budget rounds : Nat)
    (reachable : s.Reachable a) :
    Outcome (runRounds a budget rounds) s
      (fun done s' => s'.Reachable a ∧ (done = true → s'.AtRest))
      (fun e s' => s'.Grounded a ∧ a.Obstructed e) := by
  induction rounds generalizing s budget with
  | zero => exact outcome_pure ⟨reachable, by simp⟩
  | succ rounds ih =>
    refine outcome_bind ((outcome_runFor coherent budget reachable).mono ?_ fun _ _ failed => failed)
    rintro (_ | _) s' ⟨reachable', rest⟩
    · exact ih (2 * budget) reachable'
    · exact outcome_pure ⟨reachable', rest⟩

/-- A run that is not given up ends with empty queues. -/
theorem outcome_solve (coherent : a.Coherent) :
    Outcome (solve a) (.empty : State E S) (fun _ s' => s'.Reachable a ∧ s'.AtRest)
      (fun _ _ => True) := by
  refine outcome_bind (outcome_of_run ?_ fun _ _ _ => trivial)
  intro _ s' ran
  refine outcome_bind ((outcome_runRounds coherent 1 a.rounds (.start ran)).mono ?_ fun _ _ _ => trivial)
  rintro (_ | _) s'' ⟨reachable, rest⟩
  · exact outcome_throw trivial
  · exact outcome_pure ⟨reachable, rest rfl⟩

end Solver

variable [LawfulIdSet S] {a : Analysis E} {r : Solution E S}

omit [LawfulIdSet S] in
/-- A successful analysis hands out the last state of its run. -/
theorem Analysis.run_of_solve (solved : a.solve S = .ok r) :
    r.analysis = a ∧ (Solver.solve a).run .empty = .ok () r.state := by
  unfold Analysis.solve at solved
  split at solved
  · next ran =>
    cases solved
    exact ⟨rfl, ran⟩
  · cases solved

/-- A successful analysis hands out a state of its run in which nothing is left to do. -/
theorem Analysis.solve_reachable (coherent : a.Coherent) (solved : a.solve S = .ok r) :
    r.analysis = a ∧ r.state.Reachable a ∧ r.state.AtRest := by
  obtain ⟨same, ran⟩ := a.run_of_solve solved
  exact ⟨same, (Solver.outcome_solve coherent).of_ok ran⟩

/-- A successful analysis has recorded all that the rules ask for. -/
theorem Analysis.solve_closed (coherent : a.Coherent) (solved : a.solve S = .ok r) :
    a.Closed r.state.Records := by
  obtain ⟨_, reachable, rest⟩ := a.solve_reachable coherent solved
  exact (reachable.invariant coherent).closed rest (reachable.entered coherent)

end PointerAnalysis
