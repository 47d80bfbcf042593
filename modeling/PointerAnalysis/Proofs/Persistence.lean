import PointerAnalysis.Proofs.Failure
import PointerAnalysis.Proofs.Solver.Alterations
import PointerAnalysis.Proofs.Solver.Loop
import PointerAnalysis.Proofs.Solver.Work

/-! Nothing is ever lost. Whatever a step does, it only adds to what is known, also when it is given up
in the middle of a reaction; so each state of a run still holds all that any earlier one held. No
program has to be coherent and no state orderly for this. -/
namespace PointerAnalysis

namespace CallGraph

variable {function site : Entity} (g : CallGraph function site)

private theorem reached_addReached_prefix (f : Id function) :
    g.reached.toList <+: (g.addReached f).1.reached.toList := by
  by_cases known : f ∈ g.reached.toList
  · simp [addReached_of_known known]
  · simp [(addReached_of_new known).1]

private theorem edges_addEdge_prefix (e : CallEdge function site) :
    g.edges.toList <+: (g.addEdge e).1.edges.toList := by
  cases known : g.contains e with
  | true => simp [addEdge_of_known known]
  | false => simp [addEdge_of_new known]

end CallGraph

namespace Solver

variable {E S : Type} [Coded E] [IdSet S .contextObject] {a : Analysis E} {s s' s'' : State E S}

/-- What the first state holds the second one holds as well. -/
structure State.Persists (s s' : State E S) : Prop where
  /-- Every number that has been handed out stands for what it stood for. -/
  canon : s.canon.Extends s'.canon
  /-- The pending and the propagated objects of a pointer, taken together. -/
  knows : ∀ p o, s.pointsTo.Knows p o → s'.pointsTo.Knows p o
  propagated : ∀ p o, o ∈ IdSet.toList (s.pointsTo.propagatedOf p) →
    o ∈ IdSet.toList (s'.pointsTo.propagatedOf p)
  flow : s.flow.edges.toList <+: s'.flow.edges.toList
  edges : s.calls.edges.toList <+: s'.calls.edges.toList
  reached : s.calls.reached.toList <+: s'.calls.reached.toList
  entries : s.calls.entries.toList <+: s'.calls.entries.toList

/-- A start or a step has led from one state to the other, be it given up or not. -/
inductive State.Leads (a : Analysis E) (s : State E S) : State E S → Prop where
  | start {s' : State E S} : (start a).run s = .ok () s' → Leads a s s'
  | startGivenUp {s' : State E S} {e : AnalysisError} :
      (start a).run s = .error e s' → Leads a s s'
  | step {s' : State E S} {more : Bool} : (step a).run s = .ok more s' → Leads a s s'
  | stepGivenUp {s' : State E S} {e : AnalysisError} :
      (step a).run s = .error e s' → Leads a s s'

namespace State.Persists

theorem refl (s : State E S) : s.Persists s :=
  ⟨.refl _, fun _ _ => id, fun _ _ => id, List.prefix_refl _, List.prefix_refl _,
    List.prefix_refl _, List.prefix_refl _⟩

theorem trans (first : s.Persists s') (second : s'.Persists s'') : s.Persists s'' where
  canon := first.canon.trans second.canon
  knows p o held := second.knows p o (first.knows p o held)
  propagated p o held := second.propagated p o (first.propagated p o held)
  flow := first.flow.trans second.flow
  edges := first.edges.trans second.edges
  reached := first.reached.trans second.reached
  entries := first.entries.trans second.entries

/-- What a growth keeps is more than what has to persist. -/
theorem of_grows (grows : s.Grows s') : s.Persists s' where
  canon := grows.canon
  knows := grows.knows
  propagated p o held := by rwa [grows.propagated]
  flow := grows.flow
  edges := grows.calls ▸ List.prefix_refl _
  reached := grows.calls ▸ List.prefix_refl _
  entries := grows.calls ▸ List.prefix_refl _

end State.Persists

variable [LawfulIdSet S]

theorem State.Alters.persists (alters : s.Alters s') : s.Persists s' := by
  cases alters with
  | number extended => exact .of_grows (grows_canon extended)
  | object p o => exact .of_grows (grows_addObject s p o)
  | objects p objects => exact .of_grows (grows_addObjects s p objects)
  | flow e => exact .of_grows (grows_addFlow s e).1
  | queue e => exact .of_grows (grows_pushCallEdge s e)
  | count => exact { Persists.refl s with }
  | flush p =>
    -- What a pointer passes on leaves its pending part, but it is propagated from now on.
    exact { Persists.refl s with
      knows := fun q o held => PointsToData.knows_flush.mpr held
      propagated := fun q o held => PointsToData.mem_propagatedOf_flush.mpr (.inl held) }
  | entry f => exact { Persists.refl s with entries := Registry.register_extends _ _ }
  | reach f =>
    exact { Persists.refl s with
      edges := by simp
      reached := s.calls.reached_addReached_prefix f
      entries := by simp }
  | link e =>
    exact { Persists.refl s with
      edges := s.calls.edges_addEdge_prefix e
      reached := by simp
      entries := by simp }

theorem State.Alterations.persists (alterations : s.Alterations s') : s.Persists s' := by
  induction alterations with
  | refl => exact .refl s
  | tail _ last ih => exact ih.trans last.persists

/-- A computation that only alters the state loses nothing, and neither does taking something from a
queue or turning to the other one before. -/
private theorem Altering.persists {α : Type} {m : Solver E S α} (altering : Altering m)
    (work : WorkList) (draining : Bool) :
    Outcome m { s with work, drainingCalls := draining } (fun _ s' => s.Persists s')
      (fun _ s' => s.Persists s') := by
  have persists (s' : State E S)
      (alterations : State.Alterations { s with work, drainingCalls := draining } s') :
      s.Persists s' := { alterations.persists with }
  exact (altering _).mono (fun _ => persists) fun _ => persists

theorem persists_start : Outcome (start a) s (fun _ s' => s.Persists s')
    (fun _ s' => s.Persists s') :=
  (altering_start a).persists s.work s.drainingCalls

theorem persists_step : Outcome (step a) s (fun _ s' => s.Persists s')
    (fun _ s' => s.Persists s') := by
  unfold Outcome
  cases next : s.nextPointer? with
  | some taken =>
    rw [step_of_pointer next]
    exact Altering.persists (altering_bind (altering_propagate a taken.1) fun _ => altering_pure true)
      taken.2 false
  | none =>
    cases queued : s.work.queuedCalls with
    | cons e others =>
      rw [step_of_call next queued]
      exact Altering.persists (altering_bind (altering_processCall a e) fun _ => altering_pure true)
        s.work.popCallEdge?.2 true
    | nil =>
      rw [step_of_nothing next queued]
      exact { State.Persists.refl s with }

theorem State.Leads.persists (leads : s.Leads a s') : s.Persists s' := by
  cases leads with
  | start ran => exact persists_start.of_ok ran
  | startGivenUp ran => exact persists_start.of_error ran
  | step ran => exact persists_step.of_ok ran
  | stepGivenUp ran => exact persists_step.of_error ran

/-- Whatever a start or a step finds, and however many of them follow, given up or not, they only add:
pointers keep their objects, listings become longer at their ends, and numbers stand for what they
stood for. -/
theorem steps_only_add (run : Relation.ReflTransGen (State.Leads a) s s') : s.Persists s' := by
  induction run with
  | refl => exact .refl s
  | tail _ last ih => exact ih.trans last.persists

omit [LawfulIdSet S] in
/-- A loop that is given up has come to a step that was. -/
private theorem Repeats.failed {e : AnalysisError} (reachable : s.Reachable a)
    (repeats : Repeats a s (.error e s')) :
    ∃ last : State E S, last.Reachable a ∧ (step a).run last = .error e s' := by
  generalize same : (EStateM.Result.error e s' : Ending E S) = ending at repeats
  induction repeats with
  | rest => cases same
  | givenUp failed =>
    cases same
    exact ⟨_, reachable, failed⟩
  | next ran _ ih => exact ih (reachable.step ran) same

/-- The step that cannot draw a shape leaves behind all that was there before it. -/
theorem steps_only_add_shapes : ∃ p e, ∃ s s' : State _ (HybridSet .contextObject),
    shapes.link = .ok p ∧ s.Reachable (p.analysis .objectSensitive 1 .perSite) ∧
      (step (p.analysis .objectSensitive 1 .perSite)).run s = .error e s' ∧
      e.fault? = some .dispatchFailure ∧ s.Persists s' := by
  have fails : shapes.passes fun p => decide (faultOf? ((p.analysis .objectSensitive 1 .perSite).solve
      (HybridSet .contextObject)) = some .dispatchFailure) &&
      match (start (p.analysis .objectSensitive 1 .perSite)).run
          (.empty : State _ (HybridSet .contextObject)) with
      | .ok _ _ => true
      | .error _ _ => false := by decide +kernel
  obtain ⟨p, loaded, tests⟩ := Described.Program.exists_of_passes fails
  rw [Bool.and_eq_true, decide_eq_true_iff] at tests
  obtain ⟨reported, starts⟩ := tests
  obtain ⟨e, failed, named⟩ := exists_of_faultOf? reported
  unfold Analysis.solve at failed
  split at failed
  · cases failed
  next e' s' ran =>
  cases failed
  have coherent := p.analysis_coherent loaded .objectSensitive 1 .perSite
  have bounded := (Described.Program.link_coherent loaded).analysis_bounded .objectSensitive 1 .perSite
  cases (solve_runsTo coherent bounded _).mpr ran with
  | givenUp refused => simp [refused] at starts
  | started started repeats =>
    obtain ⟨s, reachable, last⟩ := repeats.failed (.start started)
    exact ⟨p, e, s, s', loaded, reachable, last, named, steps_only_add (.single (.stepGivenUp last))⟩

end Solver

end PointerAnalysis
