import PointerAnalysis.Proofs.LeastSolution
import PointerAnalysis.Proofs.Solver.Alterations
import PointerAnalysis.Proofs.Solver.Work

/-! The order of the work. A step carries out one task, the head of one of the two queues; tasks are
only ever added behind those that wait, and the solver turns to the other queue only when the one it
works on is empty. That is all a single flag and two queues say, and nothing is asked of the program
for it. -/
namespace PointerAnalysis

namespace WorkList

variable {w w' w'' : WorkList}

/-- What waits keeps its place, and whatever is added comes behind it. -/
structure Appends (w w' : WorkList) : Prop where
  pointers : w.pointers.toList <+: w'.pointers.toList
  calls : ∃ added, w'.callEdges.toList = w.callEdges.toList ++ added ∧
    w'.queuedCalls = w.queuedCalls ++ added

theorem Appends.refl (w : WorkList) : w.Appends w :=
  ⟨List.prefix_refl _, [], by simp, by simp⟩

theorem Appends.trans (first : w.Appends w') (second : w'.Appends w'') : w.Appends w'' where
  pointers := first.pointers.trans second.pointers
  calls := by
    obtain ⟨added, pushed, queued⟩ := first.calls
    obtain ⟨added', pushed', queued'⟩ := second.calls
    exact ⟨added ++ added', by simp [pushed, pushed'], by simp [queued, queued']⟩

theorem appends_pushPointer (w : WorkList) (p : PointerId) : w.Appends (w.pushPointer p).1 where
  pointers := by
    unfold pushPointer
    split
    · exact List.prefix_refl _
    · simp
  calls := ⟨[], by simp, by simp⟩

theorem appends_pushCallEdge (w : WorkList) (e : ContextCallEdge) :
    w.Appends (w.pushCallEdge e) where
  pointers := List.prefix_refl _
  calls := ⟨[e], w.callEdges.toList_push e, w.queuedCalls_pushCallEdge e⟩

end WorkList

namespace Solver

variable {E S : Type} [Coded E] [IdSet S .contextObject] {a : Analysis E} {s s' s'' : State E S}

/-- What a step takes from a queue and carries out. -/
inductive Task where
  | pointer (p : PointerId)
  | call (e : ContextCallEdge)

namespace Task

def pointer? : Task → Option PointerId
  | .pointer p => some p
  | .call _ => none

def call? : Task → Option ContextCallEdge
  | .pointer _ => none
  | .call e => some e

/-- The pointers that tasks pass on. -/
def pointers (tasks : List Task) : List PointerId := tasks.filterMap pointer?

/-- The call edges that tasks process. -/
def calls (tasks : List Task) : List ContextCallEdge := tasks.filterMap call?

end Task

namespace State

/-- A step carries a task out: it takes the task from the head of its queue and does all that is to
be done for it. -/
inductive Does (a : Analysis E) (s : State E S) : Task → State E S → Prop where
  | pointer {p : PointerId} {work : WorkList} {s' : State E S} :
      s.work.popPointer? = some (p, work) → (step a).run s = .ok true s' →
      (propagate a p).run { s with work, drainingCalls := false } = .ok () s' →
      Does a s (.pointer p) s'
  | call {e : ContextCallEdge} {s' : State E S} :
      s.work.popCallEdge?.1 = some e → (step a).run s = .ok true s' →
      (processCall a e).run { s with work := s.work.popCallEdge?.2, drainingCalls := true } =
        .ok () s' → Does a s (.call e) s'

/-- Steps that are not given up lead from one state to another and carry out these tasks, in this
order. A step that says that nothing is left to do carries out none. -/
inductive DoesAll (a : Analysis E) (s : State E S) : List Task → State E S → Prop where
  | none : DoesAll a s [] s
  | does {tasks : List Task} {task : Task} {s' s'' : State E S} :
      DoesAll a s tasks s' → s'.Does a task s'' → DoesAll a s (tasks ++ [task]) s''
  | idles {tasks : List Task} {s' s'' : State E S} :
      DoesAll a s tasks s' → (step a).run s' = .ok false s'' → DoesAll a s tasks s''

end State

/-! ### What alterations do to the queues -/

section Appends

omit [IdSet S .contextObject]

/-- What alterations leave in the state of a step: the queues are only added to, the solver goes on with
the queue that it works on, and no call edge is forgotten. -/
structure State.Appends (s s' : State E S) : Prop where
  draining : s'.drainingCalls = s.drainingCalls
  work : s.work.Appends s'.work
  linked : ∀ e, s.calls.contains e = true → s'.calls.contains e = true

theorem State.Appends.refl (s : State E S) : s.Appends s := ⟨rfl, .refl _, fun _ => id⟩

theorem State.Appends.trans (first : s.Appends s') (second : s'.Appends s'') : s.Appends s'' :=
  ⟨second.draining.trans first.draining, first.work.trans second.work,
    fun e held => second.linked e (first.linked e held)⟩

end Appends

theorem State.appends_addObject (s : State E S) (p : PointerId) (o : ContextObjectId) :
    s.Appends (s.addObject p o) := by
  unfold addObject schedule
  dsimp only
  split
  · exact ⟨rfl, s.work.appends_pushPointer p, fun _ => id⟩
  · exact ⟨rfl, .refl _, fun _ => id⟩

theorem State.appends_addObjects (s : State E S) (p : PointerId) (objects : S) :
    s.Appends (s.addObjects p objects) := by
  unfold addObjects schedule
  dsimp only
  split
  · exact ⟨rfl, s.work.appends_pushPointer p, fun _ => id⟩
  · exact ⟨rfl, .refl _, fun _ => id⟩

theorem State.appends_addFlow (s : State E S) (e : FlowEdge) : s.Appends (s.addFlow e) := by
  unfold addFlow
  dsimp only
  split
  · obtain ⟨draining, work, linked⟩ := appends_addObjects { s with flow := (s.flow.addEdge e).1 } e.target
      (s.objectsOf e.source)
    exact ⟨draining, work, linked⟩
  · exact ⟨rfl, .refl _, fun _ => id⟩

theorem State.Alters.appends (alters : s.Alters s') : s.Appends s' := by
  cases alters with
  | object p o => exact appends_addObject s p o
  | objects p objects => exact appends_addObjects s p objects
  | flow e => exact appends_addFlow s e
  | queue e => exact ⟨rfl, s.work.appends_pushCallEdge e, fun _ => id⟩
  | number => exact ⟨rfl, .refl _, fun _ => id⟩
  | flush => exact ⟨rfl, .refl _, fun _ => id⟩
  | count => exact ⟨rfl, .refl _, fun _ => id⟩
  | entry f => exact ⟨rfl, .refl _, fun e => (s.calls.contains_addEntry f e).mpr⟩
  | reach f => exact ⟨rfl, .refl _, fun e => (s.calls.contains_addReached f e).mpr⟩
  | link e => exact ⟨rfl, .refl _, fun _ held => CallGraph.contains_addEdge.mpr (.inl held)⟩

theorem State.Alterations.appends (alterations : s.Alterations s') : s.Appends s' := by
  induction alterations with
  | refl => exact .refl s
  | tail _ last ih => exact ih.trans last.appends

theorem Altering.appends {α : Type} {m : Solver E S α} {x : α} (altering : Altering m)
    (ran : m.run s = .ok x s') : s.Appends s' :=
  ((altering s).of_ok ran).appends

/-! ### Call edges that are known -/

theorem processCall_of_known {e : ContextCallEdge} (known : s.calls.contains e = true) :
    (processCall a e).run s = .ok () s := by
  have nothing : Outcome (processCall a e) s (fun _ s' => s' = s) (fun _ _ => False) := by
    refine outcome_bind (outcome_get ?_)
    rw [if_pos known]
    exact outcome_pure rfl
  cases ran : (processCall a e).run s with
  | ok _ s' => rw [nothing.of_ok ran]
  | error e s' => exact (nothing.of_error ran).elim

/-- A call edge that has been processed is known from then on. -/
theorem contains_of_processCall {e : ContextCallEdge} (ran : (processCall a e).run s = .ok () s') :
    s'.calls.contains e = true := by
  have linked : Outcome (processCall a e) s (fun _ s' => s'.calls.contains e = true)
      (fun _ _ => True) := by
    refine outcome_bind (outcome_get ?_)
    split
    · next known => exact outcome_pure known
    -- What is looked up here is of no account, only that it is found.
    refine outcome_bind (outcome_get (outcome_bind (outcome_of_run ?_ fun _ _ _ => trivial)))
    intro site s₁ _
    refine outcome_bind (outcome_get (outcome_bind (outcome_of_run ?_ fun _ _ _ => trivial)))
    intro callee s₂ _
    refine outcome_bind (outcome_of_run (fun call s₃ _ => ?_) fun _ _ _ => trivial)
    refine outcome_bind (outcome_of_run (fun method s₄ _ => ?_) fun _ _ _ => trivial)
    by_cases arity : call.args.length ≠ method.params.length
    · rw [if_pos arity]
      exact outcome_bind (outcome_throw trivial)
    rw [if_neg arity]
    refine outcome_bind (outcome_modify ?_)
    refine (altering_wire a e.callee site.context callee.context call method _).mono ?_ fun _ _ _ => trivial
    exact fun _ _ alterations => alterations.appends.linked e (CallGraph.contains_addEdge.mpr (.inr ⟨rfl, rfl⟩))
  exact linked.of_ok ran

/-! ### One step -/

omit [IdSet S .contextObject] in
/-- A computation that only has to say that it is done has been carried out. -/
private theorem run_of_done {m : Solver E S Unit} {more : Bool}
    (ran : (do m; return true : Solver E S Bool).run s = .ok more s') :
    more = true ∧ m.run s = .ok () s' := by
  have done : Outcome (do m; return true : Solver E S Bool) s
      (fun more s' => more = true ∧ m.run s = .ok () s') (fun _ _ => True) :=
    outcome_bind (outcome_of_run (fun _ _ ran => outcome_pure ⟨rfl, ran⟩) fun _ _ _ => trivial)
  exact done.of_ok ran

omit [IdSet S .contextObject] in
private theorem State.nextPointer?_eq_none_iff :
    s.nextPointer? = none ↔ s.work.pointers.toList = [] ∨ s.drainingCalls ∧ s.work.queuedCalls ≠ [] := by
  unfold nextPointer?
  split
  · next calls => exact ⟨fun _ => .inr calls, fun _ => rfl⟩
  · next free =>
    rw [or_iff_left free]
    refine ⟨WorkList.popPointer?_eq_none, fun empty => ?_⟩
    cases popped : s.work.popPointer? with
    | none => rfl
    | some taken => simp [(WorkList.popPointer?_eq_some popped).1] at empty

/-- A step that finds nothing to do turns to the pointers and does nothing else. -/
theorem step_of_atRest (rest : s.AtRest) :
    (step a).run s = .ok false { s with drainingCalls := false } :=
  step_of_nothing (State.nextPointer?_eq_none_iff.mpr (.inl rest.1)) rest.2

/-- What a step does: it passes a pointer on, processes a call edge, or finds nothing to do. -/
private theorem step_inv {more : Bool} (ran : (step a).run s = .ok more s') :
    (∃ p work, s.nextPointer? = some (p, work) ∧ more = true ∧
      (propagate a p).run { s with work, drainingCalls := false } = .ok () s') ∨
    (∃ e others, s.nextPointer? = none ∧ s.work.queuedCalls = e :: others ∧ more = true ∧
      (processCall a e).run { s with work := s.work.popCallEdge?.2, drainingCalls := true } =
        .ok () s') ∨
    (s.AtRest ∧ more = false ∧ s' = { s with drainingCalls := false }) := by
  cases next : s.nextPointer? with
  | some taken =>
    rw [step_of_pointer next] at ran
    exact .inl ⟨taken.1, taken.2, rfl, run_of_done ran⟩
  | none =>
    cases queued : s.work.queuedCalls with
    | cons e others =>
      rw [step_of_call next queued] at ran
      exact .inr (.inl ⟨e, others, rfl, rfl, run_of_done ran⟩)
    | nil =>
      rw [step_of_nothing next queued] at ran
      cases ran
      have idle := State.nextPointer?_eq_none_iff.mp next
      exact .inr (.inr ⟨⟨idle.resolve_right fun calls => calls.2 queued, queued⟩, rfl, rfl⟩)

namespace State

theorem rests_iff : (∃ s', (step a).run s = .ok false s') ↔ s.AtRest := by
  refine ⟨fun ⟨s', ran⟩ => ?_, fun rest => ⟨_, step_of_atRest rest⟩⟩
  obtain ⟨_, _, _, more, _⟩ | ⟨_, _, _, _, more, _⟩ | ⟨rest, _⟩ := step_inv ran
  · cases more
  · cases more
  · exact rest

/-- A step that has worked has carried out a task. -/
theorem exists_does (ran : (step a).run s = .ok true s') : ∃ task, s.Does a task s' := by
  obtain ⟨p, work, next, _, passed⟩ | ⟨e, others, _, queued, _, processed⟩ | ⟨_, more, _⟩ :=
    step_inv ran
  · exact ⟨.pointer p, .pointer (popPointer?_of_nextPointer? next) ran passed⟩
  · exact ⟨.call e, .call (WorkList.popCallEdge?_of_queuedCalls_eq_cons queued).1 ran processed⟩
  · cases more

theorem Does.ran {task : Task} (does : s.Does a task s') : (step a).run s = .ok true s' := by
  cases does with
  | pointer _ ran _ => exact ran
  | call _ ran _ => exact ran

/-- A pointer that a step passes on is the next one, and what waits behind it keeps its place. -/
theorem Does.pointer_spec {p : PointerId} (does : s.Does a (.pointer p) s') :
    s'.drainingCalls = false ∧ ∃ work, s.nextPointer? = some (p, work) ∧ work.Appends s'.work := by
  cases does with
  | @pointer _ work _ popped ran passed =>
    have appends := (altering_propagate a p).appends passed
    refine ⟨appends.draining, work, ?_, appends.work⟩
    obtain ⟨q, work', next, _⟩ | ⟨e, others, _, _, _, processed⟩ | ⟨_, more, _⟩ := step_inv ran
    · cases (popPointer?_of_nextPointer? next).symm.trans popped
      exact next
    · -- A step that processes a call edge leaves the solver at the call edges.
      have turned := ((altering_processCall a e).appends processed).draining
      cases appends.draining.symm.trans turned
    · cases more

/-- A call edge that a step processes is the next one, and what waits behind it keeps its place. -/
theorem Does.call_spec {e : ContextCallEdge} (does : s.Does a (.call e) s') :
    s'.drainingCalls = true ∧ s.nextPointer? = none ∧
      (∃ others, s.work.queuedCalls = e :: others) ∧ s.work.popCallEdge?.2.Appends s'.work := by
  cases does with
  | call popped ran processed =>
    have appends := (altering_processCall a e).appends processed
    refine ⟨appends.draining, ?_⟩
    obtain ⟨p, work, _, _, passed⟩ | ⟨e', others, next, queued, _⟩ | ⟨_, more, _⟩ := step_inv ran
    · have turned := ((altering_propagate a p).appends passed).draining
      cases appends.draining.symm.trans turned
    · rw [(WorkList.popCallEdge?_of_queuedCalls_eq_cons queued).1] at popped
      cases popped
      exact ⟨next, ⟨others, queued⟩, appends.work⟩
    · cases more

/-- No call edge is forgotten, and one that a step processes is known afterwards. -/
theorem Does.known {task : Task} (does : s.Does a task s') :
    (∀ e, s.calls.contains e = true → s'.calls.contains e = true) ∧
      ∀ e ∈ Task.calls [task], s'.calls.contains e = true := by
  cases does with
  | @pointer p _ _ popped ran passed =>
    exact ⟨((altering_propagate a p).appends passed).linked, by simp [Task.calls, Task.call?]⟩
  | @call e _ popped ran processed =>
    refine ⟨((altering_processCall a e).appends processed).linked, ?_⟩
    simpa [Task.calls, Task.call?] using contains_of_processCall processed

theorem Does.unique {task task' : Task} (first : s.Does a task s') (second : s.Does a task' s'') :
    task = task' ∧ s' = s'' := by
  have same : s' = s'' := by
    cases first.ran.symm.trans second.ran
    rfl
  refine ⟨?_, same⟩
  cases task with
  | pointer p =>
    obtain ⟨work, next, _⟩ := first.pointer_spec.2
    cases task' with
    | pointer p' =>
      obtain ⟨work', next', _⟩ := second.pointer_spec.2
      cases next.symm.trans next'
      rfl
    | call e' => cases next.symm.trans second.call_spec.2.1
  | call e =>
    obtain ⟨_, next, ⟨others, queued⟩, _⟩ := first.call_spec
    cases task' with
    | pointer p' =>
      obtain ⟨work', next', _⟩ := second.pointer_spec.2
      cases next.symm.trans next'
    | call e' =>
      obtain ⟨_, _, ⟨others', queued'⟩, _⟩ := second.call_spec
      cases queued.symm.trans queued'
      rfl

/-- A step that finds nothing to do leaves the queues as they are. -/
theorem of_rests (ran : (step a).run s = .ok false s') :
    s.AtRest ∧ s' = { s with drainingCalls := false } := by
  have rest := rests_iff.mp ⟨s', ran⟩
  cases (step_of_atRest rest).symm.trans ran
  exact ⟨rest, rfl⟩

/-- With empty queues nothing is ever done again. -/
theorem AtRest.stays {tasks : List Task} (rest : s.AtRest) (ran : s.DoesAll a tasks s') :
    tasks = [] ∧ (s' = s ∨ s' = { s with drainingCalls := false }) := by
  induction ran with
  | none => exact ⟨rfl, .inl rfl⟩
  | @does tasks task s' s'' _ does ih =>
    have still : s'.AtRest := by obtain ⟨_, rfl | rfl⟩ := ih <;> exact rest
    cases (step_of_atRest still).symm.trans does.ran
  | @idles tasks s' s'' _ ran ih =>
    have still : s'.AtRest := by obtain ⟨_, rfl | rfl⟩ := ih <;> exact rest
    cases (step_of_atRest still).symm.trans ran
    exact ⟨ih.1, .inr (by obtain ⟨_, rfl | rfl⟩ := ih <;> rfl)⟩

/-- All call edges that have been processed are known. -/
theorem DoesAll.known {tasks : List Task} (ran : s.DoesAll a tasks s') :
    ∀ e ∈ Task.calls tasks, s'.calls.contains e = true := by
  induction ran with
  | none => simp [Task.calls]
  | @does tasks task s' s'' _ does ih =>
    intro e there
    rw [Task.calls, List.filterMap_append, List.mem_append] at there
    obtain ⟨earlier, last⟩ := does.known
    exact there.elim (fun there => earlier e (ih e there)) (last e)
  | idles _ ran ih =>
    obtain ⟨_, rfl⟩ := of_rests ran
    exact ih

end State

/-- Every state of a run is reached by tasks that steps have carried out. -/
theorem State.Reachable.tasks (reachable : s.Reachable a) : ∃ (first : State E S) (tasks : List Task),
    (Solver.start a).run .empty = .ok () first ∧ first.DoesAll a tasks s := by
  induction reachable with
  | start started => exact ⟨_, [], started, .none⟩
  | @step s s' more _ ran ih =>
    obtain ⟨first, tasks, started, before⟩ := ih
    cases more with
    | true =>
      obtain ⟨task, does⟩ := State.exists_does ran
      exact ⟨first, tasks ++ [task], started, before.does does⟩
    | false => exact ⟨first, tasks, started, before.idles ran⟩

end Solver

end PointerAnalysis
