import PointerAnalysis.Proofs.LeastSolution
import PointerAnalysis.Proofs.Solver.Work

/-! No wake-up is lost. A reaction may add edges to the very pointer whose objects are being passed on,
and a new edge may start at a pointer that waits or has nothing yet; in each case the objects that
have been passed on are delivered at once, and those still pending wait for their pointer. -/
namespace PointerAnalysis.Solver

open State (Change Move Reacted)

variable {E S : Type} [Coded E] [IdSet S .contextObject] {a : Analysis E} {s s' : State E S}

namespace State

/-- Along every flow edge all that its source has passed on has arrived. -/
def Delivered (s : State E S) : Prop :=
  ∀ e ∈ s.flow.edges.toList, ∀ o ∈ IdSet.toList (s.pointsTo.propagatedOf e.source),
    s.pointsTo.Knows e.target o

/-- A pointer that has passed an object on is a field, or a variable all of whose uses have reacted to
the object. -/
def Responds (a : Analysis E) (s : State E S) (p : PointerId) (o : ContextObjectId) : Prop :=
  (∃ object f, s.canon.pointer p = .ok (.field object f)) ∨
    ∃ c v var, s.canon.pointer p = .ok (.var c v) ∧ a.program.var v = .ok var ∧ Reacted a s c var o

theorem Responds.retained {p : PointerId} {o : ContextObjectId} (responds : Responds a s p o)
    (retains : s.Retains s') : Responds a s' p o := by
  rcases responds with ⟨object, f, located⟩ | ⟨c, v, var, located, found, reacted⟩
  · exact .inl ⟨object, f, retains.canon.pointer_eq located⟩
  · exact .inr ⟨c, v, var, retains.canon.pointer_eq located, found, reacted.retained retains⟩

/-- Nothing that has been passed on has been missed. -/
structure Heard (a : Analysis E) (s : State E S) : Prop where
  delivered : s.Delivered
  responds : ∀ p, ∀ o ∈ IdSet.toList (s.pointsTo.propagatedOf p), Responds a s p o

theorem Delivered.grows (delivered : s.Delivered) (grows : s.Grows s') : s'.Delivered := by
  intro e there o passed
  rw [grows.propagated] at passed
  rcases grows.delivered e there with old | arrived
  · exact grows.knows _ _ (delivered e old o passed)
  · exact arrived o passed

variable [LawfulIdSet S]

theorem heard_empty (a : Analysis E) : Heard a (State.empty : State E S) where
  delivered e there := by cases there
  responds p o passed := by simp [empty] at passed

/-- A move passes nothing on. -/
theorem Move.propagated (move : Move a s s') (p : PointerId) :
    s'.pointsTo.propagatedOf p = s.pointsTo.propagatedOf p := by
  cases move with
  | change change => exact change.grows.propagated p
  | enter => rfl
  | skip => rfl
  | link => rfl
  | turn => rfl

theorem Heard.move (heard : Heard a s) (move : Move a s s') : Heard a s' where
  delivered := by
    cases move with
    | change change => exact heard.delivered.grows change.grows
    | enter => exact heard.delivered
    | skip => exact heard.delivered
    | link => exact heard.delivered
    | turn => exact heard.delivered
  responds p o passed := by
    rw [move.propagated] at passed
    exact (heard.responds p o passed).retained move.retains

/-- The objects that a pointer passes on are heard of where they have to be. An edge that was there
before delivers them first; one that is added meanwhile finds them passed on already. -/
theorem Heard.passes (heard : Heard a s) {p : PointerId} {work : WorkList}
    (popped : s.work.popPointer? = some (p, work)) (passes : s.PassesOn a p work s') :
    Heard a s' := by
  have grows := passes.changes.grows
  constructor
  · intro e there o passed
    rw [grows.propagated] at passed
    rcases grows.delivered e there with old | arrived
    · rcases PointsToData.mem_propagatedOf_flush.mp passed with before | ⟨source, pending⟩
      · exact grows.knows _ _ (PointsToData.knows_flush.mpr (heard.delivered e old o before))
      · exact passes.delivered e old source o pending
    · exact arrived o passed
  · intro q o passed
    rw [grows.propagated] at passed
    rcases PointsToData.mem_propagatedOf_flush.mp passed with before | ⟨rfl, pending⟩
    · exact ((heard.responds q o before).retained (retains_flushed popped)).retained grows.retains
    · refine passes.reacted.imp_right ?_
      rintro ⟨c, v, var, located, found, reacted⟩
      exact ⟨c, v, var, located, found, reacted o pending⟩

/-! ### Counting -/

/-- A run to a state whose steps have taken so many pointers from the queue. -/
inductive Popped (a : Analysis E) : Nat → State E S → Prop where
  | start {s : State E S} : (start a).run .empty = .ok () s → Popped a 0 s
  | step {n : Nat} {s s' : State E S} {more : Bool} :
      Popped a n s → (step a).run s = .ok more s' →
      Popped a (if s.nextPointer?.isSome then n + 1 else n) s'

omit [LawfulIdSet S] in
theorem Popped.reachable {n : Nat} (popped : Popped a n s) : s.Reachable a := by
  induction popped with
  | start ran => exact .start ran
  | step _ ran ih => exact ih.step ran

omit [LawfulIdSet S] in
theorem Reachable.popped (reachable : s.Reachable a) : ∃ n, Popped a n s := by
  induction reachable with
  | start ran => exact ⟨0, .start ran⟩
  | step _ ran ih =>
    obtain ⟨n, popped⟩ := ih
    exact ⟨_, popped.step ran⟩

theorem Moves.propagations (moves : Moves a s s') : s'.propagations = s.propagations := by
  induction moves with
  | refl => rfl
  | tail _ move ih =>
    rw [← ih]
    cases move with
    | change change => exact change.grows.propagations
    | enter => rfl
    | skip => rfl
    | link => rfl
    | turn => rfl

/-- Each pointer that is taken passes something on, so it counts. -/
theorem Popped.propagations_eq {n : Nat} (popped : Popped a n s) : s.propagations = n := by
  induction popped with
  | start ran => exact Moves.propagations ((outcome_start sound_empty).of_ok ran)
  | step before ran ih =>
    have tidy := before.reachable.tidy
    cases (outcome_step tidy.sound tidy.scheduled).of_ok ran with
    | moves none moves =>
      rw [moves.propagations, ih, none]
      rfl
    | passes next passes =>
      rw [passes.changes.grows.propagations, next, ← ih]
      rfl

/-! ### Every state of a run -/

/-- The state of a run has lost no wake-up. -/
structure Awake (a : Analysis E) (s : State E S) : Prop where
  /-- Just the pointers wait that have something to pass on, each of them once. -/
  waiting_iff : ∀ p, p ∈ s.work.pointers.toList ↔ ∃ o, o ∈ IdSet.toList (s.pointsTo.pendingOf p)
  once : s.work.pointers.toList.Nodup
  /-- What has been passed on is not pending again. -/
  disjoint : ∀ p, ∀ o ∈ IdSet.toList (s.pointsTo.pendingOf p),
    o ∉ IdSet.toList (s.pointsTo.propagatedOf p)
  /-- What the source of a flow edge has passed on, its target has, be it pending or passed on. -/
  delivered : ∀ e ∈ s.flow.edges.toList, ∀ o ∈ IdSet.toList (s.pointsTo.propagatedOf e.source),
    o ∈ IdSet.toList (s.pointsTo.pendingOf e.target) ∨
      o ∈ IdSet.toList (s.pointsTo.propagatedOf e.target)
  /-- All stores, loads and calls through a variable have reacted to what it has passed on. -/
  reacted : ∀ p c v, s.canon.pointer p = .ok (.var c v) →
    ∀ o ∈ IdSet.toList (s.pointsTo.propagatedOf p),
      ∃ var, a.program.var v = .ok var ∧ Reacted a s c var o
  /-- A pointer that is taken from the queue has something to pass on. -/
  nonempty : ∀ p work, s.work.popPointer? = some (p, work) →
    IdSet.isEmpty (s.pointsTo.flush p).2 = false

end State

/-- No state of a run, whatever the program, the contexts and the heap model, has lost a wake-up, and
each pointer that the run has taken from the queue counts as a propagation. -/
theorem no_wake_up_is_lost [LawfulIdSet S] (reachable : s.Reachable a) :
    s.Awake a ∧ ∀ n, State.Popped a n s → s.propagations = n := by
  obtain ⟨⟨sound, scheduled⟩, heard⟩ := reachable.keeps _ (State.heard_empty a)
    (fun _ heard move => heard.move move) fun _ heard popped passes => heard.passes popped passes
  refine ⟨⟨scheduled.waiting_iff, s.work.nodup, scheduled.disjoint, heard.delivered, ?_, ?_⟩,
    fun n popped => popped.propagations_eq⟩
  · intro p c v located o passed
    rcases heard.responds p o passed with ⟨object, f, located'⟩ | ⟨c', v', var, located', found, reacted⟩
    · cases located.symm.trans located'
    · cases located.symm.trans located'
      exact ⟨var, found, reacted⟩
  · intro p work popped
    obtain ⟨o, pending⟩ := scheduled.pending_of_popped popped
    exact IdSet.isEmpty_eq_false_iff.mpr ⟨o, PointsToData.mem_flush.mpr pending⟩

theorem no_wake_up_is_lost_boxes : ∃ p r, boxes.link = .ok p ∧
    (p.analysis .objectSensitive 1 .perSite).solve (HybridSet .contextObject) = .ok r ∧
      r.state.Awake (p.analysis .objectSensitive 1 .perSite) ∧
        ∃ n, State.Popped (p.analysis .objectSensitive 1 .perSite) n r.state ∧
          r.state.propagations = n := by
  obtain ⟨p, r, loaded, solved⟩ := boxes_solved
  obtain ⟨_, reachable, _⟩ :=
    Analysis.solve_reachable (p.analysis_coherent loaded .objectSensitive 1 .perSite) solved
  obtain ⟨awake, counted⟩ := no_wake_up_is_lost reachable
  obtain ⟨n, popped⟩ := reachable.popped
  exact ⟨p, r, loaded, solved, awake, n, popped, counted n popped⟩

end PointerAnalysis.Solver
