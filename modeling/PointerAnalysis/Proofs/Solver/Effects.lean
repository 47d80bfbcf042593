import PointerAnalysis.Proofs.Solver.Changes

/-! What no change and no move of the solver undoes. Reasons stay reasons, objects, flow edges and
calls stay where they are, and a number that stands in a points-to set keeps standing for an object. A
queued call may leave its queue, but only for the graph. -/
namespace PointerAnalysis.Solver.State

variable {E S : Type} [Coded E] [IdSet S .contextObject] {a : Analysis E} {s s' s'' : State E S}

/-! ### Reactions let the state grow -/

section Grows

variable [LawfulIdSet S]

theorem Change.grows (change : Change a s s') : s.Grows s' := by
  cases change with
  | number numbers => exact grows_canon numbers.grown
  | supply => apply grows_addObject
  | pass => apply grows_addObjects
  | wire => exact (grows_addFlow s _).1
  | issue => apply grows_pushCallEdge

theorem Changes.grows (changes : Changes a s s') : s.Grows s' := by
  induction changes with
  | refl => exact .refl s
  | tail _ change ih => exact ih.trans change.grows

end Grows

/-! ### Reasons last -/

/-- A later state that takes nothing back of what a reason is made of. -/
structure Upholds (s s' : State E S) : Prop where
  canon : s.canon.Extends s'.canon
  reached : s.calls.reached.toList ⊆ s'.calls.reached.toList
  propagated : ∀ p o, o ∈ IdSet.toList (s.pointsTo.propagatedOf p) →
    o ∈ IdSet.toList (s'.pointsTo.propagatedOf p)

theorem Grows.upholds (grows : s.Grows s') : s.Upholds s' where
  canon := grows.canon
  reached := grows.calls ▸ List.Subset.refl _
  propagated p _ passed := grows.propagated p ▸ passed

section Upheld

variable (upholds : s.Upholds s') {c : ContextId}
include upholds

theorem Runs.upheld {m : MethodId} (runs : s.Runs c m) : s'.Runs c m := by
  obtain ⟨id, reached, entered⟩ := runs
  exact ⟨id, upholds.reached reached, upholds.canon.method_eq entered⟩

theorem Passed.upheld {v : VarId} {o : ContextObjectId} (passed : s.Passed c v o) :
    s'.Passed c v o := by
  obtain ⟨p, located, propagated⟩ := passed
  exact ⟨p, upholds.canon.pointer_eq located, upholds.propagated p o propagated⟩

theorem Carries.upheld {calleeContext : ContextId} {site : CallSiteId} {callee : MethodId}
    (carries : Carries a s c site calleeContext callee) :
    Carries a s' c site calleeContext callee := by
  cases carries with
  | alone runs has enters named chosen =>
    exact .alone (runs.upheld upholds) has enters (upholds.canon.context_eq named)
      (upholds.canon.context_eq chosen)
  | onObject passed found listed object enters named chosen =>
    exact .onObject (passed.upheld upholds) found listed (upholds.canon.names object) enters
      (upholds.canon.context_eq named) (upholds.canon.context_eq chosen)

theorem Issues.upheld {e : ContextCallEdge} (issues : Issues a s e) : Issues a s' e := by
  obtain ⟨c, site, call, calleeContext, callee, placed, found, within, kind, entered, carries⟩ := issues
  exact ⟨c, site, call, calleeContext, callee, upholds.canon.callSite_eq placed, found,
    upholds.canon.method_eq within, kind, upholds.canon.method_eq entered, carries.upheld upholds⟩

theorem Makes.upheld {o : HeapObject E} (makes : Makes a s o) : Makes a s' o := by
  cases makes with
  | alloc runs allocates named =>
    exact .alloc (runs.upheld upholds) allocates (upholds.canon.context_eq named)

end Upheld

theorem Runs.grows {c : ContextId} {m : MethodId} (runs : s.Runs c m) (grows : s.Grows s') :
    s'.Runs c m :=
  runs.upheld grows.upholds

theorem Passed.grows {c : ContextId} {v : VarId} {o : ContextObjectId} (passed : s.Passed c v o)
    (grows : s.Grows s') : s'.Passed c v o :=
  passed.upheld grows.upholds

theorem Carries.grows {c calleeContext : ContextId} {site : CallSiteId} {callee : MethodId}
    (carries : Carries a s c site calleeContext callee) (grows : s.Grows s') :
    Carries a s' c site calleeContext callee :=
  carries.upheld grows.upholds

theorem Carries.involves {c calleeContext : ContextId} {site : CallSiteId} {callee : MethodId}
    (carries : Carries a s c site calleeContext callee) : a.program.Involves callee := by
  cases carries with
  | alone _ _ enters => exact .alone enters
  | onObject _ _ _ _ enters => exact .onObject enters

/-! ### Numbers in points-to sets -/

/-- All numbers that a rule can meet have been handed out. -/
structure Sound (s : State E S) : Prop where
  canon : s.canon.Sound
  objects : ∀ {p o}, s.pointsTo.Knows p o → ∃ object, s.canon.Names o object

theorem Sound.of_passed (sound : s.Sound) {c : ContextId} {v : VarId} {o : ContextObjectId}
    (passed : s.Passed c v o) : ∃ object, s.canon.Names o object := by
  obtain ⟨p, _, propagated⟩ := passed
  exact sound.objects (.inr propagated)

omit [IdSet S .contextObject] in
theorem Supplies.named {p : Pointer} {o : ContextObjectId} (supplies : Supplies a s p o) :
    ∃ object, s.canon.Names o object := by
  cases supplies with
  | alloc _ _ _ _ named => exact ⟨_, named⟩
  | this _ _ _ _ named => exact ⟨_, named⟩

variable [LawfulIdSet S]

theorem sound_empty : (State.empty : State E S).Sound where
  canon := Canon.sound_empty
  objects := by
    rintro p o (pending | propagated)
    · simp [empty] at pending
    · simp [empty] at propagated

theorem Sound.change (sound : s.Sound) (change : Change a s s') : s'.Sound := by
  have grown := change.grows.canon
  cases change with
  | number numbers =>
    exact ⟨sound.canon.numbers numbers, fun known => (sound.objects known).imp fun _ => grown.names⟩
  | @supply p pointer o located supplies =>
    have same := (sameCalls_addObject s p o).1.canon
    refine ⟨same ▸ sound.canon, fun known => ?_⟩
    rw [same]
    rcases (knows_addObject s).mp known with old | ⟨_, rfl⟩
    · exact sound.objects old
    · exact supplies.named
  | @pass e objects there passed =>
    have same := (sameCalls_addObjects s e.target objects).1.canon
    refine ⟨same ▸ sound.canon, fun known => ?_⟩
    rw [same]
    rcases (knows_addObjects s).mp known with old | ⟨_, new⟩
    · exact sound.objects old
    · exact sound.objects (.inr (passed _ new))
  | @wire e source target fromSource toTarget wires =>
    have same := (sameCalls_addFlow s e).canon
    refine ⟨same ▸ sound.canon, fun known => ?_⟩
    rw [same]
    rcases knows_addFlow known with old | ⟨_, passed⟩
    · exact sound.objects old
    · exact sound.objects (.inr passed)
  | issue => exact ⟨sound.canon, sound.objects⟩

theorem Sound.changes (sound : s.Sound) (changes : Changes a s s') : s'.Sound := by
  induction changes with
  | refl => exact sound
  | tail _ change ih => exact ih.change change

theorem Sound.move (sound : s.Sound) (move : Move a s s') : s'.Sound := by
  cases move with
  | change change => exact sound.change change
  | enter => exact ⟨sound.canon, sound.objects⟩
  | skip => exact ⟨sound.canon, sound.objects⟩
  | link => exact ⟨sound.canon, sound.objects⟩
  | turn => exact ⟨sound.canon, sound.objects⟩

theorem Sound.moves (sound : s.Sound) (moves : Moves a s s') : s'.Sound := by
  induction moves with
  | refl => exact sound
  | tail _ move ih => exact ih.move move

theorem Sound.flushed (sound : s.Sound) (p : PointerId) (work : WorkList) :
    (s.flushed p work).Sound :=
  ⟨sound.canon, fun known => sound.objects (PointsToData.knows_flush.mp known)⟩

omit [LawfulIdSet S]

/-! ### What a reaction leaves behind -/

/-- A flow edge between two pointers. -/
def HasFlow (s : State E S) (source target : Pointer) (kind : FlowKind) : Prop :=
  ∃ e ∈ s.flow.edges.toList, s.canon.pointer e.source = .ok source ∧
    s.canon.pointer e.target = .ok target ∧ e.kind = kind

/-- A call edge from a call site to a callee, in the graph or in the queue. -/
def HasCall (s : State E S) (c : ContextId) (site : CallSiteId) (calleeContext : ContextId)
    (callee : MethodId) : Prop :=
  ∃ e, (e ∈ s.calls.edges.toList ∨ e ∈ s.work.queuedCalls) ∧
    s.canon.callSite e.site = .ok ⟨c, site⟩ ∧ s.canon.method e.callee = .ok ⟨calleeContext, callee⟩

/-- A pointer has an object, be it pending or propagated. -/
def HasObject (s : State E S) (pointer : Pointer) (o : ContextObjectId) : Prop :=
  ∃ p, s.canon.pointer p = .ok pointer ∧ s.pointsTo.Knows p o

/-- A later state that has all that is in the sets, in the flow graph, and in the call graph or its
queue. -/
structure Retains (s s' : State E S) : Prop where
  canon : s.canon.Extends s'.canon
  knows : ∀ p o, s.pointsTo.Knows p o → s'.pointsTo.Knows p o
  flow : s.flow.edges.toList ⊆ s'.flow.edges.toList
  calls : ∀ e, e ∈ s.calls.edges.toList ∨ e ∈ s.work.queuedCalls →
    ∃ e', (e' ∈ s'.calls.edges.toList ∨ e' ∈ s'.work.queuedCalls) ∧
      e'.site = e.site ∧ e'.callee = e.callee

theorem Grows.retains (grows : s.Grows s') : s.Retains s' where
  canon := grows.canon
  knows := grows.knows
  flow := grows.flow.subset
  calls e there := ⟨e, there.imp (grows.calls ▸ ·) (grows.queued.subset ·), rfl, rfl⟩

theorem HasFlow.retained {source target : Pointer} {kind : FlowKind}
    (flow : s.HasFlow source target kind) (retains : s.Retains s') :
    s'.HasFlow source target kind := by
  obtain ⟨e, there, fromSource, toTarget, same⟩ := flow
  exact ⟨e, retains.flow there, retains.canon.pointer_eq fromSource,
    retains.canon.pointer_eq toTarget, same⟩

theorem HasCall.retained {c calleeContext : ContextId} {site : CallSiteId} {callee : MethodId}
    (called : s.HasCall c site calleeContext callee) (retains : s.Retains s') :
    s'.HasCall c site calleeContext callee := by
  obtain ⟨e, there, placed, entered⟩ := called
  obtain ⟨e', there', sameSite, sameCallee⟩ := retains.calls e there
  refine ⟨e', there', ?_, ?_⟩
  · rw [sameSite]
    exact retains.canon.callSite_eq placed
  · rw [sameCallee]
    exact retains.canon.method_eq entered

theorem HasObject.retained {pointer : Pointer} {o : ContextObjectId} (has : s.HasObject pointer o)
    (retains : s.Retains s') : s'.HasObject pointer o := by
  obtain ⟨p, located, knows⟩ := has
  exact ⟨p, retains.canon.pointer_eq located, retains.knows p o knows⟩

omit [IdSet S .contextObject] in
/-- A call edge that leaves the queue is in the graph, at least as another one from its call site to
its callee. -/
private theorem calls_of_popped {e : ContextCallEdge} {others : List ContextCallEdge}
    (queued : s.work.queuedCalls = e :: others) {edges : List ContextCallEdge}
    (kept : s.calls.edges.toList ⊆ edges)
    (taken : ∃ e' ∈ edges, e'.site = e.site ∧ e'.callee = e.callee) (old : ContextCallEdge)
    (there : old ∈ s.calls.edges.toList ∨ old ∈ s.work.queuedCalls) :
    ∃ e', (e' ∈ edges ∨ e' ∈ s.work.popCallEdge?.2.queuedCalls) ∧
      e'.site = old.site ∧ e'.callee = old.callee := by
  rw [(WorkList.popCallEdge?_of_queuedCalls_eq_cons queued).2]
  rw [queued, List.mem_cons] at there
  rcases there with known | rfl | waits
  · exact ⟨old, .inl (kept known), rfl, rfl⟩
  · obtain ⟨e', there, site, callee⟩ := taken
    exact ⟨e', .inl there, site, callee⟩
  · exact ⟨old, .inr waits, rfl, rfl⟩

omit [IdSet S .contextObject] in
/-- A new call edge is in the graph once it has been taken. -/
theorem edges_linked {e : ContextCallEdge} (new : s.calls.contains e = false) :
    (s.linked e).calls.edges.toList = s.calls.edges.toList ++ [e] := by
  show ((s.calls.addEdge e).1.addReached e.callee).1.edges.toList = _
  rw [CallGraph.edges_addReached, CallGraph.addEdge_of_new new]

theorem Move.retains [LawfulIdSet S] (move : Move a s s') : s.Retains s' := by
  have same (e : ContextCallEdge) (there : e ∈ s.calls.edges.toList ∨ e ∈ s.work.queuedCalls) :
      ∃ e', (e' ∈ s.calls.edges.toList ∨ e' ∈ s.work.queuedCalls) ∧
        e'.site = e.site ∧ e'.callee = e.callee := ⟨e, there, rfl, rfl⟩
  cases move with
  | change change => exact change.grows.retains
  | @enter id entry entered named listed =>
    refine ⟨.refl _, fun _ _ known => known, List.Subset.refl _, ?_⟩
    have edges : (s.entering id).calls.edges = s.calls.edges := by
      show ((s.calls.addEntry id).addReached id).1.edges = _
      rw [CallGraph.edges_addReached, CallGraph.edges_addEntry]
    rw [edges]
    exact same
  | skip queued known =>
    exact ⟨.refl _, fun _ _ known => known, List.Subset.refl _,
      calls_of_popped queued (List.Subset.refl _) (CallGraph.contains_iff.mp known)⟩
  | @link e others queued new =>
    have edges := edges_linked new
    refine ⟨.refl _, fun _ _ known => known, List.Subset.refl _, calls_of_popped queued ?_ ?_⟩
    · rw [edges]
      exact List.subset_append_left _ _
    · exact ⟨e, by simp [edges], rfl, rfl⟩
  | turn => exact ⟨.refl _, fun _ _ known => known, List.Subset.refl _, same⟩

theorem retains_flushed [LawfulIdSet S] {p : PointerId} {work : WorkList}
    (popped : s.work.popPointer? = some (p, work)) : s.Retains (s.flushed p work) := by
  obtain ⟨_, edges, place⟩ := WorkList.popPointer?_eq_some popped
  have queued : work.queuedCalls = s.work.queuedCalls := by
    simp only [WorkList.queuedCalls, edges, place]
  refine ⟨.refl _, fun _ _ known => PointsToData.knows_flush.mpr known, List.Subset.refl _, ?_⟩
  intro e there
  exact ⟨e, there.imp_right (queued ▸ ·), rfl, rfl⟩

/-! ### Reactions to an object -/

/-- A call on an object has been carried out: the callee is called, and its `this` has the object. -/
def Answers (a : Analysis E) (s : State E S) (c : ContextId) (site : CallSiteId)
    (o : ContextObjectId) : Prop :=
  ∃ context object callee calleeContext method this,
    s.canon.context c = .ok context ∧ s.canon.Names o object ∧
    a.program.EntersOn site object.object.type callee ∧
    s.canon.context calleeContext =
      .ok (a.policy.receiverCall context site object.context object.object) ∧
    s.HasCall c site calleeContext callee ∧
    a.program.method callee = .ok method ∧ method.this = some this ∧
    s.HasObject (.var calleeContext this) o

/-- All that goes through a variable has reacted to an object: stores into its fields, loads from
them, and calls on it. -/
structure Reacted (a : Analysis E) (s : State E S) (c : ContextId) (var : Variable)
    (o : ContextObjectId) : Prop where
  stores : ∀ entry ∈ var.stores.toList, s.HasFlow (.var c entry.2) (.field o entry.1) .store
  loads : ∀ entry ∈ var.loads.toList, s.HasFlow (.field o entry.1) (.var c entry.2) .load
  calls : ∀ site ∈ var.calls.toList, Answers a s c site o

theorem Answers.retained {c : ContextId} {site : CallSiteId} {o : ContextObjectId}
    (answers : Answers a s c site o) (retains : s.Retains s') : Answers a s' c site o := by
  obtain ⟨context, object, callee, calleeContext, method, this, named, known, enters, chosen, called,
    found, instance_, holds⟩ := answers
  exact ⟨context, object, callee, calleeContext, method, this, retains.canon.context_eq named,
    retains.canon.names known, enters, retains.canon.context_eq chosen, called.retained retains,
    found, instance_, holds.retained retains⟩

theorem Reacted.retained {c : ContextId} {var : Variable} {o : ContextObjectId}
    (reacted : Reacted a s c var o) (retains : s.Retains s') : Reacted a s' c var o where
  stores entry listed := (reacted.stores entry listed).retained retains
  loads entry listed := (reacted.loads entry listed).retained retains
  calls site listed := (reacted.calls site listed).retained retains

end PointerAnalysis.Solver.State
