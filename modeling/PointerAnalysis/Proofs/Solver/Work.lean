import PointerAnalysis.Proofs.Solver.Performs
import PointerAnalysis.Proofs.Solver.Run

/-! The work of a step. A step takes either a pointer from its queue, and then everything reacts to the
objects that it passes on, or a call edge, and then it makes moves only; so what moves keep and what
passing on keeps is kept by whole runs. -/
namespace PointerAnalysis.Solver

open State (Changes Move Moves Reacted)

variable {E S : Type} [Coded E] [IdSet S .contextObject] {a : Analysis E} {s : State E S}

/-! ### Which queue a step works on -/

/-- The pointer that a step takes, if it takes one, and what then is left of the queues. Call edges come
first while their queue is being emptied. -/
def State.nextPointer? (s : State E S) : Option (PointerId × WorkList) :=
  if s.drainingCalls ∧ s.work.queuedCalls ≠ [] then none else s.work.popPointer?

omit [IdSet S .contextObject] in
/-- Of a chain, the second part runs where the first has led. -/
private theorem run_bind_of_ok {α β : Type} {m : Solver E S α} {f : α → Solver E S β} {x : α}
    {s' : State E S} (ran : m.run s = .ok x s') : (m >>= f).run s = (f x).run s' := by
  show EStateM.bind m f s = f x s'
  unfold EStateM.bind
  rw [show m s = _ from ran]

private theorem propagateNext_of_some {p : PointerId} {work : WorkList}
    (popped : s.work.popPointer? = some (p, work)) :
    (propagateNext a).run s = (do propagate a p; return true : Solver E S Bool).run { s with work } := by
  have taken : popPointer.run s = .ok (some p) { s with work } := by
    simp [popPointer, popped]
  exact run_bind_of_ok taken

private theorem propagateNext_of_none (nothing : s.work.popPointer? = none) :
    (propagateNext a).run s = .ok false s := by
  have taken : popPointer.run s = .ok none s := by
    simp [popPointer, nothing]
  exact run_bind_of_ok taken

private theorem processNextCall_of_cons {e : ContextCallEdge} {others : List ContextCallEdge}
    (queued : s.work.queuedCalls = e :: others) :
    (processNextCall a).run s =
      (do processCall a e; return true : Solver E S Bool).run
        { s with work := s.work.popCallEdge?.2 } := by
  have first := (WorkList.popCallEdge?_of_queuedCalls_eq_cons queued).1
  have taken : popCallEdge.run s = .ok (some e) { s with work := s.work.popCallEdge?.2 } := by
    simp [popCallEdge, ← first]
  exact run_bind_of_ok taken

private theorem processNextCall_of_nil (nothing : s.work.queuedCalls = []) :
    (processNextCall a).run s = .ok false s := by
  have taken : popCallEdge.run s = .ok none s := by
    simp [popCallEdge, WorkList.popCallEdge?_of_queuedCalls_eq_nil nothing]
  exact run_bind_of_ok taken

omit [IdSet S .contextObject] in
private theorem run_bind_congr {α β : Type} {m m' : Solver E S α} {f : α → Solver E S β}
    {s s' : State E S} (same : m.run s = m'.run s') : (m >>= f).run s = (m' >>= f).run s' := by
  show EStateM.bind m f s = EStateM.bind m' f s'
  unfold EStateM.bind
  rw [show m s = m' s' from same]

/-- With no call edge left, emptying their queue gives way to the pointers. -/
private theorem drain_of_nil (nothing : s.work.queuedCalls = []) :
    (do
      if ← processNextCall a then return true
      modify ({ · with drainingCalls := false })
      propagateNext a : Solver E S Bool).run s =
      (propagateNext a).run { s with drainingCalls := false } := by
  rw [run_bind_of_ok (processNextCall_of_nil nothing)]
  rfl

private theorem drain_of_cons {e : ContextCallEdge} {others : List ContextCallEdge}
    (queued : s.work.queuedCalls = e :: others) :
    (do
      if ← processNextCall a then return true
      modify ({ · with drainingCalls := false })
      propagateNext a : Solver E S Bool).run s =
      (do processCall a e; return true : Solver E S Bool).run
        { s with work := s.work.popCallEdge?.2 } := by
  rw [run_bind_congr (processNextCall_of_cons queued)]
  simp

private theorem step_eq : (step a).run s =
    if s.drainingCalls then
      (do
        if ← processNextCall a then return true
        modify ({ · with drainingCalls := false })
        propagateNext a : Solver E S Bool).run s
    else
      (do
        if ← propagateNext a then return true
        modify ({ · with drainingCalls := true })
        if ← processNextCall a then return true
        modify ({ · with drainingCalls := false })
        propagateNext a : Solver E S Bool).run s := by
  unfold step
  rw [run_bind_of_ok (m := get) rfl]
  cases s.drainingCalls <;> rfl

/-- A step that has a pointer to take passes it on. -/
theorem step_of_pointer {p : PointerId} {work : WorkList} (next : s.nextPointer? = some (p, work)) :
    (step a).run s = (do propagate a p; return true : Solver E S Bool).run
      { s with work, drainingCalls := false } := by
  unfold State.nextPointer? at next
  split at next
  · cases next
  next free =>
  obtain ⟨canon, pointsTo, flow, calls, queues, draining, propagations⟩ := s
  rw [step_eq]
  cases draining with
  | false =>
    rw [if_neg (by simp), run_bind_congr (propagateNext_of_some next)]
    simp
  | true =>
    have nothing : queues.queuedCalls = [] := by simpa using free
    rw [if_pos rfl]
    exact (drain_of_nil nothing).trans (propagateNext_of_some next)

/-- A step without pointer to take processes a call edge, unless there is none. -/
theorem step_of_call {e : ContextCallEdge} {others : List ContextCallEdge}
    (next : s.nextPointer? = none) (queued : s.work.queuedCalls = e :: others) :
    (step a).run s = (do processCall a e; return true : Solver E S Bool).run
      { s with work := s.work.popCallEdge?.2, drainingCalls := true } := by
  obtain ⟨canon, pointsTo, flow, calls, queues, draining, propagations⟩ := s
  have queued : queues.queuedCalls = e :: others := queued
  rw [step_eq]
  cases draining with
  | false =>
    have nothing : queues.popPointer? = none := by simpa [State.nextPointer?] using next
    rw [if_neg (by simp), run_bind_of_ok (propagateNext_of_none nothing)]
    exact drain_of_cons queued
  | true =>
    rw [if_pos rfl, drain_of_cons queued]

/-- A step without pointer and without call edge to take finds nothing to do. -/
theorem step_of_nothing (next : s.nextPointer? = none) (nothing : s.work.queuedCalls = []) :
    (step a).run s = .ok false { s with drainingCalls := false } := by
  obtain ⟨canon, pointsTo, flow, calls, queues, draining, propagations⟩ := s
  have nothing : queues.queuedCalls = [] := nothing
  have idle : queues.popPointer? = none := by simpa [State.nextPointer?, nothing] using next
  rw [step_eq]
  cases draining with
  | false =>
    rw [if_neg (by simp), run_bind_of_ok (propagateNext_of_none idle)]
    exact (drain_of_nil (s := ⟨canon, pointsTo, flow, calls, queues, true, propagations⟩) nothing).trans
      (propagateNext_of_none idle)
  | true =>
    rw [if_pos rfl, drain_of_nil nothing]
    exact propagateNext_of_none idle

/-! ### Pointers -/

/-- A pointer has passed its pending objects on: they have reached the end of every flow edge that
leaves it, and if it is a variable, all that goes through it has reacted to them. -/
structure State.PassesOn (a : Analysis E) (s : State E S) (p : PointerId) (work : WorkList)
    (s' : State E S) : Prop where
  changes : Changes a (s.flushed p work) s'
  delivered : ∀ e ∈ s.flow.edges.toList, e.source = p →
    ∀ o ∈ IdSet.toList (s.pointsTo.pendingOf p), s'.pointsTo.Knows e.target o
  reacted : (∃ object f, s'.canon.pointer p = .ok (.field object f)) ∨
    ∃ c v var, s'.canon.pointer p = .ok (.var c v) ∧ a.program.var v = .ok var ∧
      ∀ o ∈ IdSet.toList (s.pointsTo.pendingOf p), Reacted a s' c var o

variable [LawfulIdSet S]

/-- Objects that have been passed on reach the ends of the flow edges. -/
private theorem performs_deliver {p : PointerId} {delta : S}
    (passed : ∀ o ∈ IdSet.toList delta, o ∈ IdSet.toList (s.pointsTo.propagatedOf p)) :
    Performs a ((s.flow.edgesFrom p).forM fun (target, _) => modify (·.addObjects target delta)) s
      (fun _ s' => ∀ edge ∈ s.flow.edgesFrom p, ∀ o ∈ IdSet.toList delta,
        s'.pointsTo.Knows edge.1 o) := by
  refine performs_forM ?_ ?_
  · intro edge s₁ s₂ changes arrived o there
    exact changes.grows.knows _ _ (arrived o there)
  · rintro ⟨target, kind⟩ leaves s₁ changes
    have grows := changes.grows
    have edge : (⟨p, target, kind⟩ : FlowEdge) ∈ s₁.flow.edges.toList :=
      grows.flow.subset (FlowGraph.mem_edgesFrom.mp leaves)
    refine performs_modify (.pass edge fun o there => ?_) fun o there => ?_
    · rw [grows.propagated]
      exact passed o there
    · exact (State.knows_addObjects s₁).mpr (.inr ⟨rfl, there⟩)

/-- The variable that a pointer is for reacts to objects that the pointer has passed on. -/
private theorem performs_react {c : ContextId} {context : Context E} {v : VarId} {var : Variable}
    {delta : S} (sound : s.Sound) (named : s.canon.context c = .ok context)
    (found : a.program.var v = .ok var) (passed : ∀ o ∈ IdSet.toList delta, s.Passed c v o) :
    Performs a (do
      connectStores c var delta
      connectLoads c var delta
      connectCalls a c var delta : Solver E S Unit) s
      (fun _ s' => ∀ o ∈ IdSet.toList delta, Reacted a s' c var o) := by
  refine performs_bind (performs_connectStores sound named found passed) fun _ s₁ changes₁ stores => ?_
  have grows₁ := changes₁.grows
  refine performs_bind (performs_connectLoads (sound.changes changes₁)
    (grows₁.canon.context_eq named) found fun o there => (passed o there).grows grows₁)
    fun _ s₂ changes₂ loads => ?_
  have grows₂ := (changes₁.trans changes₂).grows
  refine Outcome.mono (performs_connectCalls (grows₂.canon.context_eq named) found
    fun o there => (passed o there).grows grows₂) ?_ fun _ _ => id
  rintro _ s₃ ⟨changes₃, calls⟩
  refine ⟨changes₃, fun o there => ⟨fun entry listed => ?_, fun entry listed => ?_,
    fun site listed => calls site listed o there⟩⟩
  · exact (stores entry listed o there).retained (changes₂.trans changes₃).grows.retains
  · exact (loads entry listed o there).retained changes₃.grows.retains

/-- Passing a waiting pointer on gives rise to all the reactions there are to its objects. -/
theorem outcome_passesOn (sound : s.Sound) {p : PointerId} {work : WorkList} {first : ContextObjectId}
    (waits : first ∈ IdSet.toList (s.pointsTo.pendingOf p)) :
    Outcome (propagate a p) { s with work } (fun _ s' => s.PassesOn a p work s')
      (fun _ _ => True) := by
  refine outcome_bind (outcome_modifyGet ?_)
  have nonempty : IdSet.isEmpty (s.pointsTo.flush p).2 = false :=
    IdSet.isEmpty_eq_false_iff.mpr ⟨first, PointsToData.mem_flush.mpr waits⟩
  dsimp only
  rw [if_neg (by simp [nonempty])]
  refine outcome_bind (outcome_modify ?_)
  have passed (o : ContextObjectId) (there : o ∈ IdSet.toList (s.pointsTo.flush p).2) :
      o ∈ IdSet.toList ((s.flushed p work).pointsTo.propagatedOf p) :=
    PointsToData.mem_propagatedOf_flush.mpr (.inr ⟨rfl, PointsToData.mem_flush.mp there⟩)
  -- What is left to do delivers all objects that were waiting, and reacts to each of them.
  have enough {m : Solver E S Unit} (performs : Performs a m (s.flushed p work) fun _ s' =>
      (∀ edge ∈ s.flow.edgesFrom p, ∀ o ∈ IdSet.toList (s.pointsTo.flush p).2,
          s'.pointsTo.Knows edge.1 o) ∧
        ((∃ object f, s'.canon.pointer p = .ok (.field object f)) ∨
          ∃ c v var, s'.canon.pointer p = .ok (.var c v) ∧ a.program.var v = .ok var ∧
            ∀ o ∈ IdSet.toList (s.pointsTo.flush p).2, Reacted a s' c var o)) :
      Outcome m (s.flushed p work) (fun _ s' => s.PassesOn a p work s') (fun _ _ => True) := by
    refine Outcome.mono performs ?_ fun _ _ => id
    rintro _ s' ⟨changes, delivered, reacted⟩
    simp only [PointsToData.mem_flush] at delivered reacted
    refine ⟨changes, ?_, reacted⟩
    rintro ⟨source, target, kind⟩ there rfl o pending
    exact delivered (target, kind) (FlowGraph.mem_edgesFrom.mpr there) o pending
  apply enough
  refine performs_get (performs_bind (performs_deliver passed) fun _ s₁ changes₁ delivered => ?_)
  have sound₁ := (sound.flushed p work).changes changes₁
  refine performs_get (performs_known fun pointer located => ?_)
  cases pointer with
  | field object f => exact performs_pure ⟨delivered, .inl ⟨object, f, located⟩⟩
  | var c v =>
    refine performs_known fun var found => ?_
    obtain ⟨_, located'⟩ := sound₁.canon.pointers located
    obtain ⟨context, named⟩ : ∃ context, s₁.canon.context c = .ok context := by
      cases located' with
      | var found named =>
        cases located.symm.trans found
        exact ⟨_, named⟩
      | field found => cases located.symm.trans found
    have passed₁ (o : ContextObjectId) (there : o ∈ IdSet.toList (s.pointsTo.flush p).2) :
        s₁.Passed c v o := ⟨p, located, changes₁.grows.propagated p ▸ passed o there⟩
    refine Outcome.mono (performs_react sound₁ named found passed₁) ?_ fun _ _ => id
    rintro _ s₂ ⟨changes₂, reacted⟩
    have grows₂ := changes₂.grows
    refine ⟨changes₂, fun edge leaves o there => ?_, .inr ⟨c, v, var, ?_, found, reacted⟩⟩
    · exact grows₂.knows _ _ (delivered edge leaves o there)
    · exact grows₂.canon.pointer_eq located

/-! ### Call edges -/

/-- A call edge that has been linked, with what it stands for. -/
private structure Links (a : Analysis E) (s : State E S) (e : ContextCallEdge) (site : ContextCallSite)
    (callee : ContextMethod) (call : CallSite) (method : Method) : Prop where
  linked : e ∈ s.calls.edges.toList
  placed : s.canon.callSite e.site = .ok site
  entered : s.canon.method e.callee = .ok callee
  found : a.program.callSite site.site = .ok call
  declared : a.program.method callee.method = .ok method
  caller : ∃ context, s.canon.context site.context = .ok context
  called : ∃ context, s.canon.context callee.context = .ok context

section Links

variable {e : ContextCallEdge} {site : ContextCallSite} {callee : ContextMethod} {call : CallSite}
  {method : Method} (links : Links a s e site callee call method)
include links

omit [LawfulIdSet S] in
private theorem Links.grows {s' : State E S} (grows : s.Grows s') :
    Links a s' e site callee call method where
  linked := grows.calls ▸ links.linked
  placed := grows.canon.callSite_eq links.placed
  entered := grows.canon.method_eq links.entered
  found := links.found
  declared := links.declared
  caller := links.caller.imp fun _ => grows.canon.context_eq
  called := links.called.imp fun _ => grows.canon.context_eq

private theorem performs_argument {arg param : VarId}
    (listed : (arg, param) ∈ call.args.zip method.params) :
    Performs a (do
      let source ← numberVar site.context arg
      let target ← numberVar callee.context param
      addFlow source target .param : Solver E S Unit) s (fun _ _ => True) := by
  obtain ⟨callerContext, named⟩ := links.caller
  refine performs_bind (performs_numberVar named
    (.argument links.found (List.of_mem_zip listed).1)) fun p s₁ changes₁ fromSource => ?_
  obtain ⟨calleeContext, named'⟩ := (links.grows changes₁.grows).called
  refine performs_bind (performs_numberVar named'
    (.param links.declared (List.of_mem_zip listed).2)) fun q s₂ changes₂ toTarget => ?_
  have links₂ := links.grows (changes₁.trans changes₂).grows
  have wires : State.Wires a s₂ (.var site.context arg) (.var callee.context param) .param :=
    .param links₂.linked links₂.placed links₂.entered links.found links.declared listed
  exact (performs_addFlow (e := ⟨p, q, .param⟩) (changes₂.grows.canon.pointer_eq fromSource) toTarget
    wires).mono fun _ _ _ => trivial

private theorem performs_returned {result returned : VarId} {q : PointerId}
    (resulting : call.result = some result) (listed : returned ∈ method.returns)
    (toTarget : s.canon.pointer q = .ok (.var site.context result)) :
    Performs a (do
      let source ← numberVar callee.context returned
      addFlow source q .return : Solver E S Unit) s (fun _ _ => True) := by
  obtain ⟨calleeContext, named⟩ := links.called
  refine performs_bind (performs_numberVar named (.returned links.declared listed))
    fun p s₁ changes₁ fromSource => ?_
  have links₁ := links.grows changes₁.grows
  have wires : State.Wires a s₁ (.var callee.context returned) (.var site.context result) .return :=
    .return links₁.linked links₁.placed links₁.entered links.found links.declared listed resulting
  exact (performs_addFlow (e := ⟨p, q, .return⟩) fromSource
    (changes₁.grows.canon.pointer_eq toTarget) wires).mono fun _ _ _ => trivial

end Links

/-- A call edge that is taken is dropped or linked, and if it is linked, arguments and results
flow. -/
theorem outcome_moves (sound : s.Sound) {e : ContextCallEdge} {others : List ContextCallEdge}
    (queued : s.work.queuedCalls = e :: others) :
    Outcome (processCall a e) { s with work := s.work.popCallEdge?.2 } (fun _ s' => Moves a s s')
      (fun _ _ => True) := by
  refine outcome_bind (outcome_get ?_)
  dsimp only
  split
  · next old => exact outcome_pure (.single (.skip queued old))
  next unknown =>
  have new : s.calls.contains e = false := Bool.eq_false_iff.mpr unknown
  refine outcome_bind (outcome_get (outcome_lookup fun site placed => ?_))
  refine outcome_bind (outcome_get (outcome_lookup fun callee entered => ?_))
  refine outcome_lookup fun call found => outcome_lookup fun method declared => ?_
  split
  · exact outcome_bind (outcome_throw trivial)
  have sound₀ : State.Sound
      { s with work := s.work.popCallEdge?.2, calls := (s.calls.addEdge e).1 } :=
    ⟨sound.canon, sound.objects⟩
  have links : Links a (s.linked e) e site callee call method := by
    refine ⟨?_, placed, entered, found, declared, ?_, ?_⟩
    · rw [State.edges_linked new]
      exact List.mem_append_right _ List.mem_cons_self
    · exact sound.canon.callSites placed
    · exact sound.canon.methods entered
  refine outcome_bind (outcome_modify ?_)
  refine outcome_bind ((performs_reach sound₀ e.callee).mono ?_ fun _ _ => id)
  intro _ s₁ changes₁
  have changes₁ : Changes a (s.linked e) s₁ := changes₁
  -- Whatever changes are made from here on are moves behind the link.
  have enough {m : Solver E S Unit} (performs : Performs a m s₁ fun _ _ => True) :
      Outcome m s₁ (fun _ s' => Moves a s s') (fun _ _ => True) :=
    Outcome.mono performs
      (fun _ _ held => .head (.link queued new) (changes₁.trans held.1).moves) fun _ _ => id
  apply enough
  refine performs_bind (performs_each fun pair listed s₂ changes₂ => ?_) fun _ s₂ changes₂ _ => ?_
  · exact performs_argument (links.grows (changes₁.trans changes₂).grows) listed
  cases resulting : call.result with
  | none => exact performs_pure trivial
  | some result =>
    have links₂ := links.grows (changes₁.trans changes₂).grows
    obtain ⟨_, named⟩ := links₂.caller
    refine performs_bind (performs_numberVar named (.result found resulting))
      fun q s₃ changes₃ toTarget => performs_each fun returned listed s₄ changes₄ => ?_
    exact performs_returned (links₂.grows (changes₃.trans changes₄).grows) resulting listed
      (changes₄.grows.canon.pointer_eq toTarget)

/-! ### Steps and runs -/

/-- What a step has done: it has passed a pointer on, or it had none to take and made moves. -/
inductive State.Works (a : Analysis E) (s s' : State E S) : Prop where
  | passes {p : PointerId} {work : WorkList} : s.nextPointer? = some (p, work) →
      State.PassesOn a { s with drainingCalls := false } p work s' → Works a s s'
  | moves : s.nextPointer? = none → Moves a s s' → Works a s s'

omit [IdSet S .contextObject] [LawfulIdSet S] in
theorem State.popPointer?_of_nextPointer? {p : PointerId} {work : WorkList}
    (next : s.nextPointer? = some (p, work)) : s.work.popPointer? = some (p, work) := by
  unfold State.nextPointer? at next
  split at next
  · cases next
  · exact next

omit [LawfulIdSet S] in
/-- A pointer that is taken has something to pass on. -/
theorem State.Scheduled.pending_of_popped (scheduled : s.Scheduled) {p : PointerId} {work : WorkList}
    (popped : s.work.popPointer? = some (p, work)) :
    ∃ o, o ∈ IdSet.toList (s.pointsTo.pendingOf p) := by
  apply (scheduled.waiting_iff p).mp
  rw [(WorkList.popPointer?_eq_some popped).1]
  exact List.mem_cons_self

theorem outcome_step (sound : s.Sound) (scheduled : s.Scheduled) :
    Outcome (step a) s (fun _ s' => s.Works a s') (fun _ _ => True) := by
  unfold Outcome
  cases next : s.nextPointer? with
  | some taken =>
    obtain ⟨p, work⟩ := taken
    obtain ⟨first, waits⟩ := scheduled.pending_of_popped (State.popPointer?_of_nextPointer? next)
    have sound' : State.Sound { s with drainingCalls := false } := ⟨sound.canon, sound.objects⟩
    have passed : Outcome (propagate a p) { s with work, drainingCalls := false } _ _ :=
      outcome_passesOn (s := { s with drainingCalls := false }) sound' waits
    rw [step_of_pointer next]
    exact outcome_bind (passed.mono (fun _ _ passes => .passes next passes) fun _ _ => id)
  | none =>
    cases queued : s.work.queuedCalls with
    | cons e others =>
      have sound' : State.Sound { s with drainingCalls := true } := ⟨sound.canon, sound.objects⟩
      have moved : Outcome (processCall a e)
          { s with work := s.work.popCallEdge?.2, drainingCalls := true } _ _ :=
        outcome_moves (s := { s with drainingCalls := true }) sound' queued
      rw [step_of_call next queued]
      exact outcome_bind (moved.mono (fun _ _ moves => .moves next (.head (.turn true) moves))
        fun _ _ => id)
    | nil =>
      rw [step_of_nothing next queued]
      exact .moves next (.single (.turn false))

private theorem outcome_entries {entries : List MethodId} (sound : s.Sound)
    (listed : ∀ m ∈ entries, m ∈ a.program.entries) {context : ContextId}
    (named : s.canon.context context = .ok []) :
    Outcome (entries.forM fun entry => do
      let id ← numberMethod context entry
      modify fun s => { s with calls := s.calls.addEntry id }
      reach a id : Solver E S Unit) s (fun _ s' => Moves a s s') (fun _ _ => True) := by
  induction entries generalizing s with
  | nil => exact outcome_pure .refl
  | cons m entries ih =>
    obtain ⟨first, listed⟩ := List.forall_mem_cons.mp listed
    refine outcome_bind (outcome_bind (Outcome.mono (performs_numberMethod named (.entry first)) ?_
      fun _ _ => id))
    rintro number s₁ ⟨changes₁, entered⟩
    have grows₁ := changes₁.grows
    have sound₁ := sound.changes changes₁
    have named₁ := grows₁.canon.context_eq named
    have sound₂ : State.Sound { s₁ with calls := s₁.calls.addEntry number } :=
      ⟨sound₁.canon, sound₁.objects⟩
    refine outcome_bind (outcome_modify ?_)
    refine (performs_reach sound₂ number).mono ?_ fun _ _ => id
    intro _ s₃ changes₃
    have changes₃ : Changes a (s₁.entering number) s₃ := changes₃
    have moves₃ : Moves a s s₃ :=
      changes₁.moves.trans (.head (.enter entered named₁ first) changes₃.moves)
    have others := ih (sound.moves moves₃) listed
      (changes₃.grows.canon.context_eq (show (s₁.entering number).canon.context context = .ok [] from named₁))
    exact others.mono (fun _ _ moves => moves₃.trans moves) fun _ _ => id

theorem outcome_start (sound : s.Sound) :
    Outcome (start a) s (fun _ s' => Moves a s s') (fun _ _ => True) := by
  have numbered : Performs a (numberContext []) s _ := performs_numberContext .emptyContext
  refine outcome_bind (Outcome.mono numbered ?_ fun _ _ => id)
  rintro context s₁ ⟨changes₁, named⟩
  refine (outcome_entries (sound.changes changes₁) (fun m => Array.mem_toList_iff.mp) named).mono ?_
    fun _ _ => id
  exact fun _ _ moves => changes₁.moves.trans moves

theorem State.Scheduled.move {s' : State E S} (scheduled : s.Scheduled) (move : Move a s s') :
    s'.Scheduled := by
  cases move with
  | change change => exact change.grows.scheduled scheduled
  | enter => exact ⟨scheduled.waiting_iff, scheduled.disjoint⟩
  | skip => exact ⟨scheduled.waiting_iff, scheduled.disjoint⟩
  | link => exact ⟨scheduled.waiting_iff, scheduled.disjoint⟩
  | turn => exact ⟨scheduled.waiting_iff, scheduled.disjoint⟩

theorem State.Scheduled.flushed (scheduled : s.Scheduled) {p : PointerId} {work : WorkList}
    (popped : s.work.popPointer? = some (p, work)) : (s.flushed p work).Scheduled where
  waiting_iff q := by
    have queue := (WorkList.popPointer?_eq_some popped).1
    have nodup := s.work.nodup
    rw [queue, List.nodup_cons] at nodup
    have before := scheduled.waiting_iff q
    rw [queue, List.mem_cons] at before
    show q ∈ work.pointers.toList ↔ ∃ o, o ∈ IdSet.toList ((s.pointsTo.flush p).1.pendingOf q)
    simp only [PointsToData.mem_pendingOf_flush, exists_and_left, ← before]
    by_cases same : q = p
    · simp [same, nodup.1]
    · simp [same]
  disjoint := PointsToData.disjoint_flush scheduled.disjoint p

/-- Between two steps all numbers stand for something, and just the pointers wait that have to. -/
structure State.Tidy (s : State E S) : Prop where
  sound : s.Sound
  scheduled : s.Scheduled

theorem State.Tidy.move {s' : State E S} (tidy : s.Tidy) (move : Move a s s') : s'.Tidy :=
  ⟨tidy.sound.move move, tidy.scheduled.move move⟩

theorem State.Tidy.passes {s' : State E S} (tidy : s.Tidy) {p : PointerId} {work : WorkList}
    (popped : s.work.popPointer? = some (p, work)) (passes : s.PassesOn a p work s') : s'.Tidy :=
  ⟨(tidy.sound.flushed p work).changes passes.changes,
    passes.changes.grows.scheduled (tidy.scheduled.flushed popped)⟩

/-- What every move and every pointer that is passed on keep holds in every state of a run. -/
theorem State.Reachable.keeps (invariant : State E S → Prop) (empty : invariant .empty)
    (move : ∀ {s s'}, s.Tidy → invariant s → Move a s s' → invariant s')
    (passes : ∀ {s s' p work}, s.Tidy → invariant s → s.work.popPointer? = some (p, work) →
      s.PassesOn a p work s' → invariant s')
    (reachable : s.Reachable a) : s.Tidy ∧ invariant s := by
  have moved {s s' : State E S} (moves : Moves a s s') (held : s.Tidy ∧ invariant s) :
      s'.Tidy ∧ invariant s' := by
    induction moves with
    | refl => exact held
    | tail _ last ih => exact ⟨ih.1.move last, move ih.1 ih.2 last⟩
  induction reachable with
  | start ran =>
    have tidy : (State.empty : State E S).Tidy := ⟨sound_empty, (invariant_empty a).scheduled⟩
    exact moved ((outcome_start sound_empty).of_ok ran) ⟨tidy, empty⟩
  | @step s s' more _ ran held =>
    cases (outcome_step held.1.sound held.1.scheduled).of_ok ran with
    | moves _ moves => exact moved moves held
    | passes next passed =>
      have turned := moved (.single (.turn false)) held
      have popped := popPointer?_of_nextPointer? next
      exact ⟨turned.1.passes popped passed, passes turned.1 turned.2 popped passed⟩

theorem State.Reachable.tidy (reachable : s.Reachable a) : s.Tidy := by
  have held : s.Tidy ∧ True :=
    reachable.keeps (fun _ => True) trivial (fun _ _ _ => trivial) fun _ _ _ _ => trivial
  exact held.1

end PointerAnalysis.Solver
