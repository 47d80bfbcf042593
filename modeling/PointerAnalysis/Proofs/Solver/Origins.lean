import PointerAnalysis.Proofs.WakeUps

/-! Where calls, objects and contexts come from. A call edge goes back to a call that is carried out, an
object that has a number to an allocation in a reachable method, and a context to choices of the
policy that start from the empty one. In every state of a run these reasons are there. -/
namespace PointerAnalysis.Solver

open State (Change Changes Move Issues Makes)

variable {E S : Type} [Coded E] {a : Analysis E} {s s' : State E S}

namespace State

/-- Why there is a context: it is empty, or the policy chooses it from contexts that there are. The
receiver that a callee is told apart by has been made. -/
inductive Chooses (a : Analysis E) (s : State E S) : Context E → Prop where
  | empty : Chooses a s []
  | heap {context : Context E} : Chooses a s context → Chooses a s (a.policy.heap context)
  | call {context : Context E} {site : CallSiteId} {call : CallSite} :
      Chooses a s context → a.program.callSite site = .ok call →
      Chooses a s (a.policy.call context site)
  | receiverCall {context : Context E} {site : CallSiteId} {call : CallSite} {o : HeapObject E} :
      Chooses a s context → a.program.callSite site = .ok call → Makes a s o →
      Chooses a s o.context →
      Chooses a s (a.policy.receiverCall context site o.context o.object)

variable [IdSet S .contextObject]

theorem Chooses.upheld {context : Context E} (chooses : Chooses a s context)
    (upholds : s.Upholds s') : Chooses a s' context := by
  induction chooses with
  | empty => exact .empty
  | heap _ ih => exact .heap ih
  | call _ found ih => exact .call ih found
  | receiverCall _ found makes _ ih ih' => exact .receiverCall ih found (makes.upheld upholds) ih'

/-- No move takes a reason back. -/
theorem Move.upholds [LawfulIdSet S] (move : Move a s s') : s.Upholds s' where
  canon := move.retains.canon
  reached := by
    cases move with
    | change change => exact change.grows.upholds.reached
    | enter => exact fun _ there => CallGraph.mem_reached_addReached.mpr (.inl there)
    | skip => exact List.Subset.refl _
    | link =>
      refine fun _ there => CallGraph.mem_reached_addReached.mpr (.inl ?_)
      rwa [CallGraph.reached_addEdge]
    | turn => exact List.Subset.refl _
  propagated p o passed := by
    rw [move.propagated]
    exact passed

/-- Nothing is in a state without a reason that still stands. -/
structure Traced (a : Analysis E) (s : State E S) : Prop where
  issues : ∀ {e}, e ∈ s.calls.edges.toList ∨ e ∈ s.work.queuedCalls → Issues a s e
  makes : ∀ {id o}, s.canon.Names id o → Makes a s o
  chooses : ∀ {id context}, s.canon.context id = .ok context → Chooses a s context

theorem traced_empty (a : Analysis E) : Traced a (State.empty : State E S) where
  issues there := by
    rcases there with there | there
    · cases there
    · cases there
  makes named := by
    obtain ⟨entry, found, _⟩ := named
    cases found
  chooses found := by cases found

namespace Traced

variable (traced : Traced a s)
include traced

/-- Where the tables stay as they are, only new call edges need reasons. -/
private theorem of_same_canon (upholds : s.Upholds s') (same : s'.canon = s.canon)
    (issues : ∀ {e}, e ∈ s'.calls.edges.toList ∨ e ∈ s'.work.queuedCalls →
      (e ∈ s.calls.edges.toList ∨ e ∈ s.work.queuedCalls) ∨ Issues a s' e) : Traced a s' where
  issues there := (issues there).elim (fun old => (traced.issues old).upheld upholds) id
  makes named := (traced.makes (same ▸ named)).upheld upholds
  chooses found := (traced.chooses (same ▸ found)).upheld upholds

/-- What is done to sets and flow edges is no concern of calls, objects and contexts. -/
private theorem of_same_calls (grows : s.Grows s') (same : s.SameCalls s') : Traced a s' := by
  refine traced.of_same_canon grows.upholds same.canon fun there => .inl ?_
  have queued : s'.work.queuedCalls = s.work.queuedCalls := by
    simp only [WorkList.queuedCalls, same.pushed, same.place]
  rwa [same.calls, queued] at there

/-- A context that gets a number is chosen. -/
private theorem chooses_of_numbers {canon : Canon E} (numbers : a.Numbers s.canon canon)
    {id : ContextId} {context : Context E} (found : canon.context id = .ok context) :
    Chooses a s context := by
  have of_new {chosen : Context E} (chooses : Chooses a s chosen)
      (old : s.canon.context id = .ok context ∨ context = chosen) : Chooses a s context := by
    rcases old with old | rfl
    · exact traced.chooses old
    · exact chooses
  cases numbers with
  | emptyContext => exact of_new .empty (Canon.context_of_internContext found)
  | heapContext named =>
    exact of_new (.heap (traced.chooses named)) (Canon.context_of_internContext found)
  | callContext named declared =>
    exact of_new (.call (traced.chooses named) declared) (Canon.context_of_internContext found)
  | receiverContext named declared object =>
    have ⟨entry, _, heapContext, _⟩ := object
    exact of_new (.receiverCall (traced.chooses named) declared (traced.makes object)
      (traced.chooses heapContext)) (Canon.context_of_internContext found)
  | object => exact traced.chooses found
  | contextObject => exact traced.chooses found
  | var => exact traced.chooses found
  | field => exact traced.chooses found
  | method => exact traced.chooses found
  | callSite => exact traced.chooses found

variable [LawfulIdSet S]

theorem change (sound : s.Sound) (change : Change a s s') : Traced a s' := by
  have grows := change.grows
  have upholds := grows.upholds
  cases change with
  | number numbers made =>
    refine ⟨fun there => (traced.issues there).upheld upholds, fun {id o} named => ?_,
      fun found => (traced.chooses_of_numbers numbers found).upheld upholds⟩
    have ⟨entry, found, _⟩ := named
    -- An entry that was there stands for what it stood for before.
    rcases made found with old | ⟨o', named', makes⟩
    · obtain ⟨o', named'⟩ := sound.canon.contextObjects old
      cases named.unique (upholds.canon.names named')
      exact (traced.makes named').upheld upholds
    · cases named.unique named'
      exact makes.upheld upholds
  | supply => exact traced.of_same_calls grows (sameCalls_addObject s _ _).1
  | pass => exact traced.of_same_calls grows (sameCalls_addObjects s _ _).1
  | wire => exact traced.of_same_calls grows (sameCalls_addFlow s _)
  | @issue e issues =>
    refine traced.of_same_canon upholds rfl fun {e'} there => ?_
    have queue : (s.work.pushCallEdge e).queuedCalls = s.work.queuedCalls ++ [e] :=
      WorkList.queuedCalls_pushCallEdge s.work e
    rw [queue, List.mem_append, List.mem_singleton] at there
    rcases there with known | queued | rfl
    · exact .inl (.inl known)
    · exact .inl (.inr queued)
    · exact .inr (issues.upheld upholds)

theorem changes (sound : s.Sound) (changes : Changes a s s') : Traced a s' := by
  induction changes with
  | refl => exact traced
  | tail before change ih => exact ih.change (sound.changes before) change

theorem move (sound : s.Sound) (move : Move a s s') : Traced a s' := by
  have upholds := move.upholds
  cases move with
  | change change => exact traced.change sound change
  | @enter id =>
    refine traced.of_same_canon upholds rfl fun there => .inl (there.imp_left fun known => ?_)
    have edges : (s.entering id).calls.edges = s.calls.edges :=
      (CallGraph.edges_addReached _ _).trans (CallGraph.edges_addEntry _ _)
    rwa [edges] at known
  | skip queued =>
    refine traced.of_same_canon upholds rfl fun there => .inl (there.imp_right fun waits => ?_)
    rw [(WorkList.popCallEdge?_of_queuedCalls_eq_cons queued).2] at waits
    exact queued ▸ List.mem_cons_of_mem _ waits
  | @link e others queued new =>
    refine traced.of_same_canon upholds rfl fun {e'} there => .inl ?_
    have rest : (s.linked e).work.queuedCalls = others :=
      (WorkList.popCallEdge?_of_queuedCalls_eq_cons queued).2
    rw [edges_linked new, rest, List.mem_append, List.mem_singleton] at there
    rw [queued, List.mem_cons]
    rcases there with (known | same) | waits
    · exact .inl known
    · exact .inr (.inl same)
    · exact .inr (.inr waits)
  | turn => exact traced.of_same_canon upholds rfl .inl

theorem passes {p : PointerId} {work : WorkList} (sound : s.Sound)
    (popped : s.work.popPointer? = some (p, work)) (passes : s.PassesOn a p work s') :
    Traced a s' := by
  have upholds : s.Upholds (s.flushed p work) := {
    canon := .refl _
    reached := List.Subset.refl _
    propagated := fun _ _ passed => PointsToData.mem_propagatedOf_flush.mpr (.inl passed) }
  have flushed : Traced a (s.flushed p work) := by
    obtain ⟨_, edges, place⟩ := WorkList.popPointer?_eq_some popped
    have queue : work.queuedCalls = s.work.queuedCalls := by
      simp only [WorkList.queuedCalls, edges, place]
    exact traced.of_same_canon upholds rfl fun there => .inl (there.imp_right (queue ▸ ·))
  exact flushed.changes (sound.flushed p work) passes.changes

end Traced

/-! ### Reasons as facts -/

theorem Runs.records {c : ContextId} {m : MethodId} {context : Context E} (runs : s.Runs c m)
    (named : s.canon.context c = .ok context) : s.Records (.reached context m) := by
  obtain ⟨id, reached, entered⟩ := runs
  exact .reached reached ⟨_, entered, named, rfl⟩

theorem Passed.records {c : ContextId} {v : VarId} {id : ContextObjectId} {context : Context E}
    {o : HeapObject E} (passed : s.Passed c v id) (named : s.canon.context c = .ok context)
    (object : s.canon.Names id o) : s.Records (.holds (.var context v) o) := by
  obtain ⟨p, located, propagated⟩ := passed
  exact .holds propagated (.var located named) object

/-- An object is allocated by a method that is reachable in a context from which its own is chosen. -/
theorem Makes.records {o : HeapObject E} (makes : Makes a s o) :
    ∃ m context, s.Records (.reached context m) ∧ a.Allocates m o.object ∧
      o.context = a.policy.heap context := by
  cases makes with
  | alloc runs allocates named => exact ⟨_, _, runs.records named, allocates, rfl⟩

/-- How the context of a callee comes about: the call has no receiver, or it is made on an object that
its receiver holds. -/
inductive Selects (a : Analysis E) (s : State E S) (context : Context E) (site : CallSiteId)
    (call : CallSite) : Context E → Prop where
  | alone : call.receiver = none → Selects a s context site call (a.policy.call context site)
  | onObject {x : VarId} {o : HeapObject E} :
      call.receiver = some x → s.Records (.holds (.var context x) o) →
      Selects a s context site call (a.policy.receiverCall context site o.context o.object)

/-- The contexts at the two ends of a call edge. -/
theorem Issues.selects (coherent : a.program.Coherent) {e : ContextCallEdge} (issues : Issues a s e) :
    ∃ context site call calleeContext callee, s.canon.CallsAt e.site context site ∧
      a.program.callSite site = .ok call ∧ s.canon.Enters e.caller context call.container ∧
      s.canon.Enters e.callee calleeContext callee ∧
      Selects a s context site call calleeContext := by
  obtain ⟨c, site, call, calleeContext, callee, placed, found, within, _, entered, carries⟩ := issues
  cases carries with
  | alone _ _ enters named chosen =>
    refine ⟨_, site, call, _, callee, ⟨_, placed, named, rfl⟩, found, ⟨_, within, named, rfl⟩,
      ⟨_, entered, chosen, rfl⟩, .alone ?_⟩
    cases enters with
    | static found' alone _ => exact Except.ok.inj (found'.symm.trans found) ▸ alone
    | special found' alone _ _ => exact Except.ok.inj (found'.symm.trans found) ▸ alone
  | onObject passed variable_ listed object _ named chosen =>
    obtain ⟨call', found', receiver⟩ := ((coherent.vars variable_).calls_iff site).mp listed
    cases found.symm.trans found'
    exact ⟨_, site, call, _, callee, ⟨_, placed, named, rfl⟩, found, ⟨_, within, named, rfl⟩,
      ⟨_, entered, chosen, rfl⟩, .onObject receiver (passed.records named object)⟩

end State

/-- In every state of a run, of whatever program, nothing is there without a reason. -/
theorem State.Reachable.traced [IdSet S .contextObject] [LawfulIdSet S]
    (reachable : s.Reachable a) : State.Traced a s :=
  (reachable.keeps _ (State.traced_empty a) (fun tidy traced move => traced.move tidy.sound move)
    fun tidy traced popped passes => traced.passes tidy.sound popped passes).2

end PointerAnalysis.Solver
