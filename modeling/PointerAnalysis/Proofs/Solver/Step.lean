import PointerAnalysis.Proofs.Solver.Reactions
import PointerAnalysis.Proofs.Solver.Settled

/-! The steps of the solver keep a state orderly. A method that becomes reachable, a call edge that
enters the graph and the objects that a pointer passes on are debts at first, and the rest of the
step pays them; so between two steps nothing that was recorded waits for a reaction. -/
namespace PointerAnalysis.Solver

variable {E S : Type} [Coded E] [IdSet S .contextObject] [LawfulIdSet S] {a : Analysis E}
  {s : State E S} {debts : Fact E → Prop}

/-! ### Methods -/

omit [LawfulIdSet S] in
/-- A method that becomes reachable is a debt until its statements have been met. -/
private theorem orderly_addReached (orderly : s.Orderly a debts) {id : ContextMethodId}
    {c : Context E} {m : MethodId} (entered : s.canon.Enters id c m)
    (derived : a.Derives (.reached c m)) (new : id ∉ s.calls.reached.toList) :
    s.Follows { s with calls := (s.calls.addReached id).1 } ∧
      State.Orderly a (fun f => debts f ∨ f = .reached c m)
        { s with calls := (s.calls.addReached id).1 } := by
  obtain ⟨reached, _, edges, entries⟩ := CallGraph.addReached_of_new new
  have shows : ∀ f, s.Shows f → State.Shows { s with calls := (s.calls.addReached id).1 } f :=
    fun f shown => shown.mono (.refl _) (fun _ _ known => known) (List.Subset.refl _)
      (reached ▸ List.subset_append_left _ _) fun e there => ⟨e, edges ▸ there, rfl, rfl⟩
  have added : ∀ {id'}, id' ∈ (s.calls.addReached id).1.reached.toList →
      id' ∈ s.calls.reached.toList ∨ id' = id := by
    intro id' there
    simpa [reached] using there
  refine ⟨⟨{ State.Advances.refl s with
    edges := edges ▸ List.prefix_refl _
    reached := reached ▸ List.prefix_append _ _
    entries := entries ▸ List.prefix_refl _ }, shows⟩, ?_, ?_, ?_⟩
  · refine orderly.grounded.of_new (.refl _) .inl .inl ?_ (edges ▸ .inl) .inl (entries ▸ .inl)
    intro id' there
    rcases added there with old | rfl
    · exact .inl old
    · exact .inr ⟨c, m, entered, derived⟩
  · refine orderly.settled.advance orderly.grounded (.refl _) shows (fun _ => .inl) (fun _ => .inl)
      ?_ (edges ▸ fun _ => .inl) (fun _ _ => .inl)
    intro id' there
    rcases added there with old | rfl
    · exact .inl old
    · refine .inr fun c' m' entered' => .inr ?_
      obtain ⟨rfl, rfl⟩ := entered.unique entered'
      rfl
  · exact ⟨orderly.scheduled.waiting_iff, orderly.scheduled.disjoint⟩

/-- Making a derivable method reachable meets its statements, if they have not been met. -/
theorem keeps_reach (coherent : a.Coherent) (orderly : s.Orderly a debts) {id : ContextMethodId}
    {c : Context E} {m : MethodId} (entered : s.canon.Enters id c m)
    (derived : a.Derives (.reached c m)) :
    Keeps a debts (reach a id) s (fun _ s' => s'.Shows (.reached c m)) := by
  refine outcome_bind (outcome_modifyGet ?_)
  dsimp only
  by_cases known : id ∈ s.calls.reached.toList
  · rw [CallGraph.addReached_of_known known]
    exact keeps_pure orderly (.inl (.reached known entered))
  · obtain ⟨follows, orderly'⟩ := orderly_addReached orderly entered derived known
    obtain ⟨reached, fresh, _⟩ := CallGraph.addReached_of_new known
    rw [fresh, if_pos rfl]
    refine Keeps.from_earlier ?_ follows
    have shown : State.Shows { s with calls := (s.calls.addReached id).1 } (.reached c m) :=
      .inl (.reached (by simp [reached]) entered)
    obtain ⟨entry, found, named, rfl⟩ := entered
    obtain ⟨method, declared⟩ := derived.scoped coherent
    refine outcome_bind (outcome_get (outcome_bind (outcome_known found ?_)))
    refine outcome_bind (outcome_known declared ?_)
    have met : Quiet a (method.body.toList.forM (meetStatement a entry.context entry.method))
        { s with calls := (s.calls.addReached id).1 }
        (fun _ s' => ∀ statement ∈ method.body.toList, a.Met s'.Shows c entry.method statement) :=
      quiet_forM orderly'.grounded (fun statement s' s'' grows met => met.mono fun _ => grows.shows)
        fun statement there s' grows grounded =>
          quiet_meetStatement coherent grounded (grows.canon.context_eq named) derived
            ⟨method, declared, there⟩
    refine ((met.grown.keeps orderly').pay ?_).mono ?_
    · rintro _ s' ⟨_, met⟩ f (owed | rfl) _
      · exact .inl owed
      · refine .inr fun statement ⟨method', declared', there⟩ => ?_
        cases declared.symm.trans declared'
        exact met statement there
    · rintro _ s' _ ⟨grows, _⟩
      exact grows.shows shown

/-! ### Call edges -/

/-- The state once a queued call edge has been taken. -/
private def taken (s : State E S) (edge : ContextCallEdge) : State E S :=
  { s with work := s.work.popCallEdge?.2, calls := (s.calls.addEdge edge).1 }

omit [LawfulIdSet S] in
/-- A call edge that is taken is in the graph afterwards, be it new or not. -/
private theorem follows_taken {edge : ContextCallEdge} {others : List ContextCallEdge}
    (queued : s.work.queuedCalls = edge :: others) : s.Follows (taken s edge) := by
  have popped := WorkList.popCallEdge?_of_queuedCalls_eq_cons queued
  have edges : s.calls.edges.toList <+: (s.calls.addEdge edge).1.edges.toList ∧
      ∃ e ∈ (s.calls.addEdge edge).1.edges.toList, e.site = edge.site ∧ e.callee = edge.callee := by
    cases known : s.calls.contains edge with
    | true =>
      rw [CallGraph.addEdge_of_known known]
      exact ⟨List.prefix_refl _, CallGraph.contains_iff.mp known⟩
    | false =>
      rw [CallGraph.addEdge_of_new known]
      exact ⟨List.prefix_append _ _, edge, by simp, rfl, rfl⟩
  have reached : (s.calls.addEdge edge).1.reached = s.calls.reached := CallGraph.reached_addEdge _ _
  have entries : (s.calls.addEdge edge).1.entries = s.calls.entries := CallGraph.entries_addEdge _ _
  obtain ⟨longer, e, there, site, callee⟩ := edges
  refine ⟨{ State.Advances.refl s with
    edges := longer
    reached := reached ▸ List.prefix_refl _
    entries := entries ▸ List.prefix_refl _ }, fun f shown => ?_⟩
  refine shown.mono (.refl _) (fun _ _ known => known) (List.Subset.refl _)
    (reached ▸ List.Subset.refl _) ?_
  rintro e' (old | waits)
  · exact ⟨e', .inl (longer.subset old), rfl, rfl⟩
  · rw [queued] at waits
    rcases List.mem_cons.mp waits with rfl | waits
    · exact ⟨e, .inl there, site, callee⟩
    · exact ⟨e', .inr (popped.2 ▸ waits), rfl, rfl⟩

omit [LawfulIdSet S] in
/-- A call edge that is new in the graph is a debt until its callee is reachable and its flow edges
are there. -/
private theorem orderly_taken (orderly : s.Orderly a debts) {edge : ContextCallEdge}
    {others : List ContextCallEdge} (queued : s.work.queuedCalls = edge :: others) :
    State.Orderly a (fun f => debts f ∨ (s.calls.contains edge = false ∧
      ∃ c site c' m, s.canon.CallsAt edge.site c site ∧ s.canon.Enters edge.callee c' m ∧
        f = .calls c site c' m)) (taken s edge) := by
  have next : edge ∈ s.work.queuedCalls := by simp [queued]
  have pushed : edge ∈ s.work.callEdges.toList := List.mem_of_mem_drop next
  have follows := follows_taken queued
  have same : (taken s edge).calls.reached = s.calls.reached ∧
      (taken s edge).calls.entries = s.calls.entries :=
    ⟨CallGraph.reached_addEdge _ _, CallGraph.entries_addEdge _ _⟩
  have added : ∀ e ∈ (taken s edge).calls.edges.toList, e ∈ s.calls.edges.toList ∨
      (s.calls.contains edge = false ∧ e = edge) := by
    intro e there
    unfold taken CallGraph.addEdge at there
    split at there
    · exact .inl there
    · next new => simpa [new] using there
  refine ⟨?_, ?_, orderly.scheduled.waiting_iff, orderly.scheduled.disjoint⟩
  · refine orderly.grounded.of_new (.refl _) .inl .inl (same.1 ▸ .inl) ?_ .inl (same.2 ▸ .inl)
    intro e there
    rcases added e there with old | ⟨_, rfl⟩
    · exact .inl old
    · exact .inr (orderly.grounded.queued pushed)
  · refine orderly.settled.advance orderly.grounded (.refl _) follows.shows (fun _ => .inl)
      (fun _ => .inl) (same.1 ▸ fun _ => .inl) ?_ (fun _ _ => .inl)
    intro e there
    rcases added e there with old | ⟨new, rfl⟩
    · exact .inl old
    · exact .inr fun c site c' m placed entered =>
        .inr ⟨new, c, site, c', m, placed, entered, rfl⟩

/-- Flow edges between variables of two methods, one for each pair of a list. -/
private theorem quiet_wire {c c' : Context E} {context context' : ContextId} {kind : FlowKind}
    {pairs : List (VarId × VarId)} (grounded : s.Grounded a)
    (named : s.canon.context context = .ok c) (named' : s.canon.context context' = .ok c')
    (derived : ∀ pair ∈ pairs, a.Derives (.flows (.var c pair.1) (.var c' pair.2) kind)) :
    Quiet a (pairs.forM fun (x, y) => do
      let source ← numberVar context x
      let target ← numberVar context' y
      addFlow source target kind) s
      (fun _ s' => ∀ pair ∈ pairs, s'.Shows (.flows (.var c pair.1) (.var c' pair.2) kind)) := by
  refine quiet_forM grounded (fun pair s' s'' grows shown => grows.shows shown) ?_
  rintro ⟨x, y⟩ there s₁ grows₁ grounded₁
  refine quiet_bind (quiet_numberVar grounded₁ (grows₁.canon.context_eq named) x) ?_
  intro source s₂ grows₂ grounded₂ fromSource
  refine quiet_bind (quiet_numberVar grounded₂
    ((grows₁.trans grows₂).canon.context_eq named') y) ?_
  intro target s₃ grows₃ grounded₃ toTarget
  exact quiet_addFlow grounded₃ (grows₃.canon.locates fromSource) toTarget (derived _ there)

/-- The reactions to a new call edge: its callee becomes reachable, arguments flow into parameters
and returned variables into the result. -/
private theorem keeps_wired (coherent : a.Coherent) (orderly : s.Orderly a debts)
    {context context' : ContextId} {id : ContextMethodId} {c c' : Context E} {site : CallSiteId}
    {callee : MethodId} {call : CallSite} {method : Method}
    (named : s.canon.context context = .ok c) (named' : s.canon.context context' = .ok c')
    (entered : s.canon.Enters id c' callee) (found : a.program.callSite site = .ok call)
    (declared : a.program.method callee = .ok method)
    (derived : a.Derives (.calls c site c' callee)) :
    Keeps a debts (do
      reach a id
      (call.args.zip method.params).forM fun (arg, param) => do
        let source ← numberVar context arg
        let target ← numberVar context' param
        addFlow source target .param
      match call.result with
      | none => return
      | some result =>
        let target ← numberVar context result
        method.returns.forM fun returned => do
          let source ← numberVar context' returned
          addFlow source target .return) s
      (fun _ s' => a.Wired s'.Shows c site c' callee) := by
  refine keeps_bind (keeps_reach coherent orderly entered (.callee derived)) ?_
  intro _ s₁ follows₁ orderly₁ reached
  have named := follows₁.advances.canon.context_eq named
  have named' := follows₁.advances.canon.context_eq named'
  refine Quiet.keeps (quiet_bind (quiet_wire orderly₁.grounded named named' fun pair there =>
    .param derived found declared there) ?_) orderly₁
  intro _ s₂ grows₂ grounded₂ params
  cases result : call.result with
  | none =>
    refine quiet_pure grounded₂ (.of_flows found declared (grows₂.shows reached) params ?_)
    intro result' some
    cases result.symm.trans some
  | some result' =>
    refine quiet_bind (quiet_numberVar grounded₂ (grows₂.canon.context_eq named) result') ?_
    intro target s₃ grows₃ grounded₃ toTarget
    have returned : Quiet a (method.returns.forM fun returned => do
          let source ← numberVar context' returned
          addFlow source target .return) s₃
        (fun _ s' => ∀ returned ∈ method.returns,
          s'.Shows (.flows (.var c' returned) (.var c result') .return)) := by
      refine quiet_forM grounded₃ (fun _ _ _ grows => grows.shows) ?_
      intro returned listed s₄ grows₄ grounded₄
      have grows := (grows₂.trans grows₃).trans grows₄
      refine quiet_bind (quiet_numberVar grounded₄ (grows.canon.context_eq named') returned) ?_
      intro source s₅ grows₅ grounded₅ fromSource
      exact quiet_addFlow grounded₅ fromSource ((grows₄.trans grows₅).canon.locates toTarget)
        (.return derived found declared listed result)
    refine returned.grown.mono ?_
    rintro _ s₄ ⟨grows₄, returns⟩
    have grows := grows₃.trans grows₄
    refine .of_flows found declared ((grows₂.trans grows).shows reached)
      (fun pair there => grows.shows (params pair there)) ?_
    intro result'' some returned listed
    cases result.symm.trans some
    exact returns returned listed

/-- Processing the call edge that was taken from the queue. -/
theorem outcome_processCall (coherent : a.Coherent) (orderly : s.Orderly a debts)
    {edge : ContextCallEdge} {others : List ContextCallEdge}
    (queued : s.work.queuedCalls = edge :: others) :
    Outcome (processCall a edge) { s with work := s.work.popCallEdge?.2 }
      (fun _ s' => s.Follows s' ∧ s'.Orderly a debts ∧ True)
      (fun e s' => s.Advances s' ∧ s'.Grounded a ∧ a.Obstructed e) := by
  have follows := follows_taken queued
  have orderly' := orderly_taken orderly queued
  refine outcome_bind (outcome_get ?_)
  dsimp only
  cases known : s.calls.contains edge with
  | true =>
    have same : taken s edge = { s with work := s.work.popCallEdge?.2 } := by
      simp [taken, CallGraph.addEdge, known]
    rw [if_pos rfl, ← same]
    refine ((keeps_pure orderly' trivial).pay ?_).from_earlier follows
    rintro _ s' _ f (owed | ⟨new, _⟩) _
    · exact .inl owed
    · rw [known] at new
      cases new
  | false =>
    rw [if_neg (by simp)]
    have next : edge ∈ s.work.queuedCalls := by simp [queued]
    obtain ⟨c, site, c', callee, call, placed, entered, found, _, _, derived⟩ :=
      orderly.grounded.queued (List.mem_of_mem_drop next)
    obtain ⟨_, found', method, declared, arity⟩ := derived.scoped coherent
    cases found.symm.trans found'
    obtain ⟨siteEntry, siteFound, siteNamed, rfl⟩ := id placed
    obtain ⟨calleeEntry, calleeFound, calleeNamed, rfl⟩ := id entered
    refine outcome_bind (outcome_get (outcome_bind (outcome_known siteFound ?_)))
    refine outcome_bind (outcome_get (outcome_bind (outcome_known calleeFound ?_)))
    refine outcome_bind (outcome_known found (outcome_bind (outcome_known declared ?_)))
    rw [if_neg (by simp [arity])]
    refine outcome_bind (outcome_modify ?_)
    have wired := keeps_wired coherent orderly' siteNamed calleeNamed entered found declared derived
    refine ((wired.pay ?_).mono fun _ _ _ _ => trivial).from_earlier follows
    rintro _ s' wired f (owed | ⟨_, _, _, _, _, placed', entered', rfl⟩) _
    · exact .inl owed
    · obtain ⟨rfl, rfl⟩ := placed.unique placed'
      obtain ⟨rfl, rfl⟩ := entered.unique entered'
      exact .inr wired

/-- A queued call edge is processed, unless none is queued. -/
theorem keeps_processNextCall (coherent : a.Coherent) (orderly : s.Orderly a debts) :
    Keeps a debts (processNextCall a) s
      (fun more s' => more = false → s' = s ∧ s.work.queuedCalls = []) := by
  unfold processNextCall popCallEdge
  refine outcome_bind (outcome_modifyGet ?_)
  dsimp only
  cases queued : s.work.queuedCalls with
  | nil =>
    rw [WorkList.popCallEdge?_of_queuedCalls_eq_nil queued]
    exact keeps_pure orderly fun _ => ⟨rfl, rfl⟩
  | cons edge others =>
    rw [(WorkList.popCallEdge?_of_queuedCalls_eq_cons queued).1]
    refine outcome_bind (Outcome.mono (outcome_processCall coherent orderly queued) ?_ fun _ _ => id)
    rintro _ s' ⟨follows, orderly', _⟩
    exact ⟨follows, orderly', by simp⟩

/-! ### Objects -/

/-- The state once the objects of the first waiting pointer have been passed on. -/
private def flushed (s : State E S) (p : PointerId) (work : WorkList) : State E S :=
  { s with work, pointsTo := (s.pointsTo.flush p).1, propagations := s.propagations + 1 }

/-- The facts about the objects that are being passed on. -/
private def Flushing (s : State E S) (p : PointerId) (f : Fact E) : Prop :=
  ∃ l o id, s.canon.Locates p l ∧ id ∈ IdSet.toList (s.pointsTo.flush p).2 ∧
    s.canon.Names id o ∧ f = .holds l o

private theorem follows_flushed (scheduled : s.Scheduled) {p : PointerId} {work : WorkList}
    (popped : s.work.popPointer? = some (p, work)) : s.Follows (flushed s p work) := by
  obtain ⟨waiting, edges, place⟩ := WorkList.popPointer?_eq_some popped
  obtain ⟨_, pending⟩ := (scheduled.waiting_iff p).mp (by simp [waiting])
  have counted := PointsToData.relations_flush scheduled.disjoint pending
  have queued : work.queuedCalls = s.work.queuedCalls := by
    simp only [WorkList.queuedCalls, edges, place]
  refine ⟨{ State.Advances.refl s with
    knows := fun q o known => PointsToData.knows_flush.mpr known
    propagated := fun q o passed => PointsToData.mem_propagatedOf_flush.mpr (.inl passed)
    pushed := edges ▸ List.prefix_refl _
    propagations := by
      show s.propagations + 1 + s.pointsTo.relations ≤
        s.propagations + (s.pointsTo.flush p).1.relations
      omega }, fun f shown => ?_⟩
  exact shown.mono (.refl _) (fun q o known => PointsToData.knows_flush.mpr known)
    (List.Subset.refl _) (List.Subset.refl _)
    fun e there => ⟨e, there.imp_right (queued ▸ ·), rfl, rfl⟩

private theorem orderly_flushed (orderly : s.Orderly a debts) {p : PointerId} {work : WorkList}
    (popped : s.work.popPointer? = some (p, work)) :
    State.Orderly a (fun f => debts f ∨ Flushing s p f) (flushed s p work) := by
  obtain ⟨waiting, edges, place⟩ := WorkList.popPointer?_eq_some popped
  have follows := follows_flushed orderly.scheduled popped
  refine ⟨?_, ?_, ?_, PointsToData.disjoint_flush orderly.scheduled.disjoint p⟩
  · exact orderly.grounded.of_new (.refl _) (fun known => .inl (PointsToData.knows_flush.mp known))
      .inl .inl .inl (edges ▸ .inl) .inl
  · refine orderly.settled.advance orderly.grounded (.refl _) follows.shows (fun _ => .inl)
      (fun _ => .inl) (fun _ => .inl) (fun _ => .inl) ?_
    intro q id passed
    rcases PointsToData.mem_propagatedOf_flush.mp passed with old | ⟨rfl, pending⟩
    · exact .inl old
    · exact .inr fun l o located named =>
        .inr ⟨l, o, id, located, PointsToData.mem_flush.mpr pending, named, rfl⟩
  · intro q
    have once : p ∉ work.pointers.toList := by
      have nodup := s.work.nodup
      rw [waiting] at nodup
      exact (List.nodup_cons.mp nodup).1
    have others := orderly.scheduled.waiting_iff q
    rw [waiting, List.mem_cons] at others
    show q ∈ work.pointers.toList ↔ ∃ o, o ∈ IdSet.toList ((s.pointsTo.flush p).1.pendingOf q)
    simp only [PointsToData.mem_pendingOf_flush]
    constructor
    · intro waits
      obtain ⟨o, pending⟩ := others.mp (.inr waits)
      exact ⟨o, fun same => once (same ▸ waits), pending⟩
    · rintro ⟨o, other, pending⟩
      exact (others.mpr ⟨o, pending⟩).resolve_left other

omit [LawfulIdSet S] in
/-- What was passed on has arrived behind every flow edge that leaves its pointer, also behind those
that have been added since. -/
private theorem arrived_of_grows {s s' : State E S} (grows : s.Grows s') {p : PointerId}
    {id : ContextObjectId} (passed : id ∈ IdSet.toList (s.pointsTo.propagatedOf p))
    (arrived : ∀ edge ∈ s.flow.edgesFrom p, s'.pointsTo.Knows edge.1 id)
    {l : Location E} {o : HeapObject E} (located : s.canon.Locates p l) (named : s.canon.Names id o)
    (target : Location E) (kind : FlowKind) (flows : s'.Records (.flows l target kind)) :
    s'.Shows (.holds target o) := by
  rcases flows with _ | _ | ⟨along, fromSource, toTarget⟩ | _
  cases fromSource.injective (grows.canon.locates located)
  have named := grows.canon.names named
  rcases grows.delivered _ (Array.mem_toList_iff.mpr along) with edge | delivered
  · exact State.shows_holds (arrived _ (FlowGraph.mem_edgesFrom.mpr edge)) toTarget named
  · exact State.shows_holds (delivered _ passed) toTarget named

/-- The reactions to objects that a pointer passes on: they follow the edges that leave it, and what
goes through a variable reacts to them. -/
private theorem quiet_passOn (coherent : a.Coherent) (grounded : s.Grounded a) {p : PointerId}
    {delta : S} {l : Location E} (located : s.canon.Locates p l)
    (some : ∃ id, id ∈ IdSet.toList delta)
    (passed : ∀ id ∈ IdSet.toList delta, id ∈ IdSet.toList (s.pointsTo.propagatedOf p)) :
    Quiet a (do
      ((← get).flow.edgesFrom p).forM fun (target, _) => modify (·.addObjects target delta)
      match ← known ((← get).canon.pointer p) with
      | .field .. => return
      | .var context id =>
        let var ← known (a.program.var id)
        connectStores context var delta
        connectLoads context var delta
        connectCalls a context var delta) s
      (fun _ s' => ∀ id ∈ IdSet.toList delta, ∀ o, s.canon.Names id o →
        a.Answered s'.Records s'.Shows (.holds l o)) := by
  have arrives : ∀ id ∈ IdSet.toList delta, ∃ o, s.canon.Names id o ∧ a.Derives (.holds l o) := by
    intro id there
    obtain ⟨l', o, located', named, held⟩ := grounded.holds (.inr (passed id there))
    cases located.unique located'
    exact ⟨o, named, held⟩
  have spread : Quiet a ((s.flow.edgesFrom p).forM fun (target, _) =>
      modify (·.addObjects target delta)) s
      (fun _ s' => ∀ edge ∈ s.flow.edgesFrom p, ∀ id ∈ IdSet.toList delta,
        s'.pointsTo.Knows edge.1 id) := by
    refine quiet_forM grounded (fun _ _ _ grows known id there => grows.knows _ _ (known id there)) ?_
    rintro ⟨target, kind⟩ there s₁ grows₁ grounded₁
    have flows := (grounded.flows (FlowGraph.mem_edgesFrom.mp there)).mono grows₁.canon
    refine quiet_modify (State.grows_addObjects s₁ target delta) (grounded₁.addObjects ?_) ?_
    · intro id new
      exact flows.holds ((grounded.holds (.inr (passed id new))).mono grows₁.canon)
    · exact fun id new => (State.knows_addObjects s₁).mpr (.inr ⟨rfl, new⟩)
  refine outcome_bind (outcome_get ?_)
  refine quiet_bind spread ?_
  intro _ s₁ grows₁ grounded₁ arrived
  refine outcome_bind (outcome_get ?_)
  have located₁ := grows₁.canon.locates located
  cases located₁ with
  | field found stands =>
    refine outcome_bind (outcome_known found (quiet_pure grounded₁ fun id there o named => ?_))
    refine ⟨arrived_of_grows grows₁ (passed id there) (fun edge leaves => arrived edge leaves id there)
      located named, ?_⟩
    intro c x same
    cases same
  | var found named =>
    obtain ⟨first, there⟩ := some
    obtain ⟨_, _, held⟩ := arrives first there
    obtain ⟨var, declared⟩ := (held.scoped coherent).1
    refine outcome_bind (outcome_known found (outcome_bind (outcome_known declared ?_)))
    have arrives₁ : Arrives a s₁ _ _ delta := fun id there => by
      obtain ⟨o, stands, held⟩ := arrives id there
      exact ⟨o, grows₁.canon.names stands, held⟩
    refine (quiet_connect coherent grounded₁ named declared arrives₁).grown.mono ?_
    rintro _ s₂ ⟨grows₂, reacted⟩ id there o stands
    refine ⟨arrived_of_grows (grows₁.trans grows₂) (passed id there)
      (fun edge leaves => grows₂.knows _ _ (arrived edge leaves id there)) located stands, ?_⟩
    intro c x same
    cases same
    exact reacted id there o (grows₁.canon.names stands)

/-- Passing on the objects of the pointer that was taken from the queue. -/
theorem outcome_propagate (coherent : a.Coherent) (orderly : s.Orderly a debts)
    {p : PointerId} {work : WorkList} (popped : s.work.popPointer? = some (p, work)) :
    Outcome (propagate a p) { s with work }
      (fun _ s' => s.Follows s' ∧ s'.Orderly a debts ∧ ∀ id ∈ IdSet.toList (s.pointsTo.flush p).2,
        id ∈ IdSet.toList (s'.pointsTo.propagatedOf p))
      (fun e s' => s.Advances s' ∧ s'.Grounded a ∧ a.Obstructed e) := by
  have follows := follows_flushed orderly.scheduled popped
  have orderly' := orderly_flushed orderly popped
  have waits : p ∈ s.work.pointers.toList := by simp [(WorkList.popPointer?_eq_some popped).1]
  obtain ⟨first, pending⟩ := (orderly.scheduled.waiting_iff p).mp waits
  obtain ⟨l, _, located, _⟩ := orderly.grounded.holds (.inl pending)
  have new := PointsToData.mem_flush.mpr pending
  refine outcome_bind (outcome_modifyGet ?_)
  dsimp only
  rw [if_neg (by simpa using IdSet.isEmpty_eq_false_iff.mpr ⟨first, new⟩)]
  refine outcome_bind (outcome_modify ?_)
  have passed : ∀ id ∈ IdSet.toList (s.pointsTo.flush p).2,
      id ∈ IdSet.toList ((flushed s p work).pointsTo.propagatedOf p) := fun id there =>
    PointsToData.mem_propagatedOf_flush.mpr (.inr ⟨rfl, PointsToData.mem_flush.mp there⟩)
  have reacted := quiet_passOn (s := flushed s p work) coherent orderly'.grounded located
    ⟨first, new⟩ passed
  refine (((reacted.grown.keeps orderly').pay ?_).mono ?_).from_earlier follows
  · rintro _ s' ⟨_, answered⟩ f (owed | ⟨l', o, id, located', there, named, rfl⟩) _
    · exact .inl owed
    · cases located.unique located'
      exact .inr (answered id there o named)
  · rintro _ s' _ ⟨grows, _⟩ id there
    exact grows.propagated p ▸ passed id there

/-- The first waiting pointer is passed on, unless none waits. -/
theorem keeps_propagateNext (coherent : a.Coherent) (orderly : s.Orderly a debts) :
    Keeps a debts (propagateNext a) s
      (fun more s' => more = false → s' = s ∧ s.work.pointers.toList = []) := by
  unfold propagateNext popPointer
  refine outcome_bind (outcome_modifyGet ?_)
  cases popped : s.work.popPointer? with
  | none => exact keeps_pure orderly fun _ => ⟨rfl, WorkList.popPointer?_eq_none popped⟩
  | some next =>
    refine outcome_bind (Outcome.mono (outcome_propagate coherent orderly popped) ?_ fun _ _ => id)
    rintro _ s' ⟨follows, orderly', _⟩
    exact ⟨follows, orderly', by simp⟩

/-! ### Steps -/

omit [LawfulIdSet S] in
private theorem quiet_draining (grounded : s.Grounded a) (draining : Bool) :
    Quiet a (modify ({ · with drainingCalls := draining })) s
      (fun _ s' => s' = { s with drainingCalls := draining }) :=
  quiet_modify
    { State.Grows.refl s with
      scheduled := fun scheduled => ⟨scheduled.waiting_iff, scheduled.disjoint⟩ }
    (grounded.of_new (.refl _) .inl .inl .inl .inl .inl .inl) rfl

omit [LawfulIdSet S] in
/-- Which queue is worked on makes no difference to what a state says. -/
theorem State.Orderly.draining (orderly : s.Orderly a debts) (draining : Bool) :
    State.Orderly a debts { s with drainingCalls := draining } :=
  (((quiet_draining orderly.grounded draining).keeps orderly).of_ok rfl).2.1

/-- Both queues are empty. -/
def State.AtRest (s : State E S) : Prop :=
  s.work.pointers.toList = [] ∧ s.work.queuedCalls = []

/-- A step keeps a state orderly, and one that finds nothing to do leaves empty queues. -/
theorem keeps_step (coherent : a.Coherent) (orderly : s.Orderly a debts) :
    Keeps a debts (step a) s (fun more s' => more = false → s'.AtRest) := by
  have drain : ∀ {s : State E S}, s.Orderly a debts → Keeps a debts (do
      if ← processNextCall a then return true
      modify ({ · with drainingCalls := false })
      propagateNext a) s (fun more s' => more = false → s'.AtRest) := by
    intro s orderly
    refine keeps_bind (keeps_processNextCall coherent orderly) ?_
    rintro (_ | _) s₁ follows₁ orderly₁ none
    · obtain ⟨rfl, empty⟩ := none rfl
      refine keeps_bind ((quiet_draining orderly₁.grounded false).keeps orderly₁) ?_
      rintro _ s₂ follows₂ orderly₂ rfl
      refine (keeps_propagateNext coherent orderly₂).mono ?_
      intro more s₃ _ none stopped
      obtain ⟨rfl, nothing⟩ := none stopped
      exact ⟨nothing, empty⟩
    · exact keeps_pure orderly₁ (by simp)
  refine outcome_bind (outcome_get ?_)
  dsimp only
  split
  · refine keeps_bind (keeps_propagateNext coherent orderly) ?_
    rintro (_ | _) s₁ follows₁ orderly₁ none
    · refine keeps_bind ((quiet_draining orderly₁.grounded true).keeps orderly₁) ?_
      intro _ s₂ follows₂ orderly₂ _
      exact drain orderly₂
    · exact keeps_pure orderly₁ (by simp)
  · exact drain orderly

/-! ### The start -/

omit [LawfulIdSet S] in
private theorem orderly_addEntry (orderly : s.Orderly a debts) {id : ContextMethodId} {m : MethodId}
    (listed : m ∈ a.program.entries) (entered : s.canon.Enters id [] m) :
    s.Follows { s with calls := s.calls.addEntry id } ∧
      State.Orderly a debts { s with calls := s.calls.addEntry id } := by
  have follows : s.Follows { s with calls := s.calls.addEntry id } :=
    ⟨{ State.Advances.refl s with entries := Registry.register_extends _ _ }, fun f shown =>
      shown.mono (.refl _) (fun _ _ known => known) (List.Subset.refl _) (List.Subset.refl _)
        fun e there => ⟨e, there, rfl, rfl⟩⟩
  refine ⟨follows, ?_, ?_, orderly.scheduled.waiting_iff, orderly.scheduled.disjoint⟩
  · refine orderly.grounded.of_new (.refl _) .inl .inl .inl .inl .inl ?_
    intro id' there
    rcases Registry.mem_toList_register.mp there with old | rfl
    · exact .inl old
    · exact .inr ⟨m, listed, entered⟩
  · exact orderly.settled.advance orderly.grounded (.refl _) follows.shows (fun _ => .inl)
      (fun _ owed => owed) (fun _ => .inl) (fun _ => .inl) (fun _ _ => .inl)

/-- An entry method is marked as one and reachable. -/
def State.Entered (s : State E S) (m : MethodId) : Prop :=
  s.Shows (.reached [] m) ∧ ∃ id ∈ s.calls.entries.toList, s.canon.Enters id [] m

omit [LawfulIdSet S] in
theorem State.Entered.follows {s s' : State E S} {m : MethodId} (entered : s.Entered m)
    (follows : s.Follows s') : s'.Entered m := by
  obtain ⟨reached, id, there, enters⟩ := entered
  exact ⟨follows.shows _ reached, id, follows.advances.entries.subset there,
    follows.advances.canon.enters enters⟩

/-- The start makes every entry method reachable in the empty context. -/
theorem keeps_start (coherent : a.Coherent) (orderly : s.Orderly a debts) :
    Keeps a debts (start a) s (fun _ s' => ∀ m ∈ a.program.entries.toList, s'.Entered m) := by
  refine keeps_bind ((quiet_numberContext orderly.grounded []).keeps orderly) ?_
  intro context s₁ follows₁ orderly₁ named
  refine keeps_forM orderly₁ ?_ ?_
  · exact fun m s₂ s₃ follows entered => entered.follows follows
  · intro m listed s₂ follows₂ orderly₂
    have listed := Array.mem_toList_iff.mp listed
    refine keeps_bind ((quiet_numberMethod orderly₂.grounded
      (follows₂.advances.canon.context_eq named) m).keeps orderly₂) ?_
    intro id s₃ follows₃ orderly₃ entered
    obtain ⟨follows₄, orderly₄⟩ := orderly_addEntry orderly₃ listed entered
    refine outcome_bind (outcome_modify ?_)
    refine Keeps.from_earlier ?_ follows₄
    have marked : id ∈ (s₃.calls.addEntry id).entries.toList :=
      Registry.mem_toList_register.mpr (.inr rfl)
    refine Outcome.mono (keeps_reach coherent orderly₄ entered (.entry listed)) ?_ fun _ _ failed => failed
    rintro _ s₅ ⟨follows₅, orderly₅, reached⟩
    exact ⟨follows₅, orderly₅, reached, id, follows₅.advances.entries.subset marked,
      follows₅.advances.canon.enters entered⟩

end PointerAnalysis.Solver
