import PointerAnalysis.Proofs.Canon
import PointerAnalysis.Proofs.Graph
import PointerAnalysis.Proofs.PointsToData
import PointerAnalysis.Proofs.WorkList

/-! How the state of the solver changes. No change forgets anything, and the elementary ones, which
react to what is known already, pass nothing on and make nothing reachable: they only put objects,
flow edges and calls where the next steps find them. -/
namespace PointerAnalysis.Solver.State

variable {E S : Type} [Coded E] [IdSet S .contextObject]

/-- A fact is recorded, or waits to be looked at. -/
def Shows (s : State E S) (f : Fact E) : Prop := s.Records f ∨ s.Awaits f

/-- The pointers that wait are those with something to pass on, and nothing that was passed on is
to be passed on again. -/
structure Scheduled (s : State E S) : Prop where
  waiting_iff : ∀ p, p ∈ s.work.pointers.toList ↔ ∃ o, o ∈ IdSet.toList (s.pointsTo.pendingOf p)
  disjoint : s.pointsTo.Disjoint

/-- A later state: numbers stand for what they stood for, objects are where they were, and the
listings of the graphs have become longer at their ends. -/
structure Advances (s s' : State E S) : Prop where
  canon : s.canon.Extends s'.canon
  knows : ∀ p o, s.pointsTo.Knows p o → s'.pointsTo.Knows p o
  propagated : ∀ p o, o ∈ IdSet.toList (s.pointsTo.propagatedOf p) →
    o ∈ IdSet.toList (s'.pointsTo.propagatedOf p)
  flow : s.flow.edges.toList <+: s'.flow.edges.toList
  edges : s.calls.edges.toList <+: s'.calls.edges.toList
  reached : s.calls.reached.toList <+: s'.calls.reached.toList
  entries : s.calls.entries.toList <+: s'.calls.entries.toList
  pushed : s.work.callEdges.toList <+: s'.work.callEdges.toList
  /-- Each set of objects that has been passed on has added to what is propagated. -/
  propagations :
    s'.propagations + s.pointsTo.relations ≤ s.propagations + s'.pointsTo.relations

/-- A later state in which nothing more has been passed on or been reached. Along every new flow
edge all that its source has passed on has arrived. -/
structure Grows (s s' : State E S) : Prop where
  canon : s.canon.Extends s'.canon
  knows : ∀ p o, s.pointsTo.Knows p o → s'.pointsTo.Knows p o
  propagated : ∀ p, s'.pointsTo.propagatedOf p = s.pointsTo.propagatedOf p
  flow : s.flow.edges.toList <+: s'.flow.edges.toList
  delivered : ∀ e ∈ s'.flow.edges.toList, e ∈ s.flow.edges.toList ∨
    ∀ o ∈ IdSet.toList (s.pointsTo.propagatedOf e.source), s'.pointsTo.Knows e.target o
  calls : s'.calls = s.calls
  place : s'.work.bookmark = s.work.bookmark
  pushed : s.work.callEdges.toList <+: s'.work.callEdges.toList
  propagations : s'.propagations = s.propagations
  relations : s'.pointsTo.relations = s.pointsTo.relations
  scheduled : s.Scheduled → s'.Scheduled

namespace Advances

theorem refl (s : State E S) : s.Advances s :=
  ⟨.refl _, fun _ _ => id, fun _ _ => id, List.prefix_refl _, List.prefix_refl _,
    List.prefix_refl _, List.prefix_refl _, List.prefix_refl _, Nat.le_refl _⟩

theorem trans {s s' s'' : State E S} (first : s.Advances s') (second : s'.Advances s'') :
    s.Advances s'' where
  canon := first.canon.trans second.canon
  knows p o held := second.knows p o (first.knows p o held)
  propagated p o held := second.propagated p o (first.propagated p o held)
  flow := first.flow.trans second.flow
  edges := first.edges.trans second.edges
  reached := first.reached.trans second.reached
  entries := first.entries.trans second.entries
  pushed := first.pushed.trans second.pushed
  propagations := by
    have before := first.propagations
    have after := second.propagations
    omega

end Advances

namespace Grows

theorem refl (s : State E S) : s.Grows s :=
  ⟨.refl _, fun _ _ => id, fun _ => rfl, List.prefix_refl _, fun _ => .inl, rfl, rfl,
    List.prefix_refl _, rfl, rfl, id⟩

theorem trans {s s' s'' : State E S} (first : s.Grows s') (second : s'.Grows s'') :
    s.Grows s'' where
  canon := first.canon.trans second.canon
  knows p o held := second.knows p o (first.knows p o held)
  propagated p := (second.propagated p).trans (first.propagated p)
  flow := first.flow.trans second.flow
  delivered e there := by
    rcases second.delivered e there with before | arrived
    · rcases first.delivered e before with before | arrived
      · exact .inl before
      · exact .inr fun o held => second.knows _ _ (arrived o held)
    · rw [first.propagated] at arrived
      exact .inr arrived
  calls := second.calls.trans first.calls
  place := second.place.trans first.place
  pushed := first.pushed.trans second.pushed
  propagations := second.propagations.trans first.propagations
  relations := second.relations.trans first.relations
  scheduled := second.scheduled ∘ first.scheduled

theorem advances {s s' : State E S} (grows : s.Grows s') : s.Advances s' where
  canon := grows.canon
  knows := grows.knows
  propagated p o held := by rwa [grows.propagated]
  flow := grows.flow
  edges := grows.calls ▸ List.prefix_refl _
  reached := grows.calls ▸ List.prefix_refl _
  entries := grows.calls ▸ List.prefix_refl _
  pushed := grows.pushed
  propagations := Nat.le_of_eq (by rw [grows.propagations, grows.relations])

theorem queued {s s' : State E S} (grows : s.Grows s') :
    s.work.queuedCalls <+: s'.work.queuedCalls :=
  WorkList.queuedCalls_prefix grows.place grows.pushed

end Grows

/-! ### Elementary changes -/

/-- Two states that agree on numbers, on the call graph and on the calls that have been queued. -/
structure SameCalls (s s' : State E S) : Prop where
  canon : s'.canon = s.canon
  calls : s'.calls = s.calls
  pushed : s'.work.callEdges = s.work.callEdges
  place : s'.work.bookmark = s.work.bookmark

theorem sameCalls_addObject (s : State E S) (p : PointerId) (o : ContextObjectId) :
    s.SameCalls (s.addObject p o) ∧ (s.addObject p o).flow = s.flow := by
  unfold addObject schedule
  dsimp only
  split <;> exact ⟨⟨rfl, rfl, by simp, by simp⟩, rfl⟩

theorem sameCalls_addObjects (s : State E S) (p : PointerId) (objects : S) :
    s.SameCalls (s.addObjects p objects) ∧ (s.addObjects p objects).flow = s.flow := by
  unfold addObjects schedule
  dsimp only
  split <;> exact ⟨⟨rfl, rfl, by simp, by simp⟩, rfl⟩

theorem sameCalls_addFlow (s : State E S) (e : FlowEdge) : s.SameCalls (s.addFlow e) := by
  unfold addFlow
  dsimp only
  split
  · obtain ⟨⟨canon, calls, pushed, place⟩, _⟩ := sameCalls_addObjects
      { s with flow := (s.flow.addEdge e).1 } e.target (s.objectsOf e.source)
    exact ⟨canon, calls, pushed, place⟩
  · exact ⟨rfl, rfl, rfl, rfl⟩

theorem grows_canon {s : State E S} {canon : Canon E} (extended : s.canon.Extends canon) :
    s.Grows { s with canon } :=
  { Grows.refl s with
    canon := extended
    scheduled := fun scheduled => ⟨scheduled.waiting_iff, scheduled.disjoint⟩ }

theorem grows_pushCallEdge (s : State E S) (e : ContextCallEdge) :
    s.Grows { s with work := s.work.pushCallEdge e } :=
  { Grows.refl s with
    pushed := by
      show s.work.callEdges.toList <+: (s.work.callEdges.push e).toList
      rw [Journal.toList_push]
      exact List.prefix_append _ _
    scheduled := fun scheduled => ⟨scheduled.waiting_iff, scheduled.disjoint⟩ }

/-- Where the pointer of new pending objects waits, be it already or from now on, just the pointers with
pending objects wait. -/
private theorem waiting_of_added {s : State E S} {pointsTo : PointsToData .pointer S} {fresh : Bool}
    {p : PointerId} {new : ContextObjectId → Prop}
    (pending : ∀ q o, o ∈ IdSet.toList (pointsTo.pendingOf q) ↔
      o ∈ IdSet.toList (s.pointsTo.pendingOf q) ∨
        (q = p ∧ new o ∧ o ∉ IdSet.toList (s.pointsTo.propagatedOf p)))
    (freshly : fresh = true ↔ ∃ o, new o ∧ ¬ s.pointsTo.Knows p o)
    (scheduled : s.Scheduled) (q : PointerId) :
    q ∈ (if fresh then (s.work.pushPointer p).1 else s.work).pointers.toList ↔
      ∃ o, o ∈ IdSet.toList (pointsTo.pendingOf q) := by
  simp only [pending]
  cases fresh with
  | true =>
    obtain ⟨o, there, unknown⟩ := freshly.mp rfl
    rw [if_pos rfl, WorkList.mem_pointers_pushPointer, scheduled.waiting_iff]
    constructor
    · rintro (⟨x, old⟩ | rfl)
      · exact ⟨x, .inl old⟩
      · exact ⟨o, .inr ⟨rfl, there, fun passed => unknown (.inr passed)⟩⟩
    · rintro ⟨x, old | ⟨same, _⟩⟩
      · exact .inl ⟨x, old⟩
      · exact .inr same
  | false =>
    rw [if_neg (by simp), scheduled.waiting_iff]
    refine exists_congr fun o => ⟨.inl, fun h => h.elim id ?_⟩
    rintro ⟨rfl, there, unpropagated⟩
    by_cases old : o ∈ IdSet.toList (s.pointsTo.pendingOf q)
    · exact old
    · exact absurd (freshly.mpr ⟨o, there, fun known => known.elim old unpropagated⟩) (by simp)

/-- New pending objects of a pointer keep the queue in order if the pointer then waits. -/
private theorem grows_of_added {s : State E S} {pointsTo : PointsToData .pointer S} {fresh : Bool}
    {p : PointerId} (new : ContextObjectId → Prop)
    (pending : ∀ q o, o ∈ IdSet.toList (pointsTo.pendingOf q) ↔
      o ∈ IdSet.toList (s.pointsTo.pendingOf q) ∨
        (q = p ∧ new o ∧ o ∉ IdSet.toList (s.pointsTo.propagatedOf p)))
    (propagated : ∀ q, pointsTo.propagatedOf q = s.pointsTo.propagatedOf q)
    (disjoint : s.pointsTo.Disjoint → pointsTo.Disjoint)
    (relations : pointsTo.relations = s.pointsTo.relations)
    (freshly : fresh = true ↔ ∃ o, new o ∧ ¬ s.pointsTo.Knows p o) :
    s.Grows { s with pointsTo, work := if fresh then (s.work.pushPointer p).1 else s.work } :=
  { Grows.refl s with
    knows := by
      rintro q o (waits | passed)
      · exact .inl ((pending q o).mpr (.inl waits))
      · exact .inr (by rwa [propagated])
    propagated
    relations
    delivered := fun _ => .inl
    place := by cases fresh <;> simp
    pushed := by cases fresh <;> simp
    scheduled := fun scheduled =>
      ⟨waiting_of_added pending freshly scheduled, disjoint scheduled.disjoint⟩ }

variable [LawfulIdSet S]

theorem grows_addObject (s : State E S) (p : PointerId) (o : ContextObjectId) :
    s.Grows (s.addObject p o) := by
  have added := grows_of_added (s := s) (p := p) (· = o)
    (fun q x => by
      rw [PointsToData.mem_pendingOf_add]
      exact or_congr_right (and_congr_right fun _ => and_congr_right fun same => by rw [same]))
    (fun q => PointsToData.propagatedOf_add s.pointsTo p q o)
    (PointsToData.disjoint_add · p o)
    (PointsToData.relations_add s.pointsTo p o)
    (by simpa using PointsToData.add_fresh)
  unfold addObject schedule
  dsimp only
  split
  · next new => rwa [if_pos new] at added
  · next old => rwa [if_neg old] at added

theorem knows_addObject (s : State E S) {p q : PointerId} {o x : ContextObjectId} :
    (s.addObject p o).pointsTo.Knows q x ↔ s.pointsTo.Knows q x ∨ (q = p ∧ x = o) := by
  have same : (s.addObject p o).pointsTo = (s.pointsTo.add p o).1 := by
    unfold addObject schedule
    dsimp only
    split <;> rfl
  rw [same, PointsToData.knows_add]

theorem grows_addObjects (s : State E S) (p : PointerId) (objects : S) :
    s.Grows (s.addObjects p objects) := by
  have added := grows_of_added (s := s) (p := p) (· ∈ IdSet.toList objects)
    (fun q x => PointsToData.mem_pendingOf_addAll)
    (fun q => PointsToData.propagatedOf_addAll s.pointsTo p q objects)
    (PointsToData.disjoint_addAll · p objects)
    (PointsToData.relations_addAll s.pointsTo p objects)
    PointsToData.addAll_fresh
  unfold addObjects schedule
  dsimp only
  split
  · next new => rwa [if_pos new] at added
  · next old => rwa [if_neg old] at added

theorem knows_addObjects (s : State E S) {p q : PointerId} {objects : S} {x : ContextObjectId} :
    (s.addObjects p objects).pointsTo.Knows q x ↔
      s.pointsTo.Knows q x ∨ (q = p ∧ x ∈ IdSet.toList objects) := by
  have same : (s.addObjects p objects).pointsTo = (s.pointsTo.addAll p objects).1 := by
    unfold addObjects schedule
    dsimp only
    split <;> rfl
  rw [same, PointsToData.knows_addAll]

omit [LawfulIdSet S] in
/-- A longer list of flow edges followed by a growth that delivers along the new ones. -/
private theorem grows_of_flow {s s' : State E S} {flow : FlowGraph} {e : FlowEdge}
    (longer : flow.edges.toList = s.flow.edges.toList ++ [e])
    (grows : State.Grows { s with flow } s')
    (arrived : ∀ o ∈ IdSet.toList (s.pointsTo.propagatedOf e.source), s'.pointsTo.Knows e.target o) :
    s.Grows s' :=
  { grows with
    flow := by
      refine List.IsPrefix.trans ?_ grows.flow
      rw [longer]
      exact List.prefix_append _ _
    delivered := by
      intro e' there
      rcases grows.delivered e' there with before | delivered
      · rw [longer, List.mem_append, List.mem_singleton] at before
        rcases before with before | rfl
        · exact .inl before
        · exact .inr arrived
      · exact .inr delivered
    scheduled := fun scheduled =>
      grows.scheduled ⟨scheduled.waiting_iff, scheduled.disjoint⟩ }

/-- A flow edge is there after its addition. What its source has passed on has then arrived, and
nothing else has changed. -/
theorem grows_addFlow (s : State E S) (e : FlowEdge) :
    s.Grows (s.addFlow e) ∧ e ∈ (s.addFlow e).flow.edges.toList := by
  by_cases known : e ∈ s.flow.edges.toList
  · have same : s.addFlow e = s := by simp [addFlow, FlowGraph.addEdge_of_mem known]
    rw [same]
    exact ⟨.refl s, known⟩
  · obtain ⟨longer, fresh⟩ := FlowGraph.addEdge_of_not_mem known
    have there : e ∈ (s.flow.addEdge e).1.edges.toList := by simp [longer]
    unfold addFlow
    dsimp only
    rw [fresh, Bool.true_and]
    split
    · have grows := grows_addObjects { s with flow := (s.flow.addEdge e).1 } e.target
        (s.objectsOf e.source)
      refine ⟨grows_of_flow longer grows fun o passed => ?_, grows.flow.subset there⟩
      exact (knows_addObjects _).mpr (.inr ⟨rfl, passed⟩)
    · next none =>
      have none : IdSet.toList (s.pointsTo.propagatedOf e.source) = [] := by
        simpa [objectsOf, LawfulIdSet.isEmpty_iff] using none
      refine ⟨grows_of_flow longer (.refl _) fun o passed => ?_, there⟩
      simp [none] at passed

theorem knows_addFlow {s : State E S} {e : FlowEdge} {p : PointerId} {o : ContextObjectId}
    (knows : (s.addFlow e).pointsTo.Knows p o) :
    s.pointsTo.Knows p o ∨
      (p = e.target ∧ o ∈ IdSet.toList (s.pointsTo.propagatedOf e.source)) := by
  unfold addFlow at knows
  dsimp only at knows
  split at knows
  · exact (knows_addObjects { s with flow := (s.flow.addEdge e).1 }).mp knows
  · exact .inl knows

omit [LawfulIdSet S] in
theorem flow_addFlow (s : State E S) (e : FlowEdge) : (s.addFlow e).flow = (s.flow.addEdge e).1 := by
  unfold addFlow addObjects schedule
  dsimp only
  split
  · split <;> rfl
  · rfl

omit [LawfulIdSet S] in
theorem edges_addFlow {s : State E S} {e e' : FlowEdge}
    (there : e' ∈ (s.addFlow e).flow.edges.toList) : e' ∈ s.flow.edges.toList ∨ e' = e := by
  rw [flow_addFlow] at there
  by_cases known : e ∈ s.flow.edges.toList
  · rw [FlowGraph.addEdge_of_mem known] at there
    exact .inl there
  · simpa [(FlowGraph.addEdge_of_not_mem known).1] using there

/-! ### What a state shows -/

omit [LawfulIdSet S]

theorem shows_holds {s : State E S} {p : PointerId} {id : ContextObjectId} {l : Location E}
    {o : HeapObject E} (knows : s.pointsTo.Knows p id) (located : s.canon.Locates p l)
    (named : s.canon.Names id o) : s.Shows (.holds l o) :=
  knows.elim (fun waits => .inr (.holds waits located named))
    fun passed => .inl (.holds passed located named)

theorem shows_flows {s : State E S} {e : FlowEdge} {source target : Location E}
    (there : e ∈ s.flow.edges.toList) (fromSource : s.canon.Locates e.source source)
    (toTarget : s.canon.Locates e.target target) : s.Shows (.flows source target e.kind) :=
  .inl (.flows (Array.mem_toList_iff.mp there) fromSource toTarget)

theorem shows_calls {s : State E S} {e : ContextCallEdge} {context calleeContext : Context E}
    {site : CallSiteId} {callee : MethodId}
    (there : e ∈ s.calls.edges.toList ∨ e ∈ s.work.queuedCalls)
    (called : s.canon.CallsAt e.site context site)
    (entered : s.canon.Enters e.callee calleeContext callee) :
    s.Shows (.calls context site calleeContext callee) :=
  there.elim (fun known => .inl (.calls (Array.mem_toList_iff.mp known) called entered))
    fun queued => .inr (.calls queued called entered)

/-- What one state shows another shows too if it has kept all entries; a call edge may have given
way to another one between the same call and callee. -/
theorem Shows.mono {s s' : State E S} {f : Fact E} (shows : s.Shows f)
    (canon : s.canon.Extends s'.canon)
    (knows : ∀ p o, s.pointsTo.Knows p o → s'.pointsTo.Knows p o)
    (flow : s.flow.edges.toList ⊆ s'.flow.edges.toList)
    (reached : s.calls.reached.toList ⊆ s'.calls.reached.toList)
    (calls : ∀ e, e ∈ s.calls.edges.toList ∨ e ∈ s.work.queuedCalls →
      ∃ e', (e' ∈ s'.calls.edges.toList ∨ e' ∈ s'.work.queuedCalls) ∧
        e'.site = e.site ∧ e'.callee = e.callee) : s'.Shows f := by
  have holds {p id l o} (known : s.pointsTo.Knows p id) (located : s.canon.Locates p l)
      (named : s.canon.Names id o) : s'.Shows (.holds l o) :=
    shows_holds (knows p id known) (canon.locates located) (canon.names named)
  have called {e context calleeContext site callee}
      (there : e ∈ s.calls.edges.toList ∨ e ∈ s.work.queuedCalls)
      (placed : s.canon.CallsAt e.site context site)
      (enters : s.canon.Enters e.callee calleeContext callee) :
      s'.Shows (.calls context site calleeContext callee) := by
    obtain ⟨e', there, site, callee⟩ := calls e there
    exact shows_calls there (site ▸ canon.callsAt placed) (callee ▸ canon.enters enters)
  rcases shows with recorded | awaited
  · cases recorded with
    | reached there enters => exact .inl (.reached (reached there) (canon.enters enters))
    | calls there placed enters => exact called (.inl (Array.mem_toList_iff.mpr there)) placed enters
    | flows there fromSource toTarget =>
      exact shows_flows (flow (Array.mem_toList_iff.mpr there)) (canon.locates fromSource)
        (canon.locates toTarget)
    | holds passed located named => exact holds (.inr passed) located named
  · cases awaited with
    | calls queued placed enters => exact called (.inr queued) placed enters
    | holds waits located named => exact holds (.inl waits) located named

theorem Grows.shows {s s' : State E S} (grows : s.Grows s') {f : Fact E} (shows : s.Shows f) :
    s'.Shows f :=
  shows.mono grows.canon grows.knows grows.flow.subset (grows.advances.reached.subset)
    fun e there => ⟨e, there.imp (grows.advances.edges.subset ·) (grows.queued.subset ·), rfl, rfl⟩

end PointerAnalysis.Solver.State
