import PointerAnalysis.Proofs.Solver.State

/-! Nothing in a state of the solver is made up. Every number in a graph, a queue or a points-to set
stands for something, and what the entry says about it is derivable. What a step adds keeps this
if its own part is derivable, also where it comes before the fact that it belongs to: the object
in `this`, for one, before the call that makes its method reachable is processed. -/
namespace PointerAnalysis

variable {E S : Type} [Coded E]

namespace Analysis

variable (a : Analysis E) (c : Canon E)

/-- That a pointer has an object is derivable. -/
def Holds (p : PointerId) (o : ContextObjectId) : Prop :=
  ∃ l x, c.Locates p l ∧ c.Names o x ∧ a.Derives (.holds l x)

/-- A flow edge is derivable. -/
def Flows (e : FlowEdge) : Prop :=
  ∃ source target, c.Locates e.source source ∧ c.Locates e.target target ∧
    a.Derives (.flows source target e.kind)

/-- That a method is reachable is derivable. -/
def Reaches (id : ContextMethodId) : Prop :=
  ∃ context m, c.Enters id context m ∧ a.Derives (.reached context m)

/-- A call edge is derivable. It starts in the method that holds the call, under the context of the
call, and has the kind of the call. -/
def Calls (e : ContextCallEdge) : Prop :=
  ∃ context site calleeContext callee call, c.CallsAt e.site context site ∧
    c.Enters e.callee calleeContext callee ∧ a.program.callSite site = .ok call ∧
    c.Enters e.caller context call.container ∧ e.kind = call.kind ∧
    a.Derives (.calls context site calleeContext callee)

/-- An entry method under the empty context. -/
def Starts (id : ContextMethodId) : Prop := ∃ m ∈ a.program.entries, c.Enters id [] m

section Extended

variable {a : Analysis E} {c c' : Canon E} (grown : c.Extends c')
include grown

theorem Holds.mono {p : PointerId} {o : ContextObjectId} (holds : a.Holds c p o) :
    a.Holds c' p o := by
  obtain ⟨l, x, located, named, derived⟩ := holds
  exact ⟨l, x, grown.locates located, grown.names named, derived⟩

theorem Flows.mono {e : FlowEdge} (flows : a.Flows c e) : a.Flows c' e := by
  obtain ⟨source, target, fromSource, toTarget, derived⟩ := flows
  exact ⟨source, target, grown.locates fromSource, grown.locates toTarget, derived⟩

theorem Reaches.mono {id : ContextMethodId} (reaches : a.Reaches c id) : a.Reaches c' id := by
  obtain ⟨context, m, entered, derived⟩ := reaches
  exact ⟨context, m, grown.enters entered, derived⟩

theorem Calls.mono {e : ContextCallEdge} (calls : a.Calls c e) : a.Calls c' e := by
  obtain ⟨context, site, calleeContext, callee, call, placed, entered, found, within, kind, derived⟩ :=
    calls
  exact ⟨context, site, calleeContext, callee, call, grown.callsAt placed, grown.enters entered, found,
    grown.enters within, kind, derived⟩

theorem Starts.mono {id : ContextMethodId} (starts : a.Starts c id) : a.Starts c' id := by
  obtain ⟨m, listed, entered⟩ := starts
  exact ⟨m, listed, grown.enters entered⟩

end Extended

/-- What reaches the source of a derivable edge reaches its target. -/
theorem Flows.holds {a : Analysis E} {c : Canon E} {e : FlowEdge} {o : ContextObjectId}
    (flows : a.Flows c e) (holds : a.Holds c e.source o) : a.Holds c e.target o := by
  obtain ⟨source, target, fromSource, toTarget, flows⟩ := flows
  obtain ⟨l, x, located, named, held⟩ := holds
  cases located.unique fromSource
  exact ⟨target, x, toTarget, named, .flow flows held⟩

end Analysis

namespace Solver.State

variable [IdSet S .contextObject]

/-- Everything in the state is derivable. -/
structure Grounded (a : Analysis E) (s : State E S) : Prop where
  holds : ∀ {p o}, s.pointsTo.Knows p o → a.Holds s.canon p o
  flows : ∀ {e}, e ∈ s.flow.edges.toList → a.Flows s.canon e
  reaches : ∀ {id}, id ∈ s.calls.reached.toList → a.Reaches s.canon id
  calls : ∀ {e}, e ∈ s.calls.edges.toList → a.Calls s.canon e
  queued : ∀ {e}, e ∈ s.work.callEdges.toList → a.Calls s.canon e
  starts : ∀ {id}, id ∈ s.calls.entries.toList → a.Starts s.canon id

namespace Grounded

variable {a : Analysis E} {s s' : State E S}

/-- A later state is grounded if its new entries are. -/
theorem of_new (grounded : s.Grounded a) (canon : s.canon.Extends s'.canon)
    (holds : ∀ {p o}, s'.pointsTo.Knows p o → s.pointsTo.Knows p o ∨ a.Holds s'.canon p o)
    (flows : ∀ {e}, e ∈ s'.flow.edges.toList → e ∈ s.flow.edges.toList ∨ a.Flows s'.canon e)
    (reaches : ∀ {id}, id ∈ s'.calls.reached.toList →
      id ∈ s.calls.reached.toList ∨ a.Reaches s'.canon id)
    (calls : ∀ {e}, e ∈ s'.calls.edges.toList → e ∈ s.calls.edges.toList ∨ a.Calls s'.canon e)
    (queued : ∀ {e}, e ∈ s'.work.callEdges.toList →
      e ∈ s.work.callEdges.toList ∨ a.Calls s'.canon e)
    (starts : ∀ {id}, id ∈ s'.calls.entries.toList →
      id ∈ s.calls.entries.toList ∨ a.Starts s'.canon id) : s'.Grounded a where
  holds known := (holds known).elim (fun old => (grounded.holds old).mono canon) id
  flows there := (flows there).elim (fun old => (grounded.flows old).mono canon) id
  reaches there := (reaches there).elim (fun old => (grounded.reaches old).mono canon) id
  calls there := (calls there).elim (fun old => (grounded.calls old).mono canon) id
  queued there := (queued there).elim (fun old => (grounded.queued old).mono canon) id
  starts there := (starts there).elim (fun old => (grounded.starts old).mono canon) id

theorem canon (grounded : s.Grounded a) {canon : Canon E} (grown : s.canon.Extends canon) :
    State.Grounded a { s with canon } :=
  grounded.of_new grown .inl .inl .inl .inl .inl .inl

theorem pushCallEdge (grounded : s.Grounded a) {e : ContextCallEdge} (calls : a.Calls s.canon e) :
    State.Grounded a { s with work := s.work.pushCallEdge e } := by
  refine grounded.of_new (.refl _) .inl .inl .inl .inl ?_ .inl
  intro e' there
  have there : e' ∈ (s.work.callEdges.push e).toList := there
  rw [Journal.toList_push, List.mem_append, List.mem_singleton] at there
  rcases there with old | rfl
  · exact .inl old
  · exact .inr calls

/-- A growth that leaves numbers and edges alone adds objects at most. -/
private theorem of_objects (grounded : s.Grounded a) {p : PointerId} (new : ContextObjectId → Prop)
    (same : s.SameCalls s') (sameFlow : s'.flow = s.flow)
    (knows : ∀ {q o}, s'.pointsTo.Knows q o → s.pointsTo.Knows q o ∨ (q = p ∧ new o))
    (holds : ∀ o, new o → a.Holds s.canon p o) : s'.Grounded a := by
  obtain ⟨canon, calls, edges, _⟩ := same
  refine grounded.of_new (canon ▸ .refl _) ?_ (sameFlow ▸ .inl) (calls ▸ .inl) (calls ▸ .inl)
    (edges ▸ .inl) (calls ▸ .inl)
  intro q o known
  refine (knows known).imp_right ?_
  rintro ⟨rfl, there⟩
  exact canon ▸ holds o there

variable [LawfulIdSet S]

theorem addObject (grounded : s.Grounded a) {p : PointerId} {o : ContextObjectId}
    (holds : a.Holds s.canon p o) : (s.addObject p o).Grounded a := by
  obtain ⟨same, sameFlow⟩ := sameCalls_addObject s p o
  exact grounded.of_objects (· = o) same sameFlow (knows_addObject s).mp fun _ same => same ▸ holds

theorem addObjects (grounded : s.Grounded a) {p : PointerId} {objects : S}
    (holds : ∀ o ∈ IdSet.toList objects, a.Holds s.canon p o) : (s.addObjects p objects).Grounded a := by
  obtain ⟨same, sameFlow⟩ := sameCalls_addObjects s p objects
  exact grounded.of_objects _ same sameFlow (knows_addObjects s).mp holds

theorem addFlow (grounded : s.Grounded a) {e : FlowEdge} (flows : a.Flows s.canon e) :
    (s.addFlow e).Grounded a := by
  obtain ⟨canon, calls, edges, _⟩ := sameCalls_addFlow s e
  refine grounded.of_new (canon ▸ .refl _) ?_ ?_ (calls ▸ .inl) (calls ▸ .inl) (edges ▸ .inl)
    (calls ▸ .inl)
  · intro p o known
    refine (knows_addFlow known).imp_right ?_
    rintro ⟨rfl, passed⟩
    exact canon ▸ flows.holds (grounded.holds (.inr passed))
  · intro e' there
    rcases edges_addFlow there with old | rfl
    · exact .inl old
    · exact .inr (canon ▸ flows)

end Grounded

end Solver.State

end PointerAnalysis
