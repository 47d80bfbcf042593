import PointerAnalysis.Rules.Basic

/-! The facts that a state of the solver has recorded, read off its tables and graphs. Here numbers
become what they stand for again. -/
namespace PointerAnalysis

namespace Canon

variable {E : Type} [Coded E] (c : Canon E)

/-- A number of an object stands for an object. -/
def Names (id : ContextObjectId) (o : HeapObject E) : Prop :=
  ∃ entry, c.contextObject id = .ok entry ∧ c.context entry.context = .ok o.context ∧
    c.object entry.object = .ok o.object

/-- A number of a pointer stands for a location. -/
inductive Locates (id : PointerId) : Location E → Prop where
  | var {context : ContextId} {v : VarId} {named : Context E} :
      c.pointer id = .ok (.var context v) → c.context context = .ok named →
      Locates id (.var named v)
  | field {object : ContextObjectId} {f : FieldId} {o : HeapObject E} :
      c.pointer id = .ok (.field object f) → c.Names object o → Locates id (.field o f)

/-- A number of a method stands for a method under a context. -/
def Enters (id : ContextMethodId) (context : Context E) (m : MethodId) : Prop :=
  ∃ entry, c.method id = .ok entry ∧ c.context entry.context = .ok context ∧ entry.method = m

/-- A number of a call site stands for a call site under a context. -/
def CallsAt (id : ContextCallSiteId) (context : Context E) (site : CallSiteId) : Prop :=
  ∃ entry, c.callSite id = .ok entry ∧ c.context entry.context = .ok context ∧ entry.site = site

end Canon

namespace Solver.State

variable {E S : Type} [Coded E] [IdSet S .contextObject]

/-- A fact is in one of the graphs, or in what a pointer has passed on. -/
inductive Records (s : State E S) : Fact E → Prop where
  | reached {id : ContextMethodId} {context : Context E} {m : MethodId} :
      id ∈ s.calls.reached.toList → s.canon.Enters id context m →
      Records s (.reached context m)
  | calls {e : ContextCallEdge} {context calleeContext : Context E} {site : CallSiteId}
      {callee : MethodId} :
      e ∈ s.calls.edges → s.canon.CallsAt e.site context site →
      s.canon.Enters e.callee calleeContext callee →
      Records s (.calls context site calleeContext callee)
  | flows {e : FlowEdge} {source target : Location E} :
      e ∈ s.flow.edges → s.canon.Locates e.source source → s.canon.Locates e.target target →
      Records s (.flows source target e.kind)
  | holds {p : PointerId} {id : ContextObjectId} {location : Location E} {o : HeapObject E} :
      id ∈ IdSet.toList (s.pointsTo.propagatedOf p) → s.canon.Locates p location →
      s.canon.Names id o → Records s (.holds location o)

/-- A fact waits to be looked at: an object is pending, or a call is queued. -/
inductive Awaits (s : State E S) : Fact E → Prop where
  | calls {e : ContextCallEdge} {context calleeContext : Context E} {site : CallSiteId}
      {callee : MethodId} :
      e ∈ s.work.queuedCalls → s.canon.CallsAt e.site context site →
      s.canon.Enters e.callee calleeContext callee →
      Awaits s (.calls context site calleeContext callee)
  | holds {p : PointerId} {id : ContextObjectId} {location : Location E} {o : HeapObject E} :
      id ∈ IdSet.toList (s.pointsTo.pendingOf p) → s.canon.Locates p location →
      s.canon.Names id o → Awaits s (.holds location o)

end Solver.State

end PointerAnalysis
