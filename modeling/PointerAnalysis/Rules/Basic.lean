import PointerAnalysis.Solver.Basic

/-! The rules of the analysis. What is to be found out are facts: which methods are reachable under
which contexts, what a call enters, along which edges objects flow, and which objects a location
may hold. Facts speak of contexts and objects themselves, so numbers, queues and the order of work
have no part in them, and a finished run has to find exactly the facts that the rules derive. -/
namespace PointerAnalysis

/-- An abstract object under its heap context. -/
structure HeapObject (E : Type) where
  context : Context E
  object : AbstractObject
  deriving DecidableEq

/-- What can hold objects: a variable under a context of its method, or a field of an object. -/
inductive Location (E : Type) where
  | var (context : Context E) (var : VarId)
  | field (object : HeapObject E) (field : FieldId)
  deriving DecidableEq

inductive Fact (E : Type) where
  | reached (context : Context E) (method : MethodId)
  | calls (context : Context E) (site : CallSiteId) (calleeContext : Context E)
      (callee : MethodId)
  | flows (source target : Location E) (kind : FlowKind)
  | holds (location : Location E) (object : HeapObject E)
  deriving DecidableEq

namespace Program

/-- A method has a statement. -/
def Has (p : Program) (m : MethodId) (s : Statement) : Prop :=
  ∃ method, p.method m = .ok method ∧ s ∈ method.body.toList

/-- The method that a call without receiver enters. -/
inductive EntersAlone (p : Program) (site : CallSiteId) : MethodId → Prop where
  | static {call : CallSite} :
      p.callSite site = .ok call → call.receiver = none → call.kind = .static →
      EntersAlone p site call.target
  | special {call : CallSite} {callee : MethodId} :
      p.callSite site = .ok call → call.receiver = none → call.kind = .special →
      p.resolveSpecial site = .ok (some callee) → EntersAlone p site callee

/-- The method that a call enters when its receiver is an object of a class. -/
inductive EntersOn (p : Program) (site : CallSiteId) (type : TypeId) : MethodId → Prop where
  | virtual {call : CallSite} {callee : MethodId} :
      p.callSite site = .ok call → call.kind = .virtual →
      p.resolveVirtual type call.target = .ok (some callee) → EntersOn p site type callee
  | special {call : CallSite} {callee : MethodId} :
      p.callSite site = .ok call → call.kind = .special →
      p.resolveSpecial site = .ok (some callee) → EntersOn p site type callee

end Program

/-- A fact follows from the rules. -/
inductive Analysis.Derives {E : Type} (a : Analysis E) : Fact E → Prop where
  /-- Entry methods are reachable in the empty context. -/
  | entry {m : MethodId} : m ∈ a.program.entries → Derives a (.reached [] m)
  /-- A reachable allocation puts its object into the variable. -/
  | alloc {c : Context E} {m : MethodId} {target : VarId} {site : AllocSiteId} {type : TypeId}
      {o : AbstractObject} :
      Derives a (.reached c m) → a.program.Has m (.alloc target site type) →
      a.heap site type m = .ok o → Derives a (.holds (.var c target) ⟨a.policy.heap c, o⟩)
  | assign {c : Context E} {m : MethodId} {target source : VarId} :
      Derives a (.reached c m) → a.program.Has m (.assign target source) →
      Derives a (.flows (.var c source) (.var c target) .assign)
  /-- A store reaches the field of every object that its base holds. -/
  | store {c : Context E} {m : MethodId} {base source : VarId} {field : FieldId}
      {o : HeapObject E} :
      Derives a (.holds (.var c base) o) → a.program.Has m (.store base field source) →
      Derives a (.flows (.var c source) (.field o field) .store)
  | load {c : Context E} {m : MethodId} {target base : VarId} {field : FieldId}
      {o : HeapObject E} :
      Derives a (.holds (.var c base) o) → a.program.Has m (.load target base field) →
      Derives a (.flows (.field o field) (.var c target) .load)
  /-- A reachable call without receiver is carried out. -/
  | call {c : Context E} {m callee : MethodId} {site : CallSiteId} :
      Derives a (.reached c m) → a.program.Has m (.call site) →
      a.program.EntersAlone site callee →
      Derives a (.calls c site (a.policy.call c site) callee)
  /-- A call is carried out on every object that its receiver holds. -/
  | receiverCall {c : Context E} {site : CallSiteId} {call : CallSite} {x : VarId}
      {o : HeapObject E} {callee : MethodId} :
      Derives a (.holds (.var c x) o) → a.program.callSite site = .ok call →
      call.receiver = some x → a.program.EntersOn site o.object.type callee →
      Derives a (.calls c site (a.policy.receiverCall c site o.context o.object) callee)
  /-- The object that a call is carried out on is what `this` holds. -/
  | this {c : Context E} {site : CallSiteId} {call : CallSite} {x this : VarId}
      {o : HeapObject E} {callee : MethodId} {method : Method} :
      Derives a (.holds (.var c x) o) → a.program.callSite site = .ok call →
      call.receiver = some x → a.program.EntersOn site o.object.type callee →
      a.program.method callee = .ok method → method.this = some this →
      Derives a (.holds (.var (a.policy.receiverCall c site o.context o.object) this) o)
  | callee {c calleeContext : Context E} {site : CallSiteId} {callee : MethodId} :
      Derives a (.calls c site calleeContext callee) → Derives a (.reached calleeContext callee)
  /-- Arguments flow into the parameters in their places. -/
  | param {c calleeContext : Context E} {site : CallSiteId} {callee : MethodId}
      {call : CallSite} {method : Method} {argument param : VarId} :
      Derives a (.calls c site calleeContext callee) → a.program.callSite site = .ok call →
      a.program.method callee = .ok method →
      (argument, param) ∈ call.args.zip method.params →
      Derives a (.flows (.var c argument) (.var calleeContext param) .param)
  /-- What a method returns flows into the result of its calls. -/
  | return {c calleeContext : Context E} {site : CallSiteId} {callee : MethodId}
      {call : CallSite} {method : Method} {returned result : VarId} :
      Derives a (.calls c site calleeContext callee) → a.program.callSite site = .ok call →
      a.program.method callee = .ok method → returned ∈ method.returns →
      call.result = some result →
      Derives a (.flows (.var calleeContext returned) (.var c result) .return)
  /-- Objects follow the edges. -/
  | flow {source target : Location E} {kind : FlowKind} {o : HeapObject E} :
      Derives a (.flows source target kind) → Derives a (.holds source o) →
      Derives a (.holds target o)

/-- A derivable fact is in the way of the analysis: it has to be given up for this reason. -/
inductive Analysis.Obstructed {E : Type} (a : Analysis E) : AnalysisError → Prop where
  | heap {c : Context E} {m : MethodId} {target : VarId} {site : AllocSiteId} {type : TypeId}
      {refusal : HeapRefusal} :
      a.Derives (.reached c m) → a.program.Has m (.alloc target site type) →
      a.heap site type m = .error refusal → Obstructed a (.heap refusal)
  | staticOnReceiver {c : Context E} {m : MethodId} {site : CallSiteId} {call : CallSite} :
      a.Derives (.reached c m) → a.program.Has m (.call site) →
      a.program.callSite site = .ok call → call.kind = .static → call.receiver.isSome →
      Obstructed a (.unresolvableCallKind site .static)
  | virtualAlone {c : Context E} {m : MethodId} {site : CallSiteId} {call : CallSite} :
      a.Derives (.reached c m) → a.program.Has m (.call site) →
      a.program.callSite site = .ok call → call.kind = .virtual → call.receiver = none →
      Obstructed a (.missingReceiver site .virtual)
  | specialAlone {c : Context E} {m : MethodId} {site : CallSiteId} {call : CallSite}
      {target : Method} {name : String} :
      a.Derives (.reached c m) → a.program.Has m (.call site) →
      a.program.callSite site = .ok call → call.kind = .special → call.receiver = none →
      a.program.resolveSpecial site = .ok none → a.program.method call.target = .ok target →
      a.program.typeName target.owner = .ok name → Obstructed a (.dispatchFailure site name)
  | staticOnObject {c : Context E} {site : CallSiteId} {call : CallSite} {x : VarId}
      {o : HeapObject E} :
      a.Derives (.holds (.var c x) o) → a.program.callSite site = .ok call →
      call.receiver = some x → call.kind = .static →
      Obstructed a (.unresolvableCallKind site .static)
  | virtualOnObject {c : Context E} {site : CallSiteId} {call : CallSite} {x : VarId}
      {o : HeapObject E} {name : String} :
      a.Derives (.holds (.var c x) o) → a.program.callSite site = .ok call →
      call.receiver = some x → call.kind = .virtual →
      a.program.resolveVirtual o.object.type call.target = .ok none →
      a.program.typeName o.object.type = .ok name → Obstructed a (.dispatchFailure site name)
  | specialOnObject {c : Context E} {site : CallSiteId} {call : CallSite} {x : VarId}
      {o : HeapObject E} {target : Method} {name : String} :
      a.Derives (.holds (.var c x) o) → a.program.callSite site = .ok call →
      call.receiver = some x → call.kind = .special →
      a.program.resolveSpecial site = .ok none → a.program.method call.target = .ok target →
      a.program.typeName target.owner = .ok name → Obstructed a (.dispatchFailure site name)
  | noThis {c : Context E} {site : CallSiteId} {call : CallSite} {x : VarId}
      {o : HeapObject E} {callee : MethodId} {method : Method} :
      a.Derives (.holds (.var c x) o) → a.program.callSite site = .ok call →
      call.receiver = some x → a.program.EntersOn site o.object.type callee →
      a.program.method callee = .ok method → method.this = none →
      Obstructed a (.missingThis callee)

end PointerAnalysis
