import Mathlib.Logic.Relation
import PointerAnalysis.Proofs.Solver.State

/-! What can happen to a state of the solver, and why. A change numbers something or adds an object, a
flow edge or a call, and the state itself holds the reason for it; a move may also take a call from
its queue. No program has to be coherent for this, so what every change keeps is kept by every
computation of the solver. -/
namespace PointerAnalysis

namespace Program

/-- A variable is named in a statement, a method or a call. -/
inductive Mentions (p : Program) : VarId → Prop where
  | allocated {m : MethodId} {target : VarId} {site : AllocSiteId} {type : TypeId} :
      p.Has m (.alloc target site type) → Mentions p target
  | assigned {m : MethodId} {target source : VarId} :
      p.Has m (.assign target source) → Mentions p target
  | source {m : MethodId} {target source : VarId} :
      p.Has m (.assign target source) → Mentions p source
  | stored {v source : VarId} {var : Variable} {f : FieldId} :
      p.var v = .ok var → (f, source) ∈ var.stores.toList → Mentions p source
  | loaded {v target : VarId} {var : Variable} {f : FieldId} :
      p.var v = .ok var → (f, target) ∈ var.loads.toList → Mentions p target
  | this {m : MethodId} {method : Method} {v : VarId} :
      p.method m = .ok method → method.this = some v → Mentions p v
  | param {m : MethodId} {method : Method} {v : VarId} :
      p.method m = .ok method → v ∈ method.params → Mentions p v
  | returned {m : MethodId} {method : Method} {v : VarId} :
      p.method m = .ok method → v ∈ method.returns → Mentions p v
  | argument {site : CallSiteId} {call : CallSite} {v : VarId} :
      p.callSite site = .ok call → v ∈ call.args → Mentions p v
  | result {site : CallSiteId} {call : CallSite} {v : VarId} :
      p.callSite site = .ok call → call.result = some v → Mentions p v

/-- A field is written or read through a variable. -/
def Accesses (p : Program) (f : FieldId) : Prop :=
  ∃ v var other, p.var v = .ok var ∧
    ((f, other) ∈ var.stores.toList ∨ (f, other) ∈ var.loads.toList)

/-- A method can be entered, or a call stands in it. -/
inductive Involves (p : Program) : MethodId → Prop where
  | entry {m : MethodId} : m ∈ p.entries → Involves p m
  | container {site : CallSiteId} {call : CallSite} :
      p.callSite site = .ok call → Involves p call.container
  | alone {site : CallSiteId} {callee : MethodId} : p.EntersAlone site callee → Involves p callee
  | onObject {site : CallSiteId} {type : TypeId} {callee : MethodId} :
      p.EntersOn site type callee → Involves p callee

end Program

variable {E S : Type} [Coded E]

namespace Canon

/-- Every number in the tables has been handed out itself. -/
structure Sound (c : Canon E) : Prop where
  contextObjects : ∀ {id entry}, c.contextObject id = .ok entry → ∃ o, c.Names id o
  pointers : ∀ {id pointer}, c.pointer id = .ok pointer → ∃ l, c.Locates id l
  methods : ∀ {id entry}, c.method id = .ok entry → ∃ context, c.context entry.context = .ok context
  callSites : ∀ {id entry}, c.callSite id = .ok entry →
    ∃ context, c.context entry.context = .ok context

end Canon

/-- A method allocates an object, as the heap model has it. -/
def Analysis.Allocates (a : Analysis E) (m : MethodId) (o : AbstractObject) : Prop :=
  ∃ target site type, a.program.Has m (.alloc target site type) ∧ a.heap site type m = .ok o

/-- Something gets a number that a rule speaks of, once its parts have numbers. -/
inductive Analysis.Numbers (a : Analysis E) (c : Canon E) : Canon E → Prop where
  | emptyContext : Numbers a c (c.internContext []).1
  | heapContext {id : ContextId} {context : Context E} :
      c.context id = .ok context → Numbers a c (c.internContext (a.policy.heap context)).1
  | callContext {id : ContextId} {context : Context E} {site : CallSiteId} {call : CallSite} :
      c.context id = .ok context → a.program.callSite site = .ok call →
      Numbers a c (c.internContext (a.policy.call context site)).1
  | receiverContext {id : ContextId} {context : Context E} {site : CallSiteId} {call : CallSite}
      {receiver : ContextObjectId} {o : HeapObject E} :
      c.context id = .ok context → a.program.callSite site = .ok call → c.Names receiver o →
      Numbers a c (c.internContext (a.policy.receiverCall context site o.context o.object)).1
  | object {m : MethodId} {target : VarId} {site : AllocSiteId} {type : TypeId}
      {o : AbstractObject} :
      a.program.Has m (.alloc target site type) → a.heap site type m = .ok o →
      Numbers a c (c.internObject o).1
  | contextObject {id : ContextId} {object : ObjectId} {context : Context E} {o : AbstractObject} :
      c.context id = .ok context → c.object object = .ok o →
      Numbers a c (c.internContextObject ⟨id, object⟩).1
  | var {id : ContextId} {context : Context E} {v : VarId} :
      c.context id = .ok context → a.program.Mentions v →
      Numbers a c (c.internPointer (.var id v)).1
  | field {object : ContextObjectId} {o : HeapObject E} {f : FieldId} :
      c.Names object o → a.program.Accesses f → Numbers a c (c.internPointer (.field object f)).1
  | method {id : ContextId} {context : Context E} {m : MethodId} :
      c.context id = .ok context → a.program.Involves m → Numbers a c (c.internMethod ⟨id, m⟩).1
  | callSite {id : ContextId} {context : Context E} {site : CallSiteId} {call : CallSite} :
      c.context id = .ok context → a.program.callSite site = .ok call →
      Numbers a c (c.internCallSite ⟨id, site⟩).1

theorem Analysis.Numbers.grown {a : Analysis E} {c c' : Canon E} (numbers : a.Numbers c c') :
    c.Extends c' := by
  cases numbers with
  | emptyContext => apply Canon.extends_internContext
  | heapContext => apply Canon.extends_internContext
  | callContext => apply Canon.extends_internContext
  | receiverContext => apply Canon.extends_internContext
  | object => apply Canon.extends_internObject
  | contextObject => apply Canon.extends_internContextObject
  | var => apply Canon.extends_internPointer
  | field => apply Canon.extends_internPointer
  | method => apply Canon.extends_internMethod
  | callSite => apply Canon.extends_internCallSite

/-- No number has been handed out. -/
theorem Canon.sound_empty : (Canon.empty : Canon E).Sound where
  contextObjects found := by cases found
  pointers found := by cases found
  methods found := by cases found
  callSites found := by cases found

namespace Canon.Sound

variable {c : Canon E} (sound : c.Sound)
include sound

/-- More contexts and objects do no harm to the tables that refer to them. -/
private theorem of_same {c' : Canon E} (grown : c.Extends c')
    (contextObjects : c'.contextObjects = c.contextObjects) (pointers : c'.pointers = c.pointers)
    (methods : c'.methods = c.methods) (callSites : c'.callSites = c.callSites) : c'.Sound where
  contextObjects {id entry} found := by
    rw [contextObject, contextObjects] at found
    exact (sound.contextObjects found).imp fun _ => grown.names
  pointers {id pointer} found := by
    rw [Canon.pointer, pointers] at found
    exact (sound.pointers found).imp fun _ => grown.locates
  methods {id entry} found := by
    rw [method, methods] at found
    exact (sound.methods found).imp fun _ => grown.context_eq
  callSites {id entry} found := by
    rw [callSite, callSites] at found
    exact (sound.callSites found).imp fun _ => grown.context_eq

private theorem contextObject {id : ContextId} {object : ObjectId} {context : Context E}
    {o : AbstractObject} (named : c.context id = .ok context) (known : c.object object = .ok o) :
    (c.internContextObject ⟨id, object⟩).1.Sound := by
  have grown := c.extends_internContextObject ⟨id, object⟩
  refine ⟨fun {id' entry} found => ?_, fun found => ?_, fun found => ?_, fun found => ?_⟩
  · rcases contextObject_of_internContextObject found with old | rfl
    · exact (sound.contextObjects old).imp fun _ => grown.names
    · exact ⟨⟨context, o⟩, _, found, grown.context_eq named, grown.object_eq known⟩
  · exact (sound.pointers found).imp fun _ => grown.locates
  · exact (sound.methods found).imp fun _ => grown.context_eq
  · exact (sound.callSites found).imp fun _ => grown.context_eq

private theorem pointer {p : Pointer}
    (located : ∀ {c' id}, c.Extends c' → c'.pointer id = .ok p → ∃ l, c'.Locates id l) :
    (c.internPointer p).1.Sound := by
  have grown := c.extends_internPointer p
  refine ⟨fun found => ?_, fun {id entry} found => ?_, fun found => ?_, fun found => ?_⟩
  · exact (sound.contextObjects found).imp fun _ => grown.names
  · rcases pointer_of_internPointer found with old | rfl
    · exact (sound.pointers old).imp fun _ => grown.locates
    · exact located grown found
  · exact (sound.methods found).imp fun _ => grown.context_eq
  · exact (sound.callSites found).imp fun _ => grown.context_eq

private theorem method {id : ContextId} {context : Context E} {m : MethodId}
    (named : c.context id = .ok context) : (c.internMethod ⟨id, m⟩).1.Sound := by
  have grown := c.extends_internMethod ⟨id, m⟩
  refine ⟨fun found => ?_, fun found => ?_, fun {id' entry} found => ?_, fun found => ?_⟩
  · exact (sound.contextObjects found).imp fun _ => grown.names
  · exact (sound.pointers found).imp fun _ => grown.locates
  · rcases method_of_internMethod found with old | rfl
    · exact (sound.methods old).imp fun _ => grown.context_eq
    · exact ⟨context, grown.context_eq named⟩
  · exact (sound.callSites found).imp fun _ => grown.context_eq

private theorem callSite {id : ContextId} {context : Context E} {site : CallSiteId}
    (named : c.context id = .ok context) : (c.internCallSite ⟨id, site⟩).1.Sound := by
  have grown := c.extends_internCallSite ⟨id, site⟩
  refine ⟨fun found => ?_, fun found => ?_, fun found => ?_, fun {id' entry} found => ?_⟩
  · exact (sound.contextObjects found).imp fun _ => grown.names
  · exact (sound.pointers found).imp fun _ => grown.locates
  · exact (sound.methods found).imp fun _ => grown.context_eq
  · rcases callSite_of_internCallSite found with old | rfl
    · exact (sound.callSites old).imp fun _ => grown.context_eq
    · exact ⟨context, grown.context_eq named⟩

/-- Numbers are handed out for parts before they are for what is made of them. -/
theorem numbers {a : Analysis E} {c' : Canon E} (numbers : a.Numbers c c') : c'.Sound := by
  cases numbers with
  | emptyContext => exact sound.of_same (c.extends_internContext _) rfl rfl rfl rfl
  | heapContext => exact sound.of_same (c.extends_internContext _) rfl rfl rfl rfl
  | callContext => exact sound.of_same (c.extends_internContext _) rfl rfl rfl rfl
  | receiverContext => exact sound.of_same (c.extends_internContext _) rfl rfl rfl rfl
  | object => exact sound.of_same (c.extends_internObject _) rfl rfl rfl rfl
  | contextObject named known => exact sound.contextObject named known
  | @var id context v named =>
    exact sound.pointer fun grown found => ⟨.var context v, .var found (grown.context_eq named)⟩
  | @field object o f named =>
    exact sound.pointer fun grown found => ⟨.field o f, .field found (grown.names named)⟩
  | method named => exact sound.method named
  | callSite named => exact sound.callSite named

end Canon.Sound

namespace Solver.State

/-! ### Reasons -/

/-- A method is reachable under a context. -/
def Runs (s : State E S) (c : ContextId) (m : MethodId) : Prop :=
  ∃ id ∈ s.calls.reached.toList, s.canon.method id = .ok ⟨c, m⟩

/-- Why there is an object at all: a reachable method allocates it, and its context is chosen from the
context of that method. -/
inductive Makes (a : Analysis E) (s : State E S) : HeapObject E → Prop where
  | alloc {c : ContextId} {m : MethodId} {context : Context E} {object : AbstractObject} :
      s.Runs c m → a.Allocates m object → s.canon.context c = .ok context →
      Makes a s ⟨a.policy.heap context, object⟩

/-- The objects that have numbers in these tables have them in the state already, or are made there. -/
def NumbersMade (a : Analysis E) (s : State E S) (canon : Canon E) : Prop :=
  ∀ {id entry}, canon.contextObject id = .ok entry →
    s.canon.contextObject id = .ok entry ∨ ∃ o, canon.Names id o ∧ Makes a s o

variable [IdSet S .contextObject]

/-- A variable has passed an object on. -/
def Passed (s : State E S) (c : ContextId) (v : VarId) (o : ContextObjectId) : Prop :=
  ∃ p, s.canon.pointer p = .ok (.var c v) ∧ o ∈ IdSet.toList (s.pointsTo.propagatedOf p)

/-- Why a call is carried out: a reachable method makes it without receiver, or its receiver has
passed an object on. -/
inductive Carries (a : Analysis E) (s : State E S) (c : ContextId) (site : CallSiteId) :
    ContextId → MethodId → Prop where
  | alone {m callee : MethodId} {context : Context E} {calleeContext : ContextId} :
      s.Runs c m → a.program.Has m (.call site) → a.program.EntersAlone site callee →
      s.canon.context c = .ok context →
      s.canon.context calleeContext = .ok (a.policy.call context site) →
      Carries a s c site calleeContext callee
  | onObject {v : VarId} {var : Variable} {id : ContextObjectId} {o : HeapObject E}
      {callee : MethodId} {context : Context E} {calleeContext : ContextId} :
      s.Passed c v id → a.program.var v = .ok var → site ∈ var.calls.toList → s.canon.Names id o →
      a.program.EntersOn site o.object.type callee → s.canon.context c = .ok context →
      s.canon.context calleeContext =
        .ok (a.policy.receiverCall context site o.context o.object) →
      Carries a s c site calleeContext callee

/-- A call edge for a call that is carried out. It starts in the method that holds the call and has
the kind of the call. -/
def Issues (a : Analysis E) (s : State E S) (e : ContextCallEdge) : Prop :=
  ∃ c site call calleeContext callee, s.canon.callSite e.site = .ok ⟨c, site⟩ ∧
    a.program.callSite site = .ok call ∧ s.canon.method e.caller = .ok ⟨c, call.container⟩ ∧
    e.kind = call.kind ∧ s.canon.method e.callee = .ok ⟨calleeContext, callee⟩ ∧
    Carries a s c site calleeContext callee

/-- Why objects flow: a statement of a reachable method, an object that the base of a heap access
has passed on, or a call edge of the graph. -/
inductive Wires (a : Analysis E) (s : State E S) : Pointer → Pointer → FlowKind → Prop where
  | assign {c : ContextId} {m : MethodId} {target source : VarId} :
      s.Runs c m → a.program.Has m (.assign target source) →
      Wires a s (.var c source) (.var c target) .assign
  | store {c : ContextId} {v source : VarId} {var : Variable} {f : FieldId} {o : ContextObjectId} :
      s.Passed c v o → a.program.var v = .ok var → (f, source) ∈ var.stores.toList →
      Wires a s (.var c source) (.field o f) .store
  | load {c : ContextId} {v target : VarId} {var : Variable} {f : FieldId} {o : ContextObjectId} :
      s.Passed c v o → a.program.var v = .ok var → (f, target) ∈ var.loads.toList →
      Wires a s (.field o f) (.var c target) .load
  | param {e : ContextCallEdge} {site : ContextCallSite} {callee : ContextMethod} {call : CallSite}
      {method : Method} {argument param : VarId} :
      e ∈ s.calls.edges.toList → s.canon.callSite e.site = .ok site →
      s.canon.method e.callee = .ok callee → a.program.callSite site.site = .ok call →
      a.program.method callee.method = .ok method →
      (argument, param) ∈ call.args.zip method.params →
      Wires a s (.var site.context argument) (.var callee.context param) .param
  | return {e : ContextCallEdge} {site : ContextCallSite} {callee : ContextMethod} {call : CallSite}
      {method : Method} {returned result : VarId} :
      e ∈ s.calls.edges.toList → s.canon.callSite e.site = .ok site →
      s.canon.method e.callee = .ok callee → a.program.callSite site.site = .ok call →
      a.program.method callee.method = .ok method → returned ∈ method.returns →
      call.result = some result →
      Wires a s (.var callee.context returned) (.var site.context result) .return

/-- Why a variable gets an object of its own: an allocation in a reachable method, or a queued call
on the object. -/
inductive Supplies (a : Analysis E) (s : State E S) : Pointer → ContextObjectId → Prop where
  | alloc {c : ContextId} {m : MethodId} {target : VarId} {site : AllocSiteId} {type : TypeId}
      {context : Context E} {object : AbstractObject} {o : ContextObjectId} :
      s.Runs c m → a.program.Has m (.alloc target site type) → a.heap site type m = .ok object →
      s.canon.context c = .ok context → s.canon.Names o ⟨a.policy.heap context, object⟩ →
      Supplies a s (.var c target) o
  | this {e : ContextCallEdge} {callee : ContextMethod} {method : Method} {this : VarId}
      {o : ContextObjectId} {object : HeapObject E} :
      e ∈ s.work.queuedCalls → s.canon.method e.callee = .ok callee →
      a.program.method callee.method = .ok method → method.this = some this →
      s.canon.Names o object → Supplies a s (.var callee.context this) o

/-! ### Changes -/

/-- One thing that a reaction does to a state. -/
inductive Change (a : Analysis E) (s : State E S) : State E S → Prop where
  | number {canon : Canon E} :
      a.Numbers s.canon canon → NumbersMade a s canon → Change a s { s with canon }
  | supply {p : PointerId} {pointer : Pointer} {o : ContextObjectId} :
      s.canon.pointer p = .ok pointer → Supplies a s pointer o → Change a s (s.addObject p o)
  | pass {e : FlowEdge} {objects : S} :
      e ∈ s.flow.edges.toList →
      (∀ o ∈ IdSet.toList objects, o ∈ IdSet.toList (s.pointsTo.propagatedOf e.source)) →
      Change a s (s.addObjects e.target objects)
  | wire {e : FlowEdge} {source target : Pointer} :
      s.canon.pointer e.source = .ok source → s.canon.pointer e.target = .ok target →
      Wires a s source target e.kind → Change a s (s.addFlow e)
  | issue {e : ContextCallEdge} :
      Issues a s e → Change a s { s with work := s.work.pushCallEdge e }

/-- What a chain of reactions does to a state. -/
abbrev Changes (a : Analysis E) : State E S → State E S → Prop := Relation.ReflTransGen (Change a)

theorem Changes.trans {a : Analysis E} {s s' s'' : State E S} (first : Changes a s s')
    (second : Changes a s' s'') : Changes a s s'' :=
  Relation.ReflTransGen.trans first second

/-- The state once a call edge has been taken that is new in the graph: its callee is reachable. -/
def linked (s : State E S) (e : ContextCallEdge) : State E S :=
  { s with work := s.work.popCallEdge?.2, calls := ((s.calls.addEdge e).1.addReached e.callee).1 }

/-- The state once an entry has been marked and is reachable. -/
def entering (s : State E S) (id : ContextMethodId) : State E S :=
  { s with calls := ((s.calls.addEntry id).addReached id).1 }

/-- A change, or what the solver does to the call graph and its queue. -/
inductive Move (a : Analysis E) (s : State E S) : State E S → Prop where
  | change {s' : State E S} : Change a s s' → Move a s s'
  | enter {id : ContextMethodId} {entry : ContextMethod} :
      s.canon.method id = .ok entry → s.canon.context entry.context = .ok [] →
      entry.method ∈ a.program.entries → Move a s (s.entering id)
  /-- A queued edge that the graph knows is dropped. -/
  | skip {e : ContextCallEdge} {others : List ContextCallEdge} :
      s.work.queuedCalls = e :: others → s.calls.contains e = true →
      Move a s { s with work := s.work.popCallEdge?.2 }
  | link {e : ContextCallEdge} {others : List ContextCallEdge} :
      s.work.queuedCalls = e :: others → s.calls.contains e = false → Move a s (s.linked e)
  /-- The other queue is worked on. -/
  | turn (draining : Bool) : Move a s { s with drainingCalls := draining }

abbrev Moves (a : Analysis E) : State E S → State E S → Prop := Relation.ReflTransGen (Move a)

theorem Changes.moves {a : Analysis E} {s s' : State E S} (changes : Changes a s s') :
    Moves a s s' := by
  induction changes with
  | refl => exact .refl
  | tail _ change ih => exact ih.tail (.change change)

/-- The state once a pointer has been taken from the queue and its pending objects have been moved
over. -/
def flushed (s : State E S) (p : PointerId) (work : WorkList) : State E S :=
  { s with work, pointsTo := (s.pointsTo.flush p).1, propagations := s.propagations + 1 }

end Solver.State

end PointerAnalysis
