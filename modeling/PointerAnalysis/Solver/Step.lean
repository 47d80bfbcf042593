import PointerAnalysis.Solver.Basic

/-! The steps of the solver. A reachable method contributes its allocations, assignments and calls
without receiver at once; its heap accesses and receiver calls react to each object that reaches
the variable they go through. Pointers are passed on until none waits, then call edges are
processed until none waits, and so on until both queues are empty. -/
namespace PointerAnalysis.Solver

variable {E S : Type} [Coded E] [IdSet S .contextObject]

def addFlow (source target : PointerId) (kind : FlowKind) : Solver E S Unit :=
  modify fun s => s.addFlow ⟨source, target, kind⟩

/-- The method that a special call enters (`resolve_special`). -/
def specialCallee (a : Analysis E) (site : CallSiteId) : Solver E S MethodId := do
  match ← known (a.program.resolveSpecial site) with
  | some callee => return callee
  | none =>
    let call ← known (a.program.callSite site)
    let target ← known (a.program.method call.target)
    throw (.dispatchFailure site (← known (a.program.typeName target.owner)))

/-- The method that a call enters on a receiver object of class `type` (`resolve_callee`). -/
def receiverCallee (a : Analysis E) (site : CallSiteId) (type : TypeId) : Solver E S MethodId := do
  let call ← known (a.program.callSite site)
  match call.kind with
  | .static => throw (.unresolvableCallKind site .static)
  | .special => specialCallee a site
  | .virtual =>
    match ← known (a.program.resolveVirtual type call.target) with
    | some callee => return callee
    | none => throw (.dispatchFailure site (← known (a.program.typeName type)))

/-- Puts a call edge into the queue (`push_call_edge`). -/
def queueCall (context : ContextId) (site : CallSiteId) (call : CallSite) (callee : MethodId)
    (calleeContext : ContextId) : Solver E S Unit := do
  let siteId ← numberCallSite context site
  let caller ← numberMethod context call.container
  let callee ← numberMethod calleeContext callee
  modify fun s =>
    { s with work := s.work.pushCallEdge ⟨caller, siteId, callee, call.kind⟩ }

/-- A call in a reachable method (`process_call_stmt`). With a receiver it waits for objects to reach the
receiver. -/
def meetCall (a : Analysis E) (context : ContextId) (site : CallSiteId) : Solver E S Unit := do
  let call ← known (a.program.callSite site)
  let enter (callee : MethodId) : Solver E S Unit := do
    let calleeContext ← numberContext (a.policy.call (← contextOf context) site)
    queueCall context site call callee calleeContext
  match call.kind, call.receiver with
  | .static, none => enter call.target
  | .special, none => enter (← specialCallee a site)
  | .static, some _ => throw (.unresolvableCallKind site .static)
  | .virtual, none => throw (.missingReceiver site .virtual)
  | _, some _ => return

/-- A statement of a method that becomes reachable under a context. -/
def meetStatement (a : Analysis E) (context : ContextId) (method : MethodId) :
    Statement → Solver E S Unit
  | .alloc target site type => do
    match a.heap site type method with
    | .error refusal => throw (.heap refusal)
    | .ok object =>
      let heapContext ← numberContext (a.policy.heap (← contextOf context))
      let objectId ← number (·.internObject object)
      let contextObject ← number (·.internContextObject ⟨heapContext, objectId⟩)
      let pointer ← numberVar context target
      modify (·.addObject pointer contextObject)
  | .assign target source => do
    let source ← numberVar context source
    let target ← numberVar context target
    addFlow source target .assign
  | .load .. | .store .. => return
  | .call site => meetCall a context site

/-- Makes a method reachable (`add_reachable`). The first time, its statements are met. -/
def reach (a : Analysis E) (id : ContextMethodId) : Solver E S Unit := do
  let fresh ← modifyGet fun s =>
    let (calls, fresh) := s.calls.addReached id
    (fresh, { s with calls })
  if fresh then
    let entry ← known ((← get).canon.method id)
    let method ← known (a.program.method entry.method)
    method.body.toList.forM (meetStatement a entry.context entry.method)

/-- New objects of a variable (`process_instance_store`): the sources of its stores flow into their
fields. -/
def connectStores (context : ContextId) (var : Variable) (delta : S) : Solver E S Unit :=
  var.stores.toList.forM fun (field, source) => do
    let source ← numberVar context source
    (IdSet.toList delta).forM fun object => do
      let target ← numberField object field
      addFlow source target .store

/-- New objects of a variable (`process_instance_load`): their fields flow into the targets of its loads. -/
def connectLoads (context : ContextId) (var : Variable) (delta : S) : Solver E S Unit :=
  var.loads.toList.forM fun (field, target) => do
    let target ← numberVar context target
    (IdSet.toList delta).forM fun object => do
      let source ← numberField object field
      addFlow source target .load

/-- One receiver object of a call: the call is queued, and the object is what the callee's `this`
points to under the context chosen for it, whether or not the call was known. -/
def meetReceiver (a : Analysis E) (context : ContextId) (site : CallSiteId) (call : CallSite)
    (receiver : ContextObjectId) : Solver E S Unit := do
  let (receiverContext, object) ← objectOf receiver
  let callee ← receiverCallee a site object.type
  let calleeContext ← numberContext
    (a.policy.receiverCall (← contextOf context) site (← contextOf receiverContext) object)
  queueCall context site call callee calleeContext
  match (← known (a.program.method callee)).this with
  | none => throw (.missingThis callee)
  | some this =>
    let pointer ← numberVar calleeContext this
    modify (·.addObject pointer receiver)

/-- New objects of a variable (`process_receiver_calls`): the calls on it are resolved for each of them. -/
def connectCalls (a : Analysis E) (context : ContextId) (var : Variable) (delta : S) :
    Solver E S Unit :=
  var.calls.toList.forM fun site => do
    let call ← known (a.program.callSite site)
    (IdSet.toList delta).forM (meetReceiver a context site call)

/-- Passes the pending objects of a pointer on and lets everything react that goes through it
(`propagate_pointer`). -/
def propagate (a : Analysis E) (p : PointerId) : Solver E S Unit := do
  let delta ← modifyGet fun s =>
    let (pointsTo, delta) := s.pointsTo.flush p
    (delta, { s with pointsTo })
  if IdSet.isEmpty delta then return
  modify fun s => { s with propagations := s.propagations + 1 }
  ((← get).flow.edgesFrom p).forM fun (target, _) => modify (·.addObjects target delta)
  match ← known ((← get).canon.pointer p) with
  | .field .. => return
  | .var context id =>
    let var ← known (a.program.var id)
    connectStores context var delta
    connectLoads context var delta
    connectCalls a context var delta

/-- Processes a call edge (`process_call_edge`): unless it is known, the callee becomes reachable, arguments
flow into parameters, and the returned variables into the result. -/
def processCall (a : Analysis E) (edge : ContextCallEdge) : Solver E S Unit := do
  if (← get).calls.contains edge then return
  let site ← known ((← get).canon.callSite edge.site)
  let callee ← known ((← get).canon.method edge.callee)
  let call ← known (a.program.callSite site.site)
  let method ← known (a.program.method callee.method)
  if call.args.length ≠ method.params.length then
    throw (.arityMismatch site.site callee.method call.args.length method.params.length)
  modify fun s => { s with calls := (s.calls.addEdge edge).1 }
  reach a edge.callee
  (call.args.zip method.params).forM fun (arg, param) => do
    let source ← numberVar site.context arg
    let target ← numberVar callee.context param
    addFlow source target .param
  match call.result with
  | none => return
  | some result =>
    let target ← numberVar site.context result
    method.returns.forM fun returned => do
      let source ← numberVar callee.context returned
      addFlow source target .return

def popPointer : Solver E S (Option PointerId) :=
  modifyGet fun s =>
    match s.work.popPointer? with
    | none => (none, s)
    | some (p, work) => (some p, { s with work })

def popCallEdge : Solver E S (Option ContextCallEdge) :=
  modifyGet fun s =>
    let (edge, work) := s.work.popCallEdge?
    (edge, { s with work })

/-- Passes the next waiting pointer on; false if none waits. -/
def propagateNext (a : Analysis E) : Solver E S Bool := do
  match ← popPointer with
  | none => return false
  | some p =>
    propagate a p
    return true

/-- Processes the next waiting call edge; false if none waits. -/
def processNextCall (a : Analysis E) : Solver E S Bool := do
  match ← popCallEdge with
  | none => return false
  | some edge =>
    processCall a edge
    return true

/-- One unit of work; false if nothing is left to do. The queue that was worked on last is emptied
before the other one. -/
def step (a : Analysis E) : Solver E S Bool := do
  if !(← get).drainingCalls then
    if ← propagateNext a then return true
    modify ({ · with drainingCalls := true })
  if ← processNextCall a then return true
  modify ({ · with drainingCalls := false })
  propagateNext a

/-- Makes the entry methods reachable in the empty context (`initialize`). -/
def start (a : Analysis E) : Solver E S Unit := do
  let context ← numberContext []
  a.program.entries.toList.forM fun entry => do
    let id ← numberMethod context entry
    modify fun s => { s with calls := s.calls.addEntry id }
    reach a id

end PointerAnalysis.Solver
