import PointerAnalysis.Canon
import PointerAnalysis.Context.Policy
import PointerAnalysis.Graph.Flow
import PointerAnalysis.PointsToData
import PointerAnalysis.Program.Resolution
import PointerAnalysis.Queue.WorkList

/-! The state of the solver and its elementary changes. Points-to sets, flow graph and call graph
grow together; whatever still has to follow from a change waits in the work list. -/
namespace PointerAnalysis

/-- Why an analysis is given up. -/
inductive AnalysisError where
  | unresolvableCallKind (site : CallSiteId) (kind : CallKind)
  | missingReceiver (site : CallSiteId) (kind : CallKind)
  | dispatchFailure (site : CallSiteId) (type : String)
  | arityMismatch (site : CallSiteId) (callee : MethodId) (args params : Nat)
  | missingThis (callee : MethodId)
  | heap (refusal : HeapRefusal)
  /-- The program refers to something that it does not declare. -/
  | unknownId (id : UnknownId)
  /-- The bound on the number of steps was reached. -/
  | unfinished

def AnalysisError.message : AnalysisError → String
  | .unresolvableCallKind site kind =>
    "Unresolvable call kind " ++ kind.text ++ " at call site " ++ site.text
  | .missingReceiver site kind =>
    "Call site " ++ site.text ++ " of kind " ++ kind.text ++ " has no receiver"
  | .dispatchFailure site type =>
    "Failed to dispatch call site " ++ site.text ++ " on type " ++ type
  | .arityMismatch site callee args params =>
    "Call site " ++ site.text ++ " passes " ++ toString args ++ " arguments to " ++ callee.text
      ++ ", which takes " ++ toString params
  | .missingThis callee => "Instance call target " ++ callee.text ++ " has no this variable"
  | .heap refusal => refusal.message
  | .unknownId id => "Unknown " ++ id.kind.word ++ "(" ++ toString id.index ++ ")"
  | .unfinished => "The analysis did not come to an end"

/-- What is analysed and how: a program, the choice of contexts and the heap model. -/
structure Analysis (E : Type) where
  program : Program
  policy : ContextPolicy AbstractObject E
  heap : HeapModel

namespace Solver

/-- The state of a run, with sets of objects in the representation `S` (`ContextSensitivePTA`). -/
structure State (E S : Type) [Coded E] where
  canon : Canon E
  pointsTo : PointsToData .pointer S
  flow : FlowGraph
  calls : CallGraph .contextMethod .contextCallSite
  work : WorkList
  /-- Set while the queue of call edges is being emptied. -/
  drainingCalls : Bool
  /-- How many sets of objects have been passed on. -/
  propagations : Nat

namespace State

variable {E S : Type} [Coded E] [IdSet S .contextObject]

def empty : State E S where
  canon := .empty
  pointsTo := .empty
  flow := .empty
  calls := .empty
  work := .empty
  drainingCalls := false
  propagations := 0

/-- The objects a pointer is known to point to, apart from those not yet passed on. -/
def objectsOf (s : State E S) (p : PointerId) : S := s.pointsTo.propagatedOf p

/-- Lets a pointer wait for its pending objects to be passed on. -/
def schedule (s : State E S) (p : PointerId) : State E S :=
  { s with work := (s.work.pushPointer p).1 }

/-- Adds an object to a pointer, which waits if the object is new (`add_pts`). -/
def addObject (s : State E S) (p : PointerId) (o : ContextObjectId) : State E S :=
  let (pointsTo, fresh) := s.pointsTo.add p o
  let s := { s with pointsTo }
  if fresh then s.schedule p else s

/-- Adds objects to a pointer, which waits if one of them is new (`enqueue`). -/
def addObjects (s : State E S) (p : PointerId) (objects : S) : State E S :=
  let (pointsTo, fresh) := s.pointsTo.addAll p objects
  let s := { s with pointsTo }
  if fresh then s.schedule p else s

/-- Adds a flow edge (`add_pfg_edge`). If it is new, all that its source has passed on flows along it at
once. -/
def addFlow (s : State E S) (e : FlowEdge) : State E S :=
  let (flow, fresh) := s.flow.addEdge e
  let s := { s with flow }
  if fresh && !IdSet.isEmpty (s.objectsOf e.source) then
    s.addObjects e.target (s.objectsOf e.source)
  else s

end State

end Solver

/-- Computations of the solver. One that is given up leaves the state it had reached. -/
abbrev Solver (E S : Type) [Coded E] := EStateM AnalysisError (Solver.State E S)

namespace Solver

variable {E S : Type} [Coded E]

/-- The result of a lookup; a failed one gives the analysis up. -/
def known {α : Type} (found : Except UnknownId α) : Solver E S α :=
  match found with
  | .ok a => pure a
  | .error id => throw (.unknownId id)

/-- The number of something, which gets one if it has none. -/
def number {α : Type} (intern : Canon E → Canon E × α) : Solver E S α :=
  modifyGet fun s =>
    let (canon, id) := intern s.canon
    (id, { s with canon })

def numberContext (c : Context E) : Solver E S ContextId := number (·.internContext c)

def numberVar (c : ContextId) (v : VarId) : Solver E S PointerId :=
  number (·.internPointer (.var c v))

def numberField (o : ContextObjectId) (f : FieldId) : Solver E S PointerId :=
  number (·.internPointer (.field o f))

def numberMethod (c : ContextId) (m : MethodId) : Solver E S ContextMethodId :=
  number (·.internMethod ⟨c, m⟩)

def numberCallSite (c : ContextId) (site : CallSiteId) : Solver E S ContextCallSiteId :=
  number (·.internCallSite ⟨c, site⟩)

/-- The context with a number. -/
def contextOf (id : ContextId) : Solver E S (Context E) := do
  known ((← get).canon.context id)

/-- The abstract object behind an object under a context, and the number of its context. -/
def objectOf (id : ContextObjectId) : Solver E S (ContextId × AbstractObject) := do
  let canon := (← get).canon
  let entry ← known (canon.contextObject id)
  let object ← known (canon.object entry.object)
  return (entry.context, object)

end Solver

end PointerAnalysis
