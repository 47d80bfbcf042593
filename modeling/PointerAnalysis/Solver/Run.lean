import PointerAnalysis.Solver.Step

/-! Whole runs of the solver. A run repeats steps until nothing is left to do; the number of its
steps is bounded by the size of the program and the depth of contexts, and the bound is met in
rounds that double, so that even a bound too large to count to costs nothing. -/
namespace PointerAnalysis

/-- How many entities a program declares. -/
def Program.size (p : Program) : Nat :=
  p.types.size + p.fields.size + p.methods.size + p.vars.size + p.callSites.size + p.allocSites

/-- Doubling rounds that are enough for every run. With `n` for the size and two more, there are at
most `n ^ 3` elements of contexts and `n ^ (3 * depth)` contexts, and the steps of a run are bounded
by the square of that and the tenth power of `n`. -/
def Analysis.rounds {E : Type} (a : Analysis E) : Nat :=
  (6 * a.policy.depth + 11) * (a.program.size + 1)

namespace Solver

variable {E S : Type} [Coded E] [IdSet S .contextObject]

/-- At most so many steps; true if nothing is left to do. -/
def runFor (a : Analysis E) : Nat → Solver E S Bool
  | 0 => return false
  | steps + 1 => do
    if ← step a then runFor a steps else return true

/-- Rounds of steps, each with twice as many as the one before. -/
def runRounds (a : Analysis E) (budget : Nat) : Nat → Solver E S Bool
  | 0 => return false
  | rounds + 1 => do
    if ← runFor a budget then return true else runRounds a (2 * budget) rounds

/-- Starts at the entry methods and goes on until nothing is left to do. -/
def solve (a : Analysis E) : Solver E S Unit := do
  start a
  unless ← runRounds a 1 a.rounds do throw .unfinished

/-- What can be seen of a run that is watched step by step. -/
inductive Sight (E S : Type) [Coded E] where
  /-- The state after a step, or the one that a failed step has left. -/
  | state (s : State E S)
  /-- Nothing is left to do. -/
  | atRest
  | givenUp (e : AnalysisError)

/-- At most so many steps from a state. -/
def watchFrom (a : Analysis E) (s : State E S) : Nat → List (Sight E S)
  | 0 => []
  | steps + 1 =>
    match (step a).run s with
    | .ok false _ => [.atRest]
    | .ok true s => .state s :: watchFrom a s steps
    | .error e s => [.state s, .givenUp e]

/-- The start and at most so many steps. -/
def watch (a : Analysis E) (steps : Nat) : List (Sight E S) :=
  match (start a).run .empty with
  | .ok _ s => .state s :: watchFrom a s steps
  | .error e s => [.state s, .givenUp e]

end Solver

/-- A finished analysis with its final state. -/
structure Solution (E S : Type) [Coded E] where
  analysis : Analysis E
  state : Solver.State E S

/-- Carries an analysis out, with sets of objects in the representation `S`. -/
def Analysis.solve {E : Type} [Coded E] (a : Analysis E) (S : Type) [IdSet S .contextObject] :
    Except AnalysisError (Solution E S) :=
  match (Solver.solve a).run .empty with
  | .ok _ s => .ok ⟨a, s⟩
  | .error e _ => .error e

namespace Solution

variable {E S : Type} [Coded E] [IdSet S .contextObject]

/-- The objects that a pointer may point to (`get_pts`). -/
def objectsOf (r : Solution E S) (p : PointerId) : List ContextObjectId :=
  IdSet.toList (r.state.objectsOf p)

/-- The abstract objects that a variable may point to under some context, in order (`objects_of_var`). -/
def objectsOfVar (r : Solution E S) (v : VarId) : Except UnknownId (List ObjectId) := do
  let pointers := r.state.canon.varPointers.filter fun entry => entry.2.2 = v
  let objects ← (pointers.flatMap fun entry => r.objectsOf entry.1).mapM fun id => do
    let entry ← r.state.canon.contextObject id
    return entry.object
  return (Std.TreeSet.ofList objects).toList

/-- The method behind a method under a context. -/
def methodOf (r : Solution E S) (id : ContextMethodId) : Except UnknownId MethodId := do
  let entry ← r.state.canon.method id
  return entry.method

/-- The call site behind a call site under a context. -/
def callSiteOf (r : Solution E S) (id : ContextCallSiteId) : Except UnknownId CallSiteId := do
  let entry ← r.state.canon.callSite id
  return entry.site

/-- The call graph with contexts dropped. -/
def mergedCalls (r : Solution E S) : Except UnknownId (CallGraph .method .callSite) := do
  let calls := r.state.calls
  let entries ← calls.entries.toList.mapM r.methodOf
  let reached ← calls.reached.toList.mapM r.methodOf
  let edges ← calls.edges.toList.mapM fun e => do
    return { caller := ← r.methodOf e.caller, site := ← r.callSiteOf e.site
             callee := ← r.methodOf e.callee, kind := e.kind }
  return .ofLists entries reached edges

end Solution

end PointerAnalysis
