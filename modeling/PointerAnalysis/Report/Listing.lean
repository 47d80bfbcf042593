import PointerAnalysis.Graph.Dot
import PointerAnalysis.Report.Labels
import Std.Data.TreeSet

/-! Results as text. A points-to listing has one line for each pointer with objects, in the order
of the names; the call graph and the flow graph are drawn. -/
namespace PointerAnalysis

/-- A line of a points-to listing: a pointer and the names of its objects, each once. -/
structure PointsToLine where
  pointer : String
  objects : Std.TreeSet String

namespace PointsToLine

def text (line : PointsToLine) : String :=
  line.pointer ++ " ==> \x7b " ++ String.join (line.objects.toList.map (· ++ " ")) ++ "\x7d\n"

/-- Lines are ordered by the name of the pointer, then by those of the objects. -/
def le (a b : PointsToLine) : Bool :=
  (compare (a.pointer :: a.objects.toList) (b.pointer :: b.objects.toList)).isLE

end PointsToLine

namespace Solution

variable {E S : Type} [Coded E] [IdSet S .contextObject] (r : Solution E S)

/-- A line for each pointer with objects, in the order of the pointers' numbers. -/
def pointsToLines : Except UnknownId (List PointsToLine) := do
  let holding := r.state.canon.pointerList.filter fun entry => !(r.objectsOf entry.1).isEmpty
  holding.mapM fun entry => do
    let objects ← (r.objectsOf entry.1).mapM r.contextObjectLabel
    return ⟨← r.pointerLabel entry.1, .ofList objects⟩

/-- The objects of all pointers (`write_cs_pts`). -/
def pointsToListing : Except UnknownId String := do
  let lines ← r.pointsToLines
  return String.join ((lines.mergeSort PointsToLine.le).map PointsToLine.text)

/-- The names of the objects under each name of a pointer with the context dropped. -/
def mergedPointsTo : Except UnknownId (Std.TreeMap String (Std.TreeSet String)) := do
  let holding := r.state.canon.pointerList.filter fun entry => !(r.objectsOf entry.1).isEmpty
  holding.foldlM (fun table entry => do
    let pointer ← r.mergedPointerLabel entry.2
    let objects ← (r.objectsOf entry.1).mapM r.mergedObjectLabel
    return table.insert pointer (objects.foldl (·.insert ·) (table.getD pointer ∅))) ∅

/-- The objects of all pointers with contexts dropped (`write_ci_pts`). -/
def mergedPointsToListing : Except UnknownId String := do
  let table ← r.mergedPointsTo
  return String.join (table.toList.map fun entry => (PointsToLine.mk entry.1 entry.2).text)

/-- Both listings under a heading each. -/
def fullListing : Except UnknownId String := do
  return "# Context-sensitive points-to sets\n" ++ (← r.pointsToListing)
    ++ "# Context-insensitive points-to sets\n" ++ (← r.mergedPointsToListing)

/-- The drawing of the call graph with contexts dropped (`write_call_graph`). -/
def callGraphText : Except UnknownId String := do
  let calls ← r.mergedCalls
  let names ← calls.nodes.toList.mapM r.analysis.program.methodName
  return (calls.drawing names Id.text).dot

/-- The drawing of the pointer flow graph. -/
def flowGraphText : Except UnknownId String := do
  let names ← r.state.flow.nodes.toList.mapM r.pointerLabel
  return (r.state.flow.drawing names).dot

end Solution

end PointerAnalysis
