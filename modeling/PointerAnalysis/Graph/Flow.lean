import PointerAnalysis.Canon

/-! Pointer flow graphs: along an edge all objects of its source also reach its target. Edges of
different kinds between the same pointers are different edges, and none is ever removed. -/
namespace PointerAnalysis

/-- The statement that makes objects flow. -/
inductive FlowKind where
  | assign
  | store
  | load
  | param
  | return
  deriving DecidableEq

def FlowKind.text : FlowKind → String
  | .assign => "assign"
  | .store => "store"
  | .load => "load"
  | .param => "param"
  | .return => "return"

structure FlowEdge where
  source : PointerId
  target : PointerId
  kind : FlowKind
  deriving DecidableEq

/-- A flow graph; nodes and edges are listed in the order of their entry. Nodes and edges have no numbers
of their own, and there is no set of edges (`edge_set`) beside `leaving`, which has all that the set
would have. -/
structure FlowGraph where
  nodes : Registry PointerId
  edges : Array FlowEdge
  /-- The target and kind of every edge that leaves a pointer, the latest edge first. -/
  leaving : Std.TreeMap PointerId (List (PointerId × FlowKind))
  leaving_agree : ∀ p, leaving.getD p [] =
    ((edges.toList.filter fun e => e.source = p).map fun e => (e.target, e.kind)).reverse

namespace FlowGraph

def empty : FlowGraph where
  nodes := .empty
  edges := #[]
  leaving := ∅
  leaving_agree := by simp

/-- The target and kind of every edge that leaves a pointer, the latest edge first (`out_edges_of`). -/
def edgesFrom (g : FlowGraph) (p : PointerId) : List (PointerId × FlowKind) := g.leaving.getD p []

def contains (g : FlowGraph) (e : FlowEdge) : Bool := (e.target, e.kind) ∈ g.edgesFrom e.source

/-- Adds an edge (`add_edge`); false if it was there. -/
def addEdge (g : FlowGraph) (e : FlowEdge) : FlowGraph × Bool :=
  if g.contains e then (g, false)
  else
    ({ nodes := ((g.nodes.register e.source).1.register e.target).1
       edges := g.edges.push e
       leaving := g.leaving.insert e.source ((e.target, e.kind) :: g.edgesFrom e.source)
       leaving_agree := by
         intro p
         rw [Std.TreeMap.getD_insert, Array.toList_push, List.filter_append, List.map_append,
           List.reverse_append, ← g.leaving_agree p]
         by_cases same : e.source = p
         · subst same
           simp [edgesFrom]
         · simp [same] },
     true)

end FlowGraph

end PointerAnalysis
