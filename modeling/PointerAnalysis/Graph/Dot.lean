import PointerAnalysis.Graph.Calls
import PointerAnalysis.Graph.Flow
import PointerAnalysis.Text.Quoted

/-! Graphs as text for drawing programs: a line for each node, numbered in order, and a line for
each edge between two numbers, with quoted labels on both. -/
namespace PointerAnalysis

/-- A graph with labelled nodes and edges; an edge joins two positions in the list of nodes. -/
structure Drawing where
  nodes : List String
  edges : List (Nat × Nat × String)

namespace Drawing

def label (text : String) : String := " [ label = " ++ Text.quoted text ++ "]\n"

def nodeLine (node : String × Nat) : String :=
  "    " ++ toString node.2 ++ label node.1

def edgeLine (edge : Nat × Nat × String) : String :=
  "    " ++ toString edge.1 ++ " -> " ++ toString edge.2.1 ++ label edge.2.2

/-- The whole drawing as text (`to_dot`). -/
def dot (d : Drawing) : String :=
  "digraph \x7b\n" ++ String.join (d.nodes.zipIdx.map nodeLine)
    ++ String.join (d.edges.map edgeLine) ++ "\x7d\n"

end Drawing

/-- A call graph with the names of its nodes; an edge is labelled with its call site and kind. -/
def CallGraph.drawing {function site : Entity} (g : CallGraph function site)
    (names : List String) (siteLabel : Id site → String) : Drawing where
  nodes := names
  edges := g.edges.toList.map fun e =>
    (g.nodes.idxOf e.caller, g.nodes.idxOf e.callee, siteLabel e.site ++ " (" ++ e.kind.text ++ ")")

/-- A flow graph with the names of its nodes; an edge is labelled with its kind. -/
def FlowGraph.drawing (g : FlowGraph) (names : List String) : Drawing where
  nodes := names
  edges := g.edges.toList.map fun e =>
    (g.nodes.idxOf e.source, g.nodes.idxOf e.target, e.kind.text)

end PointerAnalysis
