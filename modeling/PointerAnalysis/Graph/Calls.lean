import PointerAnalysis.Program.Basic
import PointerAnalysis.Registry

/-! Call graphs. A call site and a callee have at most one edge, and nothing is ever removed. That
a method is reachable is recorded apart from the edges, so a callee that an edge has brought into
the graph can still be new as a reachable method. -/
namespace PointerAnalysis

/-- A resolved call: at `site`, `caller` enters `callee`. -/
structure CallEdge (function site : Entity) where
  caller : Id function
  site : Id site
  callee : Id function
  kind : CallKind
  deriving DecidableEq

/-- The image of an edge. -/
def CallEdge.map {function site function' site' : Entity} (onFunction : Id function → Id function')
    (onSite : Id site → Id site') (e : CallEdge function site) : CallEdge function' site' :=
  ⟨onFunction e.caller, onSite e.site, onFunction e.callee, e.kind⟩

/-- A call graph; nodes, entries and reachable functions are listed in the order of discovery, and
edges are found by their call site. Nodes and edges have no numbers of their own, and there is no set
of pairs of a call site and a callee (`edge_set`) beside `callees`, which has a callee exactly if the
set would have the pair. -/
structure CallGraph (function site : Entity) where
  nodes : Registry (Id function)
  entries : Registry (Id function)
  reached : Registry (Id function)
  edges : Array (CallEdge function site)
  callees : Std.TreeMap (Id site) (List (Id function))
  callees_agree : ∀ s, callees.getD s [] =
    (edges.toList.filter fun e => e.site = s).map (·.callee)

namespace CallGraph

variable {function site : Entity}

def empty : CallGraph function site where
  nodes := .empty
  entries := .empty
  reached := .empty
  edges := #[]
  callees := ∅
  callees_agree := by simp

/-- Marks a function as an entry of the program (`add_entry_method`). -/
def addEntry (g : CallGraph function site) (f : Id function) : CallGraph function site :=
  { g with nodes := (g.nodes.register f).1, entries := (g.entries.register f).1 }

/-- Marks a function as reachable (`add_new_method`); true if it was not. -/
def addReached (g : CallGraph function site) (f : Id function) : CallGraph function site × Bool :=
  if g.reached.contains f then (g, false)
  else ({ g with nodes := (g.nodes.register f).1, reached := (g.reached.register f).1 }, true)

def isReached (g : CallGraph function site) (f : Id function) : Bool := g.reached.contains f

/-- The callees of a call site, in the order in which they were found (`get_callees`). -/
def calleesAt (g : CallGraph function site) (s : Id site) : List (Id function) :=
  g.callees.getD s []

/-- Whether the call site of an edge already has an edge to its callee (`contains_edge`). -/
def contains (g : CallGraph function site) (e : CallEdge function site) : Bool :=
  (g.calleesAt e.site).contains e.callee

/-- Adds an edge (`add_edge`); false if its call site already has one to its callee. -/
def addEdge (g : CallGraph function site) (e : CallEdge function site) :
    CallGraph function site × Bool :=
  if g.contains e then (g, false)
  else
    ({ g with
        nodes := ((g.nodes.register e.caller).1.register e.callee).1
        edges := g.edges.push e
        callees := g.callees.insert e.site (g.calleesAt e.site ++ [e.callee])
        callees_agree := by
          intro s
          rw [Std.TreeMap.getD_insert, Array.toList_push, List.filter_append, List.map_append,
            ← g.callees_agree s]
          by_cases same : e.site = s
          · subst same
            simp [calleesAt]
          · simp [same] },
     true)

/-- The callees of a function over all of its call sites, the latest edge first (`callees_of`). -/
def calleesOf (g : CallGraph function site) (f : Id function) : List (Id function) :=
  ((g.edges.toList.filter fun e => e.caller = f).map (·.callee)).reverse

/-- The graph with these entries, reachable functions and edges, added in this order. -/
def ofLists (entries reached : List (Id function)) (edges : List (CallEdge function site)) :
    CallGraph function site :=
  let g := entries.foldl addEntry empty
  let g := reached.foldl (fun g f => (g.addReached f).1) g
  edges.foldl (fun g e => (g.addEdge e).1) g

/-- The image of a graph. Functions and edges with one image become one. -/
def project {function' site' : Entity} (g : CallGraph function site)
    (onFunction : Id function → Id function') (onSite : Id site → Id site') :
    CallGraph function' site' :=
  ofLists (g.entries.toList.map onFunction) (g.reached.toList.map onFunction)
    (g.edges.toList.map (·.map onFunction onSite))

end CallGraph

end PointerAnalysis
