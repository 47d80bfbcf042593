import Mathlib.Data.Finset.Card
import PointerAnalysis.Proofs.Graph

/-! Flow graphs under any history of requests for edges. The list of edges, the nodes and the edges that are
found at a pointer are kept apart, and all three are read off the history: each edge is taken in at its
first request, each pointer becomes a node with its first edge, and a pointer lists the edges that leave it
backwards. Edges that lead back to their pointer and edges of several kinds between two pointers are
no exceptions. -/
namespace PointerAnalysis

/-- The pointers that an edge joins, which may be one and the same. -/
def FlowEdge.ends (e : FlowEdge) : List PointerId := [e.source, e.target]

namespace FlowGraph

variable (requests : List FlowEdge)

/-- The graph after a history of requests for edges. -/
def after : FlowGraph := requests.foldl (fun g e => (g.addEdge e).1) empty

/-- A graph answers every question out of the requests for edges that were made. -/
structure Reflects (g : FlowGraph) : Prop where
  /-- The edges come in the order of their first requests. -/
  edges : g.edges.toList = requests.eraseDups
  nodes : g.nodes.toList = (requests.flatMap FlowEdge.ends).eraseDups
  contains : ∀ e, g.contains e = true ↔ e ∈ requests
  /-- An edge is added at the first request for it; another request changes nothing. -/
  addEdge : ∀ e, (e ∉ requests → (g.addEdge e).2 = true) ∧ (e ∈ requests → g.addEdge e = (g, false))
  /-- The edges that leave a pointer come with the latest one first. -/
  edgesFrom : ∀ p, g.edgesFrom p =
    ((requests.eraseDups.filter (·.source = p)).map fun e => (e.target, e.kind)).reverse
  edgesFrom_once : ∀ p, (g.edgesFrom p).Nodup
  mem_edgesFrom : ∀ p target kind,
    (target, kind) ∈ g.edgesFrom p ↔ (⟨p, target, kind⟩ : FlowEdge) ∈ requests
  /-- Nothing leaves a pointer that no edge has for an end. -/
  edgesFrom_unknown : ∀ p, (∀ e ∈ requests, p ∉ e.ends) → g.edgesFrom p = []
  edges_size : g.edges.size = requests.toFinset.card
  nodes_size : g.nodes.size = (requests.flatMap FlowEdge.ends).toFinset.card

/-! ### One request -/

theorem edges_addEdge (g : FlowGraph) (e : FlowEdge) :
    (g.addEdge e).1.edges.toList = addOnce g.edges.toList e := by
  by_cases known : e ∈ g.edges.toList
  · rw [addEdge_of_mem known, addOnce, if_pos known]
  · rw [(addEdge_of_not_mem known).1, addOnce, if_neg known]

theorem nodes_addEdge_of_not_mem {g : FlowGraph} {e : FlowEdge} (new : e ∉ g.edges.toList) :
    (g.addEdge e).1.nodes.toList = addOnce (addOnce g.nodes.toList e.source) e.target := by
  rw [addEdge, if_neg fun known => new (contains_iff.mp known),
    Registry.toList_register_eq_addOnce, Registry.toList_register_eq_addOnce]

/-! ### Histories -/

/-- What a history leaves in the lists of a graph. -/
structure Holds (g : FlowGraph) : Prop where
  edges : g.edges.toList = requests.eraseDups
  nodes : g.nodes.toList = (requests.flatMap FlowEdge.ends).eraseDups

variable {requests} {g : FlowGraph}

/-- The ends of an edge that was requested are entered already. -/
private theorem addOnce_ends {e : FlowEdge} (known : e ∈ requests) :
    (requests.flatMap FlowEdge.ends ++ e.ends).eraseDups =
      (requests.flatMap FlowEdge.ends).eraseDups := by
  have entered : ∀ p ∈ e.ends, p ∈ (requests.flatMap FlowEdge.ends).eraseDups := fun p there =>
    List.mem_eraseDups.mpr (List.mem_flatMap.mpr ⟨e, known, there⟩)
  have source := entered e.source (by simp [FlowEdge.ends])
  have target := entered e.target (by simp [FlowEdge.ends])
  rw [FlowEdge.ends, ← List.singleton_append, ← List.append_assoc, eraseDups_concat, eraseDups_concat,
    addOnce, addOnce, if_pos source, if_pos target]

theorem Holds.addEdge (holds : Holds requests g) (e : FlowEdge) :
    Holds (requests ++ [e]) (g.addEdge e).1 where
  edges := by rw [edges_addEdge, holds.edges, eraseDups_concat]
  nodes := by
    rw [List.flatMap_append, List.flatMap_singleton]
    by_cases known : e ∈ requests
    · rw [addEdge_of_mem (holds.edges ▸ List.mem_eraseDups.mpr known), holds.nodes, addOnce_ends known]
    · have new : e ∉ g.edges.toList := by rwa [holds.edges, List.mem_eraseDups]
      rw [nodes_addEdge_of_not_mem new, holds.nodes, FlowEdge.ends, ← List.singleton_append,
        ← List.append_assoc, eraseDups_concat, eraseDups_concat]

theorem holds_after (requests : List FlowEdge) : Holds requests (after requests) := by
  induction requests using List.reverseRecOn with
  | nil => exact ⟨rfl, rfl⟩
  | append_singleton requests e ih =>
    rw [after, List.foldl_append]
    exact ih.addEdge e

theorem spanned_after (requests : List FlowEdge) : (after requests).Spanned :=
  List.foldlRecOn requests _ spanned_empty fun _ spanned e _ => spanned.addEdge e

/-! ### Answers -/

/-- A list without repetitions is as long as there are different elements. -/
private theorem length_eraseDups {α : Type} [DecidableEq α] (l : List α) :
    l.eraseDups.length = l.toFinset.card := by
  rw [← List.toFinset_card_of_nodup (nodup_eraseDups l)]
  congr 1
  ext x
  rw [List.mem_toFinset, List.mem_toFinset, List.mem_eraseDups]

namespace Holds

variable (holds : Holds requests g)
include holds

theorem mem_edges {e : FlowEdge} : e ∈ g.edges.toList ↔ e ∈ requests := by
  rw [holds.edges, List.mem_eraseDups]

theorem mem_edgesFrom_iff {p target : PointerId} {kind : FlowKind} :
    (target, kind) ∈ g.edgesFrom p ↔ (⟨p, target, kind⟩ : FlowEdge) ∈ requests := by
  rw [mem_edgesFrom, holds.mem_edges]

theorem edgesFrom_eq (p : PointerId) : g.edgesFrom p =
    ((requests.eraseDups.filter (·.source = p)).map fun e => (e.target, e.kind)).reverse := by
  rw [edgesFrom, g.leaving_agree, holds.edges]

/-- Edges that leave one pointer differ in their target or their kind. -/
theorem nodup_edgesFrom (p : PointerId) : (g.edgesFrom p).Nodup := by
  rw [holds.edgesFrom_eq, List.nodup_reverse]
  refine ((nodup_eraseDups requests).filter _).map_on fun e there e' there' same => ?_
  have source := of_decide_eq_true (List.mem_filter.mp there).2
  have source' := of_decide_eq_true (List.mem_filter.mp there').2
  obtain ⟨target, kind⟩ := Prod.mk.inj same
  cases e
  cases e'
  simp_all

theorem reflects : Reflects requests g where
  edges := holds.edges
  nodes := holds.nodes
  contains e := by rw [contains_iff, holds.mem_edges]
  addEdge e :=
    ⟨fun new => (addEdge_of_not_mem (mt holds.mem_edges.mp new)).2,
      fun known => addEdge_of_mem (holds.mem_edges.mpr known)⟩
  edgesFrom := holds.edgesFrom_eq
  edgesFrom_once := holds.nodup_edgesFrom
  mem_edgesFrom _ _ _ := holds.mem_edgesFrom_iff
  edgesFrom_unknown p unknown := by
    refine List.eq_nil_iff_forall_not_mem.mpr fun (target, kind) leaves => ?_
    exact unknown _ (holds.mem_edgesFrom_iff.mp leaves) (by simp [FlowEdge.ends])
  edges_size := by rw [← Array.length_toList, holds.edges, length_eraseDups]
  nodes_size := by rw [← length_eraseDups, ← holds.nodes, Registry.toList, Array.length_toList, Registry.size]

end Holds

/-- A flow graph that came about by any history of requests takes each edge in once, whatever its ends and its
kind, says so at the first request only, finds at each pointer the edges that leave it with the latest
first, and counts the different edges and the different pointers among their ends. -/
theorem flow_graphs_reflect_histories (requests : List FlowEdge) : Reflects requests (after requests) :=
  (holds_after requests).reflects

/-- A loop, two edges of different kinds between the same pointers and a repeated request. -/
example : let g := after [⟨⟨4⟩, ⟨4⟩, .assign⟩, ⟨⟨4⟩, ⟨7⟩, .assign⟩, ⟨⟨4⟩, ⟨7⟩, .param⟩, ⟨⟨4⟩, ⟨7⟩, .assign⟩]
    g.edgesFrom ⟨4⟩ = [(⟨7⟩, .param), (⟨7⟩, .assign), (⟨4⟩, .assign)] ∧ g.edges.size = 3 ∧
      g.nodes.size = 2 := by
  decide

end FlowGraph

end PointerAnalysis
