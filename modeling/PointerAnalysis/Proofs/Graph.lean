import PointerAnalysis.Graph.Calls
import PointerAnalysis.Graph.Flow
import PointerAnalysis.Proofs.Lists
import PointerAnalysis.Proofs.Registry

/-! Both graphs only grow: an addition that says it was new appends its edge, and one that says it
was not leaves the graph as it is. -/
namespace PointerAnalysis

namespace FlowGraph

theorem mem_edgesFrom {g : FlowGraph} {p target : PointerId} {kind : FlowKind} :
    (target, kind) ∈ g.edgesFrom p ↔ (⟨p, target, kind⟩ : FlowEdge) ∈ g.edges.toList := by
  rw [edgesFrom, g.leaving_agree, List.mem_reverse, List.mem_map]
  constructor
  · rintro ⟨e, leaves, same⟩
    obtain ⟨there, source⟩ := List.mem_filter.mp leaves
    cases e
    cases same
    cases of_decide_eq_true source
    exact there
  · intro there
    exact ⟨_, List.mem_filter.mpr ⟨there, decide_eq_true rfl⟩, rfl⟩

theorem contains_iff {g : FlowGraph} {e : FlowEdge} : g.contains e = true ↔ e ∈ g.edges.toList := by
  rw [contains, decide_eq_true_iff, mem_edgesFrom]

theorem addEdge_of_mem {g : FlowGraph} {e : FlowEdge} (known : e ∈ g.edges.toList) :
    g.addEdge e = (g, false) := by
  rw [addEdge, if_pos (contains_iff.mpr known)]

theorem addEdge_of_not_mem {g : FlowGraph} {e : FlowEdge} (new : e ∉ g.edges.toList) :
    (g.addEdge e).1.edges.toList = g.edges.toList ++ [e] ∧ (g.addEdge e).2 = true := by
  rw [addEdge, if_neg (fun known => new (contains_iff.mp known))]
  exact ⟨Array.toList_push, rfl⟩

/-- The nodes of a flow graph are the ends of its edges. -/
def Spanned (g : FlowGraph) : Prop :=
  ∀ p, p ∈ g.nodes.toList ↔ ∃ e ∈ g.edges.toList, p = e.source ∨ p = e.target

theorem spanned_empty : empty.Spanned := by
  intro p
  simp [empty]

theorem Spanned.addEdge {g : FlowGraph} (spanned : g.Spanned) (e : FlowEdge) :
    (g.addEdge e).1.Spanned := by
  intro p
  by_cases known : e ∈ g.edges.toList
  · rw [addEdge_of_mem known]
    exact spanned p
  · rw [(addEdge_of_not_mem known).1, FlowGraph.addEdge, if_neg fun held => known (contains_iff.mp held)]
    simp only [Registry.mem_toList_register, spanned p, List.mem_append, List.mem_singleton,
      or_and_right, exists_or, exists_eq_left, or_assoc]

end FlowGraph

namespace CallGraph

variable {function site : Entity}

theorem contains_iff {g : CallGraph function site} {e : CallEdge function site} :
    g.contains e = true ↔ ∃ known ∈ g.edges.toList, known.site = e.site ∧ known.callee = e.callee := by
  rw [contains, List.contains_iff_mem, calleesAt, g.callees_agree, List.mem_map]
  simp only [List.mem_filter, decide_eq_true_eq]
  exact ⟨fun ⟨k, ⟨there, site⟩, callee⟩ => ⟨k, there, site, callee⟩,
    fun ⟨k, there, site, callee⟩ => ⟨k, ⟨there, site⟩, callee⟩⟩

theorem addEdge_of_new {g : CallGraph function site} {e : CallEdge function site}
    (new : g.contains e = false) :
    (g.addEdge e).1.edges.toList = g.edges.toList ++ [e] := by
  rw [addEdge, if_neg (by simp [new])]
  exact Array.toList_push

theorem addEdge_of_known {g : CallGraph function site} {e : CallEdge function site}
    (known : g.contains e = true) : g.addEdge e = (g, false) := by
  rw [addEdge, if_pos known]

@[simp] theorem reached_addEdge (g : CallGraph function site) (e : CallEdge function site) :
    (g.addEdge e).1.reached = g.reached := by
  unfold addEdge
  split <;> rfl

@[simp] theorem entries_addEdge (g : CallGraph function site) (e : CallEdge function site) :
    (g.addEdge e).1.entries = g.entries := by
  unfold addEdge
  split <;> rfl

theorem addReached_of_known {g : CallGraph function site} {f : Id function}
    (known : f ∈ g.reached.toList) : g.addReached f = (g, false) := by
  rw [addReached, if_pos (Registry.contains_iff.mpr known)]

theorem addReached_of_new {g : CallGraph function site} {f : Id function}
    (new : f ∉ g.reached.toList) :
    (g.addReached f).1.reached.toList = g.reached.toList ++ [f] ∧ (g.addReached f).2 = true ∧
      (g.addReached f).1.edges = g.edges ∧ (g.addReached f).1.entries = g.entries := by
  have unknown : ¬ g.reached.contains f = true := fun known => new (Registry.contains_iff.mp known)
  rw [addReached, if_neg unknown]
  refine ⟨?_, rfl, rfl, rfl⟩
  rw [Registry.toList_register, if_neg unknown]

@[simp] theorem edges_addReached (g : CallGraph function site) (f : Id function) :
    (g.addReached f).1.edges = g.edges := by
  unfold addReached
  split <;> rfl

theorem mem_reached_addReached {g : CallGraph function site} {f f' : Id function} :
    f' ∈ (g.addReached f).1.reached.toList ↔ f' ∈ g.reached.toList ∨ f' = f := by
  by_cases known : f ∈ g.reached.toList
  · rw [addReached_of_known known]
    exact ⟨.inl, fun h => h.elim id (· ▸ known)⟩
  · rw [(addReached_of_new known).1, List.mem_append, List.mem_singleton]

/-- A function that is made reachable is a node afterwards, if the reachable ones were. -/
theorem mem_nodes_addReached {g : CallGraph function site} {f f' : Id function}
    (nodes : f ∈ g.reached.toList → f ∈ g.nodes.toList) :
    f' ∈ (g.addReached f).1.nodes.toList ↔ f' ∈ g.nodes.toList ∨ f' = f := by
  by_cases known : f ∈ g.reached.toList
  · rw [addReached_of_known known]
    exact ⟨.inl, fun h => h.elim id (· ▸ nodes known)⟩
  · have unknown : ¬ g.reached.contains f = true := fun held => known (Registry.contains_iff.mp held)
    rw [addReached, if_neg unknown]
    exact Registry.mem_toList_register

@[simp] theorem entries_addReached (g : CallGraph function site) (f : Id function) :
    (g.addReached f).1.entries = g.entries := by
  unfold addReached
  split <;> rfl

theorem mem_nodes_addEdge {g : CallGraph function site} {e : CallEdge function site}
    (new : g.contains e = false) {f : Id function} :
    f ∈ (g.addEdge e).1.nodes.toList ↔ f ∈ g.nodes.toList ∨ f = e.caller ∨ f = e.callee := by
  rw [addEdge, if_neg (by simp [new])]
  simp only [Registry.mem_toList_register, or_assoc]

@[simp] theorem edges_addEntry (g : CallGraph function site) (f : Id function) :
    (g.addEntry f).edges = g.edges := rfl

@[simp] theorem reached_addEntry (g : CallGraph function site) (f : Id function) :
    (g.addEntry f).reached = g.reached := rfl

theorem contains_addEntry (g : CallGraph function site) (f : Id function) (e : CallEdge function site) :
    (g.addEntry f).contains e = true ↔ g.contains e = true := by
  rw [contains_iff, edges_addEntry, contains_iff]

theorem contains_addReached (g : CallGraph function site) (f : Id function) (e : CallEdge function site) :
    (g.addReached f).1.contains e = true ↔ g.contains e = true := by
  rw [contains_iff, edges_addReached, contains_iff]

/-- A call edge is known by its site and its callee. -/
theorem contains_addEdge {g : CallGraph function site} {e e' : CallEdge function site} :
    (g.addEdge e).1.contains e' = true ↔
      g.contains e' = true ∨ e.site = e'.site ∧ e.callee = e'.callee := by
  cases known : g.contains e with
  | true =>
    rw [addEdge_of_known known]
    refine ⟨.inl, fun held => held.elim id fun ⟨site, callee⟩ => ?_⟩
    rwa [contains_iff, site, callee, ← contains_iff] at known
  | false =>
    rw [contains_iff, addEdge_of_new known, contains_iff]
    simp only [List.mem_append, List.mem_singleton, or_and_right, exists_or, exists_eq_left]

/-! ### Graphs from lists -/

/-- What an addition leaves alone, many of them leave alone. -/
private theorem view_foldl {α β : Type} (view : CallGraph function site → β)
    {add : CallGraph function site → α → CallGraph function site}
    (same : ∀ g x, view (add g x) = view g) (l : List α) (g : CallGraph function site) :
    view (l.foldl add g) = view g :=
  List.foldlRecOn (motive := fun g' => view g' = view g) l add rfl fun g' kept x _ =>
    (same g' x).trans kept

/-- Where an addition enters what is not there yet, a listing is left without its repetitions. -/
private theorem toList_foldl {α : Type} [DecidableEq α] (view : CallGraph function site → List α)
    {add : CallGraph function site → α → CallGraph function site}
    (once : ∀ g x, view (add g x) = addOnce (view g) x) (l : List α) {g : CallGraph function site}
    (none : view g = []) : view (l.foldl add g) = l.eraseDups := by
  rw [← foldl_addOnce, ← none]
  exact (List.foldl_hom view fun g x => (once g x).symm).symm

theorem entries_addEntry (g : CallGraph function site) (f : Id function) :
    (g.addEntry f).entries.toList = addOnce g.entries.toList f :=
  Registry.toList_register_eq_addOnce g.entries f

theorem reached_addReached (g : CallGraph function site) (f : Id function) :
    (g.addReached f).1.reached.toList = addOnce g.reached.toList f := by
  by_cases known : f ∈ g.reached.toList
  · rw [addReached_of_known known, addOnce, if_pos known]
  · rw [(addReached_of_new known).1, addOnce, if_neg known]

/-- A call site and a callee decide on the edge. -/
def Apart (edges : List (CallEdge function site)) : Prop :=
  ∀ e ∈ edges, ∀ e' ∈ edges, e.site = e'.site → e.callee = e'.callee → e = e'

/-- Where call sites and callees decide on edges, none is taken for another one. -/
private theorem edges_foldl_addEdge {g : CallGraph function site} {l : List (CallEdge function site)}
    (apart : Apart (g.edges.toList ++ l)) :
    (l.foldl (fun g e => (g.addEdge e).1) g).edges.toList = l.foldl addOnce g.edges.toList := by
  induction l generalizing g with
  | nil => rfl
  | cons first l ih =>
    rw [List.foldl_cons, List.foldl_cons]
    cases contained : g.contains first with
    | true =>
      obtain ⟨known, there, site, callee⟩ := contains_iff.mp contained
      obtain rfl := apart known (List.mem_append_left _ there) first (by simp) site callee
      have fewer : g.edges.toList ++ l ⊆ g.edges.toList ++ known :: l :=
        ((List.sublist_cons_self known l).append_left _).subset
      rw [addEdge_of_known contained, addOnce, if_pos there]
      exact ih fun e there e' there' => apart e (fewer there) e' (fewer there')
    | false =>
      have listed := addEdge_of_new contained
      have new : first ∉ g.edges.toList := fun there => by
        simp [contains_iff.mpr ⟨first, there, rfl, rfl⟩] at contained
      rw [ih (by simpa [listed] using apart), listed, addOnce, if_neg new]

section OfLists

variable (entries reached : List (Id function)) (edges : List (CallEdge function site))

theorem entries_ofLists : (ofLists entries reached edges).entries.toList = entries.eraseDups := by
  unfold ofLists
  rw [view_foldl CallGraph.entries entries_addEdge,
    view_foldl CallGraph.entries entries_addReached]
  exact toList_foldl (fun g => g.entries.toList) entries_addEntry entries rfl

theorem reached_ofLists : (ofLists entries reached edges).reached.toList = reached.eraseDups := by
  unfold ofLists
  rw [view_foldl CallGraph.reached reached_addEdge]
  refine toList_foldl (fun g => g.reached.toList) reached_addReached reached ?_
  rw [view_foldl CallGraph.reached reached_addEntry]
  rfl

variable {edges}

theorem edges_ofLists (apart : Apart edges) :
    (ofLists entries reached edges).edges.toList = edges.eraseDups := by
  have none : (reached.foldl (fun g f => (g.addReached f).1) (entries.foldl addEntry empty)).edges =
      (#[] : Array (CallEdge function site)) := by
    rw [view_foldl CallGraph.edges edges_addReached,
      view_foldl CallGraph.edges edges_addEntry]
    rfl
  unfold ofLists
  rw [edges_foldl_addEdge (by simpa [none] using apart), none, ← foldl_addOnce]

end OfLists

theorem mem_reached_ofLists {entries reached : List (Id function)}
    {edges : List (CallEdge function site)} {f : Id function} :
    f ∈ (ofLists entries reached edges).reached.toList ↔ f ∈ reached := by
  rw [reached_ofLists, List.mem_eraseDups]

theorem mem_edges_ofLists {entries reached : List (Id function)}
    {edges : List (CallEdge function site)}
    (apart : Apart edges) {e : CallEdge function site} :
    e ∈ (ofLists entries reached edges).edges.toList ↔ e ∈ edges := by
  rw [edges_ofLists _ _ apart, List.mem_eraseDups]

/-- The ends of edges, the entries and the reachable functions are nodes. -/
structure Spans (g : CallGraph function site) : Prop where
  entries : ∀ f ∈ g.entries.toList, f ∈ g.nodes.toList
  reached : ∀ f ∈ g.reached.toList, f ∈ g.nodes.toList
  edges : ∀ e ∈ g.edges.toList, e.caller ∈ g.nodes.toList ∧ e.callee ∈ g.nodes.toList

namespace Spans

theorem empty : (CallGraph.empty : CallGraph function site).Spans where
  entries _ there := by cases there
  reached _ there := by cases there
  edges _ there := by cases there

variable {g : CallGraph function site} (spans : g.Spans)
include spans

theorem addEntry (f : Id function) : (g.addEntry f).Spans := by
  have nodes {f' : Id function} : f' ∈ (g.addEntry f).nodes.toList ↔ f' ∈ g.nodes.toList ∨ f' = f :=
    Registry.mem_toList_register
  refine ⟨fun f' there => ?_, fun f' there => nodes.mpr (.inl (spans.reached f' there)), ?_⟩
  · exact nodes.mpr ((Registry.mem_toList_register.mp there).imp_left (spans.entries f'))
  · intro e there
    have ends := spans.edges e there
    exact ⟨nodes.mpr (.inl ends.1), nodes.mpr (.inl ends.2)⟩

theorem addReached (f : Id function) : (g.addReached f).1.Spans := by
  have nodes {f' : Id function} : f' ∈ (g.addReached f).1.nodes.toList ↔
      f' ∈ g.nodes.toList ∨ f' = f := mem_nodes_addReached (spans.reached f)
  refine ⟨fun f' there => ?_, fun f' there => ?_, fun e there => ?_⟩
  · rw [entries_addReached] at there
    exact nodes.mpr (.inl (spans.entries f' there))
  · exact nodes.mpr ((mem_reached_addReached.mp there).imp_left (spans.reached f'))
  · rw [edges_addReached] at there
    have ends := spans.edges e there
    exact ⟨nodes.mpr (.inl ends.1), nodes.mpr (.inl ends.2)⟩

theorem addEdge (e : CallEdge function site) : (g.addEdge e).1.Spans := by
  cases known : g.contains e with
  | true => rwa [addEdge_of_known known]
  | false =>
    have nodes {f : Id function} := mem_nodes_addEdge (f := f) known
    refine ⟨fun f there => ?_, fun f there => ?_, fun e' there => ?_⟩
    · rw [entries_addEdge] at there
      exact nodes.mpr (.inl (spans.entries f there))
    · rw [reached_addEdge] at there
      exact nodes.mpr (.inl (spans.reached f there))
    · rw [addEdge_of_new known, List.mem_append, List.mem_singleton] at there
      rcases there with old | rfl
      · have ends := spans.edges e' old
        exact ⟨nodes.mpr (.inl ends.1), nodes.mpr (.inl ends.2)⟩
      · exact ⟨nodes.mpr (.inr (.inl rfl)), nodes.mpr (.inr (.inr rfl))⟩

end Spans

theorem spans_ofLists (entries reached : List (Id function)) (edges : List (CallEdge function site)) :
    (ofLists entries reached edges).Spans := by
  have started : (entries.foldl addEntry (empty : CallGraph function site)).Spans :=
    List.foldlRecOn entries _ .empty fun _ spans f _ => spans.addEntry f
  have marked : (reached.foldl (fun g f => (g.addReached f).1)
      (entries.foldl addEntry (empty : CallGraph function site))).Spans :=
    List.foldlRecOn reached _ started fun _ spans f _ => spans.addReached f
  exact List.foldlRecOn edges _ marked fun _ spans e _ => spans.addEdge e

/-- Nothing becomes a node of a graph from lists unless a list says so. -/
theorem all_nodes_ofLists {good : Id function → Prop} {entries reached : List (Id function)}
    {edges : List (CallEdge function site)} (goodEntries : ∀ f ∈ entries, good f)
    (goodReached : ∀ f ∈ reached, good f) (goodEdges : ∀ e ∈ edges, good e.caller ∧ good e.callee) :
    ∀ f ∈ (ofLists entries reached edges).nodes.toList, good f := by
  have registered {r : Registry (Id function)} (old : ∀ f ∈ r.toList, good f) {new : Id function}
      (held : good new) : ∀ f ∈ (r.register new).1.toList, good f := by
    intro f there
    rcases Registry.mem_toList_register.mp there with there | rfl
    · exact old f there
    · exact held
  have started : ∀ f ∈ (entries.foldl addEntry (empty : CallGraph function site)).nodes.toList, good f :=
    List.foldlRecOn (motive := fun g : CallGraph function site => ∀ f ∈ g.nodes.toList, good f)
      entries _ (fun f there => by cases there) fun g old f there => registered old (goodEntries f there)
  have marked : ∀ f ∈ (reached.foldl (fun g f => (g.addReached f).1)
      (entries.foldl addEntry (empty : CallGraph function site))).nodes.toList, good f := by
    refine List.foldlRecOn (motive := fun g : CallGraph function site => ∀ f ∈ g.nodes.toList, good f)
      reached _ started fun g old f there => ?_
    unfold addReached
    split
    · exact old
    · exact registered old (goodReached f there)
  refine List.foldlRecOn (motive := fun g : CallGraph function site => ∀ f ∈ g.nodes.toList, good f)
    edges _ marked fun g old e there => ?_
  unfold addEdge
  split
  · exact old
  · exact registered (registered old (goodEdges e there).1) (goodEdges e there).2

end CallGraph

end PointerAnalysis
