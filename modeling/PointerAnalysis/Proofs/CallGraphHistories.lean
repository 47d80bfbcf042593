import Mathlib.Data.Nat.Find
import PointerAnalysis.Proofs.Graph

/-! Call graphs under any history of additions. What a graph lists is read off the history: of the edges with
one call site and one callee the first, of the entries and of the reachable functions each once, all in
the order in which they came. An edge that is refused leaves no trace, not even of its caller. -/
namespace PointerAnalysis

variable {function site : Entity}

/-- What decides whether an edge is new. -/
def CallEdge.pair (e : CallEdge function site) : Id site × Id function := (e.site, e.callee)

/-- An addition to a call graph. -/
inductive CallGraphEdit (function site : Entity) where
  | entry (f : Id function)
  | reach (f : Id function)
  | call (e : CallEdge function site)

namespace CallGraphEdit

def asEntry : CallGraphEdit function site → Option (Id function)
  | entry f => some f
  | reach _ | call _ => none

def asReach : CallGraphEdit function site → Option (Id function)
  | reach f => some f
  | entry _ | call _ => none

def asCall : CallGraphEdit function site → Option (CallEdge function site)
  | call e => some e
  | entry _ | reach _ => none

def perform (g : CallGraph function site) : CallGraphEdit function site → CallGraph function site
  | entry f => g.addEntry f
  | reach f => (g.addReached f).1
  | call e => (g.addEdge e).1

@[simp] theorem asEntry_eq_some {edit : CallGraphEdit function site} {f : Id function} :
    edit.asEntry = some f ↔ edit = entry f := by
  cases edit <;> simp [asEntry]

@[simp] theorem asReach_eq_some {edit : CallGraphEdit function site} {f : Id function} :
    edit.asReach = some f ↔ edit = reach f := by
  cases edit <;> simp [asReach]

@[simp] theorem asCall_eq_some {edit : CallGraphEdit function site} {e : CallEdge function site} :
    edit.asCall = some e ↔ edit = call e := by
  cases edit <;> simp [asCall]

/-- A function that an addition speaks of. -/
def Mentions (f : Id function) : CallGraphEdit function site → Prop
  | entry f' | reach f' => f = f'
  | call e => f = e.caller ∨ f = e.callee

end CallGraphEdit

namespace CallGraph

open CallGraphEdit (asEntry asReach asCall perform)

variable (edits : List (CallGraphEdit function site))

/-- The graph after a history of additions. -/
def after : CallGraph function site := edits.foldl perform empty

/-- The edges of a history that are the first of their call site and callee. -/
def newCalls : List (CallEdge function site) := firstOfKey CallEdge.pair (edits.filterMap asCall)

/-- A graph answers every question out of a history of additions. -/
structure Reflects (g : CallGraph function site) : Prop where
  edges : g.edges.toList = newCalls edits
  entries : g.entries.toList = (edits.filterMap asEntry).eraseDups
  reached : g.reached.toList = (edits.filterMap asReach).eraseDups
  /-- Each function has one node at most. -/
  nodes_once : g.nodes.toList.Nodup
  /-- The nodes are the functions that are entries, were made reachable or are the end of an edge. -/
  nodes : ∀ f, f ∈ g.nodes.toList ↔
    .entry f ∈ edits ∨ .reach f ∈ edits ∨ ∃ e ∈ newCalls edits, f = e.caller ∨ f = e.callee
  contains : ∀ e, g.contains e = true ↔ ∃ e', .call e' ∈ edits ∧ e'.site = e.site ∧ e'.callee = e.callee
  /-- An edge is added unless its call site has one to its callee; otherwise nothing changes. -/
  addEdge : ∀ e, (g.contains e = false → (g.addEdge e).2 = true ∧
      (g.addEdge e).1.edges.toList = g.edges.toList ++ [e]) ∧
    (g.contains e = true → g.addEdge e = (g, false))
  calleesAt : ∀ s, g.calleesAt s = ((newCalls edits).filter (·.site = s)).map (·.callee) ∧
    (g.calleesAt s).Nodup
  /-- The callees of a function come with the latest edge first. -/
  calleesOf : ∀ f, g.calleesOf f = (((newCalls edits).filter (·.caller = f)).map (·.callee)).reverse
  isReached : ∀ f, g.isReached f = true ↔ .reach f ∈ edits
  addReached : ∀ f, (g.addReached f).2 = true ↔ .reach f ∉ edits

/-! ### One addition -/

variable {g : CallGraph function site}

/-- The nodes are the entries, the reachable functions and the ends of edges. -/
def Spanned (g : CallGraph function site) : Prop :=
  ∀ f, f ∈ g.nodes.toList ↔ f ∈ g.entries.toList ∨ f ∈ g.reached.toList ∨
    ∃ e ∈ g.edges.toList, f = e.caller ∨ f = e.callee

theorem Spanned.perform (spanned : g.Spanned) (edit : CallGraphEdit function site) :
    (edit.perform g).Spanned := by
  intro f
  cases edit with
  | entry f' =>
    have nodes : f ∈ (g.addEntry f').nodes.toList ↔ f ∈ g.nodes.toList ∨ f = f' :=
      Registry.mem_toList_register
    have entries : f ∈ (g.addEntry f').entries.toList ↔ f ∈ g.entries.toList ∨ f = f' :=
      Registry.mem_toList_register
    rw [CallGraphEdit.perform, nodes, entries, spanned f, edges_addEntry, reached_addEntry]
    exact or_right_comm
  | reach f' =>
    rw [CallGraphEdit.perform, mem_nodes_addReached fun there => (spanned f').mpr (.inr (.inl there)),
      mem_reached_addReached, entries_addReached, edges_addReached, spanned f,
      or_assoc, or_right_comm (b := ∃ e ∈ g.edges.toList, f = e.caller ∨ f = e.callee)]
  | call e =>
    rw [CallGraphEdit.perform]
    cases known : g.contains e with
    | true => rw [addEdge_of_known known, spanned f]
    | false =>
      rw [mem_nodes_addEdge known, entries_addEdge, reached_addEdge, addEdge_of_new known, spanned f]
      simp only [List.mem_append, List.mem_singleton, or_and_right, exists_or, exists_eq_left, or_assoc]

theorem contains_iff_mem_pairs {e : CallEdge function site} :
    g.contains e = true ↔ e.pair ∈ g.edges.toList.map CallEdge.pair := by
  simp only [contains_iff, List.mem_map, CallEdge.pair, Prod.mk.injEq]

/-! ### Histories -/

/-- What a history leaves in the lists of a graph. -/
structure Holds (g : CallGraph function site) : Prop where
  edges : g.edges.toList = newCalls edits
  entries : g.entries.toList = (edits.filterMap asEntry).eraseDups
  reached : g.reached.toList = (edits.filterMap asReach).eraseDups
  spanned : g.Spanned

theorem holds_empty : Holds [] (empty : CallGraph function site) where
  edges := rfl
  entries := rfl
  reached := rfl
  spanned f := by simp [empty]

variable {edits}

section Concat

variable {α : Type} (pick : CallGraphEdit function site → Option α) {edit : CallGraphEdit function site}

private theorem filterMap_concat_some {x : α} (picked : pick edit = some x) :
    (edits ++ [edit]).filterMap pick = edits.filterMap pick ++ [x] := by
  rw [filterMap_concat, picked, Option.toList_some]

private theorem filterMap_concat_none (passed : pick edit = none) :
    (edits ++ [edit]).filterMap pick = edits.filterMap pick := by
  rw [filterMap_concat, passed, Option.toList_none, List.append_nil]

end Concat

/-- An addition adds what it brings, unless the history has it. -/
theorem Holds.perform (holds : Holds edits g) (edit : CallGraphEdit function site) :
    Holds (edits ++ [edit]) (edit.perform g) := by
  have spanned := holds.spanned.perform edit
  cases edit with
  | entry f =>
    refine ⟨?_, ?_, ?_, spanned⟩
    · rw [newCalls, filterMap_concat_none asCall rfl]
      exact holds.edges
    · rw [filterMap_concat_some asEntry rfl, eraseDups_concat, ← holds.entries]
      exact entries_addEntry g f
    · rw [filterMap_concat_none asReach rfl]
      exact holds.reached
  | reach f =>
    refine ⟨?_, ?_, ?_, spanned⟩
    · rw [newCalls, filterMap_concat_none asCall rfl, CallGraphEdit.perform, edges_addReached]
      exact holds.edges
    · rw [filterMap_concat_none asEntry rfl, CallGraphEdit.perform, entries_addReached]
      exact holds.entries
    · rw [filterMap_concat_some asReach rfl, eraseDups_concat, ← holds.reached]
      exact reached_addReached g f
  | call e =>
    refine ⟨?_, ?_, ?_, spanned⟩
    · rw [newCalls, filterMap_concat_some asCall rfl, firstOfKey_concat, ← newCalls, ← holds.edges]
      split
      · next known =>
        rw [CallGraphEdit.perform, addEdge_of_known (contains_iff_mem_pairs.mpr known)]
      · next new =>
        exact addEdge_of_new (Bool.eq_false_iff.mpr fun known => new (contains_iff_mem_pairs.mp known))
    · rw [filterMap_concat_none asEntry rfl, CallGraphEdit.perform, entries_addEdge]
      exact holds.entries
    · rw [filterMap_concat_none asReach rfl, CallGraphEdit.perform, reached_addEdge]
      exact holds.reached

/-- The image of a graph is a graph after a history as well. -/
theorem project_eq_after {function' site' : Entity} (g : CallGraph function site)
    (onFunction : Id function → Id function') (onSite : Id site → Id site') :
    g.project onFunction onSite = after ((g.entries.toList.map onFunction).map .entry ++
      (g.reached.toList.map onFunction).map .reach ++
      (g.edges.toList.map (·.map onFunction onSite)).map .call) := by
  rw [after, List.foldl_append, List.foldl_append]
  simp only [project, ofLists, List.foldl_map]
  rfl

theorem holds_after (edits : List (CallGraphEdit function site)) : Holds edits (after edits) := by
  induction edits using List.reverseRecOn with
  | nil => exact holds_empty
  | append_singleton edits edit ih =>
    rw [after, List.foldl_append]
    exact ih.perform edit

/-! ### Answers -/

namespace Holds

variable (holds : Holds edits g)
include holds

theorem contains_iff {e : CallEdge function site} : g.contains e = true ↔
    ∃ e', .call e' ∈ edits ∧ e'.site = e.site ∧ e'.callee = e.callee := by
  rw [contains_iff_mem_pairs, holds.edges, newCalls, mem_map_firstOfKey]
  simp [CallEdge.pair]

theorem isReached_iff {f : Id function} : g.isReached f = true ↔ .reach f ∈ edits := by
  rw [isReached, Registry.contains_iff, holds.reached, List.mem_eraseDups]
  simp

theorem addReached_iff {f : Id function} : (g.addReached f).2 = true ↔ .reach f ∉ edits := by
  rw [← holds.isReached_iff, isReached, addReached]
  split <;> simp_all

theorem calleesAt_eq (s : Id site) :
    g.calleesAt s = ((newCalls edits).filter (·.site = s)).map (·.callee) := by
  rw [calleesAt, g.callees_agree, holds.edges]

theorem nodup_calleesAt (s : Id site) : (g.calleesAt s).Nodup := by
  have pairs := (List.pairwise_map.mp (nodup_map_firstOfKey CallEdge.pair (edits.filterMap asCall))).filter (·.site = s)
  rw [holds.calleesAt_eq s]
  refine List.pairwise_map.mpr (pairs.imp_of_mem fun there there' apart same => apart ?_)
  have first := of_decide_eq_true (List.mem_filter.mp there).2
  have second := of_decide_eq_true (List.mem_filter.mp there').2
  exact Prod.ext (first.trans second.symm) same

theorem reflects : Reflects edits g where
  edges := holds.edges
  entries := holds.entries
  reached := holds.reached
  nodes_once := g.nodes.nodup_toList
  nodes f := by
    rw [holds.spanned f, holds.entries, holds.reached, holds.edges, List.mem_eraseDups,
      List.mem_eraseDups]
    simp
  contains _ := holds.contains_iff
  addEdge e := by
    refine ⟨fun new => ⟨?_, addEdge_of_new new⟩, addEdge_of_known⟩
    rw [CallGraph.addEdge, if_neg (by simp [new])]
  calleesAt s := ⟨holds.calleesAt_eq s, holds.nodup_calleesAt s⟩
  calleesOf f := by rw [calleesOf, holds.edges]
  isReached _ := holds.isReached_iff
  addReached _ := holds.addReached_iff

end Holds

/-- Of the requests to mark a function as reachable the first is answered by yes. -/
theorem reached_once {f : Id function} (asked : .reach f ∈ edits) : ∃! i : Nat,
    edits[i]? = some (.reach f) ∧ ((after (edits.take i)).addReached f).2 = true := by
  classical
  simp only [(holds_after _).addReached_iff]
  have earlier {i : Nat} (before : .reach f ∈ edits.take i) : ∃ j < i, edits[j]? = some (.reach f) := by
    obtain ⟨j, there⟩ := List.mem_iff_getElem?.mp before
    rw [List.getElem?_take] at there
    split at there
    · next less => exact ⟨j, less, there⟩
    · cases there
  have later {i j : Nat} (less : i < j) (there : edits[i]? = some (.reach f)) : .reach f ∈ edits.take j :=
    List.mem_iff_getElem?.mpr ⟨i, by rwa [List.getElem?_take_of_lt less]⟩
  have somewhere : ∃ i : Nat, edits[i]? = some (.reach f) := List.mem_iff_getElem?.mp asked
  refine ⟨Nat.find somewhere, ⟨Nat.find_spec somewhere, fun before => ?_⟩, fun i ⟨there, first⟩ => ?_⟩
  · obtain ⟨j, less, there⟩ := earlier before
    exact Nat.find_min somewhere less there
  · rcases Nat.lt_trichotomy i (Nat.find somewhere) with less | same | more
    · exact absurd there (Nat.find_min somewhere less)
    · exact same
    · exact absurd (later more (Nat.find_spec somewhere)) first

/-- A graph that came about by any history of additions lists its edges, its entries and its reachable functions as the
history tells them, each once, has one node for each function among them, answers by them, and accepts each
function as reachable exactly once. -/
theorem call_graphs_reflect_histories (edits : List (CallGraphEdit function site)) :
    Reflects edits (after edits) ∧ ∀ f, .reach f ∈ edits → ∃! i : Nat,
      edits[i]? = some (.reach f) ∧ ((after (edits.take i)).addReached f).2 = true :=
  ⟨(holds_after edits).reflects, fun _ => reached_once⟩

/-- One call twice, the second time from another caller. -/
def twoCallers : List (CallGraphEdit .method .callSite) :=
  [.call ⟨⟨0⟩, ⟨0⟩, ⟨1⟩, .static⟩, .reach ⟨1⟩, .call ⟨⟨2⟩, ⟨0⟩, ⟨1⟩, .static⟩]

theorem call_graphs_reflect_histories_twoCallers : ∃! i : Nat, twoCallers[i]? = some (.reach ⟨1⟩) ∧
    ((after (twoCallers.take i)).addReached ⟨1⟩).2 = true :=
  (call_graphs_reflect_histories twoCallers).2 ⟨1⟩ (by simp [twoCallers])

/-- A function that only a refused edge mentions has no node. -/
theorem refused_caller_has_no_node :
    ¬ ∀ f, f ∈ (after twoCallers).nodes.toList ↔ ∃ edit ∈ twoCallers, edit.Mentions f := by
  intro mentioned
  have node : (⟨2⟩ : Id .method) ∈ (after twoCallers).nodes.toList :=
    (mentioned ⟨2⟩).mpr ⟨.call ⟨⟨2⟩, ⟨0⟩, ⟨1⟩, .static⟩, by simp [twoCallers], .inl rfl⟩
  revert node
  decide

end CallGraph

end PointerAnalysis
