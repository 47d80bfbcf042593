import PointerAnalysis.Proofs.Except
import PointerAnalysis.Proofs.Solver.Grounded
import PointerAnalysis.Solver.Run

/-! What a solution reports once contexts are dropped: the abstract objects of a variable and the
merged call graph. In a grounded state neither report fails, and both say just what is recorded. -/
namespace PointerAnalysis.Solution

variable {E S : Type} [Coded E] {a : Analysis E} {r : Solution E S}

theorem methodOf_eq {id : ContextMethodId} {c : Context E} {m : MethodId}
    (entered : r.state.canon.Enters id c m) : r.methodOf id = .ok m := by
  obtain ⟨entry, found, _, rfl⟩ := entered
  simp [methodOf, found]

theorem callSiteOf_eq {id : ContextCallSiteId} {c : Context E} {site : CallSiteId}
    (placed : r.state.canon.CallsAt id c site) : r.callSiteOf id = .ok site := by
  obtain ⟨entry, found, _, rfl⟩ := placed
  simp [callSiteOf, found]

variable [IdSet S .contextObject] (grounded : r.state.Grounded a)
include grounded

/-- The objects that are reported for a variable are those that it holds under some context. -/
theorem objectsOfVar_spec (v : VarId) : ∃ ids, r.objectsOfVar v = .ok ids ∧
    ∀ o, (∃ id ∈ ids, r.state.canon.object id = .ok o) ↔
      ∃ c c', r.state.Records (.holds (.var c v) ⟨c', o⟩) := by
  let pointers := r.state.canon.varPointers.filter fun entry => entry.2.2 = v
  have mem_pointers {id : ContextObjectId} :
      id ∈ pointers.flatMap (fun entry => r.objectsOf entry.1) ↔ ∃ p context,
        r.state.canon.pointer p = .ok (.var context v) ∧
          id ∈ IdSet.toList (r.state.pointsTo.propagatedOf p) := by
    simp only [pointers, List.mem_flatMap, List.mem_filter, decide_eq_true_eq]
    constructor
    · rintro ⟨⟨p, context, v'⟩, ⟨there, rfl⟩, passed⟩
      exact ⟨p, context, Canon.mem_varPointers.mp there, passed⟩
    · rintro ⟨p, context, found, passed⟩
      exact ⟨(p, context, v), ⟨Canon.mem_varPointers.mpr found, rfl⟩, passed⟩
  have named (id : ContextObjectId) (there : id ∈ pointers.flatMap fun entry => r.objectsOf entry.1) :
      ∃ object, (do
        let entry ← r.state.canon.contextObject id
        return entry.object) = .ok object := by
    obtain ⟨p, _, _, passed⟩ := mem_pointers.mp there
    obtain ⟨_, _, _, ⟨entry, found, _⟩, _⟩ := grounded.holds (.inr passed)
    exact ⟨entry.object, by simp [found]⟩
  obtain ⟨objects, mapped, mem_objects⟩ := mapM_ok named
  refine ⟨(Std.TreeSet.ofList objects).toList, ?_, fun o => ?_⟩
  · simp only [objectsOfVar, pointers] at mapped ⊢
    rw [mapped]
    rfl
  · simp only [Std.TreeSet.mem_toList, Std.TreeSet.mem_ofList, List.contains_iff_mem, mem_objects,
      mem_pointers]
    constructor
    · rintro ⟨object, ⟨id, ⟨p, context, found, passed⟩, ran⟩, stands⟩
      obtain ⟨l, x, located, ⟨entry, found', context', object'⟩, _⟩ := grounded.holds (.inr passed)
      simp only [found', ok_bind, pure_eq_ok, Except.ok.injEq] at ran
      obtain rfl : x.object = o := Except.ok.inj (object'.symm.trans (ran ▸ stands))
      cases located with
      | var found'' held =>
        cases found.symm.trans found''
        exact ⟨_, x.context, .holds passed (.var found'' held) ⟨entry, found', context', object'⟩⟩
      | field found'' => cases found.symm.trans found''
    · rintro ⟨c, c', held⟩
      cases held with
      | @holds p id _ _ passed located named =>
        obtain ⟨entry, found', _, object'⟩ := named
        cases located with
        | @var context _ _ found =>
          exact ⟨entry.object, ⟨id, ⟨p, context, found, passed⟩, by simp [found']⟩, object'⟩

/-! ### The merged call graph -/

/-- A call edge without its contexts. -/
def mergedEdge (r : Solution E S) (e : ContextCallEdge) :
    Except UnknownId (CallEdge .method .callSite) := do
  return { caller := ← r.methodOf e.caller, site := ← r.callSiteOf e.site
           callee := ← r.methodOf e.callee, kind := e.kind }

omit grounded [IdSet S .contextObject] in
theorem mergedCalls_of {entries reached : List MethodId} {edges : List (CallEdge .method .callSite)}
    (mappedEntries : r.state.calls.entries.toList.mapM r.methodOf = .ok entries)
    (mappedReached : r.state.calls.reached.toList.mapM r.methodOf = .ok reached)
    (mappedEdges : r.state.calls.edges.toList.mapM r.mergedEdge = .ok edges) :
    r.mergedCalls = .ok (.ofLists entries reached edges) := by
  have merged : r.mergedCalls = do
      let entries ← r.state.calls.entries.toList.mapM r.methodOf
      let reached ← r.state.calls.reached.toList.mapM r.methodOf
      let edges ← r.state.calls.edges.toList.mapM r.mergedEdge
      return .ofLists entries reached edges := rfl
  simp only [merged, mappedEntries, mappedReached, mappedEdges, ok_bind, pure_eq_ok]

private theorem entries_merged : ∃ entries, r.state.calls.entries.toList.mapM r.methodOf = .ok entries := by
  have works (id : ContextMethodId) (there : id ∈ r.state.calls.entries.toList) :
      ∃ m, r.methodOf id = .ok m := by
    obtain ⟨m, _, entered⟩ := grounded.starts there
    exact ⟨m, methodOf_eq entered⟩
  exact (mapM_ok works).imp fun _ => And.left

private theorem reached_merged : ∃ reached,
    r.state.calls.reached.toList.mapM r.methodOf = .ok reached ∧
      ∀ m, m ∈ reached ↔ ∃ c, r.state.Records (.reached c m) := by
  have works (id : ContextMethodId) (there : id ∈ r.state.calls.reached.toList) :
      ∃ m, r.methodOf id = .ok m := by
    obtain ⟨c, m, entered, _⟩ := grounded.reaches there
    exact ⟨m, methodOf_eq entered⟩
  obtain ⟨reached, mapped, mem_reached⟩ := mapM_ok works
  refine ⟨reached, mapped, fun m => (mem_reached m).trans ⟨?_, ?_⟩⟩
  · rintro ⟨id, there, same⟩
    obtain ⟨c, m', entered, _⟩ := grounded.reaches there
    cases same.symm.trans (methodOf_eq entered)
    exact ⟨c, .reached there entered⟩
  · rintro ⟨c, recorded⟩
    cases recorded with
    | reached there entered => exact ⟨_, there, methodOf_eq entered⟩

private theorem edges_merged : ∃ edges, r.state.calls.edges.toList.mapM r.mergedEdge = .ok edges ∧
    ∀ e : CallEdge .method .callSite, e ∈ edges ↔
      (∃ c c', r.state.Records (.calls c e.site c' e.callee)) ∧
        ∃ call, a.program.callSite e.site = .ok call ∧ e.caller = call.container ∧
          e.kind = call.kind := by
  have merged (e : ContextCallEdge) (there : e ∈ r.state.calls.edges.toList) :
      ∃ c site c' callee call, r.state.canon.CallsAt e.site c site ∧
        r.state.canon.Enters e.callee c' callee ∧ a.program.callSite site = .ok call ∧
        r.mergedEdge e = .ok ⟨call.container, site, callee, call.kind⟩ := by
    obtain ⟨c, site, c', callee, call, placed, entered, found, within, kind, _⟩ := grounded.calls there
    refine ⟨c, site, c', callee, call, placed, entered, found, ?_⟩
    simp [mergedEdge, methodOf_eq within, callSiteOf_eq placed, methodOf_eq entered, kind]
  have works (e : ContextCallEdge) (there : e ∈ r.state.calls.edges.toList) :
      ∃ e', r.mergedEdge e = .ok e' := by
    obtain ⟨_, _, _, _, _, _, _, _, same⟩ := merged e there
    exact ⟨_, same⟩
  obtain ⟨edges, mapped, mem_edges⟩ := mapM_ok works
  refine ⟨edges, mapped, fun e => (mem_edges e).trans ⟨?_, ?_⟩⟩
  · rintro ⟨e', there, same⟩
    obtain ⟨c, site, c', callee, call, placed, entered, found, same'⟩ := merged e' there
    cases same.symm.trans same'
    exact ⟨⟨c, c', .calls (Array.mem_toList_iff.mp there) placed entered⟩, call, found, rfl, rfl⟩
  · rintro ⟨⟨c, c', recorded⟩, call, found, caller, kind⟩
    cases recorded with
    | @calls e' _ _ _ _ there placed entered =>
      have there := Array.mem_toList_iff.mpr there
      obtain ⟨_, _, _, _, call', placed', entered', found', same⟩ := merged e' there
      obtain ⟨rfl, rfl⟩ := placed.unique placed'
      obtain ⟨rfl, rfl⟩ := entered.unique entered'
      cases found.symm.trans found'
      refine ⟨e', there, same.trans ?_⟩
      rw [← caller, ← kind]

/-- The merged call graph reaches the methods that are reachable under some context, and has an edge
from the container of a call to each method that it enters. -/
theorem mergedCalls_spec : ∃ g, r.mergedCalls = .ok g ∧
    (∀ m, m ∈ g.reached.toList ↔ ∃ c, r.state.Records (.reached c m)) ∧
    ∀ e : CallEdge .method .callSite, e ∈ g.edges.toList ↔
      (∃ c c', r.state.Records (.calls c e.site c' e.callee)) ∧
        ∃ call, a.program.callSite e.site = .ok call ∧ e.caller = call.container ∧
          e.kind = call.kind := by
  obtain ⟨entries, mappedEntries⟩ := entries_merged grounded
  obtain ⟨reached, mappedReached, mem_reached⟩ := reached_merged grounded
  obtain ⟨edges, mappedEdges, mem_edges⟩ := edges_merged grounded
  have apart : CallGraph.Apart edges := by
    intro e there e' there' site callee
    obtain ⟨_, call, found, caller, kind⟩ := (mem_edges e).mp there
    obtain ⟨_, call', found', caller', kind'⟩ := (mem_edges e').mp there'
    rw [← site] at found'
    cases found.symm.trans found'
    cases e
    cases e'
    simp_all
  refine ⟨.ofLists entries reached edges, mergedCalls_of mappedEntries mappedReached mappedEdges,
    fun m => ?_, fun e => ?_⟩
  · rw [CallGraph.mem_reached_ofLists, mem_reached]
  · rw [CallGraph.mem_edges_ofLists apart, mem_edges]

end PointerAnalysis.Solution
