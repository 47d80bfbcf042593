import PointerAnalysis.Proofs.LeastSolution
import PointerAnalysis.Proofs.Solver.Solution

/-! Dropping contexts from a call graph loses and misattributes nothing. Edges count as one that have
one call site and one callee, whoever the caller is; but a call site has only one caller and one kind,
so none of the edges that become one says anything that the others do not. -/
namespace PointerAnalysis

namespace CallGraph

variable {function site function' site' : Entity}

/-- A graph is the image of another one: its edges, reachable functions and entries are those of the other
one, each of them once, in the order in which the first of each comes. -/
structure IsImage (onFunction : Id function → Id function') (onSite : Id site → Id site')
    (g : CallGraph function site) (image : CallGraph function' site') : Prop where
  edges : image.edges.toList = (g.edges.toList.map (·.map onFunction onSite)).eraseDups
  reached : image.reached.toList = (g.reached.toList.map onFunction).eraseDups
  entries : image.entries.toList = (g.entries.toList.map onFunction).eraseDups

/-- Projecting gives the image if the image of a call site and that of a callee decide on the image of the
edge. -/
theorem isImage_project {g : CallGraph function site} {onFunction : Id function → Id function'}
    {onSite : Id site → Id site'} (apart : Apart (g.edges.toList.map (·.map onFunction onSite))) :
    g.IsImage onFunction onSite (g.project onFunction onSite) where
  edges := edges_ofLists _ _ apart
  reached := reached_ofLists _ _ _
  entries := entries_ofLists _ _ _

end CallGraph

namespace Canon

variable {E : Type} [Coded E] (c : Canon E)

/-- The method that a number stands for under its context; a number without meaning stands for itself. -/
def bareMethod (id : ContextMethodId) : MethodId :=
  ((c.method id).toOption.map (·.method)).getD ⟨id.index⟩

/-- The call site that a number stands for under its context. -/
def bareCallSite (id : ContextCallSiteId) : CallSiteId :=
  ((c.callSite id).toOption.map (·.site)).getD ⟨id.index⟩

variable {c} {context : Context E}

theorem Enters.bareMethod_eq {id : ContextMethodId} {m : MethodId} (entered : c.Enters id context m) :
    c.bareMethod id = m := by
  obtain ⟨entry, found, _, rfl⟩ := entered
  simp [bareMethod, found, Except.toOption]

theorem CallsAt.bareCallSite_eq {id : ContextCallSiteId} {site : CallSiteId}
    (placed : c.CallsAt id context site) : c.bareCallSite id = site := by
  obtain ⟨entry, found, _, rfl⟩ := placed
  simp [bareCallSite, found, Except.toOption]

end Canon

namespace Solver.State

variable {E S : Type} [Coded E]

/-- The call graph with contexts dropped. -/
def bareCalls (s : State E S) : CallGraph .method .callSite :=
  s.calls.project s.canon.bareMethod s.canon.bareCallSite

/-- All numbers of methods and call sites in the call graph stand for some under a context, and a call
edge starts in the method that holds its call and has the kind of the call. -/
structure CallsPlaced (p : Program) (s : State E S) : Prop where
  entries : ∀ id ∈ s.calls.entries.toList, ∃ c, s.canon.Enters id c (s.canon.bareMethod id)
  reached : ∀ id ∈ s.calls.reached.toList, ∃ c, s.canon.Enters id c (s.canon.bareMethod id)
  edges : ∀ e ∈ s.calls.edges.toList, ∃ c c' call,
    s.canon.CallsAt e.site c (s.canon.bareCallSite e.site) ∧
    s.canon.Enters e.caller c (s.canon.bareMethod e.caller) ∧
    s.canon.Enters e.callee c' (s.canon.bareMethod e.callee) ∧
    p.callSite (s.canon.bareCallSite e.site) = .ok call ∧
    s.canon.bareMethod e.caller = call.container ∧ e.kind = call.kind

variable {p : Program} {s : State E S}

theorem Grounded.callsPlaced [IdSet S .contextObject] {a : Analysis E} (grounded : s.Grounded a) :
    s.CallsPlaced a.program where
  entries id there := by
    obtain ⟨m, _, entered⟩ := grounded.starts there
    exact ⟨[], entered.bareMethod_eq ▸ entered⟩
  reached id there := by
    obtain ⟨c, m, entered, _⟩ := grounded.reaches there
    exact ⟨c, entered.bareMethod_eq ▸ entered⟩
  edges e there := by
    obtain ⟨c, site, c', callee, call, placed, entered, found, within, kind, _⟩ := grounded.calls there
    refine ⟨c, c', call, ?_⟩
    rw [placed.bareCallSite_eq, within.bareMethod_eq, entered.bareMethod_eq]
    exact ⟨placed, within, entered, found, rfl, kind⟩

namespace CallsPlaced

variable (placed : s.CallsPlaced p)
include placed

/-- The call site of a bare edge says where the edge starts and of what kind it is. -/
theorem attributed : ∀ e ∈ s.calls.edges.toList.map (·.map s.canon.bareMethod s.canon.bareCallSite),
    ∃ call, p.callSite e.site = .ok call ∧ e.caller = call.container ∧ e.kind = call.kind := by
  intro bare image
  obtain ⟨e, there, rfl⟩ := List.mem_map.mp image
  obtain ⟨_, _, call, _, _, _, found, caller, kind⟩ := placed.edges e there
  exact ⟨call, found, caller, kind⟩

theorem isImage : s.calls.IsImage s.canon.bareMethod s.canon.bareCallSite s.bareCalls := by
  refine CallGraph.isImage_project fun e there e' there' site callee => ?_
  obtain ⟨call, found, caller, kind⟩ := placed.attributed e there
  obtain ⟨call', found', caller', kind'⟩ := placed.attributed e' there'
  -- Two edges at one call site have the same caller and kind, whatever was not compared.
  rw [← site] at found'
  cases found.symm.trans found'
  cases e
  cases e'
  simp_all

/-- The report of the call graph is the projected graph. -/
theorem mergedCalls_eq (a : Analysis E) : Solution.mergedCalls ⟨a, s⟩ = .ok s.bareCalls := by
  let r : Solution E S := ⟨a, s⟩
  refine r.mergedCalls_of (mapM_eq_map fun id there => ?_) (mapM_eq_map fun id there => ?_)
    (mapM_eq_map fun e there => ?_)
  · obtain ⟨_, entered⟩ := placed.entries id there
    exact r.methodOf_eq entered
  · obtain ⟨_, entered⟩ := placed.reached id there
    exact r.methodOf_eq entered
  · obtain ⟨_, _, _, called, within, entered, _⟩ := placed.edges e there
    simp [Solution.mergedEdge, r.methodOf_eq within, r.callSiteOf_eq called, r.methodOf_eq entered,
      CallEdge.map]

end CallsPlaced

end Solver.State

section Described

variable {described : Described.Program} {p : Program} (loaded : described.link = .ok p)
  (kind : AnalysisKind) (depth : Nat) (heap : HeapKind) {S : Type} [IdSet S .contextObject]
  [LawfulIdSet S]
include loaded

/-- In every state of a run the call graph without contexts has just the images of the edges, the reachable
methods and the entries, each once and in the order of discovery, and each of its edges starts in the
method that holds the call and has the kind of the call. -/
theorem bare_calls_are_images {s : Solver.State kind.Element S}
    (reachable : s.Reachable (p.analysis kind depth heap)) :
    Solution.mergedCalls ⟨p.analysis kind depth heap, s⟩ = .ok s.bareCalls ∧
    s.calls.IsImage s.canon.bareMethod s.canon.bareCallSite s.bareCalls ∧ s.CallsPlaced p ∧
    ∀ e ∈ s.bareCalls.edges.toList, ∃ call, p.callSite e.site = .ok call ∧
      e.caller = call.container ∧ e.kind = call.kind := by
  have coherent := p.analysis_coherent loaded kind depth heap
  have placed : s.CallsPlaced p := (reachable.invariant coherent).grounded.callsPlaced
  refine ⟨placed.mergedCalls_eq _, placed.isImage, placed, fun e there => ?_⟩
  rw [placed.isImage.edges, List.mem_eraseDups] at there
  exact placed.attributed e there

end Described

theorem bare_calls_are_images_boxes : ∃ p r, boxes.link = .ok p ∧
    (p.analysis .objectSensitive 1 .perSite).solve (HybridSet .contextObject) = .ok r ∧
    r.mergedCalls = .ok r.state.bareCalls ∧
    r.state.calls.IsImage r.state.canon.bareMethod r.state.canon.bareCallSite r.state.bareCalls ∧
    r.state.CallsPlaced p := by
  obtain ⟨p, ⟨analysis, state⟩, loaded, solved⟩ := boxes_solved
  obtain ⟨rfl, reachable, _⟩ :=
    Analysis.solve_reachable (p.analysis_coherent loaded .objectSensitive 1 .perSite) solved
  obtain ⟨merged, image, placed, _⟩ :=
    bare_calls_are_images loaded .objectSensitive 1 .perSite reachable
  exact ⟨p, _, loaded, solved, merged, image, placed⟩

end PointerAnalysis
