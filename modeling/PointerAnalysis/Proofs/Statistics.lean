import PointerAnalysis.Proofs.Figures
import PointerAnalysis.Proofs.MergedCalls
import PointerAnalysis.Proofs.MergedRelations
import PointerAnalysis.Proofs.Propagation

/-! Statistics agree with results. The figures are taken from several tables, and from the results with
contexts dropped; what is said here is which things each of the numbers in the printed text counts. -/
namespace PointerAnalysis

/-! ### Call sites -/

namespace CallGraph

variable {function site : Entity} {seen : List (Id site)} {l : List (CallEdge function site)}

theorem firstEdges_nil : firstEdges seen ([] : List (CallEdge function site)) = [] := rfl

theorem firstEdges_cons (e : CallEdge function site) : firstEdges seen (e :: l) =
    if e.site ∈ seen then firstEdges seen l else e :: firstEdges (e.site :: seen) l := rfl

theorem firstEdges_subset : firstEdges seen l ⊆ l := by
  induction l generalizing seen with
  | nil => exact fun _ => id
  | cons e l ih =>
    rw [firstEdges_cons]
    split
    · exact List.subset_cons_of_subset e ih
    · exact List.cons_subset_cons e ih

/-- The call sites that are left are those of the edges, but for the ones that were seen. -/
theorem mem_sites_firstEdges {s : Id site} :
    s ∈ (firstEdges seen l).map (·.site) ↔ s ∈ l.map (·.site) ∧ s ∉ seen := by
  induction l generalizing seen with
  | nil => simp [firstEdges_nil]
  | cons e l ih =>
    rw [firstEdges_cons]
    split
    · next known =>
      rw [ih, List.map_cons, List.mem_cons]
      refine ⟨fun ⟨there, new⟩ => ⟨.inr there, new⟩, fun ⟨there, new⟩ => ⟨there.resolve_left ?_, new⟩⟩
      rintro rfl
      exact new known
    · next unseen =>
      rw [List.map_cons, List.mem_cons, ih, List.map_cons, List.mem_cons, List.mem_cons, not_or]
      by_cases same : s = e.site
      · simp [same, unseen]
      · simp [same]

theorem nodup_sites_firstEdges : ((firstEdges seen l).map (·.site)).Nodup := by
  induction l generalizing seen with
  | nil => exact .nil
  | cons e l ih =>
    rw [firstEdges_cons]
    split
    · exact ih
    · exact List.nodup_cons.mpr ⟨fun there => (mem_sites_firstEdges.mp there).2 List.mem_cons_self, ih⟩

/-- Where a call site decides on the kind of its edges, its first edge counts it as a call of its kind. -/
theorem callsOfKind_eq {g : CallGraph function site} {kindOf : Id site → CallKind → Prop}
    (attributed : ∀ e ∈ g.edges.toList, ∀ kind, kindOf e.site kind ↔ e.kind = kind) (kind : CallKind) :
    g.callsOfKind kind = {s | kindOf s kind ∧ ∃ e ∈ g.edges.toList, e.site = s}.ncard := by
  let firsts := (firstEdges [] g.edges.toList).filter (·.kind = kind)
  have nodup : (firsts.map (·.site)).Nodup := nodup_sites_firstEdges.sublist (List.filter_sublist.map _)
  rw [callsOfKind, List.countP_eq_length_filter, ← List.length_map (f := (·.site))]
  refine (ncard_eq_length nodup fun s => ?_).symm
  simp only [firsts, List.mem_map, List.mem_filter, decide_eq_true_eq]
  constructor
  · rintro ⟨e, ⟨first, same⟩, rfl⟩
    have there := firstEdges_subset first
    exact ⟨(attributed e there kind).mpr same, e, there, rfl⟩
  · rintro ⟨ofKind, e, there, rfl⟩
    have listed : e.site ∈ (firstEdges [] g.edges.toList).map (·.site) :=
      mem_sites_firstEdges.mpr ⟨List.mem_map_of_mem there, by simp⟩
    obtain ⟨first, isFirst, same⟩ := List.mem_map.mp listed
    rw [← same] at ofKind
    exact ⟨first, ⟨isFirst, (attributed first (firstEdges_subset isFirst) kind).mp ofKind⟩, same⟩

/-- An edge is of one of three kinds. -/
theorem sum_edgesOfKind (g : CallGraph function site) :
    g.edgesOfKind .static + g.edgesOfKind .special + g.edgesOfKind .virtual = g.edges.size := by
  have kinds (l : List (CallEdge function site)) : l.countP (·.kind = .static) +
      l.countP (·.kind = .special) + l.countP (·.kind = .virtual) = l.length := by
    induction l with
    | nil => rfl
    | cons e l ih =>
      rw [List.length_cons, ← ih]
      cases same : e.kind <;> simp [same] <;> omega
  exact kinds _

end CallGraph

/-! ### What the numbers count -/

/-- What the figures of a solution count; `merged` is its call graph with contexts dropped. -/
structure Figures.Agree {E S : Type} [Coded E] [IdSet S .contextObject] (f : Figures) (r : Solution E S)
    (merged : CallGraph .method .callSite) : Prop where
  relationsInContext : f.setsInContext.relations = r.state.pointsTo.relations
  /-- In the course of the run each relation has been passed on, and passed on once. -/
  passedOn : ∃ log, Solver.State.PassedOn r.analysis log r.state
  passedOn_once : ∀ log, Solver.State.PassedOn r.analysis log r.state →
    log.Nodup ∧ f.setsInContext.relations = log.length
  /-- Without contexts, the relations are the objects of all variables and those of all fields. -/
  relations : ∃ held : VarId → List ObjectId, (∀ v, r.objectsOfVar v = .ok (held v)) ∧ f.sets.relations =
    ((Id.below .var r.analysis.program.vars.size).map fun v => (held v).length).sum +
    ((Id.below .object r.state.canon.objects.size).map fun o =>
      ((Id.below .field r.analysis.program.fields.size).map fun field =>
        {o' | r.FieldHolds o field o'}.ncard).sum).sum
  relations_le : f.sets.relations ≤ f.setsInContext.relations
  pointersInContext : f.setsInContext.pointers = r.state.canon.pointerList.length
  /-- Without contexts, pointers that differ in nothing else are one. -/
  pointers : f.sets.pointers =
    {m | ∃ q pointer, r.state.canon.pointer q = .ok pointer ∧ r.mergedPointer pointer = .ok m}.ncard
  pointers_le : f.sets.pointers ≤ f.setsInContext.pointers
  reachedInContext : f.reachedInContext = r.state.calls.reached.size
  reached : f.reached = merged.reached.size
  reached_le : f.reached ≤ f.reachedInContext
  edgesInContext : f.edgesInContext = r.state.calls.edges.size
  edges : f.edges = merged.edges.size
  edges_le : f.edges ≤ f.edgesInContext
  edgesOf : ∀ kind, f.kinds.edges kind = merged.edges.toList.countP (·.kind = kind)
  sum_edgesOf : f.kinds.edges .static + f.kinds.edges .special + f.kinds.edges .virtual = f.edges
  /-- The calls of a kind are the call sites of that kind at which some method is called. -/
  calls : ∀ kind, f.kinds.calls kind = {site |
    (∃ call, r.analysis.program.callSite site = .ok call ∧ call.kind = kind) ∧
      ∃ e ∈ merged.edges.toList, e.site = site}.ncard

namespace Solution

variable {kind : AnalysisKind} {S : Type} [IdSet S .contextObject] [LawfulIdSet S]
  {r : Solution kind.Element S} (inRange : r.state.InRange r.analysis.program)
include inRange

/-- A relation belongs to a pointer that has a number, so all that is propagated is listed. -/
theorem relations_perm_pairs : r.relations.Perm r.state.pointsTo.pairs := by
  refine (List.perm_ext_iff_of_nodup nodup_relations (PointsToData.nodup_pairs _)).mpr fun ⟨p, o⟩ => ?_
  rw [mem_relations, PointsToData.mem_pairs]
  refine and_iff_right_of_imp fun held => ?_
  obtain ⟨l, located⟩ := (inRange.holds (.inr held)).1
  cases located with
  | var found => exact ⟨_, found⟩
  | field found => exact ⟨_, found⟩

theorem length_relations : r.relations.length = r.state.pointsTo.relations := by
  rw [PointsToData.relations_eq, (relations_perm_pairs inRange).length_eq]

omit [LawfulIdSet S] in
/-- The pointers with contexts dropped are counted as what they have become. -/
theorem size_mergedPointers : (Registry.ofList (r.state.canon.pointerList.map fun entry =>
    r.state.canon.barePointer entry.2)).size =
      {m | ∃ q pointer, r.state.canon.pointer q = .ok pointer ∧ r.mergedPointer pointer = .ok m}.ncard := by
  refine (ncard_eq_length (Registry.nodup_toList _) fun m => ?_).symm
  rw [Registry.mem_toList_ofList, List.mem_map]
  constructor
  · rintro ⟨⟨q, pointer⟩, listed, rfl⟩
    have found := Canon.mem_pointerList.mp listed
    exact ⟨q, pointer, found, mergedPointer_eq inRange found⟩
  · rintro ⟨q, pointer, found, merged⟩
    cases (mergedPointer_eq inRange found).symm.trans merged
    exact ⟨(q, pointer), Canon.mem_pointerList.mpr found, rfl⟩

theorem figures_agree (reachable : r.state.Reachable r.analysis)
    (placed : r.state.CallsPlaced r.analysis.program) :
    ∃ f merged, r.figures = .ok f ∧ r.mergedCalls = .ok merged ∧ f.Agree r merged := by
  have calls : r.mergedCalls = .ok r.state.bareCalls := placed.mergedCalls_eq r.analysis
  have image := placed.isImage
  obtain ⟨statements, bodies⟩ := reachableStatements_succeeds inRange calls
  obtain ⟨f, figured⟩ := figures_succeeds inRange
  have relations := length_relations inRange
  have pointers := size_mergedPointers inRange
  have allPointers : r.state.canon.pointers.size = r.state.canon.pointerList.length := by
    simp [Canon.pointerList, Registry.toList, Registry.size]
  refine ⟨f, r.state.bareCalls, figured, calls, ?_⟩
  rw [figures, calls, ok_bind, bodies, ok_bind, mergedPointers_eq inRange, ok_bind, mergedRelations_eq inRange,
    ok_bind, pure_eq_ok] at figured
  cases figured
  refine {
    relationsInContext := relations
    passedOn := reachable.passedOn
    passedOn_once := fun log passed => ⟨passed.nodup, relations.trans passed.relations_eq⟩
    relations := ?_
    relations_le := (Registry.size_ofList_le r.bareRelations).trans_eq length_bareRelations
    pointersInContext := allPointers
    pointers := pointers
    pointers_le := ?_
    reachedInContext := rfl
    reached := rfl
    reached_le := ?_
    edgesInContext := rfl
    edges := rfl
    edges_le := ?_
    edgesOf := fun kind => rfl
    sum_edgesOf := CallGraph.sum_edgesOfKind _
    calls := CallGraph.callsOfKind_eq fun e there kind => ?_ }
  · choose held reported _ using objectsOfVar_bare inRange
    exact ⟨held, reported, length_mergedRelations inRange (Registry.nodup_toList _)
      (fun _ => Registry.mem_toList_ofList) reported⟩
  · exact (Registry.size_ofList_le _).trans_eq ((List.length_map _).trans allPointers.symm)
  · show r.state.bareCalls.reached.toList.length ≤ r.state.calls.reached.toList.length
    rw [image.reached]
    exact (length_eraseDups_le _).trans_eq (List.length_map _)
  · show r.state.bareCalls.edges.toList.length ≤ r.state.calls.edges.toList.length
    rw [image.edges]
    exact (length_eraseDups_le _).trans_eq (List.length_map _)
  · rw [image.edges, List.mem_eraseDups] at there
    obtain ⟨call, found, _, same⟩ := placed.attributed e there
    rw [same]
    constructor
    · rintro ⟨call', found', ofKind⟩
      exact Except.ok.inj (found.symm.trans found') ▸ ofKind
    · exact fun ofKind => ⟨call, found, ofKind⟩

end Solution

section Described

variable {described : Described.Program} {p : Program} (loaded : described.link = .ok p)
  (kind : AnalysisKind) (depth : Nat) (heap : HeapKind) {S : Type} [IdSet S .contextObject]
  [LawfulIdSet S]
include loaded

/-- The statistics of a program that has been loaded and analysed agree with the results, whatever contexts
and heap model were chosen: the figures that are read from the printed text are those of the solution, and each
of them counts what its name says. -/
theorem statistics_agree_with_results {r : Solution kind.Element S}
    (solved : (p.analysis kind depth heap).solve S = .ok r) :
    ∃ text f merged, r.statistics = .ok text ∧ Figures.read? text = some f ∧ r.figures = .ok f ∧
      r.mergedCalls = .ok merged ∧ f.Agree r merged := by
  have coherent := Described.Program.link_coherent loaded
  have coherent' := coherent.analysis kind depth heap
  obtain ⟨same, reachable, _⟩ := Analysis.solve_reachable coherent' solved
  obtain ⟨_, s⟩ := r
  cases same
  obtain ⟨f, merged, figured, calls, agree⟩ := Solution.figures_agree (r := ⟨_, s⟩)
    (reachable.inRange coherent) reachable (reachable.invariant coherent').grounded.callsPlaced
  refine ⟨StatisticsLine.report f.lines, f, merged, ?_, f.read?_report, figured, calls, agree⟩
  rw [Solution.statistics, figured]
  rfl

end Described

theorem statistics_agree_with_results_boxes : ∃ p r, boxes.link = .ok p ∧
    (p.analysis .objectSensitive 1 .perSite).solve (HybridSet .contextObject) = .ok r ∧
    ∃ text f merged, r.statistics = .ok text ∧ Figures.read? text = some f ∧ r.figures = .ok f ∧
      r.mergedCalls = .ok merged ∧ f.Agree r merged := by
  obtain ⟨p, r, loaded, solved⟩ := boxes_solved
  exact ⟨p, r, loaded, solved, statistics_agree_with_results loaded .objectSensitive 1 .perSite solved⟩

end PointerAnalysis
