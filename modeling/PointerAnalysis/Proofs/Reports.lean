import PointerAnalysis.Proofs.Solver.Ranges
import PointerAnalysis.Proofs.Solver.Solution
import PointerAnalysis.Report.Listing
import PointerAnalysis.Report.Statistics

/-! Reports on states whose numbers are in range. Each of them looks up what its names are made of, and
every lookup finds something; the drawings join nodes that they have. -/
namespace PointerAnalysis

/-! ### Names of a program -/

namespace Program

variable {p : Program}

theorem typeName_succeeds {t : TypeId} {type : TypeDecl} (known : p.type t = .ok type) :
    Succeeds (p.typeName t) :=
  Succeeds.bind ⟨type, known⟩ fun _ _ => succeeds_ok _

theorem Coherent.methodName_succeeds (coherent : p.Coherent) {m : MethodId} {method : Method}
    (known : p.method m = .ok method) : Succeeds (p.methodName m) := by
  refine Succeeds.bind ⟨method, known⟩ fun method' found => ?_
  obtain ⟨_, owner⟩ := (coherent.methods found).owner_known
  exact (typeName_succeeds owner).bind fun _ _ => succeeds_ok _

theorem Coherent.varName_succeeds (coherent : p.Coherent) {m : MethodId} {method : Method}
    (known : p.method m = .ok method) {v : VarId} (owns : p.Owns m v) : Succeeds (p.varName v) := by
  obtain ⟨var, found, rfl⟩ := owns
  refine Succeeds.bind ⟨var, found⟩ fun var' found' => ?_
  cases found.symm.trans found'
  exact (coherent.methodName_succeeds known).bind fun _ _ => succeeds_ok _

end Program

/-! ### Drawings -/

/-- The edges of a drawing join positions in its list of nodes. -/
def Drawing.InRange (d : Drawing) : Prop :=
  ∀ edge ∈ d.edges, edge.1 < d.nodes.length ∧ edge.2.1 < d.nodes.length

private theorem idxOf_lt_of_names {α ε : Type} [Coded α] {nodes : Registry α}
    {label : α → Except ε String} {names : List String} (named : nodes.toList.mapM label = .ok names)
    {a : α} (there : a ∈ nodes.toList) : nodes.idxOf a < names.length := by
  rw [length_of_mapM named, Registry.toList, Array.length_toList]
  exact Registry.idxOf_lt_of_mem there

theorem CallGraph.Spans.drawing_inRange {function site : Entity} {g : CallGraph function site}
    (spans : g.Spans) {ε : Type} {label : Id function → Except ε String} {names : List String}
    (named : g.nodes.toList.mapM label = .ok names) (siteLabel : Id site → String) :
    (g.drawing names siteLabel).InRange := by
  intro edge drawn
  obtain ⟨e, there, rfl⟩ := List.mem_map.mp drawn
  have ends := spans.edges e there
  exact ⟨idxOf_lt_of_names named ends.1, idxOf_lt_of_names named ends.2⟩

theorem FlowGraph.drawing_inRange {g : FlowGraph}
    (ends : ∀ e ∈ g.edges.toList, e.source ∈ g.nodes.toList ∧ e.target ∈ g.nodes.toList) {ε : Type}
    {label : PointerId → Except ε String} {names : List String}
    (named : g.nodes.toList.mapM label = .ok names) : (g.drawing names).InRange := by
  intro edge drawn
  obtain ⟨e, there, rfl⟩ := List.mem_map.mp drawn
  exact ⟨idxOf_lt_of_names named (ends e there).1, idxOf_lt_of_names named (ends e there).2⟩

/-! ### Reports -/

namespace Solution

variable {kind : AnalysisKind} {S : Type} [IdSet S .contextObject] {r : Solution kind.Element S}
  (coherent : r.analysis.program.Coherent) (inRange : r.state.InRange r.analysis.program)

section Labels

omit [IdSet S .contextObject]

theorem contextLabel_succeeds {id : ContextId} {context : Context kind.Element}
    (named : r.state.canon.context id = .ok context) : Succeeds (r.contextLabel id) :=
  Succeeds.bind ⟨context, named⟩ fun _ _ => succeeds_ok _

include coherent in
theorem objectLabel_succeeds {o : AbstractObject} (declared : o.Declared r.analysis.program) :
    Succeeds (r.objectLabel o) := by
  obtain ⟨⟨type, known⟩, container⟩ := declared
  refine (Program.typeName_succeeds known).bind fun _ _ => ?_
  split
  · exact succeeds_ok _
  · exact succeeds_ok _
  · next made =>
    obtain ⟨method, found⟩ := container _ made
    exact (coherent.methodName_succeeds found).bind fun _ _ => succeeds_ok _

end Labels

include coherent inRange

theorem mergedObjectLabel_succeeds {id : ContextObjectId} {o : HeapObject kind.Element}
    (named : r.state.canon.Names id o) : Succeeds (r.mergedObjectLabel id) := by
  obtain ⟨entry, found, _, known⟩ := named
  refine Succeeds.bind ⟨entry, found⟩ fun entry' found' => ?_
  cases found.symm.trans found'
  refine Succeeds.bind ⟨o.object, known⟩ fun object known' => ?_
  exact objectLabel_succeeds coherent (inRange.declared.objects known')

theorem contextObjectLabel_succeeds {id : ContextObjectId} {o : HeapObject kind.Element}
    (named : r.state.canon.Names id o) : Succeeds (r.contextObjectLabel id) := by
  have merged := mergedObjectLabel_succeeds coherent inRange named
  obtain ⟨entry, found, context, _⟩ := named
  refine Succeeds.bind ⟨entry, found⟩ fun entry' found' => ?_
  cases found.symm.trans found'
  exact (contextLabel_succeeds context).bind fun _ _ => merged.bind fun _ _ => succeeds_ok _

theorem pointerLabel_succeeds {id : PointerId} {l : Location kind.Element}
    (located : r.state.canon.Locates id l) : Succeeds (r.pointerLabel id) := by
  cases located with
  | var found named =>
    refine Succeeds.bind ⟨_, found⟩ fun pointer found' => ?_
    cases found.symm.trans found'
    obtain ⟨m, method, known, owns⟩ := inRange.declared.vars found
    exact (contextLabel_succeeds named).bind fun _ _ =>
      (coherent.varName_succeeds known owns).bind fun _ _ => succeeds_ok _
  | field found named =>
    refine Succeeds.bind ⟨_, found⟩ fun pointer found' => ?_
    cases found.symm.trans found'
    exact (contextObjectLabel_succeeds coherent inRange named).bind fun _ _ =>
      Succeeds.bind (inRange.declared.fields found) fun _ _ => succeeds_ok _

theorem mergedPointerLabel_succeeds {id : PointerId} {pointer : Pointer}
    (found : r.state.canon.pointer id = .ok pointer) : Succeeds (r.mergedPointerLabel pointer) := by
  obtain ⟨l, located⟩ := inRange.sound.pointers found
  cases located with
  | var found' =>
    cases found.symm.trans found'
    obtain ⟨m, method, known, owns⟩ := inRange.declared.vars found
    exact coherent.varName_succeeds known owns
  | field found' named =>
    cases found.symm.trans found'
    exact (mergedObjectLabel_succeeds coherent inRange named).bind fun _ _ =>
      Succeeds.bind (inRange.declared.fields found) fun _ _ => succeeds_ok _

omit coherent in
/-- The objects that are reported for a pointer have numbers. -/
private theorem objectsOf_succeeds {α : Type} {f : ContextObjectId → Except UnknownId α}
    (works : ∀ id o, r.state.canon.Names id o → Succeeds (f id)) (p : PointerId) :
    Succeeds ((r.objectsOf p).mapM f) := by
  refine succeeds_mapM fun id there => ?_
  obtain ⟨_, o, named⟩ := inRange.holds (.inr there)
  exact works id o named

theorem pointsToListing_succeeds : Succeeds r.pointsToListing := by
  refine Succeeds.bind (succeeds_mapM fun entry listed => ?_) fun _ _ => succeeds_ok _
  have found := Canon.mem_pointerList.mp (List.mem_of_mem_filter listed)
  obtain ⟨l, located⟩ := inRange.sound.pointers found
  refine (objectsOf_succeeds inRange (fun _ _ => contextObjectLabel_succeeds coherent inRange) _).bind
    fun _ _ => ?_
  exact (pointerLabel_succeeds coherent inRange located).bind fun _ _ => succeeds_ok _

theorem mergedPointsToListing_succeeds : Succeeds r.mergedPointsToListing := by
  refine Succeeds.bind (succeeds_foldlM (fun table entry listed => ?_) _) fun _ _ => succeeds_ok _
  have found := Canon.mem_pointerList.mp (List.mem_of_mem_filter listed)
  refine (mergedPointerLabel_succeeds coherent inRange found).bind fun _ _ => ?_
  exact (objectsOf_succeeds inRange (fun _ _ => mergedObjectLabel_succeeds coherent inRange) _).bind
    fun _ _ => succeeds_ok _

theorem fullListing_succeeds : Succeeds r.fullListing :=
  (pointsToListing_succeeds coherent inRange).bind fun _ _ =>
    (mergedPointsToListing_succeeds coherent inRange).bind fun _ _ => succeeds_ok _

theorem flowGraph_drawn : ∃ names, r.state.flow.nodes.toList.mapM r.pointerLabel = .ok names :=
  succeeds_mapM fun q there => by
    obtain ⟨l, located⟩ := inRange.flow_nodes q there
    exact pointerLabel_succeeds coherent inRange located

theorem flowGraphText_succeeds : Succeeds r.flowGraphText :=
  Succeeds.bind (flowGraph_drawn coherent inRange) fun _ _ => succeeds_ok _

omit coherent

theorem methodOf_succeeds {id : ContextMethodId} (there : id ∈ r.state.calls.nodes.toList) :
    ∃ m, r.methodOf id = .ok m ∧ ∃ method, r.analysis.program.method m = .ok method := by
  obtain ⟨c, m, entry, found, _, rfl⟩ := inRange.call_nodes id there
  exact ⟨entry.method, by simp [methodOf, found], inRange.declared.methods found⟩

/-- Nodes of the call graph stand for methods of the program. -/
private theorem methods_merged {ids : List ContextMethodId}
    (there : ∀ id ∈ ids, id ∈ r.state.calls.nodes.toList) : ∃ methods, ids.mapM r.methodOf = .ok methods ∧
      ∀ m ∈ methods, ∃ method, r.analysis.program.method m = .ok method := by
  have works (id : ContextMethodId) (listed : id ∈ ids) : ∃ m, r.methodOf id = .ok m :=
    (methodOf_succeeds inRange (there id listed)).imp fun _ => And.left
  obtain ⟨methods, mapped, mem_methods⟩ := mapM_ok works
  refine ⟨methods, mapped, fun m listed => ?_⟩
  obtain ⟨id, listed, same⟩ := (mem_methods m).mp listed
  obtain ⟨m', same', known⟩ := methodOf_succeeds inRange (there id listed)
  cases same.symm.trans same'
  exact known

private theorem calls_merged : ∃ edges, r.state.calls.edges.toList.mapM r.mergedEdge = .ok edges ∧
    ∀ e ∈ edges, (∃ method, r.analysis.program.method e.caller = .ok method) ∧
      ∃ method, r.analysis.program.method e.callee = .ok method := by
  have merged (e : ContextCallEdge) (there : e ∈ r.state.calls.edges.toList) :
      ∃ e', r.mergedEdge e = .ok e' ∧
        (∃ method, r.analysis.program.method e'.caller = .ok method) ∧
        ∃ method, r.analysis.program.method e'.callee = .ok method := by
    obtain ⟨caller, callee, c, site, placed⟩ := inRange.call_edges e there
    obtain ⟨m, ranCaller, knownCaller⟩ := methodOf_succeeds inRange caller
    obtain ⟨m', ranCallee, knownCallee⟩ := methodOf_succeeds inRange callee
    exact ⟨⟨m, site, m', e.kind⟩, by simp [mergedEdge, ranCaller, ranCallee, callSiteOf_eq placed],
      knownCaller, knownCallee⟩
  obtain ⟨edges, mapped, mem_edges⟩ := mapM_ok fun e there => (merged e there).imp fun _ => And.left
  refine ⟨edges, mapped, fun e' listed => ?_⟩
  obtain ⟨e, there, same⟩ := (mem_edges e').mp listed
  obtain ⟨e'', same', known⟩ := merged e there
  cases same.symm.trans same'
  exact known

/-- The merged call graph joins methods of the program. -/
theorem mergedCalls_succeeds : ∃ g, r.mergedCalls = .ok g ∧ g.Spans ∧
    ∀ m ∈ g.nodes.toList, ∃ method, r.analysis.program.method m = .ok method := by
  obtain ⟨entries, mappedEntries, goodEntries⟩ := methods_merged inRange inRange.entries
  obtain ⟨reached, mappedReached, goodReached⟩ := methods_merged inRange inRange.reached
  obtain ⟨edges, mappedEdges, goodEdges⟩ := calls_merged inRange
  exact ⟨.ofLists entries reached edges, mergedCalls_of mappedEntries mappedReached mappedEdges,
    CallGraph.spans_ofLists _ _ _, CallGraph.all_nodes_ofLists goodEntries goodReached goodEdges⟩

include coherent in
theorem callGraph_drawn : ∃ g names, r.mergedCalls = .ok g ∧ g.Spans ∧
    g.nodes.toList.mapM r.analysis.program.methodName = .ok names := by
  obtain ⟨g, merged, spans, known⟩ := mergedCalls_succeeds inRange
  obtain ⟨names, named⟩ : Succeeds (g.nodes.toList.mapM r.analysis.program.methodName) :=
    succeeds_mapM fun m there => by
      obtain ⟨method, found⟩ := known m there
      exact coherent.methodName_succeeds found
  exact ⟨g, names, merged, spans, named⟩

include coherent in
theorem callGraphText_succeeds : Succeeds r.callGraphText := by
  obtain ⟨g, names, merged, _, named⟩ := callGraph_drawn coherent inRange
  exact ⟨(g.drawing names Id.text).dot, by simp [callGraphText, merged, named]⟩

/-! Statistics -/

omit inRange [IdSet S .contextObject] in
theorem mergedObject_succeeds {id : ContextObjectId} {o : HeapObject kind.Element}
    (named : r.state.canon.Names id o) : Succeeds (r.mergedObject id) := by
  obtain ⟨entry, found, _⟩ := named
  exact Succeeds.bind ⟨entry, found⟩ fun _ _ => succeeds_ok _

theorem mergedPointer_succeeds {id : PointerId} {pointer : Pointer}
    (found : r.state.canon.pointer id = .ok pointer) : Succeeds (r.mergedPointer pointer) := by
  obtain ⟨l, located⟩ := inRange.sound.pointers found
  cases located with
  | var found' =>
    cases found.symm.trans found'
    exact succeeds_ok _
  | field found' named =>
    cases found.symm.trans found'
    exact (mergedObject_succeeds named).bind fun _ _ => succeeds_ok _

theorem mergedPointers_succeeds : Succeeds r.mergedPointers :=
  Succeeds.bind (succeeds_mapM fun _ listed =>
    mergedPointer_succeeds inRange (Canon.mem_pointerList.mp listed)) fun _ _ => succeeds_ok _

theorem mergedRelations_succeeds : Succeeds r.mergedRelations := by
  refine Succeeds.bind (succeeds_mapM fun entry listed => ?_) fun _ _ => succeeds_ok _
  refine (mergedPointer_succeeds inRange (Canon.mem_pointerList.mp listed)).bind fun _ _ => ?_
  exact (objectsOf_succeeds inRange (fun _ _ => mergedObject_succeeds) _).bind fun _ _ => succeeds_ok _

theorem reachableStatements_succeeds {g : CallGraph .method .callSite} (merged : r.mergedCalls = .ok g) :
    Succeeds (r.reachableStatements g.reached.toList) := by
  obtain ⟨g', merged', spans, known⟩ := mergedCalls_succeeds inRange
  cases merged.symm.trans merged'
  have sizes : Succeeds (g.reached.toList.mapM fun id => do
      let method ← r.analysis.program.method id
      return method.body.size) :=
    succeeds_mapM fun m reached => Succeeds.bind (known m (spans.reached m reached)) fun _ _ => succeeds_ok _
  exact sizes.bind fun _ _ => succeeds_ok _

theorem figures_succeeds : Succeeds r.figures := by
  obtain ⟨g, merged, _⟩ := mergedCalls_succeeds inRange
  refine Succeeds.bind ⟨g, merged⟩ fun g' merged' => ?_
  refine (reachableStatements_succeeds inRange merged').bind fun _ _ => ?_
  refine (mergedPointers_succeeds inRange).bind fun _ _ => ?_
  exact (mergedRelations_succeeds inRange).bind fun _ _ => succeeds_ok _

theorem statistics_succeeds : Succeeds r.statistics :=
  (figures_succeeds inRange).bind fun _ _ => succeeds_ok _

theorem objectsOfVar_succeeds (v : VarId) : Succeeds (r.objectsOfVar v) := by
  refine Succeeds.bind (succeeds_mapM fun id there => ?_) fun _ _ => succeeds_ok _
  obtain ⟨entry, _, held⟩ := List.mem_flatMap.mp there
  obtain ⟨_, o, named⟩ := inRange.holds (.inr held)
  exact mergedObject_succeeds named

omit inRange

/-- All that can be asked of a solution. -/
structure Answers (r : Solution kind.Element S) : Prop where
  pointsTo : Succeeds r.fullListing
  callGraph : Succeeds r.callGraphText
  flowGraph : Succeeds r.flowGraphText
  statistics : Succeeds r.statistics
  objectsOfVar : ∀ v, Succeeds (r.objectsOfVar v)
  /-- The drawings join nodes that they have. -/
  callDrawing : ∀ g names siteLabel, r.mergedCalls = .ok g →
    g.nodes.toList.mapM r.analysis.program.methodName = .ok names →
      (g.drawing names siteLabel).InRange
  flowDrawing : ∀ names, r.state.flow.nodes.toList.mapM r.pointerLabel = .ok names →
    (r.state.flow.drawing names).InRange

include coherent inRange

theorem answers : r.Answers := by
  refine ⟨fullListing_succeeds coherent inRange, callGraphText_succeeds coherent inRange,
    flowGraphText_succeeds coherent inRange, statistics_succeeds inRange,
    objectsOfVar_succeeds inRange, fun g names siteLabel merged named => ?_, fun names named => ?_⟩
  · obtain ⟨g', merged', spans, _⟩ := mergedCalls_succeeds inRange
    cases merged.symm.trans merged'
    exact spans.drawing_inRange named siteLabel
  · exact FlowGraph.drawing_inRange inRange.flow_edges named

end Solution

/-- Whatever options ask for is written. -/
theorem Options.outputs_succeeds (o : Options) {kind : AnalysisKind}
    {r : Solution kind.Element (HybridSet .contextObject)} (answers : r.Answers) :
    Succeeds (o.outputs r) := by
  obtain ⟨⟨listing, listed⟩, ⟨calls, drawnCalls⟩, ⟨flow, drawnFlow⟩, ⟨statistics, counted⟩, _⟩ := answers
  unfold Options.outputs
  rw [listed, drawnCalls, drawnFlow, counted]
  cases o.pointsToOutput <;> cases o.callGraphOutput <;> cases o.flowGraphOutput <;>
    cases o.showStatistics <;> exact succeeds_ok _

end PointerAnalysis
