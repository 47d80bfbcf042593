import PointerAnalysis.Proofs.Persistence
import PointerAnalysis.Proofs.ReachableGraph
import PointerAnalysis.Proofs.Scheduling

/-! A finished analysis is stable. Whatever is asked of the solver that it has done already it does not
do again: numbers are looked up, edges and methods are found where they are, objects that a pointer
has passed on are dropped, and the queues stay empty. So any number of such requests, in any order,
leaves the state exactly as it is. -/
namespace PointerAnalysis

/-! ### What is known is not entered again -/

theorem CallGraph.addEntry_of_known {function site : Entity} {g : CallGraph function site}
    {f : Id function} (node : f ∈ g.nodes.toList) (entry : f ∈ g.entries.toList) :
    g.addEntry f = g := by
  rw [addEntry, Registry.register_of_mem node, Registry.register_of_mem entry]

namespace Canon

variable {E : Type} [Coded E] {c : Canon E}

theorem internContext_of_known {id : ContextId} {context : Context E}
    (known : c.context id = .ok context) : c.internContext context = (c, id) := by
  have position := Registry.position?_eq_some_iff.mpr (Id.lookup_eq_ok_iff.mp known)
  rw [internContext, Registry.register_of_known position]

theorem internMethod_of_known {id : ContextMethodId} {entry : ContextMethod}
    (known : c.method id = .ok entry) : c.internMethod entry = (c, id) := by
  have position := Registry.position?_eq_some_iff.mpr (Id.lookup_eq_ok_iff.mp known)
  rw [internMethod, Registry.register_of_known position]

end Canon

namespace Solver

variable {E S α β : Type} [Coded E] [IdSet S .contextObject] {a : Analysis E} {s s' : State E S}

/-- A flow edge that is there is not added again. -/
theorem State.addFlow_of_mem {e : FlowEdge} (known : e ∈ s.flow.edges.toList) : s.addFlow e = s := by
  simp [addFlow, FlowGraph.addEdge_of_mem known]

/-- An object that a pointer has passed on is dropped. -/
theorem State.addObject_of_known [LawfulIdSet S] {p : PointerId} {o : ContextObjectId}
    (known : o ∈ IdSet.toList (s.objectsOf p)) : s.addObject p o = s := by
  have same : s.pointsTo.add p o = (s.pointsTo, false) :=
    if_pos ((LawfulIdSet.contains_iff _ _).mpr known)
  simp [addObject, same]

theorem State.addObjects_of_known [LawfulIdSet S] {p : PointerId} {objects : S}
    (known : ∀ o ∈ IdSet.toList objects, o ∈ IdSet.toList (s.objectsOf p)) :
    s.addObjects p objects = s := by
  have none : IdSet.isEmpty (s.pointsTo.unpropagated p objects) = true := by
    rw [LawfulIdSet.isEmpty_iff, List.eq_nil_iff_forall_not_mem]
    intro o there
    obtain ⟨there, unpropagated⟩ := PointsToData.mem_unpropagated.mp there
    exact unpropagated (known o there)
  have same : s.pointsTo.addAll p objects = (s.pointsTo, false) := by
    rw [PointsToData.addAll_eq, if_pos none, ite_self]
  simp [addObjects, same]

/-! ### Computations that change nothing -/

/-- A computation that succeeds with this value and leaves the state as it is. -/
def Idles (m : Solver E S α) (s : State E S) (x : α) : Prop := m.run s = .ok x s

omit [IdSet S .contextObject] in
theorem idles_bind {m : Solver E S α} {f : α → Solver E S β} {x : α} {y : β}
    (first : Idles m s x) (second : Idles (f x) s y) : Idles (m >>= f) s y := by
  show EStateM.bind m f s = .ok y s
  unfold EStateM.bind
  rw [show m s = _ from first]
  exact second

omit [IdSet S .contextObject] in
theorem idles_forM {l : List β} {body : β → Solver E S Unit}
    (each : ∀ x ∈ l, Idles (body x) s ()) : Idles (l.forM body) s () := by
  induction l with
  | nil => rfl
  | cons x l ih =>
    obtain ⟨first, others⟩ := List.forall_mem_cons.mp each
    exact idles_bind first (ih others)

omit [IdSet S .contextObject] in
theorem idles_modify {change : State E S → State E S} (same : change s = s) :
    Idles (modify change) s () := congrArg (EStateM.Result.ok ()) same

theorem idles_reach {id : ContextMethodId} (known : id ∈ s.calls.reached.toList) :
    Idles (reach a id) s () := by
  refine idles_bind (x := false) ?_ rfl
  show EStateM.Result.ok (s.calls.addReached id).2 { s with calls := (s.calls.addReached id).1 } = _
  rw [CallGraph.addReached_of_known known]

/-- A state of a run that has nothing to do and nothing to start with. -/
structure State.Finished (a : Analysis E) (s : State E S) : Prop where
  rest : s.AtRest
  pointers : s.drainingCalls = false
  started : ∃ c, s.canon.context c = .ok [] ∧ ∀ m ∈ a.program.entries.toList,
    ∃ id, s.canon.method id = .ok ⟨c, m⟩ ∧ id ∈ s.calls.nodes.toList ∧
      id ∈ s.calls.entries.toList ∧ id ∈ s.calls.reached.toList

namespace State.Finished

variable (finished : s.Finished a)
include finished

theorem idles_step : Idles (step a) s false := by
  have same : { s with drainingCalls := false } = s := by rw [← finished.pointers]
  have ran := step_of_atRest (a := a) finished.rest
  rwa [same] at ran

theorem idles_start : Idles (start a) s () := by
  obtain ⟨c, named, entered⟩ := finished.started
  refine idles_bind (x := c) ?_ (idles_forM fun m listed => ?_)
  · show EStateM.Result.ok (s.canon.internContext []).2 { s with canon := (s.canon.internContext []).1 } = _
    rw [Canon.internContext_of_known named]
  · obtain ⟨id, known, node, entry, reached⟩ := entered m listed
    refine idles_bind (x := id) ?_ (idles_bind (idles_modify ?_) (idles_reach reached))
    · show EStateM.Result.ok (s.canon.internMethod ⟨c, m⟩).2
        { s with canon := (s.canon.internMethod ⟨c, m⟩).1 } = _
      rw [Canon.internMethod_of_known known]
    · rw [CallGraph.addEntry_of_known node entry]

/-- The first of the rounds finds nothing to do. -/
theorem idles_solve : Idles (solve a) s () := by
  obtain ⟨rounds, some⟩ : ∃ rounds, a.rounds = rounds + 1 :=
    Nat.exists_eq_add_one.mpr (Nat.mul_pos (by omega) (by omega))
  refine idles_bind finished.idles_start (idles_bind (x := true) ?_ rfl)
  rw [some]
  exact idles_bind (x := true) (idles_bind finished.idles_step rfl) rfl

end State.Finished

/-! ### The end of a run -/

/-- A loop that ends without being given up has emptied both queues and turned to the pointers. -/
theorem Repeats.finished (repeats : Repeats a s (.ok () s')) :
    s'.AtRest ∧ s'.drainingCalls = false := by
  generalize same : (EStateM.Result.ok () s' : Ending E S) = ending at repeats
  induction repeats with
  | rest ran =>
    cases same
    obtain ⟨rest, rfl⟩ := State.of_rests ran
    exact ⟨rest, rfl⟩
  | givenUp => cases same
  | next _ _ ih => exact ih same

section Lawful

variable [LawfulIdSet S]

/-- The empty context has a number from the start on. -/
theorem State.Reachable.emptyContext (reachable : s.Reachable a) :
    ∃ c, s.canon.context c = .ok [] := by
  induction reachable with
  | start ran =>
    have numbered : Outcome (Solver.start a) (.empty : State E S)
        (fun _ s' => ∃ c, s'.canon.context c = .ok []) (fun _ _ => True) := by
      refine outcome_bind (outcome_modifyGet ?_)
      refine (altering_entries a _ _ _).mono (fun _ s' alterations => ?_) fun _ _ _ => trivial
      have named := Canon.context_internContext (.empty : Canon E) []
      exact ⟨_, alterations.persists.canon.context_eq named⟩
    exact numbered.of_ok ran
  | step _ ran ih => exact ih.imp fun c named => (persists_step.of_ok ran).canon.context_eq named

theorem State.Finished.of_solve (coherent : a.Coherent) {contexts : List (Context E)}
    {objects : List AbstractObject} (bounded : a.Bounded contexts objects) {r : Solution E S}
    (solved : a.solve S = .ok r) : r.state.Finished a := by
  obtain ⟨_, reachable, _⟩ := a.solve_reachable coherent solved
  obtain ⟨rest, pointers⟩ : r.state.AtRest ∧ r.state.drainingCalls = false := by
    cases (solve_runsTo coherent bounded _).mpr (a.run_of_solve solved).2 with
    | started _ repeats => exact repeats.finished
  obtain ⟨c, named⟩ := reachable.emptyContext
  refine ⟨rest, pointers, c, named, fun m listed => ?_⟩
  obtain ⟨_, id, entry, entered⟩ := reachable.entered coherent m listed
  have reached := reachable.reached_of_entry coherent entry
  have node := ((reachable.callsReachable coherent).nodes_iff id).mpr reached
  obtain ⟨⟨c', m'⟩, known, named', rfl⟩ := entered
  cases Canon.context_injective named named'
  exact ⟨id, known, node, entry, reached⟩

end Lawful

/-- What can be asked of a solver once more. -/
inductive Request (S : Type) where
  | solve
  | start
  | add (p : PointerId) (o : ContextObjectId)
  | enqueue (p : PointerId) (objects : S)
  | wire (e : FlowEdge)
  | process (e : ContextCallEdge)
  | reach (id : ContextMethodId)

/-- What the solver does when it is asked. -/
def Request.perform (a : Analysis E) : Request S → Solver E S Unit
  | .solve => Solver.solve a
  | .start => Solver.start a
  | .add p o => modify (·.addObject p o)
  | .enqueue p objects => modify (·.addObjects p objects)
  | .wire e => addFlow e.source e.target e.kind
  | .process e => processCall a e
  | .reach id => Solver.reach a id

/-- A request asks for nothing that a state does not hold: objects are those that the pointer points
to, edges are edges of the graphs, and methods are reachable. -/
inductive Request.Redundant (s : State E S) : Request S → Prop where
  | solve : Redundant s .solve
  | start : Redundant s .start
  | add {p : PointerId} {o : ContextObjectId} : o ∈ IdSet.toList (s.objectsOf p) →
      Redundant s (.add p o)
  | enqueue {p : PointerId} {objects : S} :
      (∀ o ∈ IdSet.toList objects, o ∈ IdSet.toList (s.objectsOf p)) →
      Redundant s (.enqueue p objects)
  | wire {e : FlowEdge} : e ∈ s.flow.edges.toList → Redundant s (.wire e)
  | process {e : ContextCallEdge} : e ∈ s.calls.edges.toList → Redundant s (.process e)
  | reach {id : ContextMethodId} : id ∈ s.calls.reached.toList → Redundant s (.reach id)

/-- All that a state holds, asked for once more. -/
def Request.all (s : State E S) : List (Request S) :=
  [.solve, .start] ++ (s.canon.pointerList.map fun entry => .enqueue entry.1 (s.objectsOf entry.1)) ++
    s.flow.edges.toList.map .wire ++ s.calls.edges.toList.map .process ++
    s.calls.reached.toList.map .reach

theorem Request.redundant_of_mem_all {request : Request S} (listed : request ∈ Request.all s) :
    request.Redundant s := by
  simp only [Request.all, List.mem_append, List.mem_cons, List.not_mem_nil, or_false, List.mem_map]
    at listed
  obtain ((((rfl | rfl) | ⟨entry, _, rfl⟩) | ⟨e, there, rfl⟩) | ⟨e, there, rfl⟩) | ⟨id, there, rfl⟩ :=
    listed
  · exact .solve
  · exact .start
  · exact .enqueue fun _ => id
  · exact .wire there
  · exact .process there
  · exact .reach there

variable [LawfulIdSet S]

theorem Request.Redundant.idles (finished : s.Finished a) {request : Request S}
    (redundant : request.Redundant s) : Idles (request.perform a) s () := by
  cases redundant with
  | solve => exact finished.idles_solve
  | start => exact finished.idles_start
  | add known => exact idles_modify (State.addObject_of_known known)
  | enqueue known => exact idles_modify (State.addObjects_of_known known)
  | wire known => exact idles_modify (State.addFlow_of_mem known)
  | process known => exact processCall_of_known (CallGraph.contains_iff.mpr ⟨_, known, rfl, rfl⟩)
  | reach known => exact idles_reach known

/-- A finished analysis of a described program is stable. Redundant requests, however many and in
whatever order, succeed and leave the state as it is, and so do further steps, however long they are
repeated. -/
theorem finished_analysis_is_stable {described : Described.Program} {p : Program}
    (loaded : described.link = .ok p) (kind : AnalysisKind) (depth : Nat) (heap : HeapKind)
    {r : Solution kind.Element S} (solved : (p.analysis kind depth heap).solve S = .ok r) :
    (∀ requests : List (Request S), (∀ request ∈ requests, request.Redundant r.state) →
      (requests.forM (Request.perform (p.analysis kind depth heap))).run r.state = .ok () r.state) ∧
    (step (p.analysis kind depth heap)).run r.state = .ok false r.state ∧
    Repeats (p.analysis kind depth heap) r.state (.ok () r.state) := by
  have program := Described.Program.link_coherent loaded
  have finished := State.Finished.of_solve (program.analysis kind depth heap)
    (program.analysis_bounded kind depth heap) solved
  refine ⟨fun requests redundant => ?_, finished.idles_step, .rest finished.idles_step⟩
  exact idles_forM fun request listed => (redundant request listed).idles finished

/-- All that has been found about the boxes can be asked for again, twice. -/
theorem finished_analysis_is_stable_boxes : ∃ p r, boxes.link = .ok p ∧
    (p.analysis .objectSensitive 1 .perSite).solve (HybridSet .contextObject) = .ok r ∧
      ((Request.all r.state ++ Request.all r.state).forM
        (Request.perform (p.analysis .objectSensitive 1 .perSite))).run r.state = .ok () r.state ∧
      Repeats (p.analysis .objectSensitive 1 .perSite) r.state (.ok () r.state) := by
  obtain ⟨p, r, loaded, solved⟩ := boxes_solved
  have stable := finished_analysis_is_stable loaded .objectSensitive 1 .perSite solved
  refine ⟨p, r, loaded, solved, stable.1 _ fun request listed => ?_, stable.2.2⟩
  exact Request.redundant_of_mem_all ((List.mem_append.mp listed).elim id id)

end Solver

end PointerAnalysis
