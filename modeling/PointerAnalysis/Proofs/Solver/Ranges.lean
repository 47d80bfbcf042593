import PointerAnalysis.Proofs.ReachableGraph

/-! Numbers are never made up. Whatever a run on a coherent program numbers is made of what the program
declares and of what has been numbered before, and every number in a queue, a set or a graph is in
the range of its table. -/
namespace PointerAnalysis

/-! ### What a program mentions it declares -/

namespace Program.Coherent

variable {p : Program} (coherent : p.Coherent)
include coherent

theorem owned_of_mentions {v : VarId} (mentioned : p.Mentions v) :
    ∃ m method, p.method m = .ok method ∧ p.Owns m v := by
  have of_has {m : MethodId} {s : Statement} (has : p.Has m s) (owns : p.Owns m v) :
      ∃ m method, p.method m = .ok method ∧ p.Owns m v := by
    obtain ⟨method, found, _⟩ := has
    exact ⟨m, method, found, owns⟩
  cases mentioned with
  | allocated has => exact of_has has (coherent.statements_scoped has).1
  | assigned has => exact of_has has (coherent.statements_scoped has).1
  | source has => exact of_has has (coherent.statements_scoped has).2
  | stored found listed =>
    have has := ((coherent.vars found).stores_iff _ _).mp listed
    exact of_has has (coherent.statements_scoped has).2.1
  | loaded found listed =>
    have has := ((coherent.vars found).loads_iff _ _).mp listed
    exact of_has has (coherent.statements_scoped has).1
  | this found this => exact ⟨_, _, found, (coherent.methods found).this_owned this⟩
  | param found listed => exact ⟨_, _, found, (coherent.methods found).params_owned _ listed⟩
  | returned found listed => exact ⟨_, _, found, (coherent.methods found).returns_owned _ listed⟩
  | argument found listed =>
    exact of_has (coherent.calls found).placed ((coherent.calls found).args_owned _ listed)
  | result found result =>
    exact of_has (coherent.calls found).placed ((coherent.calls found).result_owned result)

theorem field_of_accesses {f : FieldId} (accessed : p.Accesses f) : ∃ name, p.field f = .ok name := by
  obtain ⟨v, var, other, found, stored | loaded⟩ := accessed
  · have has := ((coherent.vars found).stores_iff _ _).mp stored
    exact (coherent.statements_scoped has).2.2
  · have has := ((coherent.vars found).loads_iff _ _).mp loaded
    exact (coherent.statements_scoped has).2.2

theorem method_of_involves {m : MethodId} (involved : p.Involves m) :
    ∃ method, p.method m = .ok method := by
  cases involved with
  | entry listed => exact coherent.entry_known listed
  | container found =>
    obtain ⟨method, known, _⟩ := (coherent.calls found).placed
    exact ⟨method, known⟩
  | alone enters =>
    obtain ⟨_, _, method, known, _⟩ := coherent.takes_of_entersAlone enters
    exact ⟨method, known⟩
  | @onObject site type _ enters =>
    have declared : ∃ t declared, p.type t = .ok declared ∧ p.EntersOn site t m := by
      cases enters with
      | @virtual call _ found kind resolved =>
        -- A class that is not declared would have failed the search.
        obtain ⟨named, target, dispatched⟩ := bind_eq_ok_iff.mp resolved
        obtain ⟨declared, known, _⟩ := bind_eq_ok_iff.mp dispatched
        exact ⟨type, declared, known, .virtual found kind resolved⟩
      | special found kind resolved =>
        obtain ⟨target, known, _⟩ := (coherent.calls found).target_known
        obtain ⟨declared, owner⟩ := (coherent.methods known).owner_known
        exact ⟨target.owner, declared, owner, .special found kind resolved⟩
    obtain ⟨t, declared, known, enters⟩ := declared
    obtain ⟨_, _, method, known, _⟩ := coherent.takes_of_entersOn known enters
    exact ⟨method, known⟩

end Program.Coherent

/-! ### Tables -/

/-- The class of an object is declared, and so is the method that allocates it. -/
def AbstractObject.Declared (p : Program) (o : AbstractObject) : Prop :=
  (∃ type, p.type o.type = .ok type) ∧
    ∀ m, o.container = some m → ∃ method, p.method m = .ok method

variable {E S : Type} [Coded E]

/-- What the tables say of a program is declared there. -/
structure Canon.Declared (p : Program) (c : Canon E) : Prop where
  objects : ∀ {id o}, c.object id = .ok o → o.Declared p
  vars : ∀ {id context v}, c.pointer id = .ok (.var context v) →
    ∃ m method, p.method m = .ok method ∧ p.Owns m v
  fields : ∀ {id object f}, c.pointer id = .ok (.field object f) → ∃ name, p.field f = .ok name
  methods : ∀ {id entry}, c.method id = .ok entry → ∃ method, p.method entry.method = .ok method
  callSites : ∀ {id entry}, c.callSite id = .ok entry → ∃ call, p.callSite entry.site = .ok call

theorem Canon.declared_empty (p : Program) : (Canon.empty : Canon E).Declared p where
  objects found := by cases found
  vars found := by cases found
  fields found := by cases found
  methods found := by cases found
  callSites found := by cases found

/-- A heap model makes objects of the class and the method that it is asked for. -/
def HeapModel.Local (heap : HeapModel) : Prop :=
  ∀ {site type m o}, heap site type m = .ok o →
    o.type = type ∧ ∀ container, o.container = some container → container = m

theorem HeapKind.model_local (heap : HeapKind) : heap.model.Local := by
  intro site type m o made
  cases heap with
  | perSite =>
    cases made
    exact ⟨rfl, fun container same => (Option.some.inj same).symm⟩
  | perType =>
    cases made
    exact ⟨rfl, fun container same => nomatch same⟩

theorem Canon.Declared.numbers {a : Analysis E} (coherent : a.program.Coherent) (local_ : a.heap.Local)
    {c c' : Canon E} (declared : c.Declared a.program) (numbers : a.Numbers c c') :
    c'.Declared a.program := by
  obtain ⟨objects, vars, fields, methods, callSites⟩ := declared
  cases numbers with
  | emptyContext => exact ⟨objects, vars, fields, methods, callSites⟩
  | heapContext => exact ⟨objects, vars, fields, methods, callSites⟩
  | callContext => exact ⟨objects, vars, fields, methods, callSites⟩
  | receiverContext => exact ⟨objects, vars, fields, methods, callSites⟩
  | contextObject => exact ⟨objects, vars, fields, methods, callSites⟩
  | object has modelled =>
    refine ⟨fun found => ?_, vars, fields, methods, callSites⟩
    rcases object_of_internObject found with old | rfl
    · exact objects old
    · obtain ⟨type, container⟩ := local_ modelled
      obtain ⟨method, known, _⟩ := id has
      refine ⟨type ▸ (coherent.statements_scoped has).2, fun m same => ⟨method, ?_⟩⟩
      rw [container m same]
      exact known
  | var _ mentioned =>
    refine ⟨objects, fun found => ?_, fun found => ?_, methods, callSites⟩
    · rcases pointer_of_internPointer found with old | same
      · exact vars old
      · cases same
        exact coherent.owned_of_mentions mentioned
    · rcases pointer_of_internPointer found with old | same
      · exact fields old
      · cases same
  | field _ accessed =>
    refine ⟨objects, fun found => ?_, fun found => ?_, methods, callSites⟩
    · rcases pointer_of_internPointer found with old | same
      · exact vars old
      · cases same
    · rcases pointer_of_internPointer found with old | same
      · exact fields old
      · cases same
        exact coherent.field_of_accesses accessed
  | method _ involved =>
    refine ⟨objects, vars, fields, fun found => ?_, callSites⟩
    rcases method_of_internMethod found with old | rfl
    · exact methods old
    · exact coherent.method_of_involves involved
  | callSite _ known =>
    refine ⟨objects, vars, fields, methods, fun found => ?_⟩
    rcases callSite_of_internCallSite found with old | rfl
    · exact callSites old
    · exact ⟨_, known⟩

/-! ### Elements of contexts -/

namespace AnalysisKind

/-- A call site that a context is made of is declared, an object has a number. -/
def Known (p : Program) : (kind : AnalysisKind) → Canon kind.Element → kind.Element → Prop
  | .insensitive, _, _ => True
  | .callSiteSensitive, _, site => ∃ call, p.callSite site = .ok call
  | .objectSensitive, c, o => ∃ id, c.object id = .ok o

/-- All contexts are made of call sites that are declared or objects that have numbers. -/
def Composed (p : Program) (kind : AnalysisKind) (c : Canon kind.Element) : Prop :=
  ∀ id context, c.context id = .ok context → ∀ e ∈ context, kind.Known p c e

variable {p : Program} {kind : AnalysisKind} {c c' : Canon kind.Element}

theorem Known.grown {e : kind.Element} (known : kind.Known p c e) (grown : c.Extends c') :
    kind.Known p c' e := by
  cases kind with
  | insensitive => trivial
  | callSiteSensitive => exact known
  | objectSensitive =>
    obtain ⟨id, held⟩ := known
    exact ⟨id, grown.object_eq held⟩

/-- A context is made of elements of the contexts that it is made from, of the call site, and of the
receiver. -/
private theorem known_of_chosen (depth : Nat) {context : Context kind.Element}
    (elements : ∀ e ∈ context, kind.Known p c e) :
    (∀ e ∈ (kind.policy depth).heap context, kind.Known p c e) ∧
    (∀ site call, p.callSite site = .ok call →
      ∀ e ∈ (kind.policy depth).call context site, kind.Known p c e) ∧
    ∀ site call context' o id, p.callSite site = .ok call → (∀ e ∈ context', kind.Known p c e) →
      c.object id = .ok o →
      ∀ e ∈ (kind.policy depth).receiverCall context site context' o, kind.Known p c e := by
  cases kind with
  | insensitive => exact ⟨fun _ _ => trivial, fun _ _ _ _ _ => trivial, fun _ _ _ _ _ _ _ _ _ _ => trivial⟩
  | callSiteSensitive =>
    refine ⟨fun e there => elements e (List.mem_of_mem_take there), fun site call found e there => ?_,
      fun site call context' o id found _ _ e there => ?_⟩
    all_goals
      rcases List.mem_cons.mp (List.mem_of_mem_take there) with rfl | there
      · exact ⟨call, found⟩
      · exact elements e there
  | objectSensitive =>
    refine ⟨fun e there => elements e (List.mem_of_mem_take there), fun _ _ _ => elements,
      fun site call context' o id _ elements' known e there => ?_⟩
    rcases List.mem_cons.mp (List.mem_of_mem_take there) with rfl | there
    · exact ⟨id, known⟩
    · exact elements' e there

theorem Composed.numbers {depth : Nat} {heap : HeapKind} (composed : kind.Composed p c)
    (numbers : (p.analysis kind depth heap).Numbers c c') : kind.Composed p c' := by
  have grown := numbers.grown
  have older (id : ContextId) (context : Context kind.Element) (held : c.context id = .ok context)
      (e : kind.Element) (there : e ∈ context) : kind.Known p c' e :=
    (composed id context held e there).grown grown
  -- Only the four ways of choosing a context add to the table of contexts.
  have interned {chosen : Context kind.Element} (known : ∀ e ∈ chosen, kind.Known p c e)
      (same : c'.contexts = (c.internContext chosen).1.contexts) : kind.Composed p c' := by
    intro id context held e there
    rw [Canon.context, same] at held
    rcases Canon.context_of_internContext held with old | rfl
    · exact older id context old e there
    · exact (known e there).grown grown
  cases numbers with
  | emptyContext => exact interned (by simp) rfl
  | heapContext named => exact interned (known_of_chosen depth (composed _ _ named)).1 rfl
  | callContext named found =>
    exact interned ((known_of_chosen depth (composed _ _ named)).2.1 _ _ found) rfl
  | receiverContext named found object =>
    obtain ⟨entry, _, heapContext, known⟩ := object
    exact interned ((known_of_chosen depth (composed _ _ named)).2.2 _ _ _ _ _ found
      (composed _ _ heapContext) known) rfl
  | object => exact older
  | contextObject => exact older
  | var => exact older
  | field => exact older
  | method => exact older
  | callSite => exact older

end AnalysisKind

/-! ### States -/

namespace Solver

open State (Change Changes Move)

variable [IdSet S .contextObject] {a : Analysis E} {s s' : State E S}

/-- The tables change by numbering only. -/
theorem State.Change.canon (change : Change a s s') :
    s'.canon = s.canon ∨ a.Numbers s.canon s'.canon := by
  cases change with
  | number numbers => exact .inr numbers
  | supply => exact .inl (sameCalls_addObject s _ _).1.canon
  | pass => exact .inl (sameCalls_addObjects s _ _).1.canon
  | wire => exact .inl (sameCalls_addFlow s _).canon
  | issue => exact .inl rfl

/-- The flow graph changes by additions of edges only. -/
theorem State.Change.flow (change : Change a s s') :
    s'.flow = s.flow ∨ ∃ e, s'.flow = (s.flow.addEdge e).1 := by
  cases change with
  | number => exact .inl rfl
  | supply => exact .inl (sameCalls_addObject s _ _).2
  | pass => exact .inl (sameCalls_addObjects s _ _).2
  | wire => exact .inr ⟨_, flow_addFlow s _⟩
  | issue => exact .inl rfl

variable [LawfulIdSet S]

/-- What a change keeps that depends on tables and flow graph alone is kept by runs. -/
private theorem State.Reachable.keeps_change (invariant : Canon E → FlowGraph → Prop)
    (empty : invariant .empty .empty)
    (change : ∀ {s s' : State E S}, invariant s.canon s.flow → Change a s s' →
      invariant s'.canon s'.flow) (reachable : s.Reachable a) : invariant s.canon s.flow := by
  have held : s.Tidy ∧ invariant s.canon s.flow := by
    refine reachable.keeps (fun s => invariant s.canon s.flow) empty ?_ ?_
    · intro s s' _ held move
      cases move with
      | change made => exact change held made
      | enter => exact held
      | skip => exact held
      | link => exact held
      | turn => exact held
    · rintro s s' p work _ held _ ⟨changes, _, _⟩
      suffices kept : ∀ s'', Changes a (s.flushed p work) s'' → invariant s''.canon s''.flow from
        kept s' changes
      intro s'' changes
      induction changes with
      | refl => exact held
      | tail _ last ih => exact change ih last
  exact held.2

/-- What numbering keeps is kept by runs. -/
theorem State.Reachable.keeps_canon (invariant : Canon E → Prop) (empty : invariant .empty)
    (numbers : ∀ {c c'}, invariant c → a.Numbers c c' → invariant c') (reachable : s.Reachable a) :
    invariant s.canon := by
  refine reachable.keeps_change (fun c _ => invariant c) empty ?_
  intro s s' held change
  rcases change.canon with same | numbered
  · exact same ▸ held
  · exact numbers held numbered

/-- The nodes of the flow graph are the ends of its edges. -/
theorem State.Reachable.spanned (reachable : s.Reachable a) : s.flow.Spanned := by
  refine reachable.keeps_change (fun _ flow => flow.Spanned) FlowGraph.spanned_empty ?_
  intro s s' spanned change
  rcases change.flow with same | ⟨e, same⟩
  · exact same ▸ spanned
  · exact same ▸ spanned.addEdge e

end Solver

variable [IdSet S .contextObject] {p : Program} {kind : AnalysisKind}

/-- Every number that a state holds has been handed out: numbers in tables stand for parts, numbers in
queues, sets and graphs for entries of the tables, and ends of edges are nodes. -/
structure Solver.State.InRange (p : Program) (s : State kind.Element S) : Prop where
  sound : s.canon.Sound
  declared : s.canon.Declared p
  composed : kind.Composed p s.canon
  waiting : ∀ q ∈ s.work.pointers.toList, ∃ l, s.canon.Locates q l
  holds : ∀ {q o}, s.pointsTo.Knows q o →
    (∃ l, s.canon.Locates q l) ∧ ∃ object, s.canon.Names o object
  flow_nodes : ∀ q ∈ s.flow.nodes.toList, ∃ l, s.canon.Locates q l
  flow_edges : ∀ e ∈ s.flow.edges.toList,
    e.source ∈ s.flow.nodes.toList ∧ e.target ∈ s.flow.nodes.toList
  call_nodes : ∀ id ∈ s.calls.nodes.toList, ∃ c m, s.canon.Enters id c m
  entries : ∀ id ∈ s.calls.entries.toList, id ∈ s.calls.nodes.toList
  reached : ∀ id ∈ s.calls.reached.toList, id ∈ s.calls.nodes.toList
  call_edges : ∀ e ∈ s.calls.edges.toList, e.caller ∈ s.calls.nodes.toList ∧
    e.callee ∈ s.calls.nodes.toList ∧ ∃ c site, s.canon.CallsAt e.site c site
  pushed : ∀ e ∈ s.work.callEdges.toList, (∃ c m, s.canon.Enters e.caller c m) ∧
    (∃ c m, s.canon.Enters e.callee c m) ∧ ∃ c site, s.canon.CallsAt e.site c site

/-- In every state of a run on a coherent program, whatever the contexts are made of, all numbers are in
range. -/
theorem Solver.State.Reachable.inRange [LawfulIdSet S] (coherent : p.Coherent) {depth : Nat}
    {heap : HeapKind} {s : State kind.Element S}
    (reachable : s.Reachable (p.analysis kind depth heap)) : s.InRange p := by
  have coherent' := coherent.analysis kind depth heap
  have invariant := reachable.invariant coherent'
  have guided := reachable.guided coherent
  have spanned := reachable.spanned
  have held {q : PointerId} {o : ContextObjectId} (known : s.pointsTo.Knows q o) :
      (∃ l, s.canon.Locates q l) ∧ ∃ object, s.canon.Names o object := by
    obtain ⟨l, object, located, named, _⟩ := invariant.grounded.holds known
    exact ⟨⟨l, located⟩, object, named⟩
  have composed := reachable.keeps_canon (kind.Composed p)
    (fun _ _ found => by cases found) fun composed => composed.numbers
  refine ⟨reachable.tidy.sound.canon, reachable.keeps_canon _ (Canon.declared_empty p) fun declared =>
    declared.numbers coherent heap.model_local, composed, fun q waits => ?_, held, fun q there => ?_,
    fun e there => ?_, fun id there => ?_, fun id marked => ?_, fun id there => ?_, fun e there => ?_,
    fun e there => ?_⟩
  · obtain ⟨o, pending⟩ := (invariant.scheduled.waiting_iff q).mp waits
    exact (held (.inl pending)).1
  · obtain ⟨e, listed, ends⟩ := (spanned q).mp there
    obtain ⟨source, target, fromSource, toTarget, _⟩ := invariant.grounded.flows listed
    rcases ends with rfl | rfl
    · exact ⟨source, fromSource⟩
    · exact ⟨target, toTarget⟩
  · exact ⟨(spanned _).mpr ⟨e, there, .inl rfl⟩, (spanned _).mpr ⟨e, there, .inr rfl⟩⟩
  · obtain ⟨c, m, entered, _⟩ := invariant.grounded.reaches ((guided.nodes_iff id).mp there)
    exact ⟨c, m, entered⟩
  · exact (guided.nodes_iff id).mpr (reachable.reached_of_entry coherent' marked)
  · exact (guided.nodes_iff id).mpr there
  · obtain ⟨caller, callee⟩ := guided.closed e there
    obtain ⟨c, site, _, _, _, placed, _⟩ := invariant.grounded.calls there
    exact ⟨(guided.nodes_iff _).mpr caller, (guided.nodes_iff _).mpr callee, c, site, placed⟩
  · obtain ⟨c, site, c', m, call, placed, entered, _, within, _⟩ := invariant.grounded.queued there
    exact ⟨⟨c, _, within⟩, ⟨c', m, entered⟩, c, site, placed⟩

end PointerAnalysis
