import PointerAnalysis.Proofs.WakeUps

/-! The call graph is the reachable graph. The object in `this` comes before its method: it may be passed
on, and calls on it may be queued, while the call edge that makes the method reachable still waits. But
that edge was queued first, and the queue keeps its order, so a method is reachable by the time that a
call edge which starts in it is taken. -/
namespace PointerAnalysis.Solver

open State (Change Changes Move Carries Issues Wires Supplies)

variable {E S : Type} [Coded E] [IdSet S .contextObject] {a : Analysis E} {s s' : State E S}

namespace State

/-- A method under a context is reachable, or a queued call edge enters it. -/
def Expected (s : State E S) (id : ContextMethodId) : Prop :=
  id ∈ s.calls.reached.toList ∨ ∃ e ∈ s.work.queuedCalls, e.callee = id

/-- A pointer is a field, or a variable of an expected method under the context of the method. -/
inductive Hosts (p : Program) (s : State E S) : Pointer → Prop where
  | field {o : ContextObjectId} {f : FieldId} : Hosts p s (.field o f)
  | var {c : ContextId} {v : VarId} {m : MethodId} {id : ContextMethodId} :
      p.Owns m v → s.canon.method id = .ok ⟨c, m⟩ → s.Expected id → Hosts p s (.var c v)

/-- A pointer has an object, or a flow edge leads to it. -/
def Touched (s : State E S) (q : PointerId) : Prop :=
  (∃ o, s.pointsTo.Knows q o) ∨ ∃ e ∈ s.flow.edges.toList, e.target = q

/-- A call edge starts in the method that holds its call, under the context of the call. -/
def Placed (p : Program) (s : State E S) (e : ContextCallEdge) : Prop :=
  ∃ c site call, s.canon.callSite e.site = .ok ⟨c, site⟩ ∧ p.callSite site = .ok call ∧
    s.canon.method e.caller = .ok ⟨c, call.container⟩

/-- An edge of the call graph leads from one method under a context to another. -/
def CallsTo (s : State E S) (caller callee : ContextMethodId) : Prop :=
  ∃ e ∈ s.calls.edges.toList, e.caller = caller ∧ e.callee = callee

/-- A method under a context lies on a path of call edges from an entry. -/
def Rooted (s : State E S) (id : ContextMethodId) : Prop :=
  ∃ entry ∈ s.calls.entries.toList, Relation.ReflTransGen s.CallsTo entry id

/-- Call edges come in an order in which their callers become reachable before them. -/
structure Guided (p : Program) (s : State E S) : Prop where
  closed : ∀ e ∈ s.calls.edges.toList,
    e.caller ∈ s.calls.reached.toList ∧ e.callee ∈ s.calls.reached.toList
  placed : ∀ e, e ∈ s.calls.edges.toList ∨ e ∈ s.work.queuedCalls → s.Placed p e
  /-- The caller of a queued edge is reachable, or an edge before it in the queue enters it. -/
  led : ∀ before e, before ++ [e] <+: s.work.queuedCalls →
    e.caller ∈ s.calls.reached.toList ∨ ∃ e' ∈ before, e'.callee = e.caller
  hosted : ∀ q, s.Touched q → ∃ pointer, s.canon.pointer q = .ok pointer ∧ s.Hosts p pointer
  rooted : ∀ id ∈ s.calls.reached.toList, s.Rooted id
  nodes_iff : ∀ id, id ∈ s.calls.nodes.toList ↔ id ∈ s.calls.reached.toList

omit [IdSet S .contextObject] in
theorem Hosts.mono {p : Program} {pointer : Pointer} (hosts : s.Hosts p pointer)
    (canon : s.canon.Extends s'.canon) (expected : ∀ id, s.Expected id → s'.Expected id) :
    s'.Hosts p pointer := by
  cases hosts with
  | field => exact .field
  | var owns entered waits => exact .var owns (canon.method_eq entered) (expected _ waits)

omit [IdSet S .contextObject] in
theorem Placed.mono {p : Program} {e : ContextCallEdge} (placed : s.Placed p e)
    (canon : s.canon.Extends s'.canon) : s'.Placed p e := by
  obtain ⟨c, site, call, at_, found, within⟩ := placed
  exact ⟨c, site, call, canon.callSite_eq at_, found, canon.method_eq within⟩

omit [IdSet S .contextObject] in
theorem Rooted.mono {id : ContextMethodId} (rooted : s.Rooted id)
    (entries : s.calls.entries.toList ⊆ s'.calls.entries.toList)
    (edges : s.calls.edges.toList ⊆ s'.calls.edges.toList) : s'.Rooted id := by
  obtain ⟨entry, listed, path⟩ := rooted
  refine ⟨entry, entries listed, ?_⟩
  have more : ∀ x y, s.CallsTo x y → s'.CallsTo x y :=
    fun x y ⟨e, there, same⟩ => ⟨e, edges there, same⟩
  exact Relation.ReflTransGen.mono more _ _ path

namespace Guided

variable {p : Program} (guided : s.Guided p)
include guided

theorem of_passed {c : ContextId} {v : VarId} {o : ContextObjectId} (passed : s.Passed c v o) :
    ∃ m id, p.Owns m v ∧ s.canon.method id = .ok ⟨c, m⟩ ∧ s.Expected id := by
  obtain ⟨q, located, propagated⟩ := passed
  obtain ⟨pointer, located', hosts⟩ := guided.hosted q (.inl ⟨o, .inr propagated⟩)
  cases located.symm.trans located'
  cases hosts with
  | var owns entered expected => exact ⟨_, _, owns, entered, expected⟩

/-- The caller of the next call edge is reachable. -/
theorem caller_reached {e : ContextCallEdge} {others : List ContextCallEdge}
    (queued : s.work.queuedCalls = e :: others) : e.caller ∈ s.calls.reached.toList := by
  have first : [] ++ [e] <+: s.work.queuedCalls := by
    rw [queued]
    exact ⟨others, rfl⟩
  rcases guided.led [] e first with reached | ⟨e', there, _⟩
  · exact reached
  · cases there

/-- What is done to sets, numbers and flow edges does not matter to the calls, as long as a pointer
that is touched for the first time is one that an expected method may use. -/
private theorem of_growth (grows : s.Grows s') (same : s.work.queuedCalls = s'.work.queuedCalls)
    (touched : ∀ q, s'.Touched q → s.Touched q ∨
      ∃ pointer, s'.canon.pointer q = .ok pointer ∧ s.Hosts p pointer) : s'.Guided p := by
  have expected (id : ContextMethodId) (waits : s.Expected id) : s'.Expected id := by
    unfold Expected at waits ⊢
    rwa [grows.calls, ← same]
  refine ⟨?_, ?_, ?_, fun q touches => ?_, ?_, ?_⟩
  · rw [grows.calls]
    exact guided.closed
  · rw [grows.calls, ← same]
    exact fun e there => (guided.placed e there).mono grows.canon
  · rw [grows.calls, ← same]
    exact guided.led
  · rcases touched q touches with old | ⟨pointer, located, hosts⟩
    · obtain ⟨pointer, located, hosts⟩ := guided.hosted q old
      exact ⟨pointer, grows.canon.pointer_eq located, hosts.mono grows.canon expected⟩
    · exact ⟨pointer, located, hosts.mono grows.canon expected⟩
  · rw [grows.calls]
    intro id reached
    exact (guided.rooted id reached).mono (grows.calls ▸ List.Subset.refl _)
      (grows.calls ▸ List.Subset.refl _)
  · rw [grows.calls]
    exact guided.nodes_iff

/-- An object that is supplied goes to a variable of an expected method. -/
private theorem hosts_of_supplies (coherent : a.program.Coherent) (same : a.program = p)
    {pointer : Pointer} {o : ContextObjectId} (supplies : Supplies a s pointer o) :
    s.Hosts p pointer := by
  subst same
  cases supplies with
  | alloc runs has =>
    obtain ⟨id, reached, entered⟩ := runs
    exact .var (coherent.statements_scoped has).1 entered (.inl reached)
  | this queued entered found this =>
    exact .var ((coherent.methods found).this_owned this) entered (.inr ⟨_, queued, rfl⟩)

/-- A flow edge leads to a field or to a variable of an expected method. -/
private theorem hosts_of_wires (coherent : a.program.Coherent) (same : a.program = p)
    {source target : Pointer} {kind : FlowKind} (wires : Wires a s source target kind) :
    s.Hosts p target := by
  subst same
  cases wires with
  | assign runs has =>
    obtain ⟨id, reached, entered⟩ := runs
    exact .var (coherent.statements_scoped has).1 entered (.inl reached)
  | store => exact .field
  | load passed found listed =>
    obtain ⟨m, id, ⟨var, found', rfl⟩, entered, expected⟩ := guided.of_passed passed
    cases found.symm.trans found'
    have has := ((coherent.vars found).loads_iff _ _).mp listed
    exact .var (coherent.statements_scoped has).1 entered expected
  | param there placed entered found declared listed =>
    exact .var ((coherent.methods declared).params_owned _ (List.of_mem_zip listed).2) entered
      (.inl (guided.closed _ there).2)
  | «return» there placed entered found declared listed result =>
    obtain ⟨c, site, call, placed', found', within⟩ := guided.placed _ (.inl there)
    cases placed.symm.trans placed'
    cases found.symm.trans found'
    exact .var ((coherent.calls found).result_owned result) within (.inl (guided.closed _ there).1)

/-- The method that holds a call is expected when the call is carried out. -/
private theorem expected_of_carries (coherent : a.program.Coherent) (same : a.program = p)
    {c calleeContext : ContextId} {site : CallSiteId} {call : CallSite} {callee : MethodId}
    {caller : ContextMethodId} (carries : Carries a s c site calleeContext callee)
    (found : a.program.callSite site = .ok call)
    (within : s.canon.method caller = .ok ⟨c, call.container⟩) : s.Expected caller := by
  subst same
  cases carries with
  | alone runs has =>
    obtain ⟨call', found', rfl⟩ := coherent.statements_scoped has
    cases found.symm.trans found'
    obtain ⟨id, reached, entered⟩ := runs
    cases Canon.method_injective entered within
    exact .inl reached
  | onObject passed var_found listed =>
    obtain ⟨m, id, owns, entered, expected⟩ := guided.of_passed passed
    obtain ⟨call', found', receiver⟩ := ((coherent.vars var_found).calls_iff _).mp listed
    cases found.symm.trans found'
    obtain ⟨var, var_found, rfl⟩ := owns
    obtain ⟨var', var_found', same⟩ := (coherent.calls found).receiver_owned receiver
    cases var_found.symm.trans var_found'
    rw [← same] at within
    cases Canon.method_injective entered within
    exact expected

variable [LawfulIdSet S] (coherent : a.program.Coherent) (same : a.program = p)
include coherent same

omit [LawfulIdSet S] in
/-- A call edge is put behind the edges on which its caller waits. -/
private theorem issued {e : ContextCallEdge} (issues : Issues a s e) :
    State.Guided p { s with work := s.work.pushCallEdge e } := by
  obtain ⟨c, site, call, calleeContext, callee, placed, found, within, _, _, carries⟩ := issues
  have waits := guided.expected_of_carries coherent same carries found within
  have queue : (s.work.pushCallEdge e).queuedCalls = s.work.queuedCalls ++ [e] :=
    WorkList.queuedCalls_pushCallEdge s.work e
  have expected (id : ContextMethodId) (waits : s.Expected id) :
      State.Expected { s with work := s.work.pushCallEdge e } id := by
    refine waits.imp_right ?_
    rintro ⟨e', queued, enters⟩
    exact ⟨e', by simp [queued], enters⟩
  refine ⟨guided.closed, fun e' there => ?_, fun before e' front => ?_, fun q touches => ?_,
    guided.rooted, guided.nodes_iff⟩
  · rw [queue, List.mem_append, List.mem_singleton] at there
    rcases there with known | queued | rfl
    · exact guided.placed e' (.inl known)
    · exact guided.placed e' (.inr queued)
    · exact ⟨c, site, call, placed, same ▸ found, within⟩
  · rw [queue, List.prefix_concat_iff, List.append_singleton_inj] at front
    rcases front with ⟨rfl, rfl⟩ | front
    · exact waits
    · exact guided.led before e' front
  · obtain ⟨pointer, located, hosts⟩ := guided.hosted q touches
    exact ⟨pointer, located, hosts.mono (.refl _) expected⟩

theorem change (change : Change a s s') : s'.Guided p := by
  have grows := change.grows
  cases change with
  | number => exact guided.of_growth grows rfl fun q touches => .inl touches
  | @supply q pointer o located supplies =>
    obtain ⟨calls, flow⟩ := sameCalls_addObject s q o
    refine guided.of_growth grows (by simp [WorkList.queuedCalls, calls.pushed, calls.place]) ?_
    rintro q' (⟨o', known⟩ | leads)
    · rcases (knows_addObject s).mp known with old | ⟨rfl, _⟩
      · exact .inl (.inl ⟨o', old⟩)
      · exact .inr ⟨pointer, grows.canon.pointer_eq located,
          guided.hosts_of_supplies coherent same supplies⟩
    · exact .inl (.inr (flow ▸ leads))
  | @pass e objects there passed =>
    obtain ⟨calls, flow⟩ := sameCalls_addObjects s e.target objects
    refine guided.of_growth grows (by simp [WorkList.queuedCalls, calls.pushed, calls.place]) ?_
    rintro q' (⟨o', known⟩ | leads)
    · rcases (knows_addObjects s).mp known with old | ⟨rfl, _⟩
      · exact .inl (.inl ⟨o', old⟩)
      · exact .inl (.inr ⟨e, there, rfl⟩)
    · exact .inl (.inr (flow ▸ leads))
  | @wire e source target fromSource toTarget wires =>
    have calls := sameCalls_addFlow s e
    have new : ∃ pointer, (s.addFlow e).canon.pointer e.target = .ok pointer ∧ s.Hosts p pointer :=
      ⟨target, grows.canon.pointer_eq toTarget, guided.hosts_of_wires coherent same wires⟩
    refine guided.of_growth grows (by simp [WorkList.queuedCalls, calls.pushed, calls.place]) ?_
    rintro q' (⟨o', known⟩ | ⟨e', there, rfl⟩)
    · rcases knows_addFlow known with old | ⟨rfl, _⟩
      · exact .inl (.inl ⟨o', old⟩)
      · exact .inr new
    · rcases edges_addFlow there with old | rfl
      · exact .inl (.inr ⟨e', old, rfl⟩)
      · exact .inr new
  | issue issues => exact guided.issued coherent same issues

theorem changes (changes : Changes a s s') : s'.Guided p := by
  induction changes with
  | refl => exact guided
  | tail _ change ih => exact ih.change coherent same change

omit [LawfulIdSet S] coherent same

/-- The method that an entry marks is reachable with an empty path. -/
private theorem entering (id : ContextMethodId) : (s.entering id).Guided p := by
  have reached {id' : ContextMethodId} : id' ∈ (s.entering id).calls.reached.toList ↔
      id' ∈ s.calls.reached.toList ∨ id' = id := CallGraph.mem_reached_addReached
  have edges : (s.entering id).calls.edges = s.calls.edges :=
    (CallGraph.edges_addReached _ _).trans (CallGraph.edges_addEntry _ _)
  have entries {id' : ContextMethodId} : id' ∈ (s.entering id).calls.entries.toList ↔
      id' ∈ s.calls.entries.toList ∨ id' = id := by
    show id' ∈ ((s.calls.addEntry id).addReached id).1.entries.toList ↔ _
    rw [CallGraph.entries_addReached]
    exact Registry.mem_toList_register
  have marked {id' : ContextMethodId} : id' ∈ (s.calls.addEntry id).nodes.toList ↔
      id' ∈ s.calls.nodes.toList ∨ id' = id := Registry.mem_toList_register
  have expected (id' : ContextMethodId) (waits : s.Expected id') : (s.entering id).Expected id' :=
    waits.imp_left fun old => reached.mpr (.inl old)
  refine ⟨fun e there => ?_, fun e there => ?_, fun before e front => ?_, fun q touches => ?_,
    fun id' there => ?_, fun id' => ?_⟩
  · rw [edges] at there
    have ends := guided.closed e there
    exact ⟨reached.mpr (.inl ends.1), reached.mpr (.inl ends.2)⟩
  · rw [edges] at there
    exact guided.placed e there
  · exact (guided.led before e front).imp_left fun old => reached.mpr (.inl old)
  · obtain ⟨pointer, located, hosts⟩ := guided.hosted q touches
    exact ⟨pointer, located, hosts.mono (.refl _) expected⟩
  · rcases reached.mp there with old | rfl
    · exact (guided.rooted id' old).mono (fun _ listed => entries.mpr (.inl listed))
        (edges ▸ List.Subset.refl _)
    · exact ⟨id', entries.mpr (.inr rfl), .refl⟩
  · show id' ∈ ((s.calls.addEntry id).addReached id).1.nodes.toList ↔ _
    rw [CallGraph.mem_nodes_addReached fun _ => marked.mpr (.inr rfl), marked, reached,
      guided.nodes_iff, or_assoc, or_self]

/-- What waits behind the call edge that is taken waits behind nothing more if the callee of that edge
is reachable. -/
private theorem led_of_taken {e : ContextCallEdge} {others : List ContextCallEdge}
    (queued : s.work.queuedCalls = e :: others) {before : List ContextCallEdge} {e' : ContextCallEdge}
    (front : before ++ [e'] <+: others) :
    (e'.caller ∈ s.calls.reached.toList ∨ e'.caller = e.callee) ∨
      ∃ e'' ∈ before, e''.callee = e'.caller := by
  have whole : (e :: before) ++ [e'] <+: s.work.queuedCalls := by
    rw [queued]
    exact List.cons_prefix_cons.mpr ⟨rfl, front⟩
  rcases guided.led (e :: before) e' whole with reached | ⟨e'', there, enters⟩
  · exact .inl (.inl reached)
  · rcases List.mem_cons.mp there with rfl | there
    · exact .inl (.inr enters.symm)
    · exact .inr ⟨e'', there, enters⟩

omit guided [IdSet S .contextObject] in
/-- What is expected waits behind the call edge that is taken, if it is not what this edge enters. -/
private theorem expected_of_taken {e : ContextCallEdge} {others : List ContextCallEdge}
    (queued : s.work.queuedCalls = e :: others) {id : ContextMethodId} (waits : s.Expected id) :
    (id ∈ s.calls.reached.toList ∨ id = e.callee) ∨ ∃ e' ∈ others, e'.callee = id := by
  rcases waits with old | ⟨e', there, rfl⟩
  · exact .inl (.inl old)
  · rw [queued, List.mem_cons] at there
    rcases there with rfl | there
    · exact .inl (.inr rfl)
    · exact .inr ⟨e', there, rfl⟩

private theorem skipped {e : ContextCallEdge} {others : List ContextCallEdge}
    (queued : s.work.queuedCalls = e :: others) (known : s.calls.contains e = true) :
    State.Guided p { s with work := s.work.popCallEdge?.2 } := by
  have rest := (WorkList.popCallEdge?_of_queuedCalls_eq_cons queued).2
  obtain ⟨e₀, there₀, _, callee⟩ := CallGraph.contains_iff.mp known
  have reached : e.callee ∈ s.calls.reached.toList := callee ▸ (guided.closed e₀ there₀).2
  have expected (id : ContextMethodId) (waits : s.Expected id) :
      State.Expected { s with work := s.work.popCallEdge?.2 } id := by
    rcases expected_of_taken queued waits with (old | same) | later
    · exact .inl old
    · exact .inl (same ▸ reached)
    · exact .inr (rest ▸ later)
  refine ⟨guided.closed, fun e' there => ?_, fun before e' front => ?_, fun q touches => ?_,
    guided.rooted, guided.nodes_iff⟩
  · refine guided.placed e' (there.imp_right fun waits => ?_)
    rw [queued]
    exact List.mem_cons_of_mem _ (rest ▸ waits)
  · refine (guided.led_of_taken queued (rest ▸ front)).imp_left ?_
    rintro (old | same)
    · exact old
    · exact same ▸ reached
  · obtain ⟨pointer, located, hosts⟩ := guided.hosted q touches
    exact ⟨pointer, located, hosts.mono (.refl _) expected⟩

/-- A new call edge starts in a reachable method, so it continues a path. -/
private theorem linked {e : ContextCallEdge} {others : List ContextCallEdge}
    (queued : s.work.queuedCalls = e :: others) (new : s.calls.contains e = false) :
    (s.linked e).Guided p := by
  have rest := (WorkList.popCallEdge?_of_queuedCalls_eq_cons queued).2
  have caller := guided.caller_reached queued
  have edges := edges_linked new
  have reached {id : ContextMethodId} : id ∈ (s.linked e).calls.reached.toList ↔
      id ∈ s.calls.reached.toList ∨ id = e.callee := by
    show id ∈ ((s.calls.addEdge e).1.addReached e.callee).1.reached.toList ↔ _
    rw [CallGraph.mem_reached_addReached, CallGraph.reached_addEdge]
  have entries : (s.linked e).calls.entries = s.calls.entries :=
    (CallGraph.entries_addReached _ _).trans (CallGraph.entries_addEdge _ _)
  have joined {id : ContextMethodId} : id ∈ (s.calls.addEdge e).1.nodes.toList ↔
      id ∈ s.calls.nodes.toList ∨ id = e.callee := by
    rw [CallGraph.mem_nodes_addEdge new, guided.nodes_iff]
    constructor
    · rintro (old | rfl | rfl)
      · exact .inl old
      · exact .inl caller
      · exact .inr rfl
    · exact Or.imp_right .inr
  have expected (id : ContextMethodId) (waits : s.Expected id) : (s.linked e).Expected id := by
    rcases expected_of_taken queued waits with known | later
    · exact .inl (reached.mpr known)
    · exact .inr (rest ▸ later)
  have onwards {id : ContextMethodId} (rooted : s.Rooted id) : (s.linked e).Rooted id :=
    rooted.mono (entries ▸ List.Subset.refl _) (edges ▸ List.subset_append_left _ _)
  refine ⟨fun e' there => ?_, fun e' there => ?_, fun before e' front => ?_, fun q touches => ?_,
    fun id there => ?_, fun id => ?_⟩
  · rw [edges, List.mem_append, List.mem_singleton] at there
    rcases there with old | rfl
    · have ends := guided.closed e' old
      exact ⟨reached.mpr (.inl ends.1), reached.mpr (.inl ends.2)⟩
    · exact ⟨reached.mpr (.inl caller), reached.mpr (.inr rfl)⟩
  · rw [edges, List.mem_append, List.mem_singleton] at there
    rcases there with (old | rfl) | waits
    · exact guided.placed e' (.inl old)
    · exact guided.placed e' (.inr (queued ▸ List.mem_cons_self))
    · exact guided.placed e' (.inr (queued ▸ List.mem_cons_of_mem _ (rest ▸ waits)))
  · exact (guided.led_of_taken queued (rest ▸ front)).imp_left reached.mpr
  · obtain ⟨pointer, located, hosts⟩ := guided.hosted q touches
    exact ⟨pointer, located, hosts.mono (.refl _) expected⟩
  · rcases reached.mp there with old | rfl
    · exact onwards (guided.rooted id old)
    · obtain ⟨entry, listed, path⟩ := onwards (guided.rooted _ caller)
      exact ⟨entry, listed, path.tail ⟨e, by simp [edges], rfl, rfl⟩⟩
  · show id ∈ ((s.calls.addEdge e).1.addReached e.callee).1.nodes.toList ↔ _
    rw [CallGraph.mem_nodes_addReached fun _ => joined.mpr (.inr rfl), joined, reached,
      guided.nodes_iff, or_assoc, or_self]

variable [LawfulIdSet S]

theorem move (coherent : a.program.Coherent) (same : a.program = p) (move : Move a s s') :
    s'.Guided p := by
  cases move with
  | change change => exact guided.change coherent same change
  | enter => exact guided.entering _
  | skip queued known => exact guided.skipped queued known
  | link queued new => exact guided.linked queued new
  | turn =>
    refine ⟨guided.closed, guided.placed, guided.led, fun q touches => ?_, guided.rooted,
      guided.nodes_iff⟩
    obtain ⟨pointer, located, hosts⟩ := guided.hosted q touches
    exact ⟨pointer, located, hosts.mono (.refl _) fun _ waits => waits⟩

/-- A pointer that is taken from its queue stays where it is hosted. -/
theorem flushed {q : PointerId} {work : WorkList} (popped : s.work.popPointer? = some (q, work)) :
    (s.flushed q work).Guided p := by
  obtain ⟨_, edges, place⟩ := WorkList.popPointer?_eq_some popped
  have queue : work.queuedCalls = s.work.queuedCalls := by
    simp only [WorkList.queuedCalls, edges, place]
  have expected (id : ContextMethodId) (waits : s.Expected id) : (s.flushed q work).Expected id :=
    waits.imp_right fun waits => queue ▸ waits
  refine ⟨guided.closed, fun e there => ?_, fun before e front => ?_, fun q' touches => ?_,
    guided.rooted, guided.nodes_iff⟩
  · exact guided.placed e (there.imp_right (queue ▸ ·))
  · exact guided.led before e (queue ▸ front)
  · have touched : s.Touched q' :=
      touches.imp_left (Exists.imp fun _ => PointsToData.knows_flush.mp)
    obtain ⟨pointer, located, hosts⟩ := guided.hosted q' touched
    exact ⟨pointer, located, hosts.mono (.refl _) expected⟩

end Guided

theorem guided_empty (p : Program) [LawfulIdSet S] : (State.empty : State E S).Guided p where
  closed e there := by cases there
  placed e there := by
    rcases there with there | there
    · cases there
    · cases there
  led before e front := by
    have nothing : (State.empty : State E S).work.queuedCalls = [] := rfl
    rw [nothing] at front
    simp at front
  hosted q touches := by
    rcases touches with ⟨o, pending | propagated⟩ | ⟨e, there, _⟩
    · simp [empty] at pending
    · simp [empty] at propagated
    · cases there
  rooted id there := by cases there
  nodes_iff id := Iff.rfl

/-- The call graph is the graph of what can be reached from the entries of a program. -/
structure CallsReachable (p : Program) (s : State E S) : Prop where
  /-- Call edges lead between reachable methods. -/
  caller_reached : ∀ e ∈ s.calls.edges.toList, e.caller ∈ s.calls.reached.toList
  callee_reached : ∀ e ∈ s.calls.edges.toList, e.callee ∈ s.calls.reached.toList
  /-- The entries are those of the program, under the empty context. -/
  entry_iff : ∀ id, id ∈ s.calls.entries.toList ↔ ∃ m ∈ p.entries, s.canon.Enters id [] m
  /-- The reachable methods are those on a path of call edges from an entry. -/
  reached_iff : ∀ id, id ∈ s.calls.reached.toList ↔
    ∃ entry ∈ s.calls.entries.toList, Relation.ReflTransGen s.CallsTo entry id
  /-- The nodes of the graph are the reachable methods. -/
  nodes_iff : ∀ id, id ∈ s.calls.nodes.toList ↔ id ∈ s.calls.reached.toList
  nodes_size : s.calls.nodes.size = s.calls.reached.size
  /-- The call edge that is taken next starts in a reachable method. -/
  next_reached : ∀ e others, s.work.queuedCalls = e :: others →
    e.caller ∈ s.calls.reached.toList

/-- Nothing but reachable methods lies on a path from a reachable one. -/
theorem Guided.reached_of_path {p : Program} (guided : s.Guided p) {caller callee : ContextMethodId}
    (reached : caller ∈ s.calls.reached.toList)
    (path : Relation.ReflTransGen s.CallsTo caller callee) : callee ∈ s.calls.reached.toList := by
  induction path with
  | refl => exact reached
  | tail _ last =>
    obtain ⟨e, there, _, rfl⟩ := last
    exact (guided.closed e there).2

end State

/-- Every state of a run on a coherent program takes call edges in the order in which methods become
reachable. -/
theorem State.Reachable.guided [LawfulIdSet S] (coherent : a.program.Coherent)
    (reachable : s.Reachable a) : s.Guided a.program :=
  (reachable.keeps _ (State.guided_empty a.program)
    (fun _ guided move => guided.move coherent rfl move)
    fun _ guided popped passes => (guided.flushed popped).changes coherent rfl passes.changes).2

section Entries

variable [LawfulIdSet S] (coherent : a.Coherent) (reachable : s.Reachable a)
include coherent reachable

/-- An entry method is marked as an entry, and reachable, under the empty context. -/
private theorem State.Reachable.entry_marked {m : MethodId} (listed : m ∈ a.program.entries) :
    ∃ id ∈ s.calls.entries.toList, s.canon.Enters id [] m ∧ id ∈ s.calls.reached.toList := by
  obtain ⟨shows, id, marked, entered⟩ :=
    reachable.entered coherent m (Array.mem_toList_iff.mpr listed)
  have recorded : s.Records (.reached [] m) := by
    rcases shows with recorded | awaited
    · exact recorded
    · cases awaited
  cases recorded with
  | reached there entered' =>
    cases entered.injective entered'
    exact ⟨id, marked, entered, there⟩

theorem State.Reachable.entry_iff (id : ContextMethodId) :
    id ∈ s.calls.entries.toList ↔ ∃ m ∈ a.program.entries, s.canon.Enters id [] m := by
  constructor
  · exact (reachable.invariant coherent).grounded.starts
  · rintro ⟨m, listed, entered⟩
    obtain ⟨id', marked, entered', _⟩ := reachable.entry_marked coherent listed
    exact entered.injective entered' ▸ marked

/-- An entry is reachable. -/
theorem State.Reachable.reached_of_entry {id : ContextMethodId}
    (marked : id ∈ s.calls.entries.toList) : id ∈ s.calls.reached.toList := by
  obtain ⟨m, listed, entered⟩ := (reachable.entry_iff coherent id).mp marked
  obtain ⟨id', _, entered', reached⟩ := reachable.entry_marked coherent listed
  exact entered.injective entered' ▸ reached

theorem State.Reachable.callsReachable : s.CallsReachable a.program := by
  have guided := reachable.guided coherent.program
  refine ⟨fun e there => (guided.closed e there).1, fun e there => (guided.closed e there).2,
    reachable.entry_iff coherent, fun id => ⟨guided.rooted id, ?_⟩, guided.nodes_iff, ?_,
    fun e others => guided.caller_reached⟩
  · rintro ⟨entry, marked, path⟩
    exact guided.reached_of_path (reachable.reached_of_entry coherent marked) path
  · have same : s.calls.nodes.toList.Perm s.calls.reached.toList :=
      (List.perm_ext_iff_of_nodup (Registry.nodup_toList _) (Registry.nodup_toList _)).mpr
        guided.nodes_iff
    simpa [Registry.toList, Registry.size] using same.length_eq

end Entries

section Described

variable {described : Described.Program} {p : Program} (loaded : described.link = .ok p)
  (kind : AnalysisKind) (depth : Nat) (heap : HeapKind) {S : Type} [IdSet S .contextObject]
  [LawfulIdSet S]
include loaded

/-- In every state of a run the call graph consists of the methods that call edges lead to from the
entries, and the next call edge in the queue starts in one of them. -/
theorem call_graph_is_reachable_graph {s : State kind.Element S}
    (reachable : s.Reachable (p.analysis kind depth heap)) : s.CallsReachable p :=
  reachable.callsReachable (p.analysis_coherent loaded kind depth heap)

end Described

theorem call_graph_is_reachable_graph_boxes : ∃ p r, boxes.link = .ok p ∧
    (p.analysis .objectSensitive 1 .perSite).solve (HybridSet .contextObject) = .ok r ∧
      r.state.CallsReachable p := by
  obtain ⟨p, r, loaded, solved⟩ := boxes_solved
  obtain ⟨_, reachable, _⟩ :=
    Analysis.solve_reachable (p.analysis_coherent loaded .objectSensitive 1 .perSite) solved
  exact ⟨p, r, loaded, solved,
    call_graph_is_reachable_graph loaded .objectSensitive 1 .perSite reachable⟩

end PointerAnalysis.Solver
