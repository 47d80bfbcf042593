import PointerAnalysis.Proofs.Lists
import PointerAnalysis.Proofs.Program.Coherent
import PointerAnalysis.Proofs.Solver.Outcome
import PointerAnalysis.Proofs.Solver.State
import PointerAnalysis.Solver.Run

/-! How many call edges a computation queues. Edges repeat in the queue, so what bounds it is the
number of their causes: a method that becomes reachable queues its calls without receiver once, and
an object that a variable passes on queues each call on that variable once. -/
namespace PointerAnalysis

/-- There are no more different ids than numbers below their bound. -/
theorem Id.length_le {kind : Entity} {ids : List (Id kind)} {bound : Nat} (nodup : ids.Nodup)
    (below : ∀ id ∈ ids, id.index < bound) : ids.length ≤ bound := by
  have injective {id id' : Id kind} {i : Nat} (first : id.index = i) (second : id'.index = i) :
      id = id' := Id.ext (first.trans second.symm)
  have fits : ids.length ≤ (List.range bound).length :=
    length_le_of_injective (R := fun (id : Id kind) i => id.index = i) injective nodup
      fun id there => ⟨id.index, List.mem_range.mpr (below id there), rfl⟩
  rwa [List.length_range] at fits

namespace Program.Coherent

variable {p : Program} (coherent : p.Coherent)
include coherent

/-- A method has no more calls than the program. -/
theorem calls_of_method_le {m : MethodId} {method : Method} (found : p.method m = .ok method) :
    (method.body.toList.filterMap Statement.callSite?).length ≤ p.callSites.size := by
  refine Id.length_le (coherent.methods found).calls_once fun site there => ?_
  obtain ⟨s, there, same⟩ := List.mem_filterMap.mp there
  cases s <;> cases same
  obtain ⟨call, known, _⟩ := (coherent.methods found).statements_scoped _ there
  exact Id.index_lt_of_lookup known

/-- No more calls go through a variable than the program has. -/
theorem calls_of_var_le {v : VarId} {var : Variable} (found : p.var v = .ok var) :
    var.calls.toList.length ≤ p.callSites.size := by
  refine Id.length_le (coherent.vars found).calls_once fun site there => ?_
  obtain ⟨call, known, _⟩ := ((coherent.vars found).calls_iff site).mp there
  exact Id.index_lt_of_lookup known

end Program.Coherent

namespace Solver

variable {E S α β : Type} [Coded E] {limit n k : Nat}

/-- From one state to the other, `n` call edges have been queued at most, apart from up to `limit`
of them for each method that has become reachable, and none has been taken. -/
structure State.Queues (limit n : Nat) (s s' : State E S) : Prop where
  place : s'.work.bookmark = s.work.bookmark
  pushed : s'.work.callEdges.length + limit * s.calls.reached.size ≤
    s.work.callEdges.length + limit * s'.calls.reached.size + n

namespace State.Queues

theorem refl (s : State E S) : s.Queues limit n s := ⟨rfl, Nat.le_add_right _ _⟩

theorem trans {s s' s'' : State E S} (first : s.Queues limit n s') (second : s'.Queues limit k s'') :
    s.Queues limit (n + k) s'' where
  place := second.place.trans first.place
  pushed := by
    have before := first.pushed
    have after := second.pushed
    omega

theorem mono {s s' : State E S} (queues : s.Queues limit n s') (fits : n ≤ k) :
    s.Queues limit k s' :=
  ⟨queues.place, Nat.le_trans queues.pushed (Nat.add_le_add_left fits _)⟩

theorem of_same {s s' : State E S} (same : s.SameCalls s') : s.Queues limit n s' where
  place := same.place
  pushed := by
    rw [same.pushed, same.calls]
    exact Nat.le_add_right _ _

end State.Queues

/-- A computation that queues `n` call edges at most, wherever it starts. -/
def Pushes (limit n : Nat) (m : Solver E S α) : Prop :=
  ∀ s, Outcome m s (fun _ s' => s.Queues limit n s') (fun _ _ => True)

theorem Pushes.mono {m : Solver E S α} (pushes : Pushes limit n m) (fits : n ≤ k) :
    Pushes limit k m :=
  fun s => (pushes s).mono (fun _ _ queues => queues.mono fits) fun _ _ => id

/-- What a state has besides calls does not matter to how many are queued. -/
theorem Pushes.after {m : Solver E S α} {s s' : State E S} (pushes : Pushes limit n m)
    (same : s.SameCalls s') :
    Outcome m s' (fun _ s'' => s.Queues limit n s'') (fun _ _ => True) := by
  refine (pushes s').mono (fun _ s'' queues => ?_) fun _ _ => id
  rw [← Nat.zero_add n]
  exact (State.Queues.of_same same).trans queues

theorem pushes_pure (x : α) : Pushes limit n (pure x : Solver E S α) :=
  fun s => outcome_pure (.refl s)

theorem pushes_throw (e : AnalysisError) : Pushes limit n (throw e : Solver E S α) :=
  fun _ => outcome_throw trivial

theorem pushes_get : Pushes limit n (get : Solver E S (State E S)) :=
  fun s => outcome_get (.refl s)

theorem pushes_modify {change : State E S → State E S} (same : ∀ s : State E S, s.SameCalls (change s)) :
    Pushes limit n (modify change : Solver E S Unit) :=
  fun s => outcome_modify (.of_same (same s))

theorem pushes_bind {m : Solver E S α} {f : α → Solver E S β} (first : Pushes limit n m)
    (second : ∀ x, Pushes limit k (f x)) : Pushes limit (n + k) (m >>= f) := by
  intro s
  refine outcome_bind ((first s).mono (fun x s' queues => ?_) fun _ _ => id)
  exact (second x s').mono (fun _ _ queues' => queues.trans queues') fun _ _ => id

/-- A first part that queues nothing leaves everything to the second. -/
theorem pushes_then {m : Solver E S α} {f : α → Solver E S β} (first : Pushes limit 0 m)
    (second : ∀ x, Pushes limit n (f x)) : Pushes limit n (m >>= f) :=
  (pushes_bind first second).mono (Nat.le_of_eq (Nat.zero_add n))

theorem pushes_lookup (found : Except UnknownId α) : Pushes limit n (known found : Solver E S α) := by
  cases found with
  | ok x => exact pushes_pure x
  | error id => exact pushes_throw _

theorem pushes_known {found : Except UnknownId α} {f : α → Solver E S β}
    (rest : ∀ x, found = .ok x → Pushes limit n (f x)) : Pushes limit n (known found >>= f) := by
  cases found with
  | ok x => exact fun s => outcome_bind (rest x rfl s)
  | error id => exact fun s => outcome_bind (outcome_throw trivial)

theorem pushes_forM {l : List β} {body : β → Solver E S Unit}
    (each : ∀ x ∈ l, Pushes limit n (body x)) : Pushes limit (l.length * n) (l.forM body) := by
  induction l with
  | nil => exact pushes_pure ()
  | cons x l ih =>
    have first := each x List.mem_cons_self
    have others := ih fun y there => each y (List.mem_cons_of_mem _ there)
    refine (pushes_bind first fun _ => others).mono (Nat.le_of_eq ?_)
    rw [List.length_cons, Nat.succ_mul, Nat.add_comm]

/-- Repetitions that queue nothing. -/
theorem pushes_none {l : List β} {body : β → Solver E S Unit}
    (each : ∀ x ∈ l, Pushes limit 0 (body x)) : Pushes limit 0 (l.forM body) :=
  (pushes_forM each).mono (Nat.le_of_eq (Nat.mul_zero _))

/-! ### Numbers, objects and flow edges -/

theorem pushes_number (intern : Canon E → Canon E × α) :
    Pushes limit n (number intern : Solver E S α) :=
  fun _ => outcome_modifyGet ⟨rfl, Nat.le_add_right _ _⟩

theorem pushes_contextOf (id : ContextId) : Pushes limit n (contextOf id : Solver E S (Context E)) :=
  pushes_then pushes_get fun _ => pushes_lookup _

theorem pushes_objectOf (id : ContextObjectId) :
    Pushes limit n (objectOf id : Solver E S (ContextId × AbstractObject)) := by
  refine pushes_then pushes_get fun s => ?_
  refine pushes_known fun entry _ => pushes_known fun object _ => ?_
  exact pushes_pure _

/-- One call edge. -/
theorem pushes_queueCall (context : ContextId) (site : CallSiteId) (call : CallSite)
    (callee : MethodId) (calleeContext : ContextId) :
    Pushes limit 1 (queueCall context site call callee calleeContext : Solver E S Unit) := by
  refine pushes_then (pushes_number _) fun siteId => ?_
  refine pushes_then (pushes_number _) fun caller => ?_
  refine pushes_then (pushes_number _) fun callee => ?_
  intro s
  refine outcome_modify ⟨rfl, Nat.le_of_eq ?_⟩
  show (s.work.callEdges.push _).length + limit * s.calls.reached.size =
    s.work.callEdges.length + limit * s.calls.reached.size + 1
  rw [Journal.length, Journal.push, Array.size_push, Journal.length]
  omega

variable [IdSet S .contextObject]

theorem pushes_addObject (p : PointerId) (o : ContextObjectId) :
    Pushes limit n (modify (·.addObject p o) : Solver E S Unit) :=
  pushes_modify fun s => (State.sameCalls_addObject s p o).1

theorem pushes_addObjects (p : PointerId) (objects : S) :
    Pushes limit n (modify (·.addObjects p objects) : Solver E S Unit) :=
  pushes_modify fun s => (State.sameCalls_addObjects s p objects).1

theorem pushes_addFlow (source target : PointerId) (kind : FlowKind) :
    Pushes limit n (addFlow source target kind : Solver E S Unit) :=
  pushes_modify fun s => State.sameCalls_addFlow s ⟨source, target, kind⟩

/-! ### Methods -/

variable (a : Analysis E)

omit [IdSet S .contextObject] in
theorem pushes_specialCallee (site : CallSiteId) :
    Pushes limit n (specialCallee a site : Solver E S MethodId) := by
  refine pushes_known fun answer _ => ?_
  cases answer with
  | some callee => exact pushes_pure callee
  | none =>
    refine pushes_known fun call _ => pushes_known fun target _ => pushes_known fun name _ => ?_
    exact pushes_throw _

omit [IdSet S .contextObject] in
theorem pushes_receiverCallee (site : CallSiteId) (type : TypeId) :
    Pushes limit n (receiverCallee a site type : Solver E S MethodId) := by
  refine pushes_known fun call _ => ?_
  cases call.kind with
  | static => exact pushes_throw _
  | special => exact pushes_specialCallee a site
  | virtual =>
    refine pushes_known fun answer _ => ?_
    cases answer with
    | some callee => exact pushes_pure callee
    | none => exact pushes_known fun name _ => pushes_throw _

omit [IdSet S .contextObject] in
/-- A call in a reachable method queues one edge at most. -/
theorem pushes_meetCall (context : ContextId) (site : CallSiteId) :
    Pushes limit 1 (meetCall a context site : Solver E S Unit) := by
  refine pushes_known fun call _ => ?_
  have enter (callee : MethodId) : Pushes limit 1 (do
      let calleeContext ← numberContext (a.policy.call (← contextOf context) site)
      queueCall context site call callee calleeContext : Solver E S Unit) := by
    refine pushes_then (pushes_contextOf context) fun c => ?_
    exact pushes_then (pushes_number _) fun calleeContext => pushes_queueCall _ _ _ _ _
  cases call.kind <;> cases call.receiver
  · exact enter call.target
  · exact pushes_throw _
  · exact pushes_then (pushes_specialCallee a site) enter
  · exact pushes_pure _
  · exact pushes_throw _
  · exact pushes_pure _

/-- Of the statements of a method only calls queue call edges. -/
theorem pushes_meetStatements (context : ContextId) (method : MethodId) (body : List Statement) :
    Pushes limit (body.filterMap Statement.callSite?).length
      (body.forM (meetStatement a context method) : Solver E S Unit) := by
  induction body with
  | nil => exact pushes_pure ()
  | cons statement body ih =>
    cases statement with
    | alloc target site type =>
      refine pushes_then ?_ fun _ => ih
      simp only [meetStatement]
      split
      · exact pushes_throw _
      · refine pushes_then (pushes_contextOf context) fun c => ?_
        refine pushes_then (pushes_number _) fun heapContext => ?_
        refine pushes_then (pushes_number _) fun object => ?_
        refine pushes_then (pushes_number _) fun contextObject => ?_
        exact pushes_then (pushes_number _) fun pointer => pushes_addObject _ _
    | assign target source =>
      refine pushes_then ?_ fun _ => ih
      refine pushes_then (pushes_number _) fun source => ?_
      exact pushes_then (pushes_number _) fun target => pushes_addFlow _ _ _
    | load target base field => exact pushes_then (pushes_pure _) fun _ => ih
    | store base field source => exact pushes_then (pushes_pure _) fun _ => ih
    | call site =>
      refine (pushes_bind (pushes_meetCall a context site) fun _ => ih).mono (Nat.le_of_eq ?_)
      simp [Statement.callSite?, Nat.add_comm]

variable {a}

/-- What a method queues is accounted for when it becomes reachable. -/
theorem pushes_reach (coherent : a.program.Coherent) (id : ContextMethodId) :
    Pushes a.program.callSites.size 0 (reach a id : Solver E S Unit) := by
  intro s
  refine outcome_bind (outcome_modifyGet ?_)
  dsimp only
  by_cases known : id ∈ s.calls.reached.toList
  · rw [CallGraph.addReached_of_known known]
    exact outcome_pure (.refl s)
  · obtain ⟨longer, fresh, _⟩ := CallGraph.addReached_of_new known
    have larger : (s.calls.addReached id).1.reached.size = s.calls.reached.size + 1 := by
      simpa [Registry.toList, Registry.size] using congrArg List.length longer
    rw [fresh, if_pos rfl]
    have pushes : Pushes a.program.callSites.size a.program.callSites.size (do
        let entry ← Solver.known ((← get).canon.method id)
        let method ← Solver.known (a.program.method entry.method)
        method.body.toList.forM (meetStatement a entry.context entry.method) : Solver E S Unit) := by
      refine pushes_then pushes_get fun s => pushes_known fun entry _ => ?_
      refine pushes_known fun method found => ?_
      exact (pushes_meetStatements a _ _ _).mono (coherent.calls_of_method_le found)
    refine (pushes _).mono (fun _ s' queues => ⟨queues.place, ?_⟩) fun _ _ failed => failed
    have pushed := queues.pushed
    simp only [larger, Nat.mul_add, Nat.mul_one] at pushed
    omega

/-! ### Objects and calls -/

theorem pushes_connectStores (context : ContextId) (var : Variable) (delta : S) :
    Pushes limit 0 (connectStores context var delta : Solver E S Unit) := by
  refine pushes_none fun entry _ => pushes_then (pushes_number _) fun source => ?_
  refine pushes_none fun object _ => ?_
  exact pushes_then (pushes_number _) fun target => pushes_addFlow _ _ _

theorem pushes_connectLoads (context : ContextId) (var : Variable) (delta : S) :
    Pushes limit 0 (connectLoads context var delta : Solver E S Unit) := by
  refine pushes_none fun entry _ => pushes_then (pushes_number _) fun target => ?_
  refine pushes_none fun object _ => ?_
  exact pushes_then (pushes_number _) fun source => pushes_addFlow _ _ _

variable (a) in
/-- A receiver object queues one call edge. -/
theorem pushes_meetReceiver (context : ContextId) (site : CallSiteId) (call : CallSite)
    (receiver : ContextObjectId) :
    Pushes limit 1 (meetReceiver a context site call receiver : Solver E S Unit) := by
  refine pushes_then (pushes_objectOf receiver) fun found => ?_
  refine pushes_then (pushes_receiverCallee a site _) fun callee => ?_
  refine pushes_then (pushes_contextOf context) fun c => ?_
  refine pushes_then (pushes_contextOf _) fun c' => ?_
  refine pushes_then (pushes_number _) fun calleeContext => ?_
  refine pushes_bind (n := 1) (k := 0) (pushes_queueCall _ _ _ _ _) fun _ => ?_
  refine pushes_known fun method _ => ?_
  cases method.this with
  | none => exact pushes_throw _
  | some this => exact pushes_then (pushes_number _) fun pointer => pushes_addObject _ _

theorem pushes_connectCalls (coherent : a.program.Coherent) {v : VarId} {var : Variable}
    (found : a.program.var v = .ok var) (context : ContextId) (delta : S) :
    Pushes limit (a.program.callSites.size * (IdSet.toList delta).length)
      (connectCalls a context var delta : Solver E S Unit) := by
  have each : ∀ site ∈ var.calls.toList, Pushes limit (IdSet.toList delta).length (do
      let call ← Solver.known (a.program.callSite site)
      (IdSet.toList delta).forM (meetReceiver a context site call) : Solver E S Unit) := by
    refine fun site _ => pushes_known fun call _ => ?_
    exact (pushes_forM fun object _ => pushes_meetReceiver a context site call object).mono
      (Nat.le_of_eq (Nat.mul_one _))
  exact (pushes_forM each).mono (Nat.mul_le_mul_right _ (coherent.calls_of_var_le found))

variable (limit) in
/-- Each object that a pointer passes on queues as many call edges as the program has calls, at
most. -/
theorem queues_propagate (coherent : a.program.Coherent) (s : State E S) (p : PointerId) :
    Outcome (propagate a p) s
      (fun _ s' => s.Queues limit
        (a.program.callSites.size * (IdSet.toList (s.pointsTo.flush p).2).length) s')
      (fun _ _ => True) := by
  refine outcome_bind (outcome_modifyGet ?_)
  dsimp only
  split
  · exact outcome_pure ⟨rfl, Nat.le_add_right _ _⟩
  · refine outcome_bind (outcome_modify ?_)
    refine Pushes.after ?_ ⟨rfl, rfl, rfl, rfl⟩
    refine pushes_then pushes_get fun s => ?_
    refine pushes_then (pushes_none fun edge _ => pushes_addObjects _ _) fun _ => ?_
    refine pushes_then pushes_get fun s => pushes_known fun pointer _ => ?_
    cases pointer with
    | field object f => exact pushes_pure _
    | var context id =>
      refine pushes_known fun var found => ?_
      refine pushes_then (pushes_connectStores context var _) fun _ => ?_
      refine pushes_then (pushes_connectLoads context var _) fun _ => ?_
      exact pushes_connectCalls coherent found context _

/-- A call edge queues others only for a callee that becomes reachable. -/
theorem pushes_processCall (coherent : a.program.Coherent) (edge : ContextCallEdge) :
    Pushes a.program.callSites.size 0 (processCall a edge : Solver E S Unit) := by
  refine pushes_then pushes_get fun s => ?_
  by_cases known : s.calls.contains edge = true
  · rw [if_pos known]
    exact pushes_pure _
  rw [if_neg known]
  refine pushes_then pushes_get fun s => pushes_known fun site _ => ?_
  refine pushes_then pushes_get fun s => pushes_known fun callee _ => ?_
  refine pushes_known fun call _ => pushes_known fun method _ => ?_
  by_cases arity : call.args.length ≠ method.params.length
  · rw [if_pos arity]
    exact pushes_throw _
  rw [if_neg arity]
  refine pushes_then (fun s => outcome_modify ⟨rfl, by rw [CallGraph.reached_addEdge]; exact Nat.le_add_right _ _⟩)
    fun _ => ?_
  refine pushes_then (pushes_reach coherent _) fun _ => ?_
  refine pushes_then (pushes_none fun pair _ => ?_) fun _ => ?_
  · refine pushes_then (pushes_number _) fun source => ?_
    exact pushes_then (pushes_number _) fun target => pushes_addFlow _ _ _
  cases call.result with
  | none => exact pushes_pure _
  | some result =>
    refine pushes_then (pushes_number _) fun target => pushes_none fun returned _ => ?_
    exact pushes_then (pushes_number _) fun source => pushes_addFlow _ _ _

/-- The start queues calls of entry methods only, which are reachable then. -/
theorem pushes_start (coherent : a.program.Coherent) :
    Pushes a.program.callSites.size 0 (start a : Solver E S Unit) := by
  refine pushes_then (pushes_number _) fun context => pushes_none fun entry _ => ?_
  refine pushes_then (pushes_number _) fun id => ?_
  refine pushes_then (fun s => outcome_modify ⟨rfl, Nat.le_refl _⟩) fun _ => ?_
  exact pushes_reach coherent id

end Solver

end PointerAnalysis
