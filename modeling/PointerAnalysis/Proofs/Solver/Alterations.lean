import Mathlib.Logic.Relation
import PointerAnalysis.Proofs.Solver.Outcome
import PointerAnalysis.Proofs.Solver.State
import PointerAnalysis.Solver.Run

/-! What the computations of the solver do to a state, wherever they start and however they end. Each
of them is a chain of alterations, also one that is given up halfway; so whatever no alteration can
do, no pointer that is passed on and no call edge that is processed can do either. -/
namespace PointerAnalysis.Solver

variable {E S α β : Type} [Coded E] [IdSet S .contextObject]

/-- One alteration of a state. Nothing is asked of the state, and no reason is given. -/
inductive State.Alters : State E S → State E S → Prop where
  | number {s : State E S} {canon : Canon E} : s.canon.Extends canon → Alters s { s with canon }
  | object (s : State E S) (p : PointerId) (o : ContextObjectId) : Alters s (s.addObject p o)
  | objects (s : State E S) (p : PointerId) (objects : S) : Alters s (s.addObjects p objects)
  | flow (s : State E S) (e : FlowEdge) : Alters s (s.addFlow e)
  | flush (s : State E S) (p : PointerId) :
      Alters s { s with pointsTo := (s.pointsTo.flush p).1 }
  | count (s : State E S) : Alters s { s with propagations := s.propagations + 1 }
  | queue (s : State E S) (e : ContextCallEdge) :
      Alters s { s with work := s.work.pushCallEdge e }
  | entry (s : State E S) (f : ContextMethodId) : Alters s { s with calls := s.calls.addEntry f }
  | reach (s : State E S) (f : ContextMethodId) :
      Alters s { s with calls := (s.calls.addReached f).1 }
  | link (s : State E S) (e : ContextCallEdge) :
      Alters s { s with calls := (s.calls.addEdge e).1 }

/-- Any number of alterations. -/
abbrev State.Alterations : State E S → State E S → Prop := Relation.ReflTransGen State.Alters

/-- A computation that only alters the state, be it given up or not. -/
def Altering (m : Solver E S α) : Prop :=
  ∀ s, Outcome m s (fun _ s' => s.Alterations s') (fun _ s' => s.Alterations s')

theorem altering_pure (x : α) : Altering (pure x : Solver E S α) := fun _ => outcome_pure .refl

theorem altering_throw (e : AnalysisError) : Altering (throw e : Solver E S α) :=
  fun _ => outcome_throw .refl

theorem altering_get : Altering (get : Solver E S (State E S)) := fun _ => outcome_get .refl

theorem altering_modify {change : State E S → State E S}
    (alters : ∀ s : State E S, s.Alters (change s)) :
    Altering (modify change : Solver E S Unit) :=
  fun s => outcome_modify (.single (alters s))

theorem altering_modifyGet {change : State E S → α × State E S}
    (alters : ∀ s : State E S, s.Alters (change s).2) : Altering (modifyGet change : Solver E S α) :=
  fun s => outcome_modifyGet (.single (alters s))

theorem altering_bind {m : Solver E S α} {f : α → Solver E S β} (first : Altering m)
    (second : ∀ x, Altering (f x)) : Altering (m >>= f) := by
  intro s
  refine outcome_bind ((first s).mono (fun x s' before => ?_) fun _ _ => id)
  exact (second x s').mono (fun _ _ => before.trans) fun _ _ => before.trans

theorem altering_known (found : Except UnknownId α) : Altering (known found : Solver E S α) := by
  cases found with
  | ok x => exact altering_pure x
  | error id => exact altering_throw _

theorem altering_forM {l : List β} {body : β → Solver E S Unit} (each : ∀ x, Altering (body x)) :
    Altering (l.forM body) := by
  induction l with
  | nil => exact altering_pure ()
  | cons x l ih => exact altering_bind (each x) fun _ => ih

/-! ### Numbers, objects and flow edges -/

theorem altering_number {intern : Canon E → Canon E × α}
    (extended : ∀ c : Canon E, c.Extends (intern c).1) : Altering (number intern : Solver E S α) :=
  altering_modifyGet fun s => .number (extended s.canon)

theorem altering_numberContext (c : Context E) :
    Altering (numberContext c : Solver E S ContextId) :=
  altering_number fun canon => canon.extends_internContext c

theorem altering_numberPointer (pointer : Pointer) :
    Altering (number (·.internPointer pointer) : Solver E S PointerId) :=
  altering_number fun canon => canon.extends_internPointer pointer

theorem altering_numberMethod (c : ContextId) (m : MethodId) :
    Altering (numberMethod c m : Solver E S ContextMethodId) :=
  altering_number fun canon => canon.extends_internMethod ⟨c, m⟩

theorem altering_contextOf (id : ContextId) : Altering (contextOf id : Solver E S (Context E)) :=
  altering_bind altering_get fun _ => altering_known _

theorem altering_objectOf (id : ContextObjectId) :
    Altering (objectOf id : Solver E S (ContextId × AbstractObject)) := by
  refine altering_bind altering_get fun _ => altering_bind (altering_known _) fun _ => ?_
  exact altering_bind (altering_known _) fun _ => altering_pure _

theorem altering_addObject (p : PointerId) (o : ContextObjectId) :
    Altering (modify (·.addObject p o) : Solver E S Unit) :=
  altering_modify fun s => .object s p o

theorem altering_addFlow (source target : PointerId) (kind : FlowKind) :
    Altering (addFlow source target kind : Solver E S Unit) :=
  altering_modify fun s => .flow s ⟨source, target, kind⟩

/-! ### Methods -/

section Methods

variable (a : Analysis E)

theorem altering_specialCallee (site : CallSiteId) :
    Altering (specialCallee a site : Solver E S MethodId) := by
  refine altering_bind (altering_known _) fun answer => ?_
  cases answer with
  | some callee => exact altering_pure callee
  | none =>
    refine altering_bind (altering_known _) fun call => ?_
    refine altering_bind (altering_known _) fun target => ?_
    exact altering_bind (altering_known _) fun name => altering_throw _

theorem altering_receiverCallee (site : CallSiteId) (type : TypeId) :
    Altering (receiverCallee a site type : Solver E S MethodId) := by
  refine altering_bind (altering_known _) fun call => ?_
  cases call.kind with
  | static => exact altering_throw _
  | special => exact altering_specialCallee a site
  | virtual =>
    refine altering_bind (altering_known _) fun answer => ?_
    cases answer with
    | some callee => exact altering_pure callee
    | none => exact altering_bind (altering_known _) fun name => altering_throw _

theorem altering_queueCall (context : ContextId) (site : CallSiteId) (call : CallSite)
    (callee : MethodId) (calleeContext : ContextId) :
    Altering (queueCall context site call callee calleeContext : Solver E S Unit) := by
  refine altering_bind (altering_number fun canon => canon.extends_internCallSite _) fun siteId => ?_
  refine altering_bind (altering_numberMethod _ _) fun caller => ?_
  refine altering_bind (altering_numberMethod _ _) fun callee => ?_
  exact altering_modify fun s => .queue s _

theorem altering_meetCall (context : ContextId) (site : CallSiteId) :
    Altering (meetCall a context site : Solver E S Unit) := by
  refine altering_bind (altering_known _) fun call => ?_
  have enter (callee : MethodId) : Altering (do
      let calleeContext ← numberContext (a.policy.call (← contextOf context) site)
      queueCall context site call callee calleeContext : Solver E S Unit) := by
    refine altering_bind (altering_contextOf context) fun c => ?_
    exact altering_bind (altering_numberContext _) fun _ => altering_queueCall _ _ _ _ _
  cases call.kind <;> cases call.receiver
  · exact enter call.target
  · exact altering_throw _
  · exact altering_bind (altering_specialCallee a site) enter
  · exact altering_pure _
  · exact altering_throw _
  · exact altering_pure _

theorem altering_meetStatement (context : ContextId) (method : MethodId) (statement : Statement) :
    Altering (meetStatement a context method statement : Solver E S Unit) := by
  cases statement with
  | alloc target site type =>
    simp only [meetStatement]
    split
    · exact altering_throw _
    · refine altering_bind (altering_contextOf context) fun c => ?_
      refine altering_bind (altering_numberContext _) fun heapContext => ?_
      refine altering_bind (altering_number fun canon => canon.extends_internObject _) fun object => ?_
      refine altering_bind (altering_number fun canon => canon.extends_internContextObject _)
        fun contextObject => ?_
      exact altering_bind (altering_numberPointer _) fun pointer => altering_addObject _ _
  | assign target source =>
    refine altering_bind (altering_numberPointer _) fun source => ?_
    exact altering_bind (altering_numberPointer _) fun target => altering_addFlow _ _ _
  | load target base field => exact altering_pure _
  | store base field source => exact altering_pure _
  | call site => exact altering_meetCall a context site

theorem altering_reach (id : ContextMethodId) : Altering (reach a id : Solver E S Unit) := by
  refine altering_bind (altering_modifyGet fun s => .reach s id) fun fresh => ?_
  cases fresh with
  | false => exact altering_pure _
  | true =>
    refine altering_bind altering_get fun s => altering_bind (altering_known _) fun entry => ?_
    refine altering_bind (altering_known _) fun method => ?_
    exact altering_forM fun statement => altering_meetStatement a _ _ statement

/-! ### Objects and calls -/

theorem altering_connectStores (context : ContextId) (var : Variable) (delta : S) :
    Altering (connectStores context var delta : Solver E S Unit) := by
  refine altering_forM fun entry => altering_bind (altering_numberPointer _) fun source => ?_
  refine altering_forM fun object => altering_bind (altering_numberPointer _) fun target => ?_
  exact altering_addFlow _ _ _

theorem altering_connectLoads (context : ContextId) (var : Variable) (delta : S) :
    Altering (connectLoads context var delta : Solver E S Unit) := by
  refine altering_forM fun entry => altering_bind (altering_numberPointer _) fun target => ?_
  refine altering_forM fun object => altering_bind (altering_numberPointer _) fun source => ?_
  exact altering_addFlow _ _ _

theorem altering_meetReceiver (context : ContextId) (site : CallSiteId) (call : CallSite)
    (receiver : ContextObjectId) :
    Altering (meetReceiver a context site call receiver : Solver E S Unit) := by
  refine altering_bind (altering_objectOf receiver) fun found => ?_
  refine altering_bind (altering_receiverCallee a site _) fun callee => ?_
  refine altering_bind (altering_contextOf context) fun c => ?_
  refine altering_bind (altering_contextOf _) fun c' => ?_
  refine altering_bind (altering_numberContext _) fun calleeContext => ?_
  refine altering_bind (altering_queueCall _ _ _ _ _) fun _ => ?_
  refine altering_bind (altering_known _) fun method => ?_
  cases method.this with
  | none => exact altering_throw _
  | some this => exact altering_bind (altering_numberPointer _) fun pointer => altering_addObject _ _

theorem altering_connectCalls (context : ContextId) (var : Variable) (delta : S) :
    Altering (connectCalls a context var delta : Solver E S Unit) := by
  refine altering_forM fun site => altering_bind (altering_known _) fun call => ?_
  exact altering_forM fun receiver => altering_meetReceiver a context site call receiver

/-- A pointer that is passed on. -/
theorem altering_propagate (p : PointerId) : Altering (propagate a p : Solver E S Unit) := by
  refine altering_bind (altering_modifyGet fun s => .flush s p) fun delta => ?_
  split
  · exact altering_pure _
  refine altering_bind (altering_modify fun s => .count s) fun _ => ?_
  refine altering_bind altering_get fun s => altering_bind (altering_forM fun edge => ?_) fun _ => ?_
  · exact altering_modify fun s => .objects s edge.1 delta
  refine altering_bind altering_get fun s => altering_bind (altering_known _) fun pointer => ?_
  cases pointer with
  | field object f => exact altering_pure _
  | var context id =>
    refine altering_bind (altering_known _) fun var => ?_
    refine altering_bind (altering_connectStores context var delta) fun _ => ?_
    refine altering_bind (altering_connectLoads context var delta) fun _ => ?_
    exact altering_connectCalls a context var delta

/-- The reactions to a call edge that is new. -/
theorem altering_wire (id : ContextMethodId) (context context' : ContextId) (call : CallSite)
    (method : Method) : Altering (do
      reach a id
      (call.args.zip method.params).forM fun (arg, param) => do
        let source ← numberVar context arg
        let target ← numberVar context' param
        addFlow source target .param
      match call.result with
      | none => return
      | some result =>
        let target ← numberVar context result
        method.returns.forM fun returned => do
          let source ← numberVar context' returned
          addFlow source target .return : Solver E S Unit) := by
  refine altering_bind (altering_reach a id) fun _ => ?_
  refine altering_bind (altering_forM fun pair => ?_) fun _ => ?_
  · refine altering_bind (altering_numberPointer _) fun source => ?_
    exact altering_bind (altering_numberPointer _) fun target => altering_addFlow _ _ _
  cases call.result with
  | none => exact altering_pure _
  | some result =>
    refine altering_bind (altering_numberPointer _) fun target => altering_forM fun returned => ?_
    exact altering_bind (altering_numberPointer _) fun source => altering_addFlow _ _ _

/-- A call edge that is processed. -/
theorem altering_processCall (edge : ContextCallEdge) :
    Altering (processCall a edge : Solver E S Unit) := by
  refine altering_bind altering_get fun s => ?_
  split
  · exact altering_pure _
  refine altering_bind altering_get fun s => altering_bind (altering_known _) fun site => ?_
  refine altering_bind altering_get fun s => altering_bind (altering_known _) fun callee => ?_
  refine altering_bind (altering_known _) fun call => altering_bind (altering_known _) fun method => ?_
  by_cases arity : call.args.length ≠ method.params.length
  · rw [if_pos arity]
    exact altering_throw _
  rw [if_neg arity]
  refine altering_bind (altering_modify fun s => .link s edge) fun _ => ?_
  exact altering_wire a edge.callee site.context callee.context call method

theorem altering_entries (context : ContextId) (entries : List MethodId) :
    Altering (entries.forM fun entry => do
      let id ← numberMethod context entry
      modify fun s => { s with calls := s.calls.addEntry id }
      reach a id : Solver E S Unit) := by
  refine altering_forM fun entry => altering_bind (altering_numberMethod context entry) fun id => ?_
  exact altering_bind (altering_modify fun s => .entry s id) fun _ => altering_reach a id

theorem altering_start : Altering (start a : Solver E S Unit) :=
  altering_bind (altering_numberContext []) fun context => altering_entries a context _

end Methods

end PointerAnalysis.Solver
