import PointerAnalysis.Proofs.Execution.Basic
import PointerAnalysis.Proofs.Lists
import PointerAnalysis.Proofs.Rules.Fixpoint

/-! Facts that satisfy the rules cover every execution. Each object is taken for an abstract object
under the heap context of the frame that made it, and each frame is given a context in which its
method is reachable; what a variable or a field holds is then among the facts, and so is every call
between two frames. A step keeps this, since it asks for no more than some rule provides. -/
namespace PointerAnalysis.Execution

variable {E : Type} {a : Analysis E} {known : Fact E → Prop} {made made' : List (HeapObject E)}

/-- The facts cover the variables of a frame under a context. -/
structure Frame.Covered (known : Fact E → Prop) (made : List (HeapObject E)) (c : Context E)
    (frame : Frame) : Prop where
  reached : known (.reached c frame.method)
  locals : ∀ {v address}, frame.locals v = some address →
    ∃ o, made[address]? = some o ∧ known (.holds (.var c v) o)

/-- The facts cover the callers of a method that is carried out under a context. -/
inductive Suspended (p : Program) (known : Fact E → Prop) (made : List (HeapObject E)) :
    Context E → MethodId → List (CallSiteId × Frame) → Prop where
  | bottom {c : Context E} {m : MethodId} : Suspended p known made c m []
  | caller {c c' : Context E} {m : MethodId} {site : CallSiteId} {frame : Frame}
      {callers : List (CallSiteId × Frame)} :
      p.Has frame.method (.call site) → known (.calls c site c' m) →
      frame.Covered known made c → Suspended p known made c frame.method callers →
      Suspended p known made c' m ((site, frame) :: callers)

/-- The facts cover a machine whose objects are taken for these. -/
structure Machine.Covered (a : Analysis E) (known : Fact E → Prop) (made : List (HeapObject E))
    (M : Machine) : Prop where
  objects : List.Forall₂ (fun object o => a.heap object.site object.type object.method = .ok o.object)
    M.objects made
  fields : ∀ {address f held}, M.fields address f = some held →
    ∃ o o', made[address]? = some o ∧ made[held]? = some o' ∧ known (.holds (.field o f) o')
  stack : ∃ c, M.top.Covered known made c ∧ Suspended a.program known made c M.top.method M.callers

/-! ### Growing heaps -/

theorem Frame.Covered.mono {c : Context E} {frame : Frame} (covered : frame.Covered known made c)
    (grown : made <+: made') : frame.Covered known made' c where
  reached := covered.reached
  locals held := by
    obtain ⟨o, there, holds⟩ := covered.locals held
    exact ⟨o, getElem?_of_prefix grown there, holds⟩

theorem Suspended.mono {c : Context E} {m : MethodId} {callers : List (CallSiteId × Frame)}
    (suspended : Suspended a.program known made c m callers) (grown : made <+: made') :
    Suspended a.program known made' c m callers := by
  induction suspended with
  | bottom => exact .bottom
  | caller statement called covered _ ih => exact .caller statement called (covered.mono grown) ih

/-- A frame stays covered when a variable is given something that the facts let it hold. -/
theorem Frame.Covered.set {c : Context E} {frame : Frame} (covered : frame.Covered known made c)
    {v : VarId} {value : Option Nat}
    (held : ∀ address, value = some address →
      ∃ o, made[address]? = some o ∧ known (.holds (.var c v) o)) :
    (frame.set v value).Covered known made c where
  reached := covered.reached
  locals {w address} holds := by
    dsimp only [Frame.set] at holds
    split at holds
    · next same => exact same ▸ held address holds
    · exact covered.locals holds

theorem Machine.Covered.setLocal {M : Machine} {c : Context E} {v : VarId} {value : Option Nat}
    (covered : M.Covered a known made) (top : M.top.Covered known made c)
    (suspended : Suspended a.program known made c M.top.method M.callers)
    (held : ∀ address, value = some address →
      ∃ o, made[address]? = some o ∧ known (.holds (.var c v) o)) :
    (M.setLocal v value).Covered a known made :=
  ⟨covered.objects, covered.fields, c, top.set held, suspended⟩

/-! ### Steps -/

theorem covered_init (fixpoint : a.Fixpoint known) {m : MethodId}
    (entry : m ∈ a.program.entries) : (Machine.init m).Covered a known [] where
  objects := .nil
  fields held := by cases held
  stack := ⟨[], ⟨fixpoint.entry entry, fun held => by cases held⟩, .bottom⟩

section Steps

variable {M : Machine} (fixpoint : a.Fixpoint known) (covered : M.Covered a known made)
include fixpoint covered

private theorem covered_alloc {target : VarId} {site : AllocSiteId} {type : TypeId}
    (statement : a.program.Has M.top.method (.alloc target site type)) :
    ∃ o, (M.make site type target).Covered a known (made ++ [o]) := by
  obtain ⟨c, top, suspended⟩ := covered.stack
  obtain ⟨o, same, held⟩ := fixpoint.alloc top.reached statement
  have grown : made <+: made ++ [⟨a.policy.heap c, o⟩] := List.prefix_append _ _
  refine ⟨⟨a.policy.heap c, o⟩, ?_, fun {address f held} holds => ?_, c, ?_, suspended.mono grown⟩
  · exact List.rel_append covered.objects (.cons same .nil)
  · obtain ⟨o, o', there, there', holds⟩ := covered.fields holds
    exact ⟨o, o', getElem?_of_prefix grown there, getElem?_of_prefix grown there', holds⟩
  · refine (top.mono grown).set fun address same => ?_
    cases same
    exact ⟨_, by rw [covered.objects.length_eq]; simp, held⟩

private theorem covered_assign {target source : VarId}
    (statement : a.program.Has M.top.method (.assign target source)) :
    (M.setLocal target (M.top.locals source)).Covered a known made := by
  obtain ⟨c, top, suspended⟩ := covered.stack
  refine covered.setLocal top suspended fun address held => ?_
  obtain ⟨o, there, holds⟩ := top.locals held
  exact ⟨o, there, fixpoint.flow (fixpoint.assign top.reached statement) holds⟩

private theorem covered_load {target base : VarId} {field : FieldId} {address : Nat}
    (statement : a.program.Has M.top.method (.load target base field))
    (based : M.top.locals base = some address) :
    (M.setLocal target (M.fields address field)).Covered a known made := by
  obtain ⟨c, top, suspended⟩ := covered.stack
  refine covered.setLocal top suspended fun address' held => ?_
  obtain ⟨o, there, holds⟩ := top.locals based
  obtain ⟨o₁, o₂, there₁, there₂, stored⟩ := covered.fields held
  cases there.symm.trans there₁
  exact ⟨o₂, there₂, fixpoint.flow (fixpoint.load holds statement) stored⟩

private theorem covered_store {base source : VarId} {field : FieldId} {address : Nat}
    (statement : a.program.Has M.top.method (.store base field source))
    (based : M.top.locals base = some address) :
    (M.setField address field (M.top.locals source)).Covered a known made := by
  obtain ⟨c, top, suspended⟩ := covered.stack
  refine ⟨covered.objects, fun {address' f held} holds => ?_, c, top, suspended⟩
  dsimp only [Machine.setField] at holds
  split at holds
  · next same =>
    obtain ⟨rfl, rfl⟩ := same
    obtain ⟨o, there, based⟩ := top.locals based
    obtain ⟨o', there', held⟩ := top.locals holds
    exact ⟨o, o', there, there', fixpoint.flow (fixpoint.store based statement) held⟩
  · exact covered.fields holds

omit covered in
/-- What a call puts into the parameters of its callee flows there. -/
private theorem held_arguments {c c' : Context E} {site : CallSiteId} {call : CallSite}
    {callee : MethodId} {method : Method} (top : M.top.Covered known made c)
    (found : a.program.callSite site = .ok call) (declared : a.program.method callee = .ok method)
    (called : known (.calls c site c' callee)) {v : VarId} {address : Nat}
    (bound : (v, some address) ∈ M.arguments call method) :
    ∃ o, made[address]? = some o ∧ known (.holds (.var c' v) o) := by
  obtain ⟨⟨argument, param⟩, placed, same⟩ := List.mem_map.mp bound
  obtain ⟨rfl, holds⟩ := Prod.mk.inj same
  obtain ⟨o, there, holds⟩ := top.locals holds
  exact ⟨o, there, fixpoint.flow (fixpoint.params called found declared placed) holds⟩

omit fixpoint in
/-- A frame for a callee is covered if all that its variables are bound to is. -/
private theorem covered_enter {c c' : Context E} {site : CallSiteId} {callee : MethodId}
    {bound : List (VarId × Option Nat)} {locals : VarId → Option Nat} (binds : Binds bound locals)
    (top : M.top.Covered known made c)
    (suspended : Suspended a.program known made c M.top.method M.callers)
    (statement : a.program.Has M.top.method (.call site))
    (called : known (.calls c site c' callee)) (reached : known (.reached c' callee))
    (held : ∀ v address, (v, some address) ∈ bound →
      ∃ o, made[address]? = some o ∧ known (.holds (.var c' v) o)) :
    (M.enter site callee locals).Covered a known made := by
  refine ⟨covered.objects, covered.fields, c', ⟨reached, fun {v address} holds => ?_⟩,
    .caller statement called top suspended⟩
  have holds : locals v = some address := holds
  refine held v address ?_
  rcases binds v with listed | ⟨null, _⟩
  · exact holds ▸ listed
  · cases holds.symm.trans null

private theorem covered_call {site : CallSiteId} {call : CallSite} {callee : MethodId}
    {method : Method} {locals : VarId → Option Nat}
    (statement : a.program.Has M.top.method (.call site))
    (found : a.program.callSite site = .ok call) (enters : a.program.EntersAlone site callee)
    (declared : a.program.method callee = .ok method) (binds : Binds (M.arguments call method) locals) :
    (M.enter site callee locals).Covered a known made := by
  obtain ⟨c, top, suspended⟩ := covered.stack
  have alone := ((Program.entersAlone_iff found).mp enters).1
  obtain ⟨callee', enters', called⟩ := fixpoint.call top.reached statement found alone
  cases enters.unique enters'
  exact covered_enter covered binds top suspended statement called (fixpoint.callee called) fun _ _ =>
    held_arguments fixpoint top found declared called

private theorem covered_receiverCall (typed : a.heap.Typed) {site : CallSiteId} {call : CallSite}
    {x : VarId} {address : Nat} {object : Object} {callee : MethodId} {method : Method}
    {locals : VarId → Option Nat} (statement : a.program.Has M.top.method (.call site))
    (found : a.program.callSite site = .ok call) (receiver : call.receiver = some x)
    (holds : M.top.locals x = some address) (there : M.objects[address]? = some object)
    (enters : a.program.EntersOn site object.type callee)
    (declared : a.program.method callee = .ok method)
    (binds : Binds (method.this.toList.map (·, some address) ++ M.arguments call method) locals) :
    (M.enter site callee locals).Covered a known made := by
  obtain ⟨c, top, suspended⟩ := covered.stack
  obtain ⟨o, there', held⟩ := top.locals holds
  have type : o.object.type = object.type := by
    obtain ⟨o', found', taken⟩ := exists_right_of_getElem? covered.objects there
    cases there'.symm.trans found'
    exact typed taken
  rw [← type] at enters
  obtain ⟨callee', method', this, enters', declared', named, called, bound⟩ :=
    fixpoint.receiverCall held found receiver
  cases enters.unique enters'
  cases declared.symm.trans declared'
  refine covered_enter covered binds top suspended statement called (fixpoint.callee called)
    fun v address' listed => ?_
  rcases List.mem_append.mp listed with self | argument
  · simp only [named, Option.toList_some, List.map_cons, List.map_nil, List.mem_singleton,
      Prod.mk.injEq, Option.some.injEq] at self
    obtain ⟨rfl, rfl⟩ := self
    exact ⟨o, there', bound⟩
  · exact held_arguments fixpoint top found declared called argument

private theorem covered_return {site : CallSiteId} {call : CallSite} {caller : Frame}
    {callers : List (CallSiteId × Frame)} {method : Method} {returned result : VarId}
    (waits : M.callers = (site, caller) :: callers) (found : a.program.callSite site = .ok call)
    (named : call.result = some result) (declared : a.program.method M.top.method = .ok method)
    (listed : returned ∈ method.returns) :
    (M.resume (caller.set result (M.top.locals returned)) callers).Covered a known made := by
  obtain ⟨c', top, suspended⟩ := covered.stack
  rw [waits] at suspended
  cases suspended with
  | @caller c _ _ _ _ _ _ called covered' rest =>
    refine ⟨covered.objects, covered.fields, c, covered'.set fun address held => ?_, rest⟩
    obtain ⟨o, there, holds⟩ := top.locals held
    exact ⟨o, there, fixpoint.flow (fixpoint.returns called found declared listed named) holds⟩

omit fixpoint in
private theorem covered_leave {site : CallSiteId} {caller : Frame}
    {callers : List (CallSiteId × Frame)} (waits : M.callers = (site, caller) :: callers) :
    (M.resume caller callers).Covered a known made := by
  obtain ⟨c', top, suspended⟩ := covered.stack
  rw [waits] at suspended
  cases suspended with
  | @caller c _ _ _ _ _ _ _ covered' rest =>
    exact ⟨covered.objects, covered.fields, c, covered', rest⟩

/-- A step of an execution stays within the facts. -/
theorem covered_step (typed : a.heap.Typed) {M' : Machine} (step : Step a.program M M') :
    ∃ made', M'.Covered a known made' := by
  cases step with
  | alloc statement =>
    obtain ⟨o, covered⟩ := covered_alloc fixpoint covered statement
    exact ⟨_, covered⟩
  | assign statement => exact ⟨_, covered_assign fixpoint covered statement⟩
  | load statement based => exact ⟨_, covered_load fixpoint covered statement based⟩
  | store statement based => exact ⟨_, covered_store fixpoint covered statement based⟩
  | call statement found enters declared binds =>
    exact ⟨_, covered_call fixpoint covered statement found enters declared binds⟩
  | receiverCall statement found receiver holds there enters declared binds =>
    exact ⟨_, covered_receiverCall fixpoint covered typed statement found receiver holds there enters
      declared binds⟩
  | «return» waits found named declared listed =>
    exact ⟨_, covered_return fixpoint covered waits found named declared listed⟩
  | leave waits => exact ⟨_, covered_leave covered waits⟩

end Steps

/-- Facts that satisfy the rules cover every machine of every execution. -/
theorem Reachable.covered (fixpoint : a.Fixpoint known) (typed : a.heap.Typed) {M : Machine}
    (reachable : Reachable a.program M) : ∃ made, M.Covered a known made := by
  induction reachable with
  | entry listed => exact ⟨[], covered_init fixpoint listed⟩
  | step _ step ih =>
    obtain ⟨made, covered⟩ := ih
    exact covered_step fixpoint covered typed step

end PointerAnalysis.Execution
