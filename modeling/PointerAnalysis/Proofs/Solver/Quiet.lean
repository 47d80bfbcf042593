import PointerAnalysis.Proofs.Solver.Grounded
import PointerAnalysis.Proofs.Solver.Outcome
import PointerAnalysis.Solver.Step

/-! Reactions to what is known. Whatever a method, an object or a call gives rise to is put where the
next steps find it, nothing is passed on at once, and a reaction gives the analysis up only where a
derivable fact is in the way. -/
namespace PointerAnalysis.Solver

variable {E S α β : Type} [Coded E] [IdSet S .contextObject] {a : Analysis E} {s : State E S}

/-- A way for states to change that forgets nothing. -/
structure Progress (change : State E S → State E S → Prop) : Prop where
  refl : ∀ s, change s s
  trans : ∀ {s s' s''}, change s s' → change s' s'' → change s s''
  advances : ∀ {s s'}, change s s' → s.Advances s'

/-- A computation that succeeds has changed the state in a certain way and kept an invariant; one
that fails has forgotten nothing either and has been obstructed. -/
def Leads (a : Analysis E) (change : State E S → State E S → Prop) (invariant : State E S → Prop)
    (m : Solver E S α) (s : State E S) (success : α → State E S → Prop) : Prop :=
  Outcome m s (fun x s' => change s s' ∧ invariant s' ∧ success x s')
    (fun e s' => s.Advances s' ∧ s'.Grounded a ∧ a.Obstructed e)

section Progress

variable {change : State E S → State E S → Prop} {invariant : State E S → Prop}
  (progress : Progress change)
include progress

theorem leads_pure {success : α → State E S → Prop} {x : α} (kept : invariant s)
    (holds : success x s) : Leads a change invariant (pure x) s success :=
  outcome_pure ⟨progress.refl s, kept, holds⟩

theorem leads_bind {m : Solver E S α} {f : α → Solver E S β} {middle : α → State E S → Prop}
    {success : β → State E S → Prop} (first : Leads a change invariant m s middle)
    (second : ∀ x s', change s s' → invariant s' → middle x s' →
      Leads a change invariant (f x) s' success) :
    Leads a change invariant (m >>= f) s success := by
  refine outcome_bind (Outcome.mono first ?_ fun _ _ => id)
  rintro x s' ⟨changed, kept, held⟩
  refine Outcome.mono (second x s' changed kept held) ?_ ?_
  · rintro y s'' ⟨changed', kept', held'⟩
    exact ⟨progress.trans changed changed', kept', held'⟩
  · rintro e s'' ⟨advances, grounded, obstructed⟩
    exact ⟨(progress.advances changed).trans advances, grounded, obstructed⟩

/-- What every repetition achieves has been achieved for all elements of the list, if no change
undoes it. -/
theorem leads_forM {l : List β} {body : β → Solver E S Unit} {achieved : β → State E S → Prop}
    (kept : invariant s) (lasting : ∀ x s s', change s s' → achieved x s → achieved x s')
    (each : ∀ x ∈ l, ∀ s', change s s' → invariant s' →
      Leads a change invariant (body x) s' (fun _ => achieved x)) :
    Leads a change invariant (l.forM body) s (fun _ s' => ∀ x ∈ l, achieved x s') := by
  induction l generalizing s with
  | nil => exact leads_pure progress kept (by simp)
  | cons x l ih =>
    refine leads_bind progress (each x List.mem_cons_self s (progress.refl s) kept) ?_
    intro _ s' changed kept' first
    have others := ih kept' fun y there s'' changed' =>
      each y (List.mem_cons_of_mem _ there) s'' (progress.trans changed changed')
    refine Outcome.mono others ?_ fun _ _ => id
    rintro _ s'' ⟨changed', kept'', held⟩
    refine ⟨changed', kept'', fun y there => ?_⟩
    rcases List.mem_cons.mp there with rfl | there
    · exact lasting y s' s'' changed' first
    · exact held y there

end Progress

/-- A computation that lets the state grow and puts nothing into it that is not derivable. -/
abbrev Quiet (a : Analysis E) : Solver E S α → State E S → (α → State E S → Prop) → Prop :=
  Leads a State.Grows (State.Grounded a)

theorem grows_progress : Progress (State.Grows : State E S → State E S → Prop) :=
  ⟨.refl, .trans, State.Grows.advances⟩

variable {success : α → State E S → Prop}

theorem Quiet.mono {m : Solver E S α} {success' : α → State E S → Prop}
    (quiet : Quiet a m s success) (weaker : ∀ x s', success x s' → success' x s') :
    Quiet a m s success' :=
  Outcome.mono quiet (fun x s' held => ⟨held.1, held.2.1, weaker x s' held.2.2⟩) fun _ _ => id

theorem Quiet.grown {m : Solver E S α} (quiet : Quiet a m s success) :
    Quiet a m s (fun x s' => s.Grows s' ∧ success x s') :=
  Outcome.mono quiet (fun _ _ held => ⟨held.1, held.2.1, held.1, held.2.2⟩) fun _ _ => id

theorem quiet_pure {x : α} (grounded : s.Grounded a) (holds : success x s) :
    Quiet a (pure x) s success :=
  leads_pure grows_progress grounded holds

theorem quiet_throw {e : AnalysisError} (grounded : s.Grounded a) (obstructed : a.Obstructed e) :
    Quiet a (throw e : Solver E S α) s success :=
  outcome_throw ⟨.refl s, grounded, obstructed⟩

theorem quiet_get {success : State E S → State E S → Prop} (grounded : s.Grounded a)
    (holds : success s s) : Quiet a (get : Solver E S (State E S)) s success :=
  outcome_get ⟨.refl s, grounded, holds⟩

theorem quiet_modify {success : Unit → State E S → Prop} {change : State E S → State E S}
    (grows : s.Grows (change s)) (grounded : (change s).Grounded a) (holds : success () (change s)) :
    Quiet a (modify change : Solver E S Unit) s success :=
  outcome_modify ⟨grows, grounded, holds⟩

theorem quiet_known {found : Except UnknownId α} {x : α} (grounded : s.Grounded a)
    (same : found = .ok x) (holds : success x s) : Quiet a (known found : Solver E S α) s success :=
  outcome_known same ⟨.refl s, grounded, holds⟩

theorem quiet_bind {m : Solver E S α} {f : α → Solver E S β} {middle : α → State E S → Prop}
    {success : β → State E S → Prop} (first : Quiet a m s middle)
    (second : ∀ x s', s.Grows s' → s'.Grounded a → middle x s' → Quiet a (f x) s' success) :
    Quiet a (m >>= f) s success :=
  leads_bind grows_progress first second

theorem quiet_forM {l : List β} {body : β → Solver E S Unit} {achieved : β → State E S → Prop}
    (grounded : s.Grounded a)
    (lasting : ∀ x s s', s.Grows s' → achieved x s → achieved x s')
    (each : ∀ x ∈ l, ∀ s', s.Grows s' → s'.Grounded a →
      Quiet a (body x) s' (fun _ => achieved x)) :
    Quiet a (l.forM body) s (fun _ s' => ∀ x ∈ l, achieved x s') :=
  leads_forM grows_progress grounded lasting each

/-! ### Numbering -/

private theorem quiet_number {intern : Canon E → Canon E × α} (grounded : s.Grounded a)
    (grown : ∀ c : Canon E, c.Extends (intern c).1)
    (holds : success (intern s.canon).2 { s with canon := (intern s.canon).1 }) :
    Quiet a (number intern : Solver E S α) s success :=
  outcome_modifyGet ⟨State.grows_canon (grown _), grounded.canon (grown _), holds⟩

theorem quiet_numberContext (grounded : s.Grounded a) (c : Context E) :
    Quiet a (numberContext c) s (fun id s' => s'.canon.context id = .ok c) :=
  quiet_number grounded (fun canon => canon.extends_internContext c)
    (s.canon.context_internContext c)

theorem quiet_numberObject (grounded : s.Grounded a) (o : AbstractObject) :
    Quiet a (number (·.internObject o)) s (fun id s' => s'.canon.object id = .ok o) :=
  quiet_number grounded (fun canon => canon.extends_internObject o) (s.canon.object_internObject o)

theorem quiet_numberContextObject (grounded : s.Grounded a) {context : ContextId}
    {object : ObjectId} {o : HeapObject E} (named : s.canon.context context = .ok o.context)
    (known : s.canon.object object = .ok o.object) :
    Quiet a (number (·.internContextObject ⟨context, object⟩)) s
      (fun id s' => s'.canon.Names id o) := by
  have grown := s.canon.extends_internContextObject ⟨context, object⟩
  exact quiet_number grounded (fun canon => canon.extends_internContextObject _)
    ⟨_, s.canon.contextObject_internContextObject _, grown.context_eq named, grown.object_eq known⟩

theorem quiet_numberVar (grounded : s.Grounded a) {context : ContextId} {c : Context E}
    (named : s.canon.context context = .ok c) (v : VarId) :
    Quiet a (numberVar context v) s (fun id s' => s'.canon.Locates id (.var c v)) := by
  have grown := s.canon.extends_internPointer (.var context v)
  exact quiet_number grounded (fun canon => canon.extends_internPointer _)
    (.var (s.canon.pointer_internPointer _) (grown.context_eq named))

theorem quiet_numberField (grounded : s.Grounded a) {object : ContextObjectId} {o : HeapObject E}
    (named : s.canon.Names object o) (f : FieldId) :
    Quiet a (numberField object f) s (fun id s' => s'.canon.Locates id (.field o f)) := by
  have grown := s.canon.extends_internPointer (.field object f)
  exact quiet_number grounded (fun canon => canon.extends_internPointer _)
    (.field (s.canon.pointer_internPointer _) (grown.names named))

theorem quiet_numberMethod (grounded : s.Grounded a) {context : ContextId} {c : Context E}
    (named : s.canon.context context = .ok c) (m : MethodId) :
    Quiet a (numberMethod context m) s (fun id s' => s'.canon.Enters id c m) := by
  have grown := s.canon.extends_internMethod ⟨context, m⟩
  exact quiet_number grounded (fun canon => canon.extends_internMethod _)
    ⟨_, s.canon.method_internMethod _, grown.context_eq named, rfl⟩

theorem quiet_numberCallSite (grounded : s.Grounded a) {context : ContextId} {c : Context E}
    (named : s.canon.context context = .ok c) (site : CallSiteId) :
    Quiet a (numberCallSite context site) s (fun id s' => s'.canon.CallsAt id c site) := by
  have grown := s.canon.extends_internCallSite ⟨context, site⟩
  exact quiet_number grounded (fun canon => canon.extends_internCallSite _)
    ⟨_, s.canon.callSite_internCallSite _, grown.context_eq named, rfl⟩

theorem quiet_contextOf (grounded : s.Grounded a) {id : ContextId} {c : Context E}
    (named : s.canon.context id = .ok c) : Quiet a (contextOf id) s (fun x _ => x = c) := by
  have got : Quiet a get s fun x _ => x.canon.context id = .ok c := quiet_get grounded named
  refine quiet_bind got ?_
  intro x s' _ grounded' named'
  exact quiet_known grounded' named' rfl

theorem quiet_objectOf (grounded : s.Grounded a) {id : ContextObjectId} {o : HeapObject E}
    (named : s.canon.Names id o) :
    Quiet a (objectOf id) s
      (fun found s' => s'.canon.context found.1 = .ok o.context ∧ found.2 = o.object) := by
  obtain ⟨entry, found, context, object⟩ := named
  refine outcome_bind (outcome_get ?_)
  refine outcome_bind (outcome_known found ?_)
  refine outcome_bind (outcome_known object ?_)
  exact quiet_pure grounded ⟨context, rfl⟩

/-! ### Objects, flow edges and calls -/

variable [LawfulIdSet S]

theorem quiet_addObject (grounded : s.Grounded a) {p : PointerId} {id : ContextObjectId}
    {l : Location E} {o : HeapObject E} (located : s.canon.Locates p l) (named : s.canon.Names id o)
    (derived : a.Derives (.holds l o)) :
    Quiet a (modify (·.addObject p id)) s (fun _ s' => s'.Shows (.holds l o)) := by
  have grows := State.grows_addObject s p id
  exact quiet_modify grows (grounded.addObject ⟨l, o, located, named, derived⟩)
    (State.shows_holds ((State.knows_addObject s).mpr (.inr ⟨rfl, rfl⟩))
      (grows.canon.locates located) (grows.canon.names named))

theorem quiet_addFlow (grounded : s.Grounded a) {source target : PointerId} {l l' : Location E}
    {kind : FlowKind} (fromSource : s.canon.Locates source l) (toTarget : s.canon.Locates target l')
    (derived : a.Derives (.flows l l' kind)) :
    Quiet a (addFlow source target kind) s (fun _ s' => s'.Shows (.flows l l' kind)) := by
  obtain ⟨grows, there⟩ := State.grows_addFlow s ⟨source, target, kind⟩
  exact quiet_modify grows (grounded.addFlow ⟨l, l', fromSource, toTarget, derived⟩)
    (State.shows_flows there (grows.canon.locates fromSource) (grows.canon.locates toTarget))

omit [LawfulIdSet S] in
theorem quiet_queueCall (grounded : s.Grounded a) {context calleeContext : ContextId}
    {c c' : Context E} {site : CallSiteId} {call : CallSite} {callee : MethodId}
    (named : s.canon.context context = .ok c)
    (calleeNamed : s.canon.context calleeContext = .ok c')
    (found : a.program.callSite site = .ok call) (derived : a.Derives (.calls c site c' callee)) :
    Quiet a (queueCall context site call callee calleeContext) s
      (fun _ s' => s'.Shows (.calls c site c' callee)) := by
  refine quiet_bind (quiet_numberCallSite grounded named site) ?_
  intro siteId s₁ grows₁ grounded₁ called
  refine quiet_bind (quiet_numberMethod grounded₁ (grows₁.canon.context_eq named) call.container) ?_
  intro callerId s₂ grows₂ grounded₂ caller
  refine quiet_bind (quiet_numberMethod grounded₂
    ((grows₁.trans grows₂).canon.context_eq calleeNamed) callee) ?_
  intro calleeId s₃ grows₃ grounded₃ entered
  have called := (grows₂.trans grows₃).canon.callsAt called
  have caller := grows₃.canon.enters caller
  refine quiet_modify (State.grows_pushCallEdge s₃ _) (grounded₃.pushCallEdge
    ⟨c, site, c', callee, call, called, entered, found, caller, rfl, derived⟩) ?_
  refine State.shows_calls (e := ⟨callerId, siteId, calleeId, call.kind⟩) (.inr ?_) called entered
  rw [WorkList.queuedCalls_pushCallEdge]
  exact List.mem_append_right _ List.mem_cons_self

end PointerAnalysis.Solver
