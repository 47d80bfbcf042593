import PointerAnalysis.Proofs.Solver.Effects
import PointerAnalysis.Proofs.Solver.Outcome
import PointerAnalysis.Solver.Step

/-! The computations of the solver as chains of changes. Each part of a reaction is followed through once,
for any program: what it does has a reason, and once it is through, all that it is there for has been
done. A computation that is given up is not looked at here. -/
namespace PointerAnalysis.Solver

open State (Change Changes Carries Issues Wires Supplies Makes NumbersMade Answers Reacted)

variable {E S α β : Type} [Coded E] [IdSet S .contextObject] {a : Analysis E} {s : State E S}
  {success : α → State E S → Prop}

/-- A computation that changes the state step by step, each time for a reason. -/
def Performs (a : Analysis E) (m : Solver E S α) (s : State E S) (success : α → State E S → Prop) :
    Prop :=
  Outcome m s (fun x s' => Changes a s s' ∧ success x s') (fun _ _ => True)

theorem Performs.mono {m : Solver E S α} {success' : α → State E S → Prop}
    (performs : Performs a m s success) (weaker : ∀ x s', success x s' → success' x s') :
    Performs a m s success' :=
  Outcome.mono performs (fun x s' held => ⟨held.1, weaker x s' held.2⟩) fun _ _ => id

theorem performs_pure {x : α} (holds : success x s) : Performs a (pure x) s success :=
  outcome_pure ⟨.refl, holds⟩

theorem performs_throw (e : AnalysisError) : Performs a (throw e : Solver E S α) s success :=
  outcome_throw trivial

/-- A look at the state changes nothing. -/
theorem performs_get {f : State E S → Solver E S α} (rest : Performs a (f s) s success) :
    Performs a (get >>= f) s success :=
  outcome_bind (outcome_get rest)

omit [IdSet S .contextObject] in
/-- A lookup changes nothing, and the computation goes on if it succeeds. -/
theorem outcome_lookup {found : Except UnknownId β} {f : β → Solver E S α}
    (rest : ∀ x, found = .ok x → Outcome (f x) s success (fun _ _ => True)) :
    Outcome (known found >>= f) s success (fun _ _ => True) := by
  cases found with
  | ok x => exact outcome_bind (rest x rfl)
  | error id => exact outcome_bind (outcome_throw trivial)

theorem performs_known {found : Except UnknownId β} {f : β → Solver E S α}
    (rest : ∀ x, found = .ok x → Performs a (f x) s success) :
    Performs a (known found >>= f) s success :=
  outcome_lookup rest

theorem performs_modify {success : Unit → State E S → Prop} {change : State E S → State E S}
    (reason : Change a s (change s)) (holds : success () (change s)) :
    Performs a (modify change : Solver E S Unit) s success :=
  outcome_modify ⟨.single reason, holds⟩

theorem performs_bind {m : Solver E S α} {f : α → Solver E S β} {middle : α → State E S → Prop}
    {success : β → State E S → Prop} (first : Performs a m s middle)
    (second : ∀ x s', Changes a s s' → middle x s' → Performs a (f x) s' success) :
    Performs a (m >>= f) s success := by
  refine outcome_bind (Outcome.mono first ?_ fun _ _ => id)
  rintro x s' ⟨changes, held⟩
  refine Outcome.mono (second x s' changes held) ?_ fun _ _ => id
  rintro y s'' ⟨changes', held'⟩
  exact ⟨changes.trans changes', held'⟩

/-- What every repetition leaves behind is there for all elements of the list, if no change takes it
away. -/
theorem performs_forM {l : List β} {body : β → Solver E S Unit} {done : β → State E S → Prop}
    (lasting : ∀ x s s', Changes a s s' → done x s → done x s')
    (each : ∀ x ∈ l, ∀ s', Changes a s s' → Performs a (body x) s' (fun _ => done x)) :
    Performs a (l.forM body) s (fun _ s' => ∀ x ∈ l, done x s') := by
  induction l generalizing s with
  | nil => exact performs_pure (by simp)
  | cons x l ih =>
    refine performs_bind (each x List.mem_cons_self s .refl) fun _ s' changes first => ?_
    have others := ih fun y there s'' changes' =>
      each y (List.mem_cons_of_mem _ there) s'' (changes.trans changes')
    refine Outcome.mono others ?_ fun _ _ => id
    rintro _ s'' ⟨changes', held⟩
    refine ⟨changes', fun y there => ?_⟩
    rcases List.mem_cons.mp there with rfl | there
    · exact lasting y s' s'' changes' first
    · exact held y there

/-- Repetitions of which nothing need be known but that they have reasons. -/
theorem performs_each {l : List β} {body : β → Solver E S Unit}
    (each : ∀ x ∈ l, ∀ s', Changes a s s' → Performs a (body x) s' (fun _ _ => True)) :
    Performs a (l.forM body) s (fun _ _ => True) := by
  have all : Performs a (l.forM body) s (fun _ _ => ∀ x ∈ l, True) :=
    performs_forM (fun _ _ _ _ => id) each
  exact all.mono fun _ _ _ => trivial

/-! ### Numbering and looking up -/

private theorem performs_number {intern : Canon E → Canon E × α}
    (reason : a.Numbers s.canon (intern s.canon).1) (made : NumbersMade a s (intern s.canon).1)
    (holds : success (intern s.canon).2 { s with canon := (intern s.canon).1 }) :
    Performs a (number intern : Solver E S α) s success :=
  outcome_modifyGet ⟨.single (.number reason made), holds⟩

theorem performs_numberContext {context : Context E}
    (reason : a.Numbers s.canon (s.canon.internContext context).1) :
    Performs a (numberContext context) s (fun id s' => s'.canon.context id = .ok context) :=
  performs_number reason .inl (s.canon.context_internContext context)

theorem performs_numberObject {m : MethodId} {target : VarId} {site : AllocSiteId} {type : TypeId}
    {object : AbstractObject} (has : a.program.Has m (.alloc target site type))
    (modelled : a.heap site type m = .ok object) :
    Performs a (number (·.internObject object)) s (fun id s' => s'.canon.object id = .ok object) :=
  performs_number (.object has modelled) .inl (s.canon.object_internObject object)

theorem performs_numberContextObject {c : ContextId} {object : ObjectId} {o : HeapObject E}
    (named : s.canon.context c = .ok o.context) (known : s.canon.object object = .ok o.object)
    (makes : Makes a s o) :
    Performs a (number (·.internContextObject ⟨c, object⟩)) s (fun id s' => s'.canon.Names id o) := by
  have grown := s.canon.extends_internContextObject ⟨c, object⟩
  have names {id : ContextObjectId} (found : (s.canon.internContextObject ⟨c, object⟩).1.contextObject
      id = .ok ⟨c, object⟩) : (s.canon.internContextObject ⟨c, object⟩).1.Names id o :=
    ⟨_, found, grown.context_eq named, grown.object_eq known⟩
  refine performs_number (.contextObject named known) (fun {id entry} found => ?_)
    (names (s.canon.contextObject_internContextObject _))
  rcases Canon.contextObject_of_internContextObject found with old | rfl
  · exact .inl old
  · exact .inr ⟨o, names found, makes⟩

theorem performs_numberVar {c : ContextId} {context : Context E} {v : VarId}
    (named : s.canon.context c = .ok context) (mentioned : a.program.Mentions v) :
    Performs a (numberVar c v) s (fun id s' => s'.canon.pointer id = .ok (.var c v)) :=
  performs_number (.var named mentioned) .inl (s.canon.pointer_internPointer _)

theorem performs_numberField {o : ContextObjectId} {object : HeapObject E} {f : FieldId}
    (named : s.canon.Names o object) (accessed : a.program.Accesses f) :
    Performs a (numberField o f) s (fun id s' => s'.canon.pointer id = .ok (.field o f)) :=
  performs_number (.field named accessed) .inl (s.canon.pointer_internPointer _)

theorem performs_numberMethod {c : ContextId} {context : Context E} {m : MethodId}
    (named : s.canon.context c = .ok context) (involved : a.program.Involves m) :
    Performs a (numberMethod c m) s (fun id s' => s'.canon.method id = .ok ⟨c, m⟩) :=
  performs_number (.method named involved) .inl (s.canon.method_internMethod _)

theorem performs_numberCallSite {c : ContextId} {context : Context E} {site : CallSiteId}
    {call : CallSite} (named : s.canon.context c = .ok context)
    (found : a.program.callSite site = .ok call) :
    Performs a (numberCallSite c site) s (fun id s' => s'.canon.callSite id = .ok ⟨c, site⟩) :=
  performs_number (.callSite named found) .inl (s.canon.callSite_internCallSite _)

theorem performs_contextOf {id : ContextId} {f : Context E → Solver E S α}
    (rest : ∀ context, s.canon.context id = .ok context → Performs a (f context) s success) :
    Performs a (contextOf id >>= f) s success := by
  refine outcome_bind (outcome_bind (outcome_get ?_))
  cases named : s.canon.context id with
  | ok context => exact rest context named
  | error unknown => exact outcome_throw trivial

theorem performs_objectOf {id : ContextObjectId} {f : ContextId × AbstractObject → Solver E S α}
    (rest : ∀ c object abstract, s.canon.contextObject id = .ok ⟨c, object⟩ →
      s.canon.object object = .ok abstract → Performs a (f (c, abstract)) s success) :
    Performs a (objectOf id >>= f) s success := by
  refine outcome_bind (outcome_bind (outcome_get (outcome_bind ?_)))
  cases entered : s.canon.contextObject id with
  | error unknown => exact outcome_throw trivial
  | ok entry =>
    refine outcome_known rfl (outcome_bind ?_)
    cases known : s.canon.object entry.object with
    | error unknown => exact outcome_throw trivial
    | ok abstract => exact outcome_known rfl (rest _ _ _ entered known)

/-! ### Callees -/

theorem performs_specialCallee {site : CallSiteId} {f : MethodId → Solver E S α}
    (rest : ∀ callee, a.program.resolveSpecial site = .ok (some callee) →
      Performs a (f callee) s success) :
    Performs a (specialCallee a site >>= f) s success := by
  rw [specialCallee, bind_assoc]
  refine performs_known fun answer resolved => ?_
  cases answer with
  | some callee => exact outcome_bind (outcome_pure (rest callee resolved))
  | none =>
    simp only [bind_assoc]
    refine performs_known fun call _ => performs_known fun target _ => performs_known fun name _ => ?_
    exact outcome_bind (outcome_throw trivial)

theorem performs_receiverCallee {site : CallSiteId} {type : TypeId} {f : MethodId → Solver E S α}
    (rest : ∀ callee, a.program.EntersOn site type callee → Performs a (f callee) s success) :
    Performs a (receiverCallee a site type >>= f) s success := by
  rw [receiverCallee, bind_assoc]
  refine performs_known fun call found => ?_
  cases kind : call.kind with
  | static => exact outcome_bind (outcome_throw trivial)
  | special =>
    exact performs_specialCallee fun callee resolved => rest callee (.special found kind resolved)
  | virtual =>
    rw [bind_assoc]
    refine performs_known fun answer resolved => ?_
    cases answer with
    | some callee => exact outcome_bind (outcome_pure (rest callee (.virtual found kind resolved)))
    | none =>
      rw [bind_assoc]
      exact performs_known fun name _ => outcome_bind (outcome_throw trivial)

variable [LawfulIdSet S]

/-- A call that is carried out is in the queue afterwards. -/
theorem performs_queueCall {c calleeContext : ContextId} {site : CallSiteId} {call : CallSite}
    {callee : MethodId} {context chosen : Context E} (named : s.canon.context c = .ok context)
    (calleeNamed : s.canon.context calleeContext = .ok chosen)
    (found : a.program.callSite site = .ok call)
    (carries : Carries a s c site calleeContext callee) :
    Performs a (queueCall c site call callee calleeContext) s (fun _ s' =>
      ∃ e ∈ s'.work.queuedCalls, s'.canon.callSite e.site = .ok ⟨c, site⟩ ∧
        s'.canon.method e.callee = .ok ⟨calleeContext, callee⟩) := by
  refine performs_bind (performs_numberCallSite named found) fun siteId s₁ changes₁ placed => ?_
  have grows₁ := changes₁.grows
  refine performs_bind (performs_numberMethod (grows₁.canon.context_eq named) (.container found))
    fun caller s₂ changes₂ within => ?_
  have grows₂ := changes₂.grows
  refine performs_bind (performs_numberMethod
    ((grows₁.trans grows₂).canon.context_eq calleeNamed) carries.involves)
    fun calleeId s₃ changes₃ entered => ?_
  have grows₃ := changes₃.grows
  have placed := (grows₂.trans grows₃).canon.callSite_eq placed
  have within := grows₃.canon.method_eq within
  have carries := carries.grows ((grows₁.trans grows₂).trans grows₃)
  apply performs_modify
  · exact .issue ⟨c, site, call, calleeContext, callee, placed, found, within, rfl, entered, carries⟩
  · refine ⟨⟨caller, siteId, calleeId, call.kind⟩, ?_, placed, entered⟩
    rw [WorkList.queuedCalls_pushCallEdge]
    exact List.mem_append_right _ List.mem_cons_self

/-! ### Statements of reachable methods -/

/-- A call without receiver in a reachable method is carried out. -/
theorem performs_meetCall {c : ContextId} {m : MethodId} {site : CallSiteId}
    (runs : s.Runs c m) (has : a.program.Has m (.call site)) :
    Performs a (meetCall a c site) s (fun _ _ => True) := by
  refine performs_known fun call found => ?_
  have enter {callee : MethodId} (enters : a.program.EntersAlone site callee) :
      Performs a (do
        let calleeContext ← numberContext (a.policy.call (← contextOf c) site)
        queueCall c site call callee calleeContext : Solver E S Unit) s (fun _ _ => True) := by
    refine performs_contextOf fun context named => ?_
    refine performs_bind (performs_numberContext (.callContext named found))
      fun calleeContext s₁ changes chosen => ?_
    have grows := changes.grows
    have named := grows.canon.context_eq named
    exact (performs_queueCall named chosen found
      (.alone (runs.grows grows) has enters named chosen)).mono fun _ _ _ => trivial
  cases kind : call.kind <;> cases receiver : call.receiver
  · exact enter (.static found receiver kind)
  · apply performs_throw
  · refine performs_specialCallee fun callee resolved => ?_
    exact enter (.special found receiver kind resolved)
  · exact performs_pure trivial
  · apply performs_throw
  · exact performs_pure trivial

theorem performs_addFlow {e : FlowEdge} {source target : Pointer}
    (fromSource : s.canon.pointer e.source = .ok source)
    (toTarget : s.canon.pointer e.target = .ok target) (wires : Wires a s source target e.kind) :
    Performs a (addFlow e.source e.target e.kind) s (fun _ s' => s'.HasFlow source target e.kind) := by
  obtain ⟨grows, there⟩ := State.grows_addFlow s e
  refine performs_modify (.wire fromSource toTarget wires) ⟨e, there, ?_, ?_, rfl⟩
  · exact grows.canon.pointer_eq fromSource
  · exact grows.canon.pointer_eq toTarget

theorem performs_meetStatement {c : ContextId} {m : MethodId} {context : Context E}
    {statement : Statement} (named : s.canon.context c = .ok context) (runs : s.Runs c m)
    (has : a.program.Has m statement) :
    Performs a (meetStatement a c m statement) s (fun _ _ => True) := by
  cases statement with
  | alloc target site type =>
    simp only [meetStatement]
    cases modelled : a.heap site type m with
    | error refusal => apply performs_throw
    | ok object =>
      refine performs_contextOf fun context' named' => ?_
      cases named.symm.trans named'
      refine performs_bind (performs_numberContext (.heapContext named))
        fun heapContext s₁ changes₁ chosen => ?_
      refine performs_bind (performs_numberObject has modelled) fun objectId s₂ changes₂ known => ?_
      have grows₂ := (changes₁.trans changes₂).grows
      have chosen := changes₂.grows.canon.context_eq chosen
      refine performs_bind (performs_numberContextObject chosen known
        (.alloc (runs.grows grows₂) ⟨target, site, type, has, modelled⟩
          (grows₂.canon.context_eq named)))
        fun o s₃ changes₃ entered => ?_
      have grows₃ := grows₂.trans changes₃.grows
      refine performs_bind (performs_numberVar (grows₃.canon.context_eq named) (.allocated has))
        fun p s₄ changes₄ located => ?_
      have grows := grows₃.trans changes₄.grows
      have entered := changes₄.grows.canon.names entered
      refine performs_modify (.supply located ?_) trivial
      exact .alloc (runs.grows grows) has modelled (grows.canon.context_eq named) entered
  | assign target source =>
    refine performs_bind (performs_numberVar named (.source has)) fun p s₁ changes₁ fromSource => ?_
    refine performs_bind (performs_numberVar (changes₁.grows.canon.context_eq named) (.assigned has))
      fun q s₂ changes₂ toTarget => ?_
    have fromSource := changes₂.grows.canon.pointer_eq fromSource
    exact (performs_addFlow (e := ⟨p, q, .assign⟩) fromSource toTarget
      (.assign (runs.grows (changes₁.trans changes₂).grows) has)).mono fun _ _ _ => trivial
  | load => exact performs_pure trivial
  | store => exact performs_pure trivial
  | call site => exact performs_meetCall runs has

/-- Once a method is marked as reachable, its statements are met. -/
theorem performs_reach (sound : s.Sound) (id : ContextMethodId) :
    Outcome (reach a id) s
      (fun _ s' => Changes a { s with calls := (s.calls.addReached id).1 } s') (fun _ _ => True) := by
  refine outcome_bind (outcome_modifyGet ?_)
  dsimp only
  by_cases old : id ∈ s.calls.reached.toList
  · rw [CallGraph.addReached_of_known old]
    exact outcome_pure .refl
  · obtain ⟨reached, fresh, _⟩ := CallGraph.addReached_of_new old
    rw [fresh, if_pos rfl]
    suffices met : Performs a (do
        let entry ← known ((← get).canon.method id)
        let method ← known (a.program.method entry.method)
        method.body.toList.forM (meetStatement a entry.context entry.method) : Solver E S Unit)
        { s with calls := (s.calls.addReached id).1 } (fun _ _ => True) from
      Outcome.mono met (fun _ _ => And.left) fun _ _ _ => trivial
    refine performs_get (performs_known fun entry found => ?_)
    obtain ⟨context, named⟩ := sound.canon.methods found
    have runs : State.Runs { s with calls := (s.calls.addReached id).1 } entry.context entry.method :=
      ⟨id, by simp [reached], found⟩
    refine performs_known fun method declared => ?_
    refine performs_each fun statement there s' changes => ?_
    exact performs_meetStatement (changes.grows.canon.context_eq named) (runs.grows changes.grows)
      ⟨method, declared, there⟩

/-! ### Objects that a variable passes on -/

section Variable

variable {c : ContextId} {v : VarId} {var : Variable} {context : Context E} {delta : S}
  (sound : s.Sound) (named : s.canon.context c = .ok context) (found : a.program.var v = .ok var)
  (passed : ∀ o ∈ IdSet.toList delta, s.Passed c v o)
include named found passed

include sound in
theorem performs_connectStores :
    Performs a (connectStores c var delta) s (fun _ s' => ∀ entry ∈ var.stores.toList,
      ∀ o ∈ IdSet.toList delta, s'.HasFlow (.var c entry.2) (.field o entry.1) .store) := by
  refine performs_forM ?_ ?_
  · intro entry s s' changes flows o there
    exact (flows o there).retained changes.grows.retains
  rintro ⟨f, source⟩ listed s₁ changes₁
  have accessed : a.program.Accesses f := ⟨v, var, source, found, .inl listed⟩
  refine performs_bind (performs_numberVar (changes₁.grows.canon.context_eq named)
    (.stored found listed)) fun p s₂ changes₂ fromSource => ?_
  have changes₂ := changes₁.trans changes₂
  refine performs_forM ?_ ?_
  · intro o s s' changes flow
    exact flow.retained changes.grows.retains
  intro o there s₃ changes₃
  have later := changes₂.trans changes₃
  have passed := (passed o there).grows later.grows
  obtain ⟨object, known⟩ := (sound.changes later).of_passed passed
  refine performs_bind (performs_numberField known accessed) fun q s₄ changes₄ toTarget => ?_
  have fromSource := (changes₃.trans changes₄).grows.canon.pointer_eq fromSource
  exact performs_addFlow (e := ⟨p, q, .store⟩) fromSource toTarget
    (.store (passed.grows changes₄.grows) found listed)

include sound in
theorem performs_connectLoads :
    Performs a (connectLoads c var delta) s (fun _ s' => ∀ entry ∈ var.loads.toList,
      ∀ o ∈ IdSet.toList delta, s'.HasFlow (.field o entry.1) (.var c entry.2) .load) := by
  refine performs_forM ?_ ?_
  · intro entry s s' changes flows o there
    exact (flows o there).retained changes.grows.retains
  rintro ⟨f, target⟩ listed s₁ changes₁
  have accessed : a.program.Accesses f := ⟨v, var, target, found, .inr listed⟩
  refine performs_bind (performs_numberVar (changes₁.grows.canon.context_eq named)
    (.loaded found listed)) fun q s₂ changes₂ toTarget => ?_
  have changes₂ := changes₁.trans changes₂
  refine performs_forM ?_ ?_
  · intro o s s' changes flow
    exact flow.retained changes.grows.retains
  intro o there s₃ changes₃
  have later := changes₂.trans changes₃
  have passed := (passed o there).grows later.grows
  obtain ⟨object, known⟩ := (sound.changes later).of_passed passed
  refine performs_bind (performs_numberField known accessed) fun p s₄ changes₄ fromSource => ?_
  have toTarget := (changes₃.trans changes₄).grows.canon.pointer_eq toTarget
  exact performs_addFlow (e := ⟨p, q, .load⟩) fromSource toTarget
    (.load (passed.grows changes₄.grows) found listed)

omit passed in
/-- A call on an object is carried out, and `this` of its callee gets the object. -/
theorem performs_meetReceiver {site : CallSiteId} {call : CallSite} {o : ContextObjectId}
    (passed : s.Passed c v o) (listed : site ∈ var.calls.toList)
    (declared : a.program.callSite site = .ok call) :
    Performs a (meetReceiver a c site call o) s (fun _ s' => Answers a s' c site o) := by
  refine performs_objectOf fun receiverContext objectId abstract entered known => ?_
  refine performs_receiverCallee fun callee enters => performs_contextOf fun context' named' => ?_
  cases named.symm.trans named'
  refine performs_contextOf fun heapContext heapNamed => ?_
  have object : s.canon.Names o ⟨heapContext, abstract⟩ := ⟨_, entered, heapNamed, known⟩
  refine performs_bind (performs_numberContext (.receiverContext named declared object))
    fun calleeContext s₁ changes₁ chosen => ?_
  have grows₁ := changes₁.grows
  have carries : Carries a s₁ c site calleeContext callee :=
    .onObject (passed.grows grows₁) found listed (grows₁.canon.names object) enters
      (grows₁.canon.context_eq named) chosen
  refine performs_bind (performs_queueCall (grows₁.canon.context_eq named) chosen declared carries)
    fun _ s₂ changes₂ ⟨e, queued, placed, callee_entered⟩ => ?_
  refine performs_known fun method methodFound => ?_
  cases this : method.this with
  | none => apply performs_throw
  | some this_ =>
    have grows₂ := changes₂.grows
    have chosen := grows₂.canon.context_eq chosen
    refine performs_bind (performs_numberVar chosen (.this methodFound this))
      fun p s₃ changes₃ located => ?_
    have grows₃ := changes₃.grows
    have grows := (grows₁.trans grows₂).trans grows₃
    have callee_entered := grows₃.canon.method_eq callee_entered
    have queued := grows₃.queued.subset queued
    have object := grows.canon.names object
    have added := State.grows_addObject s₃ p o
    refine performs_modify (.supply located (.this queued callee_entered methodFound this object)) ?_
    have called : s₃.HasCall c site calleeContext callee :=
      ⟨e, .inr queued, grows₃.canon.callSite_eq placed, callee_entered⟩
    refine ⟨context, ⟨heapContext, abstract⟩, callee, calleeContext, method, this_,
      (grows.trans added).canon.context_eq named, added.canon.names object, enters,
      (grows₃.trans added).canon.context_eq chosen, called.retained added.retains, methodFound, this,
      p, added.canon.pointer_eq located, ?_⟩
    exact (State.knows_addObject s₃).mpr (.inr ⟨rfl, rfl⟩)

theorem performs_connectCalls :
    Performs a (connectCalls a c var delta) s (fun _ s' => ∀ site ∈ var.calls.toList,
      ∀ o ∈ IdSet.toList delta, Answers a s' c site o) := by
  refine performs_forM ?_ ?_
  · intro site s s' changes answers o there
    exact (answers o there).retained changes.grows.retains
  intro site listed s₁ changes₁
  refine performs_known fun call declared => ?_
  refine performs_forM ?_ ?_
  · intro o s s' changes answers
    exact answers.retained changes.grows.retains
  intro o there s₂ changes₂
  have grows := (changes₁.trans changes₂).grows
  exact performs_meetReceiver (grows.canon.context_eq named) found
    ((passed o there).grows grows) listed declared

end Variable

end PointerAnalysis.Solver
