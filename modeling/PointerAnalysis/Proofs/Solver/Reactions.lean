import PointerAnalysis.Proofs.Rules.Closed
import PointerAnalysis.Proofs.Solver.Quiet

/-! What the solver does about a statement of a reachable method and about an object that reaches a
variable: afterwards the state shows all that the rules ask for there. In a coherent program no
lookup fails on the way. -/
namespace PointerAnalysis.Solver

variable {E S : Type} [Coded E] [IdSet S .contextObject] {a : Analysis E} {s : State E S}

section Callees

variable (coherent : a.Coherent)
include coherent

theorem quiet_specialCallee (grounded : s.Grounded a) {site : CallSiteId} {call : CallSite}
    (found : a.program.callSite site = .ok call)
    (blocked : ∀ {target name}, a.program.resolveSpecial site = .ok none →
      a.program.method call.target = .ok target → a.program.typeName target.owner = .ok name →
      a.Obstructed (.dispatchFailure site name)) :
    Quiet a (specialCallee a site) s
      (fun callee _ => a.program.resolveSpecial site = .ok (some callee)) := by
  obtain ⟨target, known, _⟩ := (coherent.program.calls found).target_known
  obtain ⟨answer, resolved, _⟩ := coherent.program.resolveSpecial_ok found known
  refine outcome_bind (outcome_known resolved ?_)
  cases answer with
  | some callee => exact quiet_pure grounded resolved
  | none =>
    obtain ⟨type, owner⟩ := (coherent.program.methods known).owner_known
    have name : a.program.typeName target.owner = .ok type.name := by
      simp [Program.typeName, owner]
    refine outcome_bind (outcome_known found ?_)
    refine outcome_bind (outcome_known known ?_)
    refine outcome_bind (outcome_known name ?_)
    exact quiet_throw grounded (blocked resolved known name)

/-- On a derivable receiver the callee is the one that the rules say. -/
theorem quiet_receiverCallee (grounded : s.Grounded a) {c : Context E} {x : VarId}
    {o : HeapObject E} {site : CallSiteId} {call : CallSite}
    (held : a.Derives (.holds (.var c x) o)) (found : a.program.callSite site = .ok call)
    (receiver : call.receiver = some x) :
    Quiet a (receiverCallee a site o.object.type) s
      (fun callee _ => a.program.EntersOn site o.object.type callee) := by
  refine outcome_bind (outcome_known found ?_)
  cases kind : call.kind with
  | static => exact quiet_throw grounded (.staticOnObject held found receiver kind)
  | special =>
    refine (quiet_specialCallee coherent grounded found fun resolved known name =>
      .specialOnObject held found receiver kind resolved known name).mono ?_
    intro callee _ resolved
    exact .special found kind resolved
  | virtual =>
    obtain ⟨_, type, declared⟩ := held.scoped coherent
    obtain ⟨target, known, _⟩ := (coherent.program.calls found).target_known
    obtain ⟨answer, resolved, _⟩ := coherent.program.resolveVirtual_ok declared known
    refine outcome_bind (outcome_known resolved ?_)
    cases answer with
    | some callee => exact quiet_pure grounded (.virtual found kind resolved)
    | none =>
      have name : a.program.typeName o.object.type = .ok type.name := by
        simp [Program.typeName, declared]
      refine outcome_bind (outcome_known name ?_)
      exact quiet_throw grounded (.virtualOnObject held found receiver kind resolved name)

end Callees

/-! ### Statements of a reachable method -/

section Statements

variable (coherent : a.Coherent)
include coherent

omit coherent in
/-- Entering the callee of a call without receiver. -/
private theorem quiet_enter (grounded : s.Grounded a) {context : ContextId} {c : Context E}
    {m callee : MethodId} {site : CallSiteId} {call : CallSite}
    (named : s.canon.context context = .ok c) (reached : a.Derives (.reached c m))
    (statement : a.program.Has m (.call site)) (found : a.program.callSite site = .ok call)
    (enters : a.program.EntersAlone site callee) (alone : call.receiver = none) :
    Quiet a (do
      let calleeContext ← numberContext (a.policy.call (← contextOf context) site)
      queueCall context site call callee calleeContext) s
      (fun _ s' => a.Met s'.Shows c m (.call site)) := by
  refine quiet_bind (quiet_contextOf grounded named) ?_
  rintro _ s₁ grows₁ grounded₁ rfl
  refine quiet_bind (quiet_numberContext grounded₁ _) ?_
  intro calleeContext s₂ grows₂ grounded₂ calleeNamed
  refine (quiet_queueCall grounded₂ ((grows₁.trans grows₂).canon.context_eq named) calleeNamed found
    (.call reached statement enters)).mono ?_
  intro _ s₃ shown
  exact ⟨call, found, fun _ => ⟨callee, enters, shown⟩, fun receiver => absurd alone receiver⟩

/-- A call in a reachable method is queued, unless it waits for a receiver. -/
theorem quiet_meetCall (grounded : s.Grounded a) {context : ContextId} {c : Context E}
    {m : MethodId} {site : CallSiteId} (named : s.canon.context context = .ok c)
    (reached : a.Derives (.reached c m)) (statement : a.program.Has m (.call site)) :
    Quiet a (meetCall a context site) s (fun _ s' => a.Met s'.Shows c m (.call site)) := by
  obtain ⟨call, found, _⟩ := coherent.program.statements_scoped statement
  refine outcome_bind (outcome_known found ?_)
  have waits {receiver : VarId} (some : call.receiver = some receiver) (kind : call.kind ≠ .static) :
      Quiet a (pure ()) s (fun _ s' => a.Met s'.Shows c m (.call site)) :=
    quiet_pure grounded ⟨call, found, fun none => by simp [none] at some, fun _ => kind⟩
  cases kind : call.kind with
  | static =>
    cases receiver : call.receiver with
    | none =>
      exact quiet_enter grounded named reached statement found
        (.static found receiver kind) receiver
    | some x =>
      exact quiet_throw grounded
        (.staticOnReceiver reached statement found kind (by simp [receiver]))
  | special =>
    cases receiver : call.receiver with
    | none =>
      refine quiet_bind (quiet_specialCallee coherent grounded found fun resolved known name =>
        .specialAlone reached statement found kind receiver resolved known name) ?_
      intro callee s₁ grows₁ grounded₁ resolved
      exact quiet_enter grounded₁ (grows₁.canon.context_eq named) reached statement found
        (.special found receiver kind resolved) receiver
    | some x => exact waits receiver (by simp [kind])
  | virtual =>
    cases receiver : call.receiver with
    | none =>
      exact quiet_throw grounded (.virtualAlone reached statement found kind receiver)
    | some x => exact waits receiver (by simp [kind])

variable [LawfulIdSet S]

theorem quiet_meetStatement (grounded : s.Grounded a) {context : ContextId} {c : Context E}
    {m : MethodId} {statement : Statement} (named : s.canon.context context = .ok c)
    (reached : a.Derives (.reached c m)) (there : a.program.Has m statement) :
    Quiet a (meetStatement a context m statement) s
      (fun _ s' => a.Met s'.Shows c m statement) := by
  cases statement with
  | alloc target site type =>
    simp only [meetStatement]
    cases made : a.heap site type m with
    | error refusal => exact quiet_throw grounded (.heap reached there made)
    | ok object =>
      refine quiet_bind (quiet_contextOf grounded named) ?_
      rintro _ s₁ grows₁ grounded₁ rfl
      refine quiet_bind (quiet_numberContext grounded₁ _) ?_
      intro heapContext s₂ grows₂ grounded₂ heapNamed
      refine quiet_bind (quiet_numberObject grounded₂ object) ?_
      intro objectId s₃ grows₃ grounded₃ known
      refine quiet_bind (quiet_numberContextObject (o := ⟨_, object⟩) grounded₃
        (grows₃.canon.context_eq heapNamed) known) ?_
      intro contextObject s₄ grows₄ grounded₄ stands
      have grows := ((grows₁.trans grows₂).trans grows₃).trans grows₄
      refine quiet_bind (quiet_numberVar grounded₄ (grows.canon.context_eq named) target) ?_
      intro pointer s₅ grows₅ grounded₅ located
      refine (quiet_addObject grounded₅ located (grows₅.canon.names stands)
        (.alloc reached there made)).mono ?_
      intro _ s₆ shown
      exact ⟨object, made, shown⟩
  | assign target source =>
    refine quiet_bind (quiet_numberVar grounded named source) ?_
    intro sourceId s₁ grows₁ grounded₁ fromSource
    refine quiet_bind (quiet_numberVar grounded₁ (grows₁.canon.context_eq named) target) ?_
    intro targetId s₂ grows₂ grounded₂ toTarget
    exact quiet_addFlow grounded₂ (grows₂.canon.locates fromSource) toTarget
      (.assign reached there)
  | load target base field => exact quiet_pure grounded trivial
  | store base field source => exact quiet_pure grounded trivial
  | call site => exact quiet_meetCall coherent grounded named reached there

end Statements

/-! ### Objects that reach a variable -/

section Objects

variable [LawfulIdSet S] {c : Context E} {context : ContextId} {v : VarId} {var : Variable}
  {delta : S}

/-- The numbers of a delta stand for objects that the variable derivably holds. -/
def Arrives (a : Analysis E) (s : State E S) (c : Context E) (v : VarId) (delta : S) : Prop :=
  ∀ id ∈ IdSet.toList delta, ∃ o, s.canon.Names id o ∧ a.Derives (.holds (.var c v) o)

variable (coherent : a.Coherent) (grounded : s.Grounded a)
  (named : s.canon.context context = .ok c) (found : a.program.var v = .ok var)
  (arrives : Arrives a s c v delta)
include coherent grounded named found arrives

/-- Every store through the variable reaches the field of every new object. -/
theorem quiet_connectStores :
    Quiet a (connectStores context var delta) s (fun _ s' =>
      ∀ access ∈ var.stores.toList, ∀ id ∈ IdSet.toList delta, ∀ o, s.canon.Names id o →
        s'.Shows (.flows (.var c access.2) (.field o access.1) .store)) := by
  refine quiet_forM grounded
    (fun access s' s'' grows shown id there o stands => grows.shows (shown id there o stands)) ?_
  rintro ⟨field, source⟩ there s₁ grows₁ grounded₁
  have statement := ((coherent.program.vars found).stores_iff field source).mp there
  refine quiet_bind (quiet_numberVar grounded₁ (grows₁.canon.context_eq named) source) ?_
  intro sourceId s₂ grows₂ grounded₂ fromSource
  refine quiet_forM grounded₂ (fun id s' s'' grows shown o stands => grows.shows (shown o stands)) ?_
  intro id new s₃ grows₃ grounded₃
  obtain ⟨o, stands, held⟩ := arrives id new
  have grows := (grows₁.trans grows₂).trans grows₃
  refine quiet_bind (quiet_numberField grounded₃ (grows.canon.names stands) field) ?_
  intro targetId s₄ grows₄ grounded₄ toTarget
  refine (quiet_addFlow grounded₄ ((grows₃.trans grows₄).canon.locates fromSource) toTarget
    (.store held statement)).mono ?_
  intro _ s₅ shown o' stands'
  exact stands.unique stands' ▸ shown

/-- The field of every new object reaches every load through the variable. -/
theorem quiet_connectLoads :
    Quiet a (connectLoads context var delta) s (fun _ s' =>
      ∀ access ∈ var.loads.toList, ∀ id ∈ IdSet.toList delta, ∀ o, s.canon.Names id o →
        s'.Shows (.flows (.field o access.1) (.var c access.2) .load)) := by
  refine quiet_forM grounded
    (fun access s' s'' grows shown id there o stands => grows.shows (shown id there o stands)) ?_
  rintro ⟨field, target⟩ there s₁ grows₁ grounded₁
  have statement := ((coherent.program.vars found).loads_iff field target).mp there
  refine quiet_bind (quiet_numberVar grounded₁ (grows₁.canon.context_eq named) target) ?_
  intro targetId s₂ grows₂ grounded₂ toTarget
  refine quiet_forM grounded₂ (fun id s' s'' grows shown o stands => grows.shows (shown o stands)) ?_
  intro id new s₃ grows₃ grounded₃
  obtain ⟨o, stands, held⟩ := arrives id new
  have grows := (grows₁.trans grows₂).trans grows₃
  refine quiet_bind (quiet_numberField grounded₃ (grows.canon.names stands) field) ?_
  intro sourceId s₄ grows₄ grounded₄ fromSource
  refine (quiet_addFlow grounded₄ fromSource ((grows₃.trans grows₄).canon.locates toTarget)
    (.load held statement)).mono ?_
  intro _ s₅ shown o' stands'
  exact stands.unique stands' ▸ shown

omit found arrives in
/-- A receiver object puts the call into the queue and itself into the `this` of the callee. -/
theorem quiet_meetReceiver {receiver : ContextObjectId} {o : HeapObject E} {site : CallSiteId}
    {call : CallSite} (stands : s.canon.Names receiver o) (held : a.Derives (.holds (.var c v) o))
    (found : a.program.callSite site = .ok call) (through : call.receiver = some v) :
    Quiet a (meetReceiver a context site call receiver) s
      (fun _ s' => a.CalledOn s'.Shows c site o) := by
  refine quiet_bind (quiet_objectOf grounded stands) ?_
  rintro ⟨receiverContext, _⟩ s₁ grows₁ grounded₁ ⟨receiverNamed, rfl⟩
  refine quiet_bind (quiet_receiverCallee coherent grounded₁ held found through) ?_
  intro callee s₂ grows₂ grounded₂ enters
  have called := Analysis.Derives.receiverCall held found through enters
  refine quiet_bind (quiet_contextOf grounded₂ ((grows₁.trans grows₂).canon.context_eq named)) ?_
  rintro _ s₃ grows₃ grounded₃ rfl
  refine quiet_bind (quiet_contextOf grounded₃
    ((grows₂.trans grows₃).canon.context_eq receiverNamed)) ?_
  rintro _ s₄ grows₄ grounded₄ rfl
  refine quiet_bind (quiet_numberContext grounded₄ _) ?_
  intro calleeContext s₅ grows₅ grounded₅ calleeNamed
  have grows := (((grows₁.trans grows₂).trans grows₃).trans grows₄).trans grows₅
  refine quiet_bind (quiet_queueCall grounded₅ (grows.canon.context_eq named) calleeNamed found
    called) ?_
  intro _ s₆ grows₆ grounded₆ queued
  obtain ⟨_, type, declared⟩ := held.scoped coherent
  obtain ⟨_, _, method, known, _⟩ := coherent.program.takes_of_entersOn declared enters
  refine outcome_bind (outcome_known known ?_)
  cases binds : method.this with
  | none => exact quiet_throw grounded₆ (.noThis held found through enters known binds)
  | some this =>
    refine quiet_bind (quiet_numberVar grounded₆ (grows₆.canon.context_eq calleeNamed) this) ?_
    intro pointer s₇ grows₇ grounded₇ located
    have stands := ((grows.trans grows₆).trans grows₇).canon.names stands
    have bound := quiet_addObject grounded₇ located stands
      (.this held found through enters known binds)
    refine bound.grown.mono ?_
    rintro _ s₈ ⟨grows₈, holds⟩
    exact ⟨callee, method, this, enters, known, binds, (grows₇.trans grows₈).shows queued, holds⟩

/-- Every call on the variable is carried out on every new object. -/
theorem quiet_connectCalls :
    Quiet a (connectCalls a context var delta) s (fun _ s' =>
      ∀ site ∈ var.calls.toList, ∀ id ∈ IdSet.toList delta, ∀ o, s.canon.Names id o →
        a.CalledOn s'.Shows c site o) := by
  refine quiet_forM grounded (fun site s' s'' grows called id there o stands =>
    (called id there o stands).mono fun _ => grows.shows) ?_
  intro site there s₁ grows₁ grounded₁
  obtain ⟨call, declared, through⟩ := ((coherent.program.vars found).calls_iff site).mp there
  refine outcome_bind (outcome_known declared ?_)
  refine quiet_forM grounded₁ (fun id s' s'' grows called o stands =>
    (called o stands).mono fun _ => grows.shows) ?_
  intro id new s₂ grows₂ grounded₂
  obtain ⟨o, stands, held⟩ := arrives id new
  have grows := grows₁.trans grows₂
  refine (quiet_meetReceiver coherent grounded₂ (grows.canon.context_eq named)
    (grows.canon.names stands) held declared through).mono ?_
  intro _ s₃ called o' stands'
  exact stands.unique stands' ▸ called

/-- Everything that goes through the variable reacts to every new object. -/
theorem quiet_connect :
    Quiet a (do
      connectStores context var delta
      connectLoads context var delta
      connectCalls a context var delta) s
      (fun _ s' => ∀ id ∈ IdSet.toList delta, ∀ o, s.canon.Names id o →
        a.Reacted s'.Shows c v o) := by
  refine quiet_bind (quiet_connectStores coherent grounded named found arrives) ?_
  intro _ s₁ grows₁ grounded₁ stored
  have arrives₁ : Arrives a s₁ c v delta := fun id there => by
    obtain ⟨o, stands, held⟩ := arrives id there
    exact ⟨o, grows₁.canon.names stands, held⟩
  refine quiet_bind (quiet_connectLoads coherent grounded₁ (grows₁.canon.context_eq named) found
    arrives₁) ?_
  intro _ s₂ grows₂ grounded₂ loaded
  have arrives₂ : Arrives a s₂ c v delta := fun id there => by
    obtain ⟨o, stands, held⟩ := arrives₁ id there
    exact ⟨o, grows₂.canon.names stands, held⟩
  have grows := grows₁.trans grows₂
  refine (quiet_connectCalls coherent grounded₂ (grows.canon.context_eq named) found
    arrives₂).grown.mono ?_
  rintro _ s₃ ⟨grows₃, called⟩ id there o stands
  have owner {m : MethodId} (owns : a.program.Owns m v) : var.method = m := by
    obtain ⟨var', found', owned⟩ := owns
    cases found.symm.trans found'
    exact owned
  exact {
    stores := fun {m f source} statement => by
      cases owner (coherent.program.statements_scoped statement).1
      exact (grows₂.trans grows₃).shows
        (stored _ (((coherent.program.vars found).stores_iff f source).mpr statement) id there o stands)
    loads := fun {m target f} statement => by
      cases owner (coherent.program.statements_scoped statement).2.1
      exact grows₃.shows (loaded _ (((coherent.program.vars found).loads_iff f target).mpr statement) id
        there o (grows₁.canon.names stands))
    calls := fun {site call} declared through =>
      called site (((coherent.program.vars found).calls_iff site).mpr ⟨call, declared, through⟩) id there o
        (grows.canon.names stands) }

end Objects

end PointerAnalysis.Solver
