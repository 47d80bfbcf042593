import PointerAnalysis.Proofs.Rules.Scope

/-! Sets of facts that the rules cannot add to. Each fact asks for others: a reachable method for
what its statements do, an object in a variable for what the accesses and calls through it do, a
call for the flow of its arguments and results. A set is closed if it holds all that its facts ask
for. -/
namespace PointerAnalysis

variable {E : Type}

namespace Program

variable {p : Program} {site : CallSiteId} {call : CallSite} {t : TypeId} {m m' : MethodId}

/-- What a call without receiver enters, read off the call. -/
theorem entersAlone_iff (found : p.callSite site = .ok call) :
    p.EntersAlone site m ↔ call.receiver = none ∧ ((call.kind = .static ∧ m = call.target) ∨
      (call.kind = .special ∧ p.resolveSpecial site = .ok (some m))) := by
  constructor
  · intro enters
    cases enters with
    | static found' alone kind =>
      cases found.symm.trans found'
      exact ⟨alone, .inl ⟨kind, rfl⟩⟩
    | special found' alone kind resolved =>
      cases found.symm.trans found'
      exact ⟨alone, .inr ⟨kind, resolved⟩⟩
  · rintro ⟨alone, ⟨kind, rfl⟩ | ⟨kind, resolved⟩⟩
    · exact .static found alone kind
    · exact .special found alone kind resolved

/-- What a call enters on an object, read off the call. -/
theorem entersOn_iff (found : p.callSite site = .ok call) :
    p.EntersOn site t m ↔
      (call.kind = .virtual ∧ p.resolveVirtual t call.target = .ok (some m)) ∨
        (call.kind = .special ∧ p.resolveSpecial site = .ok (some m)) := by
  constructor
  · intro enters
    cases enters with
    | virtual found' kind resolved =>
      cases found.symm.trans found'
      exact .inl ⟨kind, resolved⟩
    | special found' kind resolved =>
      cases found.symm.trans found'
      exact .inr ⟨kind, resolved⟩
  · rintro (⟨kind, resolved⟩ | ⟨kind, resolved⟩)
    · exact .virtual found kind resolved
    · exact .special found kind resolved

theorem EntersAlone.callSite (enters : p.EntersAlone site m) : ∃ call, p.callSite site = .ok call := by
  cases enters with
  | static found => exact ⟨_, found⟩
  | special found => exact ⟨_, found⟩

theorem EntersOn.callSite (enters : p.EntersOn site t m) : ∃ call, p.callSite site = .ok call := by
  cases enters with
  | virtual found => exact ⟨_, found⟩
  | special found => exact ⟨_, found⟩

/-- A call without receiver enters one method at most. -/
theorem EntersAlone.unique (first : p.EntersAlone site m) (second : p.EntersAlone site m') :
    m = m' := by
  obtain ⟨call, found⟩ := first.callSite
  rw [entersAlone_iff found] at first second
  rcases first with ⟨_, ⟨kind, rfl⟩ | ⟨kind, resolved⟩⟩ <;>
    rcases second with ⟨_, ⟨kind', rfl⟩ | ⟨kind', resolved'⟩⟩ <;> simp_all

/-- On the objects of one class a call enters one method at most. -/
theorem EntersOn.unique (first : p.EntersOn site t m) (second : p.EntersOn site t m') : m = m' := by
  obtain ⟨call, found⟩ := first.callSite
  rw [entersOn_iff found] at first second
  rcases first with ⟨kind, resolved⟩ | ⟨kind, resolved⟩ <;>
    rcases second with ⟨kind', resolved'⟩ | ⟨kind', resolved'⟩ <;> simp_all

end Program

namespace Analysis

variable (a : Analysis E)

/-- What a statement of a reachable method asks for. Heap accesses ask for nothing before an
object reaches their base, and receiver calls only for not being static. -/
def Met (known : Fact E → Prop) (c : Context E) (m : MethodId) : Statement → Prop
  | .alloc target site type => ∃ o, a.heap site type m = .ok o ∧
      known (.holds (.var c target) ⟨a.policy.heap c, o⟩)
  | .assign target source => known (.flows (.var c source) (.var c target) .assign)
  | .load .. | .store .. => True
  | .call site => ∃ call, a.program.callSite site = .ok call ∧
      (call.receiver = none → ∃ callee, a.program.EntersAlone site callee ∧
        known (.calls c site (a.policy.call c site) callee)) ∧
      (call.receiver ≠ none → call.kind ≠ .static)

/-- What a call asks for on an object that its receiver holds. -/
def CalledOn (known : Fact E → Prop) (c : Context E) (site : CallSiteId) (o : HeapObject E) : Prop :=
  ∃ callee method this, a.program.EntersOn site o.object.type callee ∧
    a.program.method callee = .ok method ∧ method.this = some this ∧
    known (.calls c site (a.policy.receiverCall c site o.context o.object) callee) ∧
    known (.holds (.var (a.policy.receiverCall c site o.context o.object) this) o)

/-- What an object in a variable asks for. -/
structure Reacted (known : Fact E → Prop) (c : Context E) (x : VarId) (o : HeapObject E) : Prop where
  stores : ∀ {m f source}, a.program.Has m (.store x f source) →
    known (.flows (.var c source) (.field o f) .store)
  loads : ∀ {m target f}, a.program.Has m (.load target x f) →
    known (.flows (.field o f) (.var c target) .load)
  calls : ∀ {site call}, a.program.callSite site = .ok call → call.receiver = some x →
    a.CalledOn known c site o

/-- What a call asks for. -/
structure Wired (known : Fact E → Prop) (c : Context E) (site : CallSiteId) (c' : Context E)
    (callee : MethodId) : Prop where
  reached : known (.reached c' callee)
  params : ∀ {call method argument param}, a.program.callSite site = .ok call →
    a.program.method callee = .ok method → (argument, param) ∈ call.args.zip method.params →
    known (.flows (.var c argument) (.var c' param) .param)
  returns : ∀ {call method returned result}, a.program.callSite site = .ok call →
    a.program.method callee = .ok method → returned ∈ method.returns →
    call.result = some result → known (.flows (.var c' returned) (.var c result) .return)

/-- The facts that a recorded fact asks for are known. Objects are asked to follow the edges that
are recorded themselves. -/
def Answered (recorded known : Fact E → Prop) : Fact E → Prop
  | .reached c m => ∀ s, a.program.Has m s → a.Met known c m s
  | .calls c site c' callee => a.Wired known c site c' callee
  | .flows .. => True
  | .holds l o =>
    (∀ target kind, recorded (.flows l target kind) → known (.holds target o)) ∧
      ∀ c x, l = .var c x → a.Reacted known c x o

/-- All that the rules ask for is known. -/
structure Closed (known : Fact E → Prop) : Prop where
  entry : ∀ m ∈ a.program.entries, known (.reached [] m)
  answered : ∀ f, known f → a.Answered known known f

variable {a}

/-- A call asks for its callee and for flow edges between the variables of two methods. -/
theorem Wired.of_flows {known : Fact E → Prop} {c c' : Context E} {site : CallSiteId}
    {callee : MethodId} {call : CallSite} {method : Method}
    (found : a.program.callSite site = .ok call) (declared : a.program.method callee = .ok method)
    (reached : known (.reached c' callee))
    (params : ∀ pair ∈ call.args.zip method.params,
      known (.flows (.var c pair.1) (.var c' pair.2) .param))
    (returns : ∀ result, call.result = some result → ∀ returned ∈ method.returns,
      known (.flows (.var c' returned) (.var c result) .return)) :
    a.Wired known c site c' callee where
  reached := reached
  params := by
    intro call' method' argument param found' declared' placed
    cases found.symm.trans found'
    cases declared.symm.trans declared'
    exact params _ placed
  returns := by
    intro call' method' returned result found' declared' listed named
    cases found.symm.trans found'
    cases declared.symm.trans declared'
    exact returns result named returned listed

section Monotone

variable {known known' : Fact E → Prop} (grown : ∀ f, known f → known' f)
include grown

theorem Met.mono {c : Context E} {m : MethodId} {s : Statement} (met : a.Met known c m s) :
    a.Met known' c m s := by
  cases s with
  | alloc target site type =>
    obtain ⟨o, made, held⟩ := met
    exact ⟨o, made, grown _ held⟩
  | assign target source => exact grown _ met
  | load target base field => trivial
  | store base field source => trivial
  | call site =>
    obtain ⟨call, found, alone, receiver⟩ := met
    refine ⟨call, found, fun none => ?_, receiver⟩
    obtain ⟨callee, enters, called⟩ := alone none
    exact ⟨callee, enters, grown _ called⟩

theorem CalledOn.mono {c : Context E} {site : CallSiteId} {o : HeapObject E}
    (called : a.CalledOn known c site o) : a.CalledOn known' c site o := by
  obtain ⟨callee, method, this, enters, declared, named, called, held⟩ := called
  exact ⟨callee, method, this, enters, declared, named, grown _ called, grown _ held⟩

theorem Reacted.mono {c : Context E} {x : VarId} {o : HeapObject E}
    (reacted : a.Reacted known c x o) : a.Reacted known' c x o where
  stores statement := grown _ (reacted.stores statement)
  loads statement := grown _ (reacted.loads statement)
  calls found receiver := (reacted.calls found receiver).mono grown

theorem Wired.mono {c c' : Context E} {site : CallSiteId} {callee : MethodId}
    (wired : a.Wired known c site c' callee) : a.Wired known' c site c' callee where
  reached := grown _ wired.reached
  params found declared placed := grown _ (wired.params found declared placed)
  returns found declared listed named := grown _ (wired.returns found declared listed named)

/-- What is answered by some facts is answered by more. -/
theorem Answered.mono {recorded : Fact E → Prop} {f : Fact E}
    (answered : a.Answered recorded known f) : a.Answered recorded known' f := by
  cases f with
  | reached c m => exact fun s has => (answered s has).mono grown
  | calls c site c' callee => exact Wired.mono grown answered
  | flows source target kind => trivial
  | holds l o =>
    obtain ⟨arrived, reacted⟩ := answered
    exact ⟨fun target kind flows => grown _ (arrived target kind flows),
      fun c x same => (reacted c x same).mono grown⟩

end Monotone

end Analysis

end PointerAnalysis
