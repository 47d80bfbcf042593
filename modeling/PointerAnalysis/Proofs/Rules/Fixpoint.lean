import PointerAnalysis.Proofs.Rules.Closed

/-! What a finished analysis has to satisfy, rule by rule. The rules are read as demands here: where
a rule has its premises among the facts, its conclusion is among them, and where an allocation or a
call has to lead somewhere, it does. Facts that satisfy the rules include all derivable ones, and
where they satisfy all that is asked for, nothing is in the way of the analysis. -/
namespace PointerAnalysis.Analysis

variable {E : Type}

/-- No rule of the analysis adds to these facts, and none of the objects and callees that the rules
ask for is missing. -/
structure Fixpoint (a : Analysis E) (known : Fact E → Prop) : Prop where
  entry : ∀ {m}, m ∈ a.program.entries → known (.reached [] m)
  alloc : ∀ {c m target site type}, known (.reached c m) →
    a.program.Has m (.alloc target site type) →
    ∃ o, a.heap site type m = .ok o ∧ known (.holds (.var c target) ⟨a.policy.heap c, o⟩)
  assign : ∀ {c m target source}, known (.reached c m) → a.program.Has m (.assign target source) →
    known (.flows (.var c source) (.var c target) .assign)
  store : ∀ {c m base field source o}, known (.holds (.var c base) o) →
    a.program.Has m (.store base field source) →
    known (.flows (.var c source) (.field o field) .store)
  load : ∀ {c m target base field o}, known (.holds (.var c base) o) →
    a.program.Has m (.load target base field) →
    known (.flows (.field o field) (.var c target) .load)
  /-- A call without receiver in a reachable method enters its callee. -/
  call : ∀ {c m site call}, known (.reached c m) → a.program.Has m (.call site) →
    a.program.callSite site = .ok call → call.receiver = none →
    ∃ callee, a.program.EntersAlone site callee ∧
      known (.calls c site (a.policy.call c site) callee)
  /-- A call enters a callee on each object of its receiver, and that object is what `this` holds
  there. -/
  receiverCall : ∀ {c site call x o}, known (.holds (.var c x) o) →
    a.program.callSite site = .ok call → call.receiver = some x →
    ∃ callee method this, a.program.EntersOn site o.object.type callee ∧
      a.program.method callee = .ok method ∧ method.this = some this ∧
      known (.calls c site (a.policy.receiverCall c site o.context o.object) callee) ∧
      known (.holds (.var (a.policy.receiverCall c site o.context o.object) this) o)
  callee : ∀ {c site c' callee}, known (.calls c site c' callee) → known (.reached c' callee)
  params : ∀ {c site c' callee call method argument param}, known (.calls c site c' callee) →
    a.program.callSite site = .ok call → a.program.method callee = .ok method →
    (argument, param) ∈ call.args.zip method.params →
    known (.flows (.var c argument) (.var c' param) .param)
  returns : ∀ {c site c' callee call method returned result}, known (.calls c site c' callee) →
    a.program.callSite site = .ok call → a.program.method callee = .ok method →
    returned ∈ method.returns → call.result = some result →
    known (.flows (.var c' returned) (.var c result) .return)
  flow : ∀ {source target kind o}, known (.flows source target kind) → known (.holds source o) →
    known (.holds target o)

variable {a : Analysis E} {known : Fact E → Prop}

/-- Closed facts satisfy the rules one by one. -/
theorem Closed.fixpoint (closed : a.Closed known) : a.Fixpoint known where
  entry listed := closed.entry _ listed
  alloc reached statement := closed.answered _ reached _ statement
  assign reached statement := closed.answered _ reached _ statement
  store held statement := ((closed.answered _ held).2 _ _ rfl).stores statement
  load held statement := ((closed.answered _ held).2 _ _ rfl).loads statement
  call reached statement found none := by
    obtain ⟨call, found', alone, _⟩ := closed.answered _ reached _ statement
    cases found.symm.trans found'
    exact alone none
  receiverCall held found receiver := ((closed.answered _ held).2 _ _ rfl).calls found receiver
  callee called := (closed.answered _ called).reached
  params called found declared placed := (closed.answered _ called).params found declared placed
  returns called found declared listed named :=
    (closed.answered _ called).returns found declared listed named
  flow flows held := (closed.answered _ held).1 _ _ flows

/-- Facts that satisfy the rules include all derivable ones. -/
theorem Fixpoint.of_derives (fixpoint : a.Fixpoint known) {f : Fact E} (derived : a.Derives f) :
    known f := by
  induction derived with
  | entry listed => exact fixpoint.entry listed
  | alloc reached statement made ih =>
    obtain ⟨o, made', held⟩ := fixpoint.alloc ih statement
    cases made.symm.trans made'
    exact held
  | assign reached statement ih => exact fixpoint.assign ih statement
  | store held statement ih => exact fixpoint.store ih statement
  | load held statement ih => exact fixpoint.load ih statement
  | call reached statement enters ih =>
    obtain ⟨call, found⟩ := enters.callSite
    have none := ((Program.entersAlone_iff found).mp enters).1
    obtain ⟨callee, enters', called⟩ := fixpoint.call ih statement found none
    cases enters.unique enters'
    exact called
  | receiverCall held found receiver enters ih =>
    obtain ⟨callee, _, _, enters', _, _, called, _⟩ := fixpoint.receiverCall ih found receiver
    cases enters.unique enters'
    exact called
  | this held found receiver enters declared named ih =>
    obtain ⟨callee, _, _, enters', declared', named', _, held'⟩ :=
      fixpoint.receiverCall ih found receiver
    cases enters.unique enters'
    cases declared.symm.trans declared'
    cases named.symm.trans named'
    exact held'
  | callee called ih => exact fixpoint.callee ih
  | param called found declared placed ih => exact fixpoint.params ih found declared placed
  | «return» called found declared listed named ih =>
    exact fixpoint.returns ih found declared listed named
  | flow flows held ihFlows ihHeld => exact fixpoint.flow ihFlows ihHeld

/-- Where all that the rules ask for is known, nothing is in the way of the analysis. -/
theorem Closed.not_obstructed (closed : a.Closed known) {e : AnalysisError} : ¬ a.Obstructed e := by
  have all {f : Fact E} (derived : a.Derives f) : known f := closed.fixpoint.of_derives derived
  -- A call statement that is met has a callee unless it waits for receivers.
  have met {c m site call} (reached : a.Derives (.reached c m)) (statement : a.program.Has m (.call site))
      (found : a.program.callSite site = .ok call) :
      (call.receiver = none → ∃ callee, a.program.EntersAlone site callee) ∧
        (call.receiver ≠ none → call.kind ≠ .static) := by
    obtain ⟨call', found', alone, never⟩ := closed.answered _ (all reached) _ statement
    cases found.symm.trans found'
    exact ⟨fun none => (alone none).imp fun _ => And.left, never⟩
  intro obstructed
  cases obstructed with
  | heap reached statement refused =>
    obtain ⟨o, made, _⟩ := closed.fixpoint.alloc (all reached) statement
    cases refused.symm.trans made
  | staticOnReceiver reached statement found kind receiver =>
    exact (met reached statement found).2 (Option.isSome_iff_ne_none.mp receiver) kind
  | virtualAlone reached statement found kind none =>
    obtain ⟨callee, enters⟩ := (met reached statement found).1 none
    simp [Program.entersAlone_iff found, kind] at enters
  | specialAlone reached statement found kind none unresolved =>
    obtain ⟨callee, enters⟩ := (met reached statement found).1 none
    simp [Program.entersAlone_iff found, kind, unresolved] at enters
  | staticOnObject held found receiver kind =>
    obtain ⟨callee, _, _, enters, _⟩ := closed.fixpoint.receiverCall (all held) found receiver
    simp [Program.entersOn_iff found, kind] at enters
  | virtualOnObject held found receiver kind unresolved =>
    obtain ⟨callee, _, _, enters, _⟩ := closed.fixpoint.receiverCall (all held) found receiver
    simp [Program.entersOn_iff found, kind, unresolved] at enters
  | specialOnObject held found receiver kind unresolved =>
    obtain ⟨callee, _, _, enters, _⟩ := closed.fixpoint.receiverCall (all held) found receiver
    simp [Program.entersOn_iff found, kind, unresolved] at enters
  | noThis held found receiver enters declared none =>
    obtain ⟨callee, method, this, enters', declared', named, _⟩ :=
      closed.fixpoint.receiverCall (all held) found receiver
    cases enters.unique enters'
    cases declared.symm.trans declared'
    cases none.symm.trans named

end PointerAnalysis.Analysis
