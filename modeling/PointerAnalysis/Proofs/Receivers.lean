import PointerAnalysis.Proofs.LeastSolution

/-! What `this` holds. A method that leaves its own `this` alone finds in it just the receivers that it
was entered on, under the contexts chosen for them: they are put there one by one, never along an
edge, so that no other object that the receiver variable of the same call may hold comes along. -/
namespace PointerAnalysis

/-- The variable that a statement puts objects into. -/
def Program.written? (p : Program) : Statement → Option VarId
  | .alloc target _ _ => some target
  | .assign target _ => some target
  | .load target _ _ => some target
  | .store .. => none
  | .call site =>
    match p.callSite site with
    | .ok call => call.result
    | .error _ => none

/-- A method has a `this` that is none of its parameters and that none of its statements writes. -/
structure Method.Spares (p : Program) (method : Method) (this : VarId) : Prop where
  named : method.this = some this
  param : this ∉ method.params
  written : ∀ s ∈ method.body.toList, p.written? s ≠ some this

instance (p : Program) (method : Method) (this : VarId) : Decidable (method.Spares p this) :=
  decidable_of_iff
    (method.this = some this ∧ (∀ param ∈ method.params, param ≠ this) ∧
      ∀ s ∈ method.body.toList, p.written? s ≠ some this)
    ⟨fun ⟨named, param, written⟩ => ⟨named, fun listed => param this listed rfl, written⟩,
      fun spares => ⟨spares.named, fun _ listed same => spares.param (same ▸ listed), spares.written⟩⟩

namespace Program.Coherent

variable {p : Program} (coherent : p.Coherent)
include coherent

/-- Statements write variables of their own method. -/
theorem owns_written {m : MethodId} {s : Statement} {v : VarId} (has : p.Has m s)
    (written : p.written? s = some v) : p.Owns m v := by
  have own := coherent.statements_scoped has
  cases s with
  | alloc => exact Option.some.inj written ▸ own.1
  | assign => exact Option.some.inj written ▸ own.1
  | load => exact Option.some.inj written ▸ own.1
  | store => cases written
  | call site =>
    obtain ⟨call, found, rfl⟩ := own
    exact (coherent.calls found).result_owned (by simpa [written?, found] using written)

variable {m : MethodId} {method : Method} {this : VarId} (found : p.method m = .ok method)
  (spares : method.Spares p this)
include found spares

/-- No statement of any method writes a `this` that is left alone. -/
theorem written_ne_this {m' : MethodId} {s : Statement} (has : p.Has m' s) :
    p.written? s ≠ some this := by
  intro written
  have owner := (coherent.methods found).this_owned spares.named
  obtain rfl := (coherent.owns_written has written).unique owner
  obtain ⟨method', found', there⟩ := has
  cases found.symm.trans found'
  exact spares.written s there written

/-- A `this` that is left alone is no parameter of any method. -/
theorem param_ne_this {m' : MethodId} {method' : Method} (found' : p.method m' = .ok method')
    {param : VarId} (listed : param ∈ method'.params) : param ≠ this := by
  rintro rfl
  have owner := (coherent.methods found).this_owned spares.named
  obtain rfl := ((coherent.methods found').params_owned _ listed).unique owner
  cases found.symm.trans found'
  exact spares.param listed

/-- A `this` that is left alone is that of no other method. -/
theorem method_of_this {m' : MethodId} {method' : Method} (found' : p.method m' = .ok method')
    (named : method'.this = some this) : m' = m :=
  ((coherent.methods found').this_owned named).unique
    ((coherent.methods found).this_owned spares.named)

end Program.Coherent

namespace Analysis

variable {E : Type} {a : Analysis E}

/-- By these facts an object is the receiver of a call that enters a method on it under a context. -/
def ReceivedBy (a : Analysis E) (known : Fact E → Prop) (c : Context E) (m : MethodId)
    (o : HeapObject E) : Prop :=
  ∃ callerContext site call x, known (.holds (.var callerContext x) o) ∧
    a.program.callSite site = .ok call ∧ call.receiver = some x ∧
    a.program.EntersOn site o.object.type m ∧
    a.policy.receiverCall callerContext site o.context o.object = c

variable (coherent : a.Coherent) {m : MethodId} {method : Method} {this : VarId}
  (found : a.program.method m = .ok method) (spares : method.Spares a.program this)
include coherent found spares

/-- No edge leads to a `this` that is left alone. -/
theorem no_flow_into_this {source : Location E} {c : Context E} {kind : FlowKind} :
    ¬ a.Derives (.flows source (.var c this) kind) := by
  have program := coherent.program
  intro derived
  cases derived with
  | assign reached statement => exact program.written_ne_this found spares statement rfl
  | load held statement => exact program.written_ne_this found spares statement rfl
  | param called call callee placed =>
    exact program.param_ne_this found spares callee (List.of_mem_zip placed).2 rfl
  | «return» called call callee listed result =>
    have statement := (program.calls call).placed
    exact program.written_ne_this found spares statement (by simp [Program.written?, call, result])

/-- By the rules a `this` that is left alone holds the receivers of its method. -/
theorem derives_this_iff (c : Context E) (o : HeapObject E) :
    a.Derives (.holds (.var c this) o) ↔ a.ReceivedBy a.Derives c m o := by
  constructor
  · intro derived
    cases derived with
    | alloc reached statement =>
      exact absurd rfl (coherent.program.written_ne_this found spares statement)
    | @this callerContext site call x _ _ _ _ held known receiver enters callee named =>
      obtain rfl := coherent.program.method_of_this found spares callee named
      exact ⟨callerContext, site, call, x, held, known, receiver, enters, rfl⟩
    | flow flows => exact absurd flows (no_flow_into_this coherent found spares)
  · rintro ⟨callerContext, site, call, x, held, known, receiver, enters, rfl⟩
    exact .this held known receiver enters found spares.named

end Analysis

/-- What a method is entered on stands at the head of its context. -/
theorem head?_receiverCall {depth : Nat} (deep : 1 ≤ depth) (callerContext : Context AbstractObject)
    (site : CallSiteId) (receiverContext : Context AbstractObject) (o : AbstractObject) :
    ((ContextPolicy.object depth).receiverCall callerContext site receiverContext o).head? =
      some o := by
  obtain ⟨depth, rfl⟩ := Nat.exists_eq_add_of_le' deep
  rfl

section Described

variable {described : Described.Program} {p : Program} (loaded : described.link = .ok p)
  (kind : AnalysisKind) (depth : Nat) (heap : HeapKind) {S : Type} [IdSet S .contextObject]
  [LawfulIdSet S] {m : MethodId} {method : Method} {this : VarId}
  (found : p.method m = .ok method) (spares : method.Spares p this)
include loaded found spares

/-- After a successful analysis the `this` of a method that leaves it alone holds, under every context,
just the objects on which some call enters the method under this context; and if contexts are made of
receivers, each of these objects is the head of the context. -/
theorem this_holds_receivers_exactly :
    (∀ r : Solution kind.Element S, (p.analysis kind depth heap).solve S = .ok r → ∀ c o,
      r.state.Records (.holds (.var c this) o) ↔
        (p.analysis kind depth heap).ReceivedBy r.state.Records c m o) ∧
    (1 ≤ depth → ∀ r : Solution AbstractObject S,
      (p.analysis .objectSensitive depth heap).solve S = .ok r → ∀ c o,
        r.state.Records (.holds (.var c this) o) → c.head? = some o.object) := by
  have exact_in (kind : AnalysisKind) (r : Solution kind.Element S)
      (solved : (p.analysis kind depth heap).solve S = .ok r) (c : Context kind.Element)
      (o : HeapObject kind.Element) : r.state.Records (.holds (.var c this) o) ↔
        (p.analysis kind depth heap).ReceivedBy r.state.Records c m o := by
    have coherent := p.analysis_coherent loaded kind depth heap
    have derived (f : Fact kind.Element) := Analysis.records_iff coherent solved f
    have same : r.state.Records = (p.analysis kind depth heap).Derives :=
      funext fun f => propext (derived f)
    rw [same]
    exact Analysis.derives_this_iff coherent found spares c o
  refine ⟨exact_in kind, fun deep r solved c o held => ?_⟩
  obtain ⟨callerContext, site, _, _, _, _, _, _, rfl⟩ :=
    (exact_in .objectSensitive r solved c o).mp held
  exact head?_receiverCall deep callerContext site o.context o.object

end Described

/-- A box that is set leaves its `this` alone. -/
theorem boxes_set_spares {p : Program} (loaded : boxes.link = .ok p) :
    ∃ method, p.method ⟨0⟩ = .ok method ∧ method.Spares p ⟨1⟩ := by
  have spares : boxes.passes fun p =>
      (p.method ⟨0⟩).toOption.any fun method => decide (method.Spares p ⟨1⟩) := by decide +kernel
  obtain ⟨_, loaded', spares⟩ := Described.Program.exists_of_passes spares
  cases loaded.symm.trans loaded'
  cases found : p.method ⟨0⟩ with
  | error id => simp [found, Except.toOption] at spares
  | ok method => exact ⟨method, rfl, by simpa [found, Except.toOption] using spares⟩

theorem this_holds_receivers_exactly_boxes : ∃ p r method, boxes.link = .ok p ∧
    (p.analysis .objectSensitive 1 .perSite).solve (HybridSet .contextObject) = .ok r ∧
    p.method ⟨0⟩ = .ok method ∧ method.Spares p ⟨1⟩ ∧
    (∀ c o, r.state.Records (.holds (.var c ⟨1⟩) o) ↔
      (p.analysis .objectSensitive 1 .perSite).ReceivedBy r.state.Records c ⟨0⟩ o) ∧
    ∀ c o, r.state.Records (.holds (.var c ⟨1⟩) o) → c.head? = some o.object := by
  obtain ⟨p, r, loaded, solved⟩ := boxes_solved
  obtain ⟨method, found, spares⟩ := boxes_set_spares loaded
  have received := this_holds_receivers_exactly loaded .objectSensitive 1 .perSite
    (S := HybridSet .contextObject) found spares
  exact ⟨p, r, method, loaded, solved, found, spares, received.1 r solved,
    received.2 (Nat.le_refl 1) r solved⟩

end PointerAnalysis
