import PointerAnalysis.Proofs.Failure
import PointerAnalysis.Proofs.Loader
import PointerAnalysis.Proofs.Solver.Origins

/-! What call edges lead to. Dispatch finds methods with a body only, and a call on an object that enters
a method without `this` gives the run up; but a static call enters what it names, whatever that is. So
the callees of a run are as they should be just if static calls name static methods. -/
namespace PointerAnalysis

/-- What a call of a kind is to enter: a static call a static method, a virtual one a method with `this`,
and no call an abstract method. -/
structure Method.Suits (method : Method) (kind : CallKind) : Prop where
  static : kind = .static → method.isStatic = true
  virtual : kind = .virtual → method.isStatic = false
  concrete : method.isAbstract = false

/-- Every static call names a static method. -/
def Program.NamesStatics (p : Program) : Prop :=
  ∀ call ∈ p.callSites.toList, call.kind = .static →
    ∀ method ∈ (p.method call.target).toOption, method.isStatic = true

instance (p : Program) : Decidable p.NamesStatics :=
  inferInstanceAs (Decidable (∀ call ∈ p.callSites.toList, call.kind = .static →
    ∀ method ∈ (p.method call.target).toOption, method.isStatic = true))

/-- No static call is dispatched. -/
theorem Program.EntersOn.kind_ne_static {p : Program} {site : CallSiteId} {t : TypeId} {m : MethodId}
    {call : CallSite} (enters : p.EntersOn site t m) (found : p.callSite site = .ok call) :
    call.kind ≠ .static := by
  cases enters with
  | virtual found' kind =>
    cases found.symm.trans found'
    simp [kind]
  | special found' kind =>
    cases found.symm.trans found'
    simp [kind]

namespace Program.Coherent

variable {p : Program} (coherent : p.Coherent)
include coherent

theorem concrete_of_resolveSpecial {site : CallSiteId} {call : CallSite} {m : MethodId}
    (found : p.callSite site = .ok call) (resolved : p.resolveSpecial site = .ok (some m)) :
    ∃ method, p.method m = .ok method ∧ method.isAbstract = false := by
  obtain ⟨target, known, _⟩ := (coherent.calls found).target_known
  obtain ⟨answer, same, good⟩ := coherent.resolveSpecial_ok found known
  cases same.symm.trans resolved
  obtain ⟨method, declared, _, concrete⟩ := good m rfl
  exact ⟨method, declared, concrete⟩

/-- What a call enters on an object has a body. -/
theorem concrete_of_entersOn {site : CallSiteId} {t : TypeId} {m : MethodId}
    (enters : p.EntersOn site t m) : ∃ method, p.method m = .ok method ∧ method.isAbstract = false := by
  cases enters with
  | @virtual call _ found kind resolved =>
    -- A class that is not declared would have failed the search.
    obtain ⟨named, target, dispatched⟩ := bind_eq_ok_iff.mp resolved
    obtain ⟨type, known, _⟩ := bind_eq_ok_iff.mp dispatched
    obtain ⟨answer, same, good⟩ := coherent.dispatch_ok known named.signature
    cases same.symm.trans dispatched
    obtain ⟨method, declared, _, concrete⟩ := good m rfl
    exact ⟨method, declared, concrete⟩
  | special found kind resolved => exact coherent.concrete_of_resolveSpecial found resolved

end Program.Coherent

/-- A static method of a described program has a body. -/
theorem Described.Program.concrete_of_static {d : Described.Program} {p : PointerAnalysis.Program}
    (loaded : d.link = .ok p) {m : MethodId} {method : PointerAnalysis.Method}
    (found : p.method m = .ok method) (static : method.isStatic = true) : method.isAbstract = false := by
  obtain ⟨c, described, here, realises⟩ := (standsFor_of_link loaded).realises found
  obtain ⟨within, listed⟩ := d.mem_declarations.mp (List.mem_of_getElem? here)
  rw [realises.isAbstract, Bool.eq_false_iff]
  exact fun abstract => (wellFormed_of_link loaded).static_concrete c within described listed
    ⟨realises.isStatic ▸ static, abstract⟩

namespace Solver.State

variable {E S : Type} [Coded E] {a : Analysis E} {p : Program} {s : State E S}

/-- A call edge carries a call out by entering a method. -/
structure LeadsTo (p : Program) (s : State E S) (e : ContextCallEdge) (call : CallSite) (m : MethodId)
    (callee : Method) : Prop where
  placed : ∃ context site, s.canon.CallsAt e.site context site ∧ p.callSite site = .ok call
  entered : ∃ context, s.canon.Enters e.callee context m
  declared : p.method m = .ok callee

theorem LeadsTo.unique {e : ContextCallEdge} {call call' : CallSite} {m m' : MethodId}
    {callee callee' : Method} (leads : s.LeadsTo p e call m callee)
    (leads' : s.LeadsTo p e call' m' callee') : call = call' ∧ m = m' ∧ callee = callee' := by
  obtain ⟨⟨context, site, placed, found⟩, ⟨calleeContext, entered⟩, declared⟩ := leads
  obtain ⟨⟨context', site', placed', found'⟩, ⟨calleeContext', entered'⟩, declared'⟩ := leads'
  obtain ⟨_, rfl⟩ := placed.unique placed'
  obtain ⟨_, rfl⟩ := entered.unique entered'
  cases found.symm.trans found'
  cases declared.symm.trans declared'
  exact ⟨rfl, rfl, rfl⟩

/-- All call edges of the graph lead to what calls of their kinds are to enter. -/
def CalleesSuit (p : Program) (s : State E S) : Prop :=
  ∀ e ∈ s.calls.edges.toList, ∀ call m callee, s.LeadsTo p e call m callee → callee.Suits e.kind

/-- What is known of the callee of every edge: that of a static call is the method that the call names, any
other one suits the call, and a call on a receiver has entered a method with `this`. -/
structure Resolved (e : ContextCallEdge) (call : CallSite) (m : MethodId) (callee : Method) : Prop where
  kind : e.kind = call.kind
  static : e.kind = .static → m = call.target ∧ call.receiver = none
  dispatched : e.kind ≠ .static → callee.Suits e.kind
  received : call.receiver ≠ none → callee.isStatic = false

variable [IdSet S .contextObject]

/-- A call through a variable has been carried out on every object that the variable has passed on. -/
theorem Heard.answers (heard : Heard a s) {c : ContextId} {v : VarId} {var : Variable}
    {site : CallSiteId} {o : ContextObjectId} (passed : s.Passed c v o)
    (found : a.program.var v = .ok var) (listed : site ∈ var.calls.toList) : Answers a s c site o := by
  obtain ⟨p, located, propagated⟩ := passed
  rcases heard.responds p o propagated with ⟨object, f, located'⟩ | ⟨c', v', var', located', found', reacted⟩
  · cases located.symm.trans located'
  · cases located.symm.trans located'
    cases found.symm.trans found'
    exact reacted.calls site listed

/-- What a call has entered on an object has `this`. -/
theorem Answers.isStatic (coherent : a.program.Coherent) {c : ContextId} {site : CallSiteId}
    {id : ContextObjectId} (answers : Answers a s c site id) {o : HeapObject E}
    (object : s.canon.Names id o) {m : MethodId} (enters : a.program.EntersOn site o.object.type m)
    {callee : Method} (declared : a.program.method m = .ok callee) : callee.isStatic = false := by
  obtain ⟨_, object', m', _, method, this, _, named, enters', _, _, declared', bound, _⟩ := answers
  cases object.unique named
  cases enters.unique enters'
  cases declared.symm.trans declared'
  rw [Bool.eq_false_iff]
  intro static
  cases ((coherent.methods declared).this_iff.mpr static).symm.trans bound

theorem Issues.resolved (coherent : a.program.Coherent) (heard : Heard a s) {e : ContextCallEdge}
    (issues : Issues a s e) : ∃ call m callee, s.LeadsTo a.program e call m callee ∧
      Resolved e call m callee := by
  obtain ⟨c, site, call, calleeContext, m, placed, found, within, kind, entered, carries⟩ := issues
  cases carries with
  | alone runs has enters named chosen =>
    have leads {callee : Method} (declared : a.program.method m = .ok callee) :
        s.LeadsTo a.program e call m callee :=
      ⟨⟨_, site, ⟨_, placed, named, rfl⟩, found⟩, ⟨_, _, entered, chosen, rfl⟩, declared⟩
    cases enters with
    | @static call' found' alone kind' =>
      cases found.symm.trans found'
      obtain ⟨callee, declared, _⟩ := (coherent.calls found).target_known
      exact ⟨call, _, callee, leads declared, kind, fun _ => ⟨rfl, alone⟩,
        fun other => (other (kind.trans kind')).elim, fun received => (received alone).elim⟩
    | @special call' _ found' alone kind' resolved =>
      cases found.symm.trans found'
      obtain ⟨callee, declared, concrete⟩ := coherent.concrete_of_resolveSpecial found resolved
      have special : e.kind = .special := kind.trans kind'
      refine ⟨call, m, callee, leads declared, kind, fun static => ?_, fun _ => ⟨fun static => ?_,
        fun virtual => ?_, concrete⟩, fun received => (received alone).elim⟩
      · cases special.symm.trans static
      · cases special.symm.trans static
      · cases special.symm.trans virtual
  | @onObject v var id o _ context _ passed variable_ listed object enters named chosen =>
    obtain ⟨callee, declared, concrete⟩ := coherent.concrete_of_entersOn enters
    -- By now the call has been carried out on the object.
    have received := (heard.answers passed variable_ listed).isStatic coherent object enters declared
    have other : e.kind ≠ .static := fun static => enters.kind_ne_static found (kind.symm.trans static)
    exact ⟨call, m, callee, ⟨⟨_, site, ⟨_, placed, named, rfl⟩, found⟩, ⟨_, _, entered, chosen, rfl⟩,
      declared⟩, kind, fun static => (other static).elim,
      fun _ => ⟨fun static => (other static).elim, fun _ => received, concrete⟩, fun _ => received⟩

/-- Every call edge of a run leads to a method of the program that is resolved as its kind is. -/
theorem Reachable.resolved [LawfulIdSet S] (coherent : a.program.Coherent) (reachable : s.Reachable a)
    {e : ContextCallEdge} (there : e ∈ s.calls.edges.toList) :
    ∃ call m callee, s.LeadsTo a.program e call m callee ∧ Resolved e call m callee := by
  have heard := reachable.keeps _ (heard_empty a) (fun _ heard move => heard.move move)
    fun _ heard popped passes => heard.passes popped passes
  exact (reachable.traced.issues (.inl there)).resolved coherent heard.2

/-- What an edge leads to is resolved as the kind of the edge is. -/
theorem Reachable.resolved_of_leads [LawfulIdSet S] (coherent : a.program.Coherent)
    (reachable : s.Reachable a) {e : ContextCallEdge} (there : e ∈ s.calls.edges.toList)
    {call : CallSite} {m : MethodId} {callee : Method} (leads : s.LeadsTo a.program e call m callee) :
    Resolved e call m callee := by
  obtain ⟨call', m', callee', leads', resolved⟩ := reachable.resolved coherent there
  obtain ⟨rfl, rfl, rfl⟩ := leads.unique leads'
  exact resolved

omit [IdSet S .contextObject] in
/-- Where static calls name static methods, that is what they enter. -/
theorem Resolved.isStatic (names : p.NamesStatics) {e : ContextCallEdge} {call : CallSite}
    {m : MethodId} {callee : Method} (leads : s.LeadsTo p e call m callee)
    (resolved : Resolved e call m callee) (static : e.kind = .static) : callee.isStatic = true := by
  obtain ⟨_, site, _, found⟩ := leads.placed
  have listed := Array.mem_toList_iff.mpr (Array.mem_of_getElem? (Id.lookup_eq_ok_iff.mp found))
  refine names call listed (resolved.kind.symm.trans static) callee ?_
  rw [← (resolved.static static).1, leads.declared]
  rfl

end Solver.State

section Described

variable {described : Described.Program} {p : Program} (loaded : described.link = .ok p)
  (kind : AnalysisKind) (depth : Nat) (heap : HeapKind) {S : Type} [IdSet S .contextObject]
  [LawfulIdSet S]
include loaded

/-- All callees suit their calls just if those of static calls are static: static methods have bodies, and
the other calls are dispatched. -/
theorem calleesSuit_iff {s : Solver.State kind.Element S}
    (reachable : s.Reachable (p.analysis kind depth heap)) :
    s.CalleesSuit p ↔ ∀ e ∈ s.calls.edges.toList, ∀ call m callee,
      s.LeadsTo p e call m callee → e.kind = .static → callee.isStatic = true := by
  have coherent := (p.analysis_coherent loaded kind depth heap).program
  refine ⟨fun suit e there call m callee leads => (suit e there call m callee leads).static,
    fun static e there call m callee leads => ?_⟩
  by_cases kind : e.kind = .static
  · have isStatic := static e there call m callee leads kind
    refine ⟨fun _ => isStatic, fun virtual => ?_,
      Described.Program.concrete_of_static loaded leads.declared isStatic⟩
    cases kind.symm.trans virtual
  · exact (reachable.resolved_of_leads coherent there leads).dispatched kind

/-- A run that had to enter a method that does not suit a dispatched call fails. -/
theorem solve_error_of_unfit {context calleeContext : Context kind.Element} {site : CallSiteId}
    {call : CallSite} {m : MethodId} {callee : Method}
    (derives : (p.analysis kind depth heap).Derives (.calls context site calleeContext m))
    (found : p.callSite site = .ok call) (declared : p.method m = .ok callee)
    (dispatched : call.kind ≠ .static) (unfit : ¬ callee.Suits call.kind) :
    ∃ e, (p.analysis kind depth heap).solve S = .error e := by
  have coherent := p.analysis_coherent loaded kind depth heap
  cases solved : (p.analysis kind depth heap).solve S with
  | error e => exact ⟨e, rfl⟩
  | ok r =>
    obtain ⟨_, reachable, _⟩ := Analysis.solve_reachable coherent solved
    cases (Analysis.records_iff coherent solved _).mpr derives with
    | @calls e _ _ _ _ there placed entered =>
      have leads : r.state.LeadsTo p e call m callee :=
        ⟨⟨context, site, placed, found⟩, ⟨calleeContext, entered⟩, declared⟩
      have resolved := reachable.resolved_of_leads coherent.program
        (Array.mem_toList_iff.mpr there) leads
      rw [← resolved.kind] at dispatched unfit
      exact absurd (resolved.dispatched dispatched) unfit

/-- In every state of a run the callees of virtual and special calls suit them, and a run that would need
others fails. A static call enters the method that it names; so all callees suit their calls just if
these methods are static, as they are if all static calls of the program name static methods. -/
theorem callees_suit_but_for_static_calls :
    (∀ s : Solver.State kind.Element S, s.Reachable (p.analysis kind depth heap) →
      (∀ e ∈ s.calls.edges.toList, ∃ call m callee, s.LeadsTo p e call m callee ∧
        Solver.State.Resolved e call m callee) ∧
      (s.CalleesSuit p ↔ ∀ e ∈ s.calls.edges.toList, ∀ call m callee,
        s.LeadsTo p e call m callee → e.kind = .static → callee.isStatic = true) ∧
      (p.NamesStatics → s.CalleesSuit p)) ∧
    ∀ {context site calleeContext call m callee},
      (p.analysis kind depth heap).Derives (.calls context site calleeContext m) →
      p.callSite site = .ok call → p.method m = .ok callee → call.kind ≠ .static →
      ¬ callee.Suits call.kind → ∃ e, (p.analysis kind depth heap).solve S = .error e := by
  have coherent := (p.analysis_coherent loaded kind depth heap).program
  refine ⟨fun s reachable => ⟨fun e there => reachable.resolved coherent there,
    calleesSuit_iff loaded kind depth heap reachable, fun names => ?_⟩,
    solve_error_of_unfit loaded kind depth heap⟩
  refine (calleesSuit_iff loaded kind depth heap reachable).mpr fun e there call m callee leads => ?_
  exact (reachable.resolved_of_leads coherent there leads).isStatic names leads

end Described

/-- A virtual call that finds a static method. -/
def unbound : Described.Program where
  types := [
    { name := "Main", super := none, methods := [
        { name := "help", isStatic := true, isAbstract := false, params := [], body := [] },
        { name := "main", isStatic := true, isAbstract := false, params := []
          body := [.new "m" "Main", .call .virtual "Main.help" (some "m") [] none] }] }]
  entries := ["Main.main"]

/-- The rules lead to the virtual call of the static method. -/
theorem unbound_derives {p : Program} (loaded : unbound.link = .ok p) :
    ∃ calleeContext call callee, (p.analysis .objectSensitive 1 .perSite).Derives
      (.calls [] ⟨0⟩ calleeContext ⟨0⟩) ∧ p.callSite ⟨0⟩ = .ok call ∧ p.method ⟨0⟩ = .ok callee ∧
      call.kind = .virtual ∧ callee.isStatic = true := by
  have evaluated : unbound.passes fun p => decide (⟨1⟩ ∈ p.entries ∧
      p.Has ⟨1⟩ (.alloc ⟨0⟩ ⟨0⟩ ⟨0⟩) ∧
      (p.callSite ⟨0⟩).toOption.map (fun call => (call.kind, call.target, call.receiver)) =
        some (.virtual, ⟨0⟩, some ⟨0⟩) ∧
      (p.method ⟨0⟩).toOption.map (·.isStatic) = some true ∧
      p.resolveVirtual ⟨0⟩ ⟨0⟩ = .ok (some ⟨0⟩)) := by decide +kernel
  obtain ⟨_, loaded', evaluated⟩ := Described.Program.exists_of_passes evaluated
  cases loaded.symm.trans loaded'
  rw [decide_eq_true_eq] at evaluated
  obtain ⟨entry, allocates, called, declared, resolved⟩ := evaluated
  cases found : p.callSite ⟨0⟩ with
  | error id => simp [found, Except.toOption] at called
  | ok call =>
    cases known : p.method ⟨0⟩ with
    | error id => simp [known, Except.toOption] at declared
    | ok callee =>
      simp only [found, known, Except.toOption, Option.map_some, Option.some.injEq,
        Prod.mk.injEq] at called declared
      obtain ⟨kind, target, receiver⟩ := called
      have enters : p.EntersOn ⟨0⟩ ⟨0⟩ ⟨0⟩ := .virtual found kind (target ▸ resolved)
      exact ⟨_, call, callee, .receiverCall (.alloc (.entry entry) allocates rfl) found receiver enters,
        rfl, rfl, kind, declared⟩

theorem callees_suit_but_for_static_calls_boxes : (∃ p r, boxes.link = .ok p ∧
      (p.analysis .objectSensitive 1 .perSite).solve (HybridSet .contextObject) = .ok r ∧
      p.NamesStatics ∧ r.state.CalleesSuit p) ∧
    ∃ p e, unbound.link = .ok p ∧
      (p.analysis .objectSensitive 1 .perSite).solve (HybridSet .contextObject) = .error e := by
  constructor
  · obtain ⟨p, r, loaded, solved⟩ := boxes_solved
    have names : boxes.passes fun p => decide p.NamesStatics := by decide +kernel
    obtain ⟨_, loaded', names⟩ := Described.Program.exists_of_passes names
    cases loaded.symm.trans loaded'
    obtain ⟨_, reachable, _⟩ :=
      Analysis.solve_reachable (p.analysis_coherent loaded .objectSensitive 1 .perSite) solved
    have suit := (callees_suit_but_for_static_calls loaded .objectSensitive 1 .perSite).1 _ reachable
    exact ⟨p, r, loaded, solved, of_decide_eq_true names, suit.2.2 (of_decide_eq_true names)⟩
  · have loads : unbound.passes fun _ => true := by decide +kernel
    obtain ⟨p, loaded, _⟩ := Described.Program.exists_of_passes loads
    obtain ⟨_, call, callee, derives, found, declared, kind, static⟩ := unbound_derives loaded
    have fails := (callees_suit_but_for_static_calls loaded .objectSensitive 1 .perSite
      (S := HybridSet .contextObject)).2 derives found declared (by simp [kind])
      fun suits => by simp [suits.virtual kind] at static
    obtain ⟨e, failed⟩ := fails
    exact ⟨p, e, loaded, failed⟩

/-- Static calls of a method with `this` and of an abstract one. -/
def misnamed : Described.Program where
  types := [
    { name := "Main", super := none, methods := [
        { name := "self", isStatic := false, isAbstract := false, params := []
          body := [.return "this"] },
        { name := "hollow", isStatic := false, isAbstract := true, params := [], body := [] },
        { name := "main", isStatic := true, isAbstract := false, params := []
          body := [.call .static "Main.self" none [] (some "r"),
            .call .static "Main.hollow" none [] none] }] }]
  entries := ["Main.main"]

/-- The analysis succeeds with static call edges to a method whose `this` holds nothing and to an abstract
one. -/
theorem static_calls_enter_unfit_methods : ∃ p r self hollow, misnamed.link = .ok p ∧
    (p.analysis .insensitive 1 .perSite).solve (HybridSet .contextObject) = .ok r ∧
    (∃ e ∈ r.state.calls.edges.toList, ∃ call, r.state.LeadsTo p e call ⟨0⟩ self ∧
      e.kind = .static ∧ self.isStatic = false) ∧
    self.this = some ⟨0⟩ ∧ r.objectsOfVar ⟨0⟩ = .ok [] ∧
    (∃ e ∈ r.state.calls.edges.toList, ∃ call, r.state.LeadsTo p e call ⟨1⟩ hollow ∧
      e.kind = .static ∧ hollow.isAbstract = true) ∧ ¬ r.state.CalleesSuit p := by
  have evaluated : misnamed.solvesTo .insensitive 1 .perSite fun p r => decide (
      (p.method ⟨0⟩).toOption.map (fun method => (method.isStatic, method.this)) =
        some (false, some ⟨0⟩) ∧
      (p.method ⟨1⟩).toOption.map (·.isAbstract) = some true ∧ r.objectsOfVar ⟨0⟩ = .ok [] ∧
      r.state.calls.edges.toList =
        [⟨⟨0⟩, ⟨0⟩, ⟨1⟩, .static⟩, ⟨⟨0⟩, ⟨1⟩, ⟨2⟩, .static⟩] ∧
      r.state.canon.method ⟨1⟩ = .ok ⟨⟨0⟩, ⟨0⟩⟩ ∧
      r.state.canon.method ⟨2⟩ = .ok ⟨⟨0⟩, ⟨1⟩⟩) := by decide +kernel
  obtain ⟨p, r, loaded, solved, evaluated⟩ := Described.Program.exists_of_solvesTo evaluated
  obtain ⟨self, hollow, nothing, edges, first, second⟩ := of_decide_eq_true evaluated
  have coherent := p.analysis_coherent loaded .insensitive 1 .perSite
  obtain ⟨_, reachable, _⟩ := Analysis.solve_reachable coherent solved
  -- The callee of an edge is the method behind the number that the edge has for it.
  have leads {e : ContextCallEdge} (there : e ∈ r.state.calls.edges.toList) {entry : ContextMethod}
      (found : r.state.canon.method e.callee = .ok entry) :
      ∃ call callee, r.state.LeadsTo p e call entry.method callee ∧
        p.method entry.method = .ok callee := by
    obtain ⟨call, m, callee, leads, _⟩ := reachable.resolved coherent.program there
    obtain ⟨_, entry', found', _, rfl⟩ := leads.entered
    cases found.symm.trans found'
    exact ⟨call, callee, leads, leads.declared⟩
  obtain ⟨call, callee, toSelf, known⟩ := leads (by rw [edges]; exact List.mem_cons_self) first
  obtain ⟨call', callee', toHollow, known'⟩ :=
    leads (by rw [edges]; exact List.mem_cons_of_mem _ List.mem_cons_self) second
  simp only [known, known', Except.toOption, Option.map_some, Option.some.injEq,
    Prod.mk.injEq] at self hollow
  refine ⟨p, r, callee, callee', loaded, solved, ⟨_, by simp [edges], call, toSelf, rfl, self.1⟩,
    self.2, nothing, ⟨_, by simp [edges], call', toHollow, rfl, hollow⟩, fun suit => ?_⟩
  have suits := suit _ (by simp [edges]) call _ callee toSelf
  simp [suits.static rfl] at self

end PointerAnalysis
