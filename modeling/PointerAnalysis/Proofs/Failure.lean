import PointerAnalysis.Proofs.LeastSolution
import PointerAnalysis.Proofs.Options.Bounds

/-! When analyses fail. Programs may hold calls that no analysis can carry out, and such a call does
no harm as long as nothing reaches it. An analysis fails if and only if the least facts that satisfy
the rules lead to one, in whatever order it would have met them. -/
namespace PointerAnalysis

/-- What can be wrong with a call. -/
inductive Fault where
  | unresolvableCallKind
  | missingReceiver
  | dispatchFailure
  | missingThis
  deriving DecidableEq

/-- The fault that an error reports. -/
def AnalysisError.fault? : AnalysisError → Option Fault
  | .unresolvableCallKind _ _ => some .unresolvableCallKind
  | .missingReceiver _ _ => some .missingReceiver
  | .dispatchFailure _ _ => some .dispatchFailure
  | .missingThis _ => some .missingThis
  | .arityMismatch _ _ _ _ | .heap _ | .unknownId _ | .unfinished => none

/-- The fault for which a computation has been given up. -/
def faultOf? {α : Type} : Except AnalysisError α → Option Fault
  | .ok _ => none
  | .error e => e.fault?

theorem exists_of_faultOf? {α : Type} {x : Except AnalysisError α} {fault : Fault}
    (reported : faultOf? x = some fault) : ∃ e, x = .error e ∧ e.fault? = some fault := by
  cases x with
  | ok x => cases reported
  | error e => exact ⟨e, rfl, reported⟩

namespace Program

/-- What is wrong with a call as it stands, whatever its receiver would hold. -/
inductive FaultyAlone (p : Program) (site : CallSiteId) : Fault → Prop where
  | static {call : CallSite} : p.callSite site = .ok call → call.kind = .static →
      call.receiver.isSome → FaultyAlone p site .unresolvableCallKind
  | virtual {call : CallSite} : p.callSite site = .ok call → call.kind = .virtual →
      call.receiver = none → FaultyAlone p site .missingReceiver
  | special {call : CallSite} : p.callSite site = .ok call → call.kind = .special →
      call.receiver = none → p.resolveSpecial site = .ok none →
      FaultyAlone p site .dispatchFailure

/-- What is wrong with a call when its receiver is an object of a class. -/
inductive FaultyOn (p : Program) (site : CallSiteId) (type : TypeId) : Fault → Prop where
  | static {call : CallSite} : p.callSite site = .ok call → call.kind = .static →
      FaultyOn p site type .unresolvableCallKind
  | virtual {call : CallSite} : p.callSite site = .ok call → call.kind = .virtual →
      p.resolveVirtual type call.target = .ok none → FaultyOn p site type .dispatchFailure
  | special {call : CallSite} : p.callSite site = .ok call → call.kind = .special →
      p.resolveSpecial site = .ok none → FaultyOn p site type .dispatchFailure
  | noThis {callee : MethodId} {method : Method} : p.EntersOn site type callee →
      p.method callee = .ok method → method.this = none → FaultyOn p site type .missingThis

end Program

/-- The rules lead to a faulty call: it is reachable and faulty as it stands, or its receiver holds an
object that it is faulty on. -/
inductive Analysis.Trigger {E : Type} (a : Analysis E) : Fault → Prop where
  | reached {c : Context E} {m : MethodId} {site : CallSiteId} {fault : Fault} :
      a.Derives (.reached c m) → a.program.Has m (.call site) →
      a.program.FaultyAlone site fault → Trigger a fault
  | held {c : Context E} {site : CallSiteId} {call : CallSite} {x : VarId} {o : HeapObject E}
      {fault : Fault} :
      a.Derives (.holds (.var c x) o) → a.program.callSite site = .ok call →
      call.receiver = some x → a.program.FaultyOn site o.object.type fault → Trigger a fault

namespace Analysis

variable {E : Type} {a : Analysis E}

/-- Under a heap model that has an object for every allocation, only faulty calls are in the way. -/
theorem Obstructed.trigger (total : ∀ site type m, ∃ o, a.heap site type m = .ok o)
    {e : AnalysisError} (obstructed : a.Obstructed e) :
    ∃ fault, e.fault? = some fault ∧ a.Trigger fault := by
  cases obstructed with
  | @heap c m target site type refusal reached statement refused =>
    obtain ⟨o, made⟩ := total site type m
    cases refused.symm.trans made
  | staticOnReceiver reached statement found kind receiver =>
    exact ⟨_, rfl, .reached reached statement (.static found kind receiver)⟩
  | virtualAlone reached statement found kind alone =>
    exact ⟨_, rfl, .reached reached statement (.virtual found kind alone)⟩
  | specialAlone reached statement found kind alone unresolved =>
    exact ⟨_, rfl, .reached reached statement (.special found kind alone unresolved)⟩
  | staticOnObject held found receiver kind =>
    exact ⟨_, rfl, .held held found receiver (.static found kind)⟩
  | virtualOnObject held found receiver kind unresolved =>
    exact ⟨_, rfl, .held held found receiver (.virtual found kind unresolved)⟩
  | specialOnObject held found receiver kind unresolved =>
    exact ⟨_, rfl, .held held found receiver (.special found kind unresolved)⟩
  | noThis held found receiver enters declared none =>
    exact ⟨_, rfl, .held held found receiver (.noThis enters declared none)⟩

/-- A special call names a method, which a declared class owns. -/
private theorem target_named (coherent : a.Coherent) {site : CallSiteId} {call : CallSite}
    (found : a.program.callSite site = .ok call) : ∃ target name,
      a.program.method call.target = .ok target ∧ a.program.typeName target.owner = .ok name := by
  obtain ⟨target, declared, _⟩ := (coherent.program.calls found).target_known
  obtain ⟨type, owner⟩ := (coherent.program.methods declared).owner_known
  exact ⟨target, type.name, declared, by simp [Program.typeName, owner]⟩

/-- A faulty call that the rules lead to is in the way of the analysis. -/
theorem Trigger.obstructed (coherent : a.Coherent) {fault : Fault} (trigger : a.Trigger fault) :
    ∃ e, a.Obstructed e := by
  cases trigger with
  | reached reached statement faulty =>
    cases faulty with
    | static found kind receiver =>
      exact ⟨_, .staticOnReceiver reached statement found kind receiver⟩
    | virtual found kind alone => exact ⟨_, .virtualAlone reached statement found kind alone⟩
    | special found kind alone unresolved =>
      -- What is reported names the class that declares the target, so it has to be known.
      obtain ⟨target, name, declared, named⟩ := target_named coherent found
      exact ⟨_, .specialAlone reached statement found kind alone unresolved declared named⟩
  | held held found receiver faulty =>
    cases faulty with
    | static found' kind =>
      cases found.symm.trans found'
      exact ⟨_, .staticOnObject held found receiver kind⟩
    | virtual found' kind unresolved =>
      cases found.symm.trans found'
      obtain ⟨_, type, declared⟩ := held.scoped coherent
      have named := congrArg (Except.map TypeDecl.name) declared
      exact ⟨_, .virtualOnObject held found receiver kind unresolved named⟩
    | special found' kind unresolved =>
      cases found.symm.trans found'
      obtain ⟨target, name, declared, named⟩ := target_named coherent found
      exact ⟨_, .specialOnObject held found receiver kind unresolved declared named⟩
    | noThis enters declared none => exact ⟨_, .noThis held found receiver enters declared none⟩

section Failed

variable [Coded E] (coherent : a.Coherent) {contexts : List (Context E)}
  {objects : List AbstractObject} (bounded : a.Bounded contexts objects) {S : Type}
  [IdSet S .contextObject] [LawfulIdSet S]
include coherent bounded

theorem obstructed_of_error {e : AnalysisError} (failed : a.solve S = .error e) : a.Obstructed e := by
  rcases a.solve_ends coherent bounded S with ⟨r, solved⟩ | ⟨e', failed', obstructed⟩
  · cases failed.symm.trans solved
  · cases failed.symm.trans failed'
    exact obstructed

/-- An analysis is given up if and only if something is in its way. -/
theorem solve_error_iff : (∃ e, a.solve S = .error e) ↔ ∃ e, a.Obstructed e := by
  constructor
  · rintro ⟨e, failed⟩
    exact ⟨e, obstructed_of_error coherent bounded failed⟩
  · rintro ⟨_, obstructed⟩
    rcases a.solve_ends coherent bounded S with ⟨r, solved⟩ | ⟨e, failed, _⟩
    · exact absurd obstructed (a.solve_closed coherent solved).not_obstructed
    · exact ⟨e, failed⟩

end Failed

end Analysis

/-- Both heap models have an object for every allocation. -/
theorem HeapKind.model_total (heap : HeapKind) (site : AllocSiteId) (type : TypeId) (m : MethodId) :
    ∃ o, heap.model site type m = .ok o := by
  cases heap with
  | perSite => exact ⟨_, rfl⟩
  | perType => exact ⟨_, rfl⟩

/-- An analysis of a described program fails if and only if the rules lead to a faulty call. Its error
is in the way of the analysis as the rules say, and its kind is that of one of the faulty calls. -/
theorem runs_fail_at_faulty_calls {described : Described.Program} {p : Program}
    (loaded : described.link = .ok p) (kind : AnalysisKind) (depth : Nat) (heap : HeapKind)
    (S : Type) [IdSet S .contextObject] [LawfulIdSet S] :
    ((∃ e, (p.analysis kind depth heap).solve S = .error e) ↔
      ∃ fault, (p.analysis kind depth heap).Trigger fault) ∧
    ∀ e, (p.analysis kind depth heap).solve S = .error e →
      (p.analysis kind depth heap).Obstructed e ∧
        ∃ fault, e.fault? = some fault ∧ (p.analysis kind depth heap).Trigger fault := by
  have program := Described.Program.link_coherent loaded
  have coherent := program.analysis kind depth heap
  have bounded := program.analysis_bounded kind depth heap
  have total := heap.model_total
  refine ⟨(Analysis.solve_error_iff coherent bounded).trans ⟨?_, ?_⟩, fun e failed => ?_⟩
  · rintro ⟨e, obstructed⟩
    obtain ⟨fault, _, trigger⟩ := obstructed.trigger total
    exact ⟨fault, trigger⟩
  · rintro ⟨fault, trigger⟩
    exact trigger.obstructed coherent
  · have obstructed := Analysis.obstructed_of_error coherent bounded failed
    exact ⟨obstructed, obstructed.trigger total⟩

/-- Shapes that are drawn by their areas, where only squares have one, and a method that is never
called and holds a virtual call without receiver. -/
def shapes : Described.Program where
  types := [
    { name := "Shape", super := none, methods := [
        { name := "area", isStatic := false, isAbstract := true, params := [], body := [] },
        { name := "draw", isStatic := false, isAbstract := false, params := []
          body := [.call .virtual "Shape.area" (some "this") [] none] }] },
    { name := "Square", super := some "Shape", methods := [
        { name := "area", isStatic := false, isAbstract := false, params := [], body := [] }] },
    { name := "Main", super := none, methods := [
        { name := "main", isStatic := true, isAbstract := false, params := []
          body := [.new "s" "Square", .new "t" "Shape",
            .call .virtual "Shape.draw" (some "s") [] none,
            .call .virtual "Shape.draw" (some "t") [] none] },
        { name := "never", isStatic := true, isAbstract := false, params := []
          body := [.call .virtual "Main.main" none [] none] }] }]
  entries := ["Main.main"]

/-- Drawing the shape that is no square makes an analysis fail; the call that is never reached has no
part in it. -/
theorem runs_fail_at_faulty_calls_shapes : ∃ p e, shapes.link = .ok p ∧
    (p.analysis .objectSensitive 1 .perSite).solve (HybridSet .contextObject) = .error e ∧
    (p.analysis .objectSensitive 1 .perSite).Obstructed e ∧ e.fault? = some .dispatchFailure ∧
    (p.analysis .objectSensitive 1 .perSite).Trigger .dispatchFailure := by
  have fails : shapes.passes fun p => faultOf? ((p.analysis .objectSensitive 1 .perSite).solve
      (HybridSet .contextObject)) = some .dispatchFailure := by decide +kernel
  obtain ⟨p, loaded, reported⟩ := Described.Program.exists_of_passes fails
  obtain ⟨e, failed, named⟩ := exists_of_faultOf? (of_decide_eq_true reported)
  obtain ⟨obstructed, fault, named', trigger⟩ := (runs_fail_at_faulty_calls loaded
    .objectSensitive 1 .perSite (HybridSet .contextObject)).2 e failed
  cases named.symm.trans named'
  exact ⟨p, e, loaded, failed, obstructed, named, trigger⟩

end PointerAnalysis
