import PointerAnalysis.Proofs.Program.Renaming
import PointerAnalysis.Rules.Basic

/-! Facts of one analysis as facts of another. A translation says what the contexts, the objects and
the numbers of the first stand for in the second. If it respects how both make contexts and objects,
then whatever the first one derives the second one derives in translation, and what is in the way of
the first is in the way of the second. -/
namespace PointerAnalysis

/-- What the facts of one analysis are in terms of another. -/
structure Translation (E E' : Type) where
  names : Renaming
  context : Context E → Context E'
  object : HeapObject E → HeapObject E'

variable {E E' : Type}

namespace Translation

def location (t : Translation E E') : Location E → Location E'
  | .var c v => .var (t.context c) (t.names.var v)
  | .field o f => .field (t.object o) (t.names.field f)

def fact (t : Translation E E') : Fact E → Fact E'
  | .reached c m => .reached (t.context c) m
  | .calls c site c' callee => .calls (t.context c) (t.names.callSite site) (t.context c') callee
  | .flows source target kind => .flows (t.location source) (t.location target) kind
  | .holds l o => .holds (t.location l) (t.object o)

/-- The second analysis does in translation what the first one does. -/
structure Respects (t : Translation E E') (a : Analysis E) (a' : Analysis E') : Prop where
  program : t.names.Carries a.program a'.program
  empty : t.context [] = []
  call : ∀ c site, t.context (a.policy.call c site) =
    a'.policy.call (t.context c) (t.names.callSite site)
  receiverCall : ∀ c site o, t.context (a.policy.receiverCall c site o.context o.object) =
    a'.policy.receiverCall (t.context c) (t.names.callSite site) (t.object o).context
      (t.object o).object
  type : ∀ o, (t.object o).object.type = o.object.type
  alloc : ∀ {c site type m o}, a.heap site type m = .ok o →
    ∃ o', a'.heap (t.names.allocSite site) type m = .ok o' ∧
      t.object ⟨a.policy.heap c, o⟩ = ⟨a'.policy.heap (t.context c), o'⟩
  refused : ∀ {site type m refusal}, a.heap site type m = .error refusal →
    ∃ refusal', a'.heap (t.names.allocSite site) type m = .error refusal'

end Translation

namespace Analysis

variable {t : Translation E E'} {a : Analysis E} {a' : Analysis E'} (respects : t.Respects a a')
include respects

/-- Every rule of the first analysis is one of the second in translation. -/
theorem Derives.translate {f : Fact E} (derived : a.Derives f) : a'.Derives (t.fact f) := by
  have program := respects.program
  induction derived with
  | entry listed =>
    rw [Translation.fact, respects.empty]
    exact .entry (program.entries listed)
  | alloc _ statement made ih =>
    obtain ⟨o', made', same⟩ := respects.alloc made
    rw [Translation.fact, same]
    exact .alloc ih (program.has statement) made'
  | assign _ statement ih => exact .assign ih (program.has statement)
  | store _ statement ih => exact .store ih (program.has statement)
  | load _ statement ih => exact .load ih (program.has statement)
  | call _ statement enters ih =>
    rw [Translation.fact, respects.call]
    exact .call ih (program.has statement) (program.entersAlone enters)
  | receiverCall _ found receiver enters ih =>
    rw [Translation.fact, respects.receiverCall]
    refine .receiverCall ih (program.calls found) (Renaming.receiver_call receiver) ?_
    rw [respects.type]
    exact program.entersOn enters
  | this _ found receiver enters declared named ih =>
    obtain ⟨method', declared', same⟩ := program.methods declared
    rw [Translation.fact, Translation.location, respects.receiverCall]
    refine .this ih (program.calls found) (Renaming.receiver_call receiver) ?_ declared' ?_
    · rw [respects.type]
      exact program.entersOn enters
    · rw [same.this, named, Option.map_some]
  | callee _ ih => exact .callee ih
  | param _ found declared placed ih =>
    obtain ⟨method', declared', same⟩ := program.methods declared
    refine .param ih (program.calls found) declared' ?_
    rw [same.params, Renaming.call, List.zip_map]
    exact List.mem_map.mpr ⟨_, placed, rfl⟩
  | «return» _ found declared listed named ih =>
    obtain ⟨method', declared', same⟩ := program.methods declared
    exact .return ih (program.calls found) declared' (same.returns _ listed)
      (Option.map_eq_some_iff.mpr ⟨_, named, rfl⟩)
  | flow _ _ ihFlows ihHeld => exact .flow ihFlows ihHeld

/-- What is in the way of the first analysis is in the way of the second in translation. -/
theorem Obstructed.translate {e : AnalysisError} (obstructed : a.Obstructed e) :
    ∃ e', a'.Obstructed e' := by
  have program := respects.program
  cases obstructed with
  | heap reached statement refused =>
    obtain ⟨refusal', refused'⟩ := respects.refused refused
    exact ⟨_, .heap (reached.translate respects) (program.has statement) refused'⟩
  | staticOnReceiver reached statement found kind receiver =>
    refine ⟨_, .staticOnReceiver (reached.translate respects) (program.has statement)
      (program.calls found) kind ?_⟩
    rw [Renaming.call, Option.isSome_map]
    exact receiver
  | virtualAlone reached statement found kind alone =>
    exact ⟨_, .virtualAlone (reached.translate respects) (program.has statement)
      (program.calls found) kind (Renaming.receiver_call_none alone)⟩
  | specialAlone reached statement found kind alone unresolved declared named =>
    obtain ⟨target', declared', same⟩ := program.methods declared
    rw [← same.owner] at named
    exact ⟨_, .specialAlone (reached.translate respects) (program.has statement)
      (program.calls found) kind (Renaming.receiver_call_none alone)
      (program.resolveSpecial unresolved) declared' (program.typeName named)⟩
  | staticOnObject held found receiver kind =>
    exact ⟨_, .staticOnObject (held.translate respects) (program.calls found)
      (Renaming.receiver_call receiver) kind⟩
  | virtualOnObject held found receiver kind unresolved named =>
    rw [← respects.type] at unresolved named
    exact ⟨_, .virtualOnObject (held.translate respects) (program.calls found)
      (Renaming.receiver_call receiver) kind (program.resolveVirtual unresolved)
      (program.typeName named)⟩
  | specialOnObject held found receiver kind unresolved declared named =>
    obtain ⟨target', declared', same⟩ := program.methods declared
    rw [← same.owner] at named
    exact ⟨_, .specialOnObject (held.translate respects) (program.calls found)
      (Renaming.receiver_call receiver) kind (program.resolveSpecial unresolved)
      declared' (program.typeName named)⟩
  | noThis held found receiver enters declared alone =>
    obtain ⟨method', declared', same⟩ := program.methods declared
    refine ⟨_, .noThis (held.translate respects) (program.calls found)
      (Renaming.receiver_call receiver) ?_ declared' ?_⟩
    · rw [respects.type]
      exact program.entersOn enters
    · rw [same.this, alone, Option.map_none]

end Analysis

end PointerAnalysis
