import PointerAnalysis.Proofs.Options.Choices
import PointerAnalysis.Proofs.Rules.Translation

/-! Analyses do not look at numbers. Contexts and objects are made of call sites, allocation sites
and objects, and each way of choosing them does the same under other numbers. -/
namespace PointerAnalysis

/-- What an element of a context is under new numbers. -/
def AnalysisKind.rename (names : Renaming) : (kind : AnalysisKind) → kind.Element → kind.Element
  | .insensitive => id
  | .callSiteSensitive => names.callSite
  | .objectSensitive => names.object

theorem AnalysisKind.rename_eq (names : Renaming) (kind : AnalysisKind) :
    kind.rename names = kind.onElements names.callSite names.object := by
  cases kind <;> rfl

theorem AnalysisKind.symm_rename (names : Renaming) (kind : AnalysisKind) (e : kind.Element) :
    kind.rename names.symm (kind.rename names e) = e := by
  cases kind with
  | insensitive => rfl
  | callSiteSensitive => exact names.callSite.symm_apply_apply e
  | objectSensitive => exact names.symm_object e

namespace Renaming

variable (names : Renaming) (kind : AnalysisKind)

/-- Facts under new numbers, with the sites in their contexts and objects. -/
def translation : Translation kind.Element kind.Element where
  names := names
  context := List.map (kind.rename names)
  object o := ⟨o.context.map (kind.rename names), names.object o.object⟩

variable {kind}

@[simp] theorem symm_context (c : Context kind.Element) :
    (names.symm.translation kind).context ((names.translation kind).context c) = c := by
  simp [translation, AnalysisKind.symm_rename, Function.comp_def]

@[simp] theorem symm_heapObject (o : HeapObject kind.Element) :
    (names.symm.translation kind).object ((names.translation kind).object o) = o := by
  simp [translation, AnalysisKind.symm_rename, Function.comp_def]

@[simp] theorem symm_location (l : Location kind.Element) :
    (names.symm.translation kind).location ((names.translation kind).location l) = l := by
  cases l with
  | var c v =>
    simp only [Translation.location, symm_context]
    exact congrArg _ (names.var.symm_apply_apply v)
  | field o f =>
    simp only [Translation.location, symm_heapObject]
    exact congrArg _ (names.field.symm_apply_apply f)

theorem symm_fact (f : Fact kind.Element) :
    (names.symm.translation kind).fact ((names.translation kind).fact f) = f := by
  cases f with
  | reached c m => simp only [Translation.fact, symm_context]
  | calls c site c' callee =>
    simp only [Translation.fact, symm_context]
    exact congrArg (Fact.calls c · c' callee) (names.callSite.symm_apply_apply site)
  | flows source target flow => simp only [Translation.fact, symm_location]
  | holds l o => simp only [Translation.fact, symm_location, symm_heapObject]

variable (kind)

/-- The facts under new numbers, one for each fact. -/
def facts : Equiv.Perm (Fact kind.Element) where
  toFun := (names.translation kind).fact
  invFun := (names.symm.translation kind).fact
  left_inv := names.symm_fact
  right_inv := names.symm.symm_fact

@[simp] theorem facts_refl : refl.facts kind = Equiv.refl _ := by
  have element (e : kind.Element) : kind.rename refl e = e := by
    cases kind with
    | objectSensitive => exact refl_object e
    | _ => rfl
  have context (c : Context kind.Element) : (refl.translation kind).context c = c :=
    (List.map_congr_left fun e _ => element e).trans (List.map_id c)
  have object (o : HeapObject kind.Element) : (refl.translation kind).object o = o :=
    congr (congrArg HeapObject.mk (context o.context)) (refl_object o.object)
  have location (l : Location kind.Element) : (refl.translation kind).location l = l := by
    cases l with
    | var c v => exact congrArg (Location.var · v) (context c)
    | field o f => exact congrArg (Location.field · f) (object o)
  ext f
  show (refl.translation kind).fact f = f
  cases f with
  | reached c m => rw [Translation.fact, context]
  | calls c site c' callee =>
    rw [Translation.fact, context, context]
    rfl
  | flows source target flow => rw [Translation.fact, location, location]
  | holds l o => rw [Translation.fact, location, object]

variable {names} {p p' : Program}

/-- Whatever options choose, an analysis does the same on a program under new numbers. -/
theorem Carries.respects (carries : names.Carries p p') (depth : Nat) (heap : HeapKind) :
    (names.translation kind).Respects (p.analysis kind depth heap) (p'.analysis kind depth heap) where
  program := carries
  empty := rfl
  call c site := by
    simp only [translation, AnalysisKind.rename_eq]
    exact AnalysisKind.call_map ..
  receiverCall c site o := by
    simp only [translation, AnalysisKind.rename_eq]
    exact AnalysisKind.receiverCall_map ..
  type o := rfl
  alloc {c site type m o} made := by
    have context : List.map (kind.rename names) ((kind.policy depth).heap c) =
        (kind.policy depth).heap (c.map (kind.rename names)) := by
      rw [AnalysisKind.rename_eq]
      exact AnalysisKind.heap_map ..
    refine ⟨names.object o, ?_, congrArg (HeapObject.mk · (names.object o)) context⟩
    cases heap <;> cases made <;> rfl
  refused refused := by cases heap <;> cases refused

end Renaming

end PointerAnalysis
