import PointerAnalysis.Command.Basic
import PointerAnalysis.Proofs.Description.Link
import PointerAnalysis.Proofs.Rules.Scope

/-! The analyses that options choose between: three ways of choosing contexts, to any depth, and two
heap models. Each of them is coherent on every program that a description stands for. -/
namespace PointerAnalysis

namespace AnalysisKind

/-- What the contexts of an analysis are made of. -/
def Element : AnalysisKind → Type
  | .insensitive => Unit
  | .callSiteSensitive => CallSiteId
  | .objectSensitive => AbstractObject

instance : (kind : AnalysisKind) → Coded kind.Element
  | .insensitive => inferInstanceAs (Coded Unit)
  | .callSiteSensitive => inferInstanceAs (Coded CallSiteId)
  | .objectSensitive => inferInstanceAs (Coded AbstractObject)

def policy (depth : Nat) : (kind : AnalysisKind) → ContextPolicy AbstractObject kind.Element
  | .insensitive => .insensitive
  | .callSiteSensitive => .callSite depth
  | .objectSensitive => .object depth

/-! No way of choosing contexts looks into the call sites and objects that they are made of. -/

/-- What becomes of an element when call sites and objects become others. -/
def onElements (site : CallSiteId → CallSiteId) (object : AbstractObject → AbstractObject) :
    (kind : AnalysisKind) → kind.Element → kind.Element
  | .insensitive => id
  | .callSiteSensitive => site
  | .objectSensitive => object

section OnElements

variable (site : CallSiteId → CallSiteId) (object : AbstractObject → AbstractObject)
  (kind : AnalysisKind) (depth : Nat) (c : Context kind.Element)

theorem heap_map : ((kind.policy depth).heap c).map (kind.onElements site object) =
    (kind.policy depth).heap (c.map (kind.onElements site object)) := by
  cases kind with
  | insensitive => rfl
  | callSiteSensitive => exact List.map_take
  | objectSensitive => exact List.map_take

theorem call_map (id : CallSiteId) :
    ((kind.policy depth).call c id).map (kind.onElements site object) =
      (kind.policy depth).call (c.map (kind.onElements site object)) (site id) := by
  cases kind with
  | insensitive => rfl
  | callSiteSensitive => exact List.map_take
  | objectSensitive => rfl

theorem receiverCall_map (id : CallSiteId) (c' : Context kind.Element) (o : AbstractObject) :
    ((kind.policy depth).receiverCall c id c' o).map (kind.onElements site object) =
      (kind.policy depth).receiverCall (c.map (kind.onElements site object)) (site id)
        (c'.map (kind.onElements site object)) (object o) := by
  cases kind with
  | insensitive => rfl
  | callSiteSensitive => exact List.map_take
  | objectSensitive => exact List.map_take

end OnElements

end AnalysisKind

def HeapKind.model : HeapKind → HeapModel
  | .perSite => .perSite
  | .perType => .perType

theorem HeapKind.model_typed (heap : HeapKind) : heap.model.Typed := by
  cases heap with
  | perSite => exact @HeapModel.perSite_typed
  | perType => exact @HeapModel.perType_typed

/-- The analysis of a program that options choose. -/
def Program.analysis (p : Program) (kind : AnalysisKind) (depth : Nat) (heap : HeapKind) :
    Analysis kind.Element :=
  ⟨p, kind.policy depth, heap.model⟩

/-- What options let a program be analysed by is the analysis that they choose. -/
theorem Options.analyse_eq (o : Options) (p : Program) : o.analyse p = (do
    let r ← (p.analysis o.analysis o.depth o.heap).solve (HybridSet .contextObject)
    match o.outputs r with
    | .ok outputs => return outputs
    | .error id => throw (.unknownId id)) := by
  obtain ⟨entry, kind, depth, heap, statistics, callGraph, pointsTo, flowGraph, input⟩ := o
  cases kind <;> cases heap <;> rfl

theorem Program.Coherent.analysis {p : Program} (coherent : p.Coherent) (kind : AnalysisKind)
    (depth : Nat) (heap : HeapKind) : (p.analysis kind depth heap).Coherent :=
  ⟨coherent, heap.model_typed⟩

theorem Program.analysis_coherent {described : Described.Program} {p : Program}
    (loaded : described.link = .ok p) (kind : AnalysisKind) (depth : Nat) (heap : HeapKind) :
    (p.analysis kind depth heap).Coherent :=
  (Described.Program.link_coherent loaded).analysis kind depth heap

end PointerAnalysis
