import PointerAnalysis.Proofs.LeastSolution
import PointerAnalysis.Proofs.Rules.Translation
import PointerAnalysis.Proofs.Solver.Termination

/-! Two runs compared. Where the facts of one analysis translate to facts of another, what the first
one records the second one records in translation, and the first one succeeds if the second one
does; in what order the two runs meet their facts has no part in this. -/
namespace PointerAnalysis

variable {E E' S S' : Type} [Coded E] [Coded E'] [IdSet S .contextObject] [LawfulIdSet S]
  [IdSet S' .contextObject] [LawfulIdSet S']

namespace Analysis

variable {a : Analysis E} {a' : Analysis E'} {t : Translation E E'} (coherent : a.Coherent)
  (coherent' : a'.Coherent) (respects : t.Respects a a')
include coherent coherent' respects

/-- What is in the way of the first analysis would be in the way of the second. -/
theorem solve_of_translation {contexts : List (Context E)} {objects : List AbstractObject}
    (bounded : a.Bounded contexts objects) {r' : Solution E' S'} (solved' : a'.solve S' = .ok r') :
    ∃ r, a.solve S = .ok r := by
  rcases a.solve_ends coherent bounded S with succeeds | ⟨e, _, obstructed⟩
  · exact succeeds
  · obtain ⟨e', obstructed'⟩ := obstructed.translate respects
    exact absurd obstructed' (a'.solve_closed coherent' solved').not_obstructed

/-- What the first analysis has recorded the second one has recorded in translation. -/
theorem records_of_translation {r : Solution E S} {r' : Solution E' S'}
    (solved : a.solve S = .ok r) (solved' : a'.solve S' = .ok r') {f : Fact E}
    (recorded : r.state.Records f) : r'.state.Records (t.fact f) := by
  rw [a'.records_iff coherent' solved']
  exact ((a.records_iff coherent solved f).mp recorded).translate respects

end Analysis

end PointerAnalysis
