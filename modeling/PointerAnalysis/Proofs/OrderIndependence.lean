import PointerAnalysis.Proofs.Description.Exchange
import PointerAnalysis.Proofs.Options.Bounds
import PointerAnalysis.Proofs.Options.Renaming
import PointerAnalysis.Proofs.Solver.Comparison

/-! What the order of work has no part in. Sets of objects may be represented in any way and hand out
their members in any order, and the statements of a body and the entries may be listed in any order:
an analysis succeeds or fails all the same, and finds the same facts under the numbers of its
program. -/
namespace PointerAnalysis

/-- Two analyses come to the same end in every representation of sets: if one of them succeeds so does
the other, the facts of the first are those of the second in translation, and the call edges of both
fit the calls of their programs. -/
def Analysis.SameResults {E E' : Type} [Coded E] [Coded E'] (a : Analysis E) (a' : Analysis E')
    (translate : Fact E → Fact E') : Prop :=
  ∀ (S S' : Type) [IdSet S .contextObject] [IdSet S' .contextObject] [LawfulIdSet S]
    [LawfulIdSet S'],
    ((∃ r, a.solve S = .ok r) ↔ ∃ r', a'.solve S' = .ok r') ∧
      ∀ r r', a.solve S = .ok r → a'.solve S' = .ok r' →
        (∀ f, r.state.Records f ↔ r'.state.Records (translate f)) ∧
          (∀ e ∈ r.state.calls.edges, r.state.Fits a.program e) ∧
          ∀ e ∈ r'.state.calls.edges, r'.state.Fits a'.program e

section Exchanged

variable {p p' : Program} {names : Renaming} (coherent : p.Coherent) (coherent' : p'.Coherent)
  (exchanges : names.Exchanges p p')
include coherent coherent' exchanges

/-- Programs that differ in numbers only have the same results. -/
theorem Renaming.Exchanges.sameResults (kind : AnalysisKind) (depth : Nat) (heap : HeapKind) :
    (p.analysis kind depth heap).SameResults (p'.analysis kind depth heap) (names.facts kind) := by
  intro S S' _ _ _ _
  have forth := exchanges.forth.respects kind depth heap
  have back := exchanges.back.respects kind depth heap
  have good := coherent.analysis kind depth heap
  have good' := coherent'.analysis kind depth heap
  refine ⟨⟨fun ⟨r, solved⟩ => ?_, fun ⟨r', solved'⟩ => ?_⟩, fun r r' solved solved' => ⟨?_, ?_, ?_⟩⟩
  · exact Analysis.solve_of_translation good' good back
      (coherent'.analysis_bounded kind depth heap) solved
  · exact Analysis.solve_of_translation good good' forth
      (coherent.analysis_bounded kind depth heap) solved'
  · refine fun f => ⟨Analysis.records_of_translation good good' forth solved solved', fun there => ?_⟩
    have here := Analysis.records_of_translation good' good back solved' solved there
    rwa [show (names.symm.translation kind).fact (names.facts kind f) = f from
      names.symm_fact f] at here
  · exact fun e there => (Analysis.solve_grounded good solved).fits good there
  · exact fun e there => (Analysis.solve_grounded good' solved').fits good' there

end Exchanged

/-- Neither the representation of sets nor the order of statements and entries decides anything. An
analysis of one program has the same results in all representations; and the program with its
statements and entries in another order can be loaded too, differs from the first in the numbers of
variables, fields and sites only, and has the same results under these numbers. -/
theorem results_independent_of_order {described described' : Described.Program} {p : Program}
    (loaded : described.link = .ok p) (reordered : described.Reordered described') :
    (∀ kind depth heap, (p.analysis kind depth heap).SameResults (p.analysis kind depth heap) id) ∧
      ∃ p', described'.link = .ok p' ∧ (∃ names : Renaming, names.Exchanges p p') ∧
        ∀ names : Renaming, names.Exchanges p p' → ∀ kind depth heap,
          (p.analysis kind depth heap).SameResults (p'.analysis kind depth heap)
            (names.facts kind) := by
  have coherent := Described.Program.link_coherent loaded
  obtain ⟨p', loaded'⟩ := reordered.links ⟨p, loaded⟩
  have coherent' := Described.Program.link_coherent loaded'
  refine ⟨fun kind depth heap => ?_, p', loaded', reordered.exists_exchange loaded loaded', ?_⟩
  · have same := (Renaming.exchanges_refl p).sameResults coherent coherent kind depth heap
    rwa [Renaming.facts_refl] at same
  · exact fun names exchanges kind depth heap =>
      exchanges.sameResults coherent coherent' kind depth heap

theorem results_independent_of_order_boxes : ∃ p p' r r' names,
    boxes.link = .ok p ∧ boxes.reversed.link = .ok p' ∧
    (p.analysis .objectSensitive 1 .perSite).solve (HybridSet .contextObject) = .ok r ∧
    (p'.analysis .objectSensitive 1 .perSite).solve (TreeSet .contextObject) = .ok r' ∧
    Renaming.Exchanges names p p' ∧
    ∀ f, r.state.Records f ↔ r'.state.Records (names.facts .objectSensitive f) := by
  obtain ⟨p, r, loaded, solved⟩ := boxes_solved
  obtain ⟨_, p', loaded', ⟨names, exchanges⟩, same⟩ :=
    results_independent_of_order loaded boxes.reordered_reversed
  obtain ⟨succeeds, facts⟩ := same names exchanges .objectSensitive 1 .perSite
    (HybridSet .contextObject) (TreeSet .contextObject)
  obtain ⟨r', solved'⟩ := succeeds.mp ⟨r, solved⟩
  exact ⟨p, p', r, r', names, loaded, loaded', solved, solved', exchanges,
    (facts r r' solved solved').1⟩

end PointerAnalysis
