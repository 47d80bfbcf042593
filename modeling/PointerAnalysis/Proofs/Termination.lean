import PointerAnalysis.Proofs.LeastSolution
import PointerAnalysis.Proofs.Options.Bounds
import PointerAnalysis.Proofs.Solver.Loop

/-! Every analysis comes to an end, whatever its program calls or stores into itself. There are only
finitely many contexts up to a depth and so only finitely many facts to be found, and these pay for all
steps that find something to do. -/
namespace PointerAnalysis

/-- No run of an analysis of a described program has more steps that find something to do than a power
of the program's size, so steps that are repeated without a bound end in one way, the one in which the
bounded run ends. And in no state that a run leaves behind have sets been passed on more often than
there are pairs of a pointer and an object that has been passed on. -/
theorem runs_come_to_an_end {described : Described.Program} {p : Program}
    (loaded : described.link = .ok p) (kind : AnalysisKind) (depth : Nat) (heap : HeapKind)
    {S : Type} [IdSet S .contextObject] [LawfulIdSet S] :
    (∀ n (s : Solver.State kind.Element S), s.After (p.analysis kind depth heap) n →
      n < (p.size + 2) ^ (6 * (kind.policy depth).depth + 10)) ∧
    (∀ ending : Solver.Ending kind.Element S, Solver.RunsTo (p.analysis kind depth heap) ending ↔
      (Solver.solve (p.analysis kind depth heap)).run .empty = ending) ∧
    ∀ s : Solver.State kind.Element S, s.Seen (p.analysis kind depth heap) →
      s.propagations ≤ s.pointsTo.relations := by
  have program := Described.Program.link_coherent loaded
  have coherent := program.analysis kind depth heap
  have bounded := program.analysis_bounded kind depth heap
  refine ⟨fun n s after => ?_, fun ending => ?_, fun s seen => ?_⟩
  · -- The bound is read off the analysis first; powers are not to be unfolded to see that it is this one.
    have steps := after.steps_lt coherent bounded
    exact steps
  · exact Solver.solve_runsTo coherent bounded ending
  · exact seen.propagations_le coherent

/-- Nodes that grow new nodes whenever they are turned and turn the nodes that they grow, each with a
field that may lead back to itself. -/
def rings : Described.Program where
  types := [
    { name := "Node", super := none, methods := [
        { name := "grow", isStatic := false, isAbstract := false, params := []
          body := [.new "n" "Node", .store "n" "next" "this", .load "m" "this" "next",
            .call .virtual "Node.turn" (some "n") ["m"] (some "r"), .return "r"] },
        { name := "turn", isStatic := false, isAbstract := false, params := ["x"]
          body := [.call .virtual "Node.grow" (some "this") [] (some "x"),
            .store "this" "next" "x", .return "x", .return "this"] }] },
    { name := "Main", super := none, methods := [
        { name := "main", isStatic := true, isAbstract := false, params := []
          body := [.new "a" "Node", .store "a" "next" "a",
            .call .virtual "Node.grow" (some "a") [] (some "b"), .assign "a" "b"] }] }]
  entries := ["Main.main"]

theorem runs_come_to_an_end_rings : ∃ p s, rings.link = .ok p ∧
    Solver.RunsTo (p.analysis .objectSensitive 2 .perSite)
      (.ok () s : Solver.Ending AbstractObject (HybridSet .contextObject)) ∧
    s.propagations ≤ s.pointsTo.relations ∧
    ∀ n (s' : Solver.State AbstractObject (HybridSet .contextObject)),
      s'.After (p.analysis .objectSensitive 2 .perSite) n → n < (p.size + 2) ^ 22 := by
  have succeeds : rings.succeeds .objectSensitive 2 .perSite := by decide +kernel
  obtain ⟨p, r, loaded, solved⟩ := Described.Program.solved succeeds
  obtain ⟨steps, ends, passed⟩ := runs_come_to_an_end loaded .objectSensitive 2 .perSite
    (S := HybridSet .contextObject)
  have reachable := (Analysis.solve_reachable (p.analysis_coherent loaded _ _ _) solved).2.1
  exact ⟨p, r.state, loaded, (ends _).mpr (Analysis.run_of_solve solved).2,
    passed r.state (.reachable reachable), steps⟩

end PointerAnalysis
