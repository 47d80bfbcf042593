import PointerAnalysis.Proofs.ObjectSet.Hybrid
import PointerAnalysis.Proofs.ObjectSet.Tree
import PointerAnalysis.Proofs.Options.Choices
import PointerAnalysis.Proofs.Rules.Fixpoint
import PointerAnalysis.Proofs.Solver.Run

/-! What an analysis of a described program computes. No state of a run holds anything that the rules
do not derive, and a run that comes to an end has no rule instance left open; so its result is the
least set of facts that satisfies the rules. -/
namespace PointerAnalysis

variable {E S : Type} [Coded E] [IdSet S .contextObject]

namespace Solver.State

/-- A grounded state records derivable facts only. -/
theorem Grounded.derives_of_records {a : Analysis E} {s : State E S} (grounded : s.Grounded a)
    {f : Fact E} (recorded : s.Records f) : a.Derives f := by
  cases recorded with
  | reached there entered =>
    obtain ⟨context, m, entered', derived⟩ := grounded.reaches there
    obtain ⟨rfl, rfl⟩ := entered.unique entered'
    exact derived
  | calls there placed entered =>
    obtain ⟨_, _, _, _, _, placed', entered', _, _, _, derived⟩ :=
      grounded.calls (Array.mem_toList_iff.mpr there)
    obtain ⟨rfl, rfl⟩ := placed.unique placed'
    obtain ⟨rfl, rfl⟩ := entered.unique entered'
    exact derived
  | flows there source target =>
    obtain ⟨_, _, source', target', derived⟩ := grounded.flows (Array.mem_toList_iff.mpr there)
    cases source.unique source'
    cases target.unique target'
    exact derived
  | holds there located named =>
    obtain ⟨_, _, located', named', derived⟩ := grounded.holds (.inr there)
    cases located.unique located'
    cases named.unique named'
    exact derived

/-- A grounded state lets only derivable facts wait. -/
theorem Grounded.derives_of_awaits {a : Analysis E} {s : State E S} (grounded : s.Grounded a)
    {f : Fact E} (awaited : s.Awaits f) : a.Derives f := by
  cases awaited with
  | calls queued placed entered =>
    obtain ⟨_, _, _, _, _, placed', entered', _, _, _, derived⟩ :=
      grounded.queued (List.mem_of_mem_drop queued)
    obtain ⟨rfl, rfl⟩ := placed.unique placed'
    obtain ⟨rfl, rfl⟩ := entered.unique entered'
    exact derived
  | holds pending located named =>
    obtain ⟨_, _, located', named', derived⟩ := grounded.holds (.inl pending)
    cases located.unique located'
    cases named.unique named'
    exact derived

/-- A call edge starts in the method that holds the call, has the kind of the call, and passes as many
arguments as its callee takes. -/
def Fits (p : Program) (s : State E S) (e : ContextCallEdge) : Prop :=
  ∃ context site call calleeContext callee, s.canon.CallsAt e.site context site ∧
    p.callSite site = .ok call ∧ s.canon.Enters e.caller context call.container ∧
    e.kind = call.kind ∧ s.canon.Enters e.callee calleeContext callee ∧ p.Takes callee call

theorem Grounded.fits {a : Analysis E} {s : State E S} (coherent : a.Coherent)
    (grounded : s.Grounded a) {e : ContextCallEdge} (there : e ∈ s.calls.edges) :
    s.Fits a.program e := by
  obtain ⟨context, site, calleeContext, callee, call, placed, entered, found, within, kind, derived⟩ :=
    grounded.calls (Array.mem_toList_iff.mpr there)
  obtain ⟨call', found', takes⟩ := derived.scoped coherent
  cases found.symm.trans found'
  exact ⟨context, site, call, calleeContext, callee, placed, found, within, kind, entered, takes⟩

end Solver.State

section Runs

variable [LawfulIdSet S] {a : Analysis E} {r : Solution E S}

theorem Analysis.solve_grounded (coherent : a.Coherent) (solved : a.solve S = .ok r) :
    r.state.Grounded a :=
  ((a.solve_reachable coherent solved).2.1.invariant coherent).grounded

/-- The facts that a successful analysis has recorded are the derivable ones. -/
theorem Analysis.records_iff (coherent : a.Coherent) (solved : a.solve S = .ok r) (f : Fact E) :
    r.state.Records f ↔ a.Derives f :=
  ⟨(a.solve_grounded coherent solved).derives_of_records,
    (a.solve_closed coherent solved).fixpoint.of_derives⟩

/-- After a successful analysis nothing waits. -/
theorem Analysis.awaits_nothing (coherent : a.Coherent) (solved : a.solve S = .ok r) (f : Fact E) :
    ¬ r.state.Awaits f := by
  obtain ⟨_, reachable, rest⟩ := a.solve_reachable coherent solved
  have scheduled := (reachable.invariant coherent).scheduled
  intro awaited
  cases awaited with
  | calls queued => simp [rest.2] at queued
  | @holds p id l o pending =>
    have waiting := (scheduled.waiting_iff p).mpr ⟨id, pending⟩
    simp [rest.1] at waiting

end Runs

section Described

variable {described : Described.Program} {p : Program} (loaded : described.link = .ok p)
  (kind : AnalysisKind) (depth : Nat) (heap : HeapKind) {S : Type} [IdSet S .contextObject]
  [LawfulIdSet S]
include loaded

/-- A successful analysis leaves no rule open: its result satisfies all of them at once, every call
edge fits its call, and nothing waits to be looked at. -/
theorem solve_satisfies_rules {r : Solution kind.Element S}
    (solved : (p.analysis kind depth heap).solve S = .ok r) :
    (p.analysis kind depth heap).Fixpoint r.state.Records ∧
      (∀ e ∈ r.state.calls.edges, r.state.Fits p e) ∧ ∀ f, ¬ r.state.Awaits f := by
  have coherent := p.analysis_coherent loaded kind depth heap
  refine ⟨(Analysis.solve_closed coherent solved).fixpoint, fun e there => ?_, ?_⟩
  · exact (Analysis.solve_grounded coherent solved).fits coherent there
  · exact Analysis.awaits_nothing coherent solved

end Described

/-- Whether a description can be loaded and its program passes a test. -/
def Described.Program.passes (described : Described.Program)
    (test : PointerAnalysis.Program → Bool) : Bool :=
  match described.link with
  | .ok p => test p
  | .error _ => false

theorem Described.Program.exists_of_passes {described : Described.Program}
    {test : PointerAnalysis.Program → Bool} (passes : described.passes test) :
    ∃ p, described.link = .ok p ∧ test p := by
  unfold Described.Program.passes at passes
  cases loaded : described.link with
  | error e => simp [loaded] at passes
  | ok p => exact ⟨p, rfl, by simpa [loaded] using passes⟩

/-- Whether a description can be loaded and analysed and its solution passes a test. -/
def Described.Program.solvesTo (described : Described.Program) (kind : AnalysisKind) (depth : Nat)
    (heap : HeapKind)
    (test : PointerAnalysis.Program → Solution kind.Element (HybridSet .contextObject) → Bool) : Bool :=
  described.passes fun p =>
    match (p.analysis kind depth heap).solve (HybridSet .contextObject) with
    | .ok r => test p r
    | .error _ => false

theorem Described.Program.exists_of_solvesTo {described : Described.Program} {kind : AnalysisKind}
    {depth : Nat} {heap : HeapKind}
    {test : PointerAnalysis.Program → Solution kind.Element (HybridSet .contextObject) → Bool}
    (solves : described.solvesTo kind depth heap test) :
    ∃ p r, described.link = .ok p ∧
      (p.analysis kind depth heap).solve (HybridSet .contextObject) = .ok r ∧ test p r := by
  obtain ⟨p, loaded, passes⟩ := Described.Program.exists_of_passes solves
  cases solved : (p.analysis kind depth heap).solve (HybridSet .contextObject) with
  | error e => simp [solved] at passes
  | ok r => exact ⟨p, r, loaded, solved, by simpa [solved] using passes⟩

/-- Whether a description can be loaded and analysed. -/
def Described.Program.succeeds (described : Described.Program) (kind : AnalysisKind) (depth : Nat)
    (heap : HeapKind) : Bool :=
  described.passes fun p =>
    ((p.analysis kind depth heap).solve (HybridSet .contextObject)).toBool

theorem Described.Program.solved {described : Described.Program} {kind : AnalysisKind} {depth : Nat}
    {heap : HeapKind} (succeeds : described.succeeds kind depth heap) :
    ∃ p r, described.link = .ok p ∧
      (p.analysis kind depth heap).solve (HybridSet .contextObject) = .ok r := by
  obtain ⟨p, loaded, ran⟩ := Described.Program.exists_of_passes succeeds
  cases solved : (p.analysis kind depth heap).solve (HybridSet .contextObject) with
  | error e => simp [solved, Except.toBool] at ran
  | ok r => exact ⟨p, r, loaded, solved⟩

/-- Two boxes, one of them inside the other, and a static method that returns its argument. -/
def boxes : Described.Program where
  types := [
    { name := "Box", super := none, methods := [
        { name := "set", isStatic := false, isAbstract := false, params := ["x"]
          body := [.store "this" "f" "x"] },
        { name := "get", isStatic := false, isAbstract := false, params := []
          body := [.load "r" "this" "f", .return "r"] }] },
    { name := "Main", super := some "Box", methods := [
        { name := "main", isStatic := true, isAbstract := false, params := []
          body := [.new "b" "Box", .new "c" "Main", .new "o" "Main",
            .call .virtual "Box.set" (some "b") ["o"] none,
            .call .virtual "Box.set" (some "c") ["b"] none,
            .call .virtual "Box.get" (some "c") [] (some "y"),
            .call .static "Main.same" none ["y"] (some "z"), .assign "b" "z"] },
        { name := "same", isStatic := true, isAbstract := false, params := ["x"]
          body := [.return "x"] }] }]
  entries := ["Main.main"]

theorem boxes_solved : ∃ p r, boxes.link = .ok p ∧
    (p.analysis .objectSensitive 1 .perSite).solve (HybridSet .contextObject) = .ok r :=
  Described.Program.solved (by decide +kernel)

theorem solve_satisfies_rules_boxes : ∃ p r, boxes.link = .ok p ∧
    (p.analysis .objectSensitive 1 .perSite).solve (HybridSet .contextObject) = .ok r ∧
    (p.analysis .objectSensitive 1 .perSite).Fixpoint r.state.Records ∧
      (∀ e ∈ r.state.calls.edges, r.state.Fits p e) ∧ ∀ f, ¬ r.state.Awaits f := by
  obtain ⟨p, r, loaded, solved⟩ := boxes_solved
  exact ⟨p, r, loaded, solved, solve_satisfies_rules loaded .objectSensitive 1 .perSite solved⟩

section Described

variable {described : Described.Program} {p : Program} (loaded : described.link = .ok p)
  (kind : AnalysisKind) (depth : Nat) (heap : HeapKind) {S : Type} [IdSet S .contextObject]
  [LawfulIdSet S]
include loaded

/-- Every entry of every state of a run, in sets and graphs and queues, stands for a derivable fact;
and what a successful run has recorded in the end are all derivable facts, the least ones that satisfy
the rules. -/
theorem runs_hold_derivable_facts_only :
    (∀ s : Solver.State kind.Element S, s.Reachable (p.analysis kind depth heap) →
      s.Grounded (p.analysis kind depth heap) ∧
        ∀ f, s.Records f ∨ s.Awaits f → (p.analysis kind depth heap).Derives f) ∧
    ∀ r : Solution kind.Element S, (p.analysis kind depth heap).solve S = .ok r →
      (∀ f, r.state.Records f ↔ (p.analysis kind depth heap).Derives f) ∧
        (p.analysis kind depth heap).Fixpoint r.state.Records ∧
        ∀ known, (p.analysis kind depth heap).Fixpoint known → ∀ f, r.state.Records f → known f := by
  have coherent := p.analysis_coherent loaded kind depth heap
  refine ⟨fun s reachable => ?_, fun r solved => ?_⟩
  · have grounded := (reachable.invariant coherent).grounded
    exact ⟨grounded, fun f => Or.rec grounded.derives_of_records grounded.derives_of_awaits⟩
  · have derived (f : Fact kind.Element) := Analysis.records_iff coherent solved f
    refine ⟨derived, (Analysis.solve_closed coherent solved).fixpoint, ?_⟩
    exact fun known fixpoint f recorded => fixpoint.of_derives ((derived f).mp recorded)

end Described

theorem runs_hold_derivable_facts_only_boxes : ∃ p r, boxes.link = .ok p ∧
    (p.analysis .objectSensitive 1 .perSite).solve (HybridSet .contextObject) = .ok r ∧
      ∀ f, r.state.Records f ↔ (p.analysis .objectSensitive 1 .perSite).Derives f := by
  obtain ⟨p, r, loaded, solved⟩ := boxes_solved
  have derived := runs_hold_derivable_facts_only loaded .objectSensitive 1 .perSite
    (S := HybridSet .contextObject)
  exact ⟨p, r, loaded, solved, (derived.2 r solved).1⟩

end PointerAnalysis
