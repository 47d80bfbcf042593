import PointerAnalysis.Proofs.Options.Coarsening
import PointerAnalysis.Proofs.Solver.Comparison
import PointerAnalysis.Proofs.Solver.Solution

/-! Finer and coarser analyses. Deeper contexts and objects told apart by their sites find nothing that
shallower contexts and objects told apart by class alone would not find too, and they succeed whenever
these do; so what a coarse analysis costs in precision is all that it costs. -/
namespace PointerAnalysis

section Refines

variable {E E' : Type} [Coded E] [Coded E']

/-- One analysis refines another in all representations of sets: if the other one succeeds so does it,
what it has recorded the other one has recorded in translation, and the call edges of both fit the calls
of their programs. -/
def Analysis.Refines (a : Analysis E) (a' : Analysis E') (translate : Fact E → Fact E') : Prop :=
  ∀ (S S' : Type) [IdSet S .contextObject] [IdSet S' .contextObject] [LawfulIdSet S]
    [LawfulIdSet S'] (r' : Solution E' S'), a'.solve S' = .ok r' → ∃ r, a.solve S = .ok r ∧
      (∀ f, r.state.Records f → r'.state.Records (translate f)) ∧
      (∀ e ∈ r.state.calls.edges, r.state.Fits a.program e) ∧
      ∀ e ∈ r'.state.calls.edges, r'.state.Fits a'.program e

/-- Two analyses come to the same end in all representations of sets, and record the same facts, all of
them without contexts. The contexts of the two may be made of different things. -/
def Analysis.SameWithoutContexts (a : Analysis E) (a' : Analysis E') : Prop :=
  ∀ (S S' : Type) [IdSet S .contextObject] [IdSet S' .contextObject] [LawfulIdSet S]
    [LawfulIdSet S'],
    ((∃ r, a.solve S = .ok r) ↔ ∃ r', a'.solve S' = .ok r') ∧
      ∀ r r', a.solve S = .ok r → a'.solve S' = .ok r' →
        (∀ f, r.state.Records f ↔
          Translation.bare.fact f = f ∧ r'.state.Records (Translation.bare.fact f)) ∧
        ∀ f, r'.state.Records f ↔
          Translation.bare.fact f = f ∧ r.state.Records (Translation.bare.fact f)

variable {a : Analysis E} {a' : Analysis E'} {t : Translation E E'}

theorem Translation.Respects.refines (respects : t.Respects a a') (coherent : a.Coherent)
    (coherent' : a'.Coherent) {contexts : List (Context E)} {objects : List AbstractObject}
    (bounded : a.Bounded contexts objects) : a.Refines a' t.fact := by
  intro S S' _ _ _ _ r' solved'
  obtain ⟨r, solved⟩ :=
    Analysis.solve_of_translation (S := S) coherent coherent' respects bounded solved'
  refine ⟨r, solved, fun f recorded => ?_, fun e there => ?_, fun e there => ?_⟩
  · exact Analysis.records_of_translation coherent coherent' respects solved solved' recorded
  · exact (Analysis.solve_grounded coherent solved).fits coherent there
  · exact (Analysis.solve_grounded coherent' solved').fits coherent' there

end Refines

namespace Solution

variable {E E' S S' : Type} [Coded E] [Coded E'] [IdSet S .contextObject]
  [IdSet S' .contextObject]

/-- What one solution reports with contexts dropped, another one reports too: reachable methods, call
edges and the objects of every variable. -/
structure Within (r : Solution E S) (r' : Solution E' S') : Prop where
  calls : ∃ g g', r.mergedCalls = .ok g ∧ r'.mergedCalls = .ok g' ∧
    (∀ m ∈ g.reached.toList, m ∈ g'.reached.toList) ∧ ∀ e ∈ g.edges.toList, e ∈ g'.edges.toList
  objects : ∀ v, ∃ ids ids', r.objectsOfVar v = .ok ids ∧ r'.objectsOfVar v = .ok ids' ∧
    ∀ o, (∃ id ∈ ids, r.state.canon.object id = .ok o) →
      ∃ id ∈ ids', r'.state.canon.object id = .ok o

/-- Reports drop contexts, so it is enough if the facts without contexts are recorded. -/
theorem within_of_bare {a : Analysis E} {a' : Analysis E'} {r : Solution E S} {r' : Solution E' S'}
    (grounded : r.state.Grounded a) (grounded' : r'.state.Grounded a')
    (same : a'.program = a.program)
    (recorded : ∀ f, r.state.Records f → r'.state.Records (Translation.bare.fact f)) :
    r.Within r' where
  calls := by
    obtain ⟨g, merged, mem_reached, mem_edges⟩ := mergedCalls_spec grounded
    obtain ⟨g', merged', mem_reached', mem_edges'⟩ := mergedCalls_spec grounded'
    refine ⟨g, g', merged, merged', fun m there => ?_, fun e there => ?_⟩
    · obtain ⟨c, reached⟩ := (mem_reached m).mp there
      exact (mem_reached' m).mpr ⟨[], recorded _ reached⟩
    · obtain ⟨⟨c, c', called⟩, fits⟩ := (mem_edges e).mp there
      rw [← same] at fits
      exact (mem_edges' e).mpr ⟨⟨[], [], recorded _ called⟩, fits⟩
  objects v := by
    obtain ⟨ids, listed, mem_ids⟩ := objectsOfVar_spec grounded v
    obtain ⟨ids', listed', mem_ids'⟩ := objectsOfVar_spec grounded' v
    refine ⟨ids, ids', listed, listed', fun o named => ?_⟩
    obtain ⟨c, c', held⟩ := (mem_ids o).mp named
    exact (mem_ids' o).mpr ⟨[], [], recorded _ held⟩

end Solution

namespace Program

variable {p : Program} (coherent : p.Coherent) (kind : AnalysisKind) (depth : Nat) (heap : HeapKind)
include coherent

/-- An analysis refines every one that it can be translated to. -/
theorem Coherent.refines {kind' : AnalysisKind} {depth' : Nat} {heap' : HeapKind}
    {t : Translation kind.Element kind'.Element}
    (respects : t.Respects (p.analysis kind depth heap) (p.analysis kind' depth' heap')) :
    (p.analysis kind depth heap).Refines (p.analysis kind' depth' heap') t.fact :=
  respects.refines (coherent.analysis kind depth heap) (coherent.analysis kind' depth' heap')
    (coherent.analysis_bounded kind depth heap)

/-- Of two analyses of depth zero, one records the facts without contexts that the other one does. -/
theorem Coherent.records_iff_bare (kind' : AnalysisKind) {S S' : Type} [IdSet S .contextObject]
    [IdSet S' .contextObject] [LawfulIdSet S] [LawfulIdSet S'] {r : Solution kind.Element S}
    {r' : Solution kind'.Element S'} (solved : (p.analysis kind 0 heap).solve S = .ok r)
    (solved' : (p.analysis kind' 0 heap).solve S' = .ok r') (f : Fact kind.Element) :
    r.state.Records f ↔
      Translation.bare.fact f = f ∧ r'.state.Records (Translation.bare.fact f) := by
  have good := coherent.analysis kind 0 heap
  have good' := coherent.analysis kind' 0 heap
  constructor
  · intro recorded
    have derived := (Analysis.records_iff good solved f).mp recorded
    exact ⟨coherent.bare_of_derives derived, Analysis.records_of_translation good good'
      (p.bare_respects kind heap 0 kind') solved solved' recorded⟩
  · rintro ⟨same, recorded⟩
    have back := Analysis.records_of_translation good' good
      (p.bare_respects kind' heap 0 kind) solved' solved recorded
    rwa [Translation.bare_bare, same] at back

/-- At depth zero it does not matter what contexts would be made of. -/
theorem Coherent.sameWithoutContexts (kind' : AnalysisKind) :
    (p.analysis kind 0 heap).SameWithoutContexts (p.analysis kind' 0 heap) := by
  intro S S' _ _ _ _
  have forth := coherent.refines kind 0 heap (p.bare_respects kind heap 0 kind')
  have back := coherent.refines kind' 0 heap (p.bare_respects kind' heap 0 kind)
  refine ⟨⟨fun ⟨r, solved⟩ => ?_, fun ⟨r', solved'⟩ => ?_⟩, fun r r' solved solved' => ⟨?_, ?_⟩⟩
  · exact (back S' S r solved).imp fun _ => And.left
  · exact (forth S S' r' solved').imp fun _ => And.left
  · exact coherent.records_iff_bare kind heap kind' solved solved'
  · exact coherent.records_iff_bare kind' heap kind solved' solved

end Program

section Described

variable {described : Described.Program} {p : Program} (loaded : described.link = .ok p)
include loaded

/-- Deeper contexts only refine. An analysis of some depth refines that of any smaller one, with the
contexts of methods cut to the smaller depth and those of objects to one fewer; an analysis of depth
zero is one without contexts; and if the one without contexts succeeds, so does every other one, and
reports no method, no call edge and no object of a variable that it does not report. -/
theorem deeper_contexts_refine (heap : HeapKind) :
    (∀ kind j k, j ≤ k →
      (p.analysis kind k heap).Refines (p.analysis kind j heap) (Translation.truncate j).fact) ∧
    (∀ kind, (p.analysis kind 0 heap).SameWithoutContexts (p.analysis .insensitive 0 heap)) ∧
    ∀ kind depth (S S' : Type) [IdSet S .contextObject] [IdSet S' .contextObject] [LawfulIdSet S]
      [LawfulIdSet S'] (r' : Solution _ S'), (p.analysis .insensitive 0 heap).solve S' = .ok r' →
      ∃ r : Solution _ S, (p.analysis kind depth heap).solve S = .ok r ∧ r.Within r' := by
  have coherent := Described.Program.link_coherent loaded
  refine ⟨fun kind j k le => ?_, fun kind => ?_, ?_⟩
  · exact coherent.refines kind k heap (p.truncate_respects kind heap le)
  · exact coherent.sameWithoutContexts kind heap .insensitive
  · intro kind depth S S' _ _ _ _ r' solved'
    have refines := coherent.refines kind depth heap (p.bare_respects kind heap depth .insensitive)
    obtain ⟨r, solved, recorded, _⟩ := refines S S' r' solved'
    have grounded := Analysis.solve_grounded (coherent.analysis kind depth heap) solved
    have grounded' := Analysis.solve_grounded (coherent.analysis .insensitive 0 heap) solved'
    exact ⟨r, solved, Solution.within_of_bare grounded grounded' rfl recorded⟩

end Described

theorem deeper_contexts_refine_boxes : ∃ p r r₀ r₁ r₂, boxes.link = .ok p ∧
    (p.analysis .insensitive 0 .perSite).solve (HybridSet .contextObject) = .ok r ∧
    (p.analysis .objectSensitive 0 .perSite).solve (HybridSet .contextObject) = .ok r₀ ∧
    (p.analysis .objectSensitive 1 .perSite).solve (HybridSet .contextObject) = .ok r₁ ∧
    (p.analysis .objectSensitive 2 .perSite).solve (TreeSet .contextObject) = .ok r₂ ∧
    (∀ f, r.state.Records f ↔
      Translation.bare.fact f = f ∧ r₀.state.Records (Translation.bare.fact f)) ∧
    (∀ f, r₂.state.Records f → r₁.state.Records ((Translation.truncate 1).fact f)) ∧
    r₂.Within r := by
  obtain ⟨p, r₁, loaded, solved₁⟩ := boxes_solved
  have succeeds : boxes.succeeds .insensitive 0 .perSite := by decide +kernel
  obtain ⟨p', r, loaded', solved⟩ := Described.Program.solved succeeds
  cases loaded.symm.trans loaded'
  obtain ⟨refine, flat, within⟩ := deeper_contexts_refine loaded .perSite
  obtain ⟨succeeds₀, same⟩ :=
    flat .objectSensitive (HybridSet .contextObject) (HybridSet .contextObject)
  obtain ⟨r₀, solved₀⟩ := succeeds₀.mpr ⟨r, solved⟩
  obtain ⟨r₂, solved₂, recorded, _⟩ :=
    refine .objectSensitive 1 2 (by decide) (TreeSet .contextObject) _ r₁ solved₁
  obtain ⟨r₂', solved₂', included⟩ := within .objectSensitive 2 (TreeSet .contextObject) _ r solved
  cases solved₂.symm.trans solved₂'
  exact ⟨p, r, r₀, r₁, r₂, loaded, solved, solved₀, solved₁, solved₂,
    (same r₀ r solved₀ solved).2, recorded, included⟩

section Described

variable {described : Described.Program} {p : Program} (loaded : described.link = .ok p)
include loaded

/-- One object for each class over-approximates one object for each allocation site. If an analysis with
merged objects succeeds so does the one without, and all facts of that are facts of the merged one
once its objects are merged, in variables and fields and contexts alike. -/
theorem merged_objects_over_approximate (kind : AnalysisKind) (depth : Nat) :
    (p.analysis kind depth .perSite).Refines (p.analysis kind depth .perType)
      (Translation.merge kind).fact := by
  have coherent := Described.Program.link_coherent loaded
  exact coherent.refines kind depth .perSite (p.merge_respects kind depth)

end Described

theorem merged_objects_over_approximate_boxes : ∃ p r r', boxes.link = .ok p ∧
    (p.analysis .objectSensitive 1 .perSite).solve (HybridSet .contextObject) = .ok r ∧
    (p.analysis .objectSensitive 1 .perType).solve (HybridSet .contextObject) = .ok r' ∧
    ∀ f, r.state.Records f → r'.state.Records ((Translation.merge .objectSensitive).fact f) := by
  have succeeds : boxes.succeeds .objectSensitive 1 .perType := by decide +kernel
  obtain ⟨p, r', loaded, solved'⟩ := Described.Program.solved succeeds
  obtain ⟨r, solved, recorded, _⟩ := merged_objects_over_approximate loaded .objectSensitive 1
    (HybridSet .contextObject) _ r' solved'
  exact ⟨p, r, r', loaded, solved, solved', recorded⟩

end PointerAnalysis
