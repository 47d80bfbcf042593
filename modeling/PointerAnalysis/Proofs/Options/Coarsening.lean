import PointerAnalysis.Proofs.Options.Bounds
import PointerAnalysis.Proofs.Rules.Translation

/-! Analyses that tell less apart. What is told apart by longer contexts, by contexts at all or by
allocation sites can be taken for the same, and the operations on contexts do before that what they do
after it; so the coarser analysis does in translation what the finer one does. -/
namespace PointerAnalysis

namespace Context

variable {E : Type} {j k : Nat} {e : E} {c : Context E}

theorem truncate_truncate (le : j ≤ k) : (c.truncate k).truncate j = c.truncate j := by
  rw [truncate, truncate, List.take_take, Nat.min_eq_left le, truncate]

/-- Of what an element is put in front of, one element fewer is kept than of the whole. -/
theorem push_truncate (le : j ≤ k + 1) : (c.truncate k).push j e = c.push j e := by
  cases j with
  | zero => rfl
  | succ j =>
    rw [push, push, List.take_succ_cons, List.take_succ_cons]
    exact congrArg (e :: ·) (truncate_truncate (Nat.le_of_succ_le_succ le))

theorem truncate_push {n : Nat} (le : j ≤ k) (kept : j ≤ n + 1) :
    (c.push k e).truncate j = (c.truncate n).push j e :=
  calc (c.push k e).truncate j = c.push j e := truncate_truncate le
    _ = (c.truncate n).push j e := (push_truncate kept).symm

end Context

/-- The object that stands for all objects of the same class. -/
def AbstractObject.merged (o : AbstractObject) : AbstractObject := ⟨none, o.type, none⟩

namespace Translation

variable {E E' E'' : Type}

/-- Facts with the contexts of methods cut to some elements and those of objects to one fewer. -/
def truncate (j : Nat) : Translation E E where
  names := .refl
  context := Context.truncate j
  object o := ⟨o.context.truncate (j - 1), o.object⟩

/-- Facts without contexts. -/
def bare : Translation E E' where
  names := .refl
  context _ := []
  object o := ⟨[], o.object⟩

/-- Facts with all objects of a class taken for one, also those that contexts are made of. -/
def merge (kind : AnalysisKind) : Translation kind.Element kind.Element where
  names := .refl
  context := List.map (kind.onElements id .merged)
  object o := ⟨o.context.map (kind.onElements id .merged), o.object.merged⟩

theorem bare_bare (f : Fact E) :
    (bare : Translation E' E'').fact ((bare : Translation E E').fact f) =
      (bare : Translation E E'').fact f := by
  have location (l : Location E) : (bare : Translation E' E'').location
      ((bare : Translation E E').location l) = (bare : Translation E E'').location l := by
    cases l <;> rfl
  cases f with
  | reached c m => rfl
  | calls c site c' callee => rfl
  | flows source target kind => simp only [fact, location]
  | holds l o =>
    simp only [fact, location]
    rfl

/-- Where all contexts are empty, nothing is lost without them. -/
theorem bare_of_among {objects : List AbstractObject} {f : Fact E} (among : f.Among [[]] objects) :
    bare.fact f = f := by
  have context {c : Context E} (listed : c ∈ [[]]) : [] = c := (List.mem_singleton.mp listed).symm
  have object {o : HeapObject E} (listed : o ∈ heapObjects [[]] objects) : bare.object o = o :=
    congrArg (HeapObject.mk · o.object) (context (mem_heapObjects.mp listed).1)
  have location {l : Location E} (among : l.Among [[]] objects) : bare.location l = l := by
    cases l with
    | var c v => exact congrArg (Location.var · v) (context among)
    | field o f => exact congrArg (Location.field · f) (object among)
  cases f with
  | reached c m => exact congrArg (Fact.reached · m) (context among)
  | calls c site c' callee =>
    exact congrArg₂ (Fact.calls · site · callee) (context among.1) (context among.2)
  | flows source target kind =>
    exact congrArg₂ (Fact.flows · · kind) (location among.1) (location among.2)
  | holds l o => exact congrArg₂ Fact.holds (location among.1) (object among.2)

end Translation

namespace Program

variable (p : Program) (kind : AnalysisKind) (heap : HeapKind)

/-- Contexts cut to a smaller depth are what an analysis of that depth makes of them. -/
theorem truncate_respects {j k : Nat} (le : j ≤ k) :
    (Translation.truncate j).Respects (p.analysis kind k heap) (p.analysis kind j heap) where
  program := Renaming.carries_refl p
  empty := List.take_nil
  call c site := by
    cases kind with
    | insensitive => exact List.take_nil
    | callSiteSensitive => exact Context.truncate_push le (Nat.le_succ j)
    | objectSensitive => rfl
  receiverCall c site o := by
    cases kind with
    | insensitive => exact List.take_nil
    | callSiteSensitive => exact Context.truncate_push le (Nat.le_succ j)
    | objectSensitive =>
      -- The receiver takes the place of the element that its own context has been cut by.
      exact Context.truncate_push le (by omega)
  type _ := rfl
  alloc {c site type m o} made := by
    have cut {E : Type} (c : Context E) : (c.truncate (k - 1)).truncate (j - 1) =
        (c.truncate j).truncate (j - 1) := by
      rw [Context.truncate_truncate (by omega), Context.truncate_truncate (by omega)]
    have context : ((kind.policy k).heap c).truncate (j - 1) =
        (kind.policy j).heap (c.truncate j) := by
      cases kind with
      | insensitive => exact List.take_nil
      | callSiteSensitive => exact cut c
      | objectSensitive => exact cut c
    exact ⟨o, made, congrArg (HeapObject.mk · o) context⟩
  refused refused := ⟨_, refused⟩

/-- Without contexts every analysis does what analyses of depth zero do, whatever their contexts would
be made of. -/
theorem bare_respects (depth : Nat) (kind' : AnalysisKind) :
    Translation.bare.Respects (p.analysis kind depth heap) (p.analysis kind' 0 heap) where
  program := Renaming.carries_refl p
  empty := rfl
  call c site := by cases kind' <;> rfl
  receiverCall c site o := by cases kind' <;> rfl
  type _ := rfl
  alloc {c site type m o} made := by
    refine ⟨o, made, ?_⟩
    cases kind' <;> rfl
  refused refused := ⟨_, refused⟩

/-- Merging the objects of each class is what the heap model by classes does. -/
theorem merge_respects (depth : Nat) : (Translation.merge kind).Respects
    (p.analysis kind depth .perSite) (p.analysis kind depth .perType) where
  program := Renaming.carries_refl p
  empty := rfl
  call _ site := AnalysisKind.call_map id .merged kind depth _ site
  receiverCall _ site o := AnalysisKind.receiverCall_map id .merged kind depth _ site o.context o.object
  type _ := rfl
  alloc {c site type m o} made := by
    cases made
    exact ⟨_, rfl, congrArg (HeapObject.mk · _) (AnalysisKind.heap_map id .merged kind depth c)⟩
  refused refused := by cases refused

/-- An analysis of depth zero derives no fact with contexts. -/
theorem Coherent.bare_of_derives {p : Program} (coherent : p.Coherent) {kind : AnalysisKind}
    {heap : HeapKind} {f : Fact kind.Element} (derived : (p.analysis kind 0 heap).Derives f) :
    Translation.bare.fact f = f := by
  have among := derived.among (coherent.analysis_confined kind 0 heap)
  have flat : (kind.policy 0).depth = 0 := by cases kind <;> rfl
  rw [flat] at among
  exact Translation.bare_of_among among

end Program

end PointerAnalysis
