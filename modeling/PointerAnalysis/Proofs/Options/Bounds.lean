import PointerAnalysis.Proofs.Options.Choices
import PointerAnalysis.Proofs.Solver.Termination

/-! Analyses that options choose are bounded. Contexts are no longer than their depth and are made of
call sites or abstract objects, and the objects of a program are told apart by its sites, classes and
methods at most; so each of these analyses comes to an end. -/
namespace PointerAnalysis

namespace Context

variable {E : Type} {elements : List E} {k : Nat} {c : Context E}

/-- All contexts of these elements up to a length. -/
def upTo (elements : List E) : Nat → List (Context E)
  | 0 => [[]]
  | k + 1 => [] :: (elements ×ˢ upTo elements k).map fun entry => entry.1 :: entry.2

theorem mem_upTo : c ∈ upTo elements k ↔ c.length ≤ k ∧ ∀ e ∈ c, e ∈ elements := by
  induction k generalizing c with
  | zero =>
    rw [upTo, List.mem_singleton, Nat.le_zero, List.length_eq_zero_iff]
    exact ⟨fun none => ⟨none, by simp [none]⟩, And.left⟩
  | succ k ih =>
    rw [upTo, List.mem_cons, List.mem_map]
    constructor
    · rintro (rfl | ⟨⟨e, rest⟩, there, rfl⟩)
      · simp
      · obtain ⟨first, others⟩ := List.mem_product.mp there
        obtain ⟨short, others⟩ := ih.mp others
        exact ⟨Nat.succ_le_succ short, List.forall_mem_cons.mpr ⟨first, others⟩⟩
    · rintro ⟨short, inside⟩
      cases c with
      | nil => exact .inl rfl
      | cons e rest =>
        obtain ⟨first, others⟩ := List.forall_mem_cons.mp inside
        refine .inr ⟨(e, rest), List.mem_product.mpr ⟨first, ih.mpr ⟨?_, others⟩⟩, rfl⟩
        exact Nat.le_of_succ_le_succ short

theorem length_upTo_le : (upTo elements k).length ≤ (elements.length + 1) ^ k := by
  induction k with
  | zero => exact Nat.le_refl _
  | succ k ih =>
    have some : 1 ≤ (elements.length + 1) ^ k := Nat.pow_pos (Nat.succ_pos _)
    rw [upTo, List.length_cons, List.length_map, List.length_product]
    calc elements.length * (upTo elements k).length + 1
        ≤ elements.length * (elements.length + 1) ^ k + (elements.length + 1) ^ k := by gcongr
      _ = (elements.length + 1) ^ (k + 1) := by ring

theorem push_mem_upTo {e : E} (there : c ∈ upTo elements k) (listed : e ∈ elements) :
    c.push k e ∈ upTo elements k := by
  refine mem_upTo.mpr ⟨length_push_le k e c, fun x inside => ?_⟩
  rcases List.mem_cons.mp (List.mem_of_mem_take inside) with rfl | inside
  · exact listed
  · exact (mem_upTo.mp there).2 x inside

theorem truncate_mem_upTo (there : c ∈ upTo elements k) (n : Nat) :
    c.truncate n ∈ upTo elements k := by
  obtain ⟨short, inside⟩ := mem_upTo.mp there
  refine mem_upTo.mpr ⟨Nat.le_trans (List.length_take_le' _ _) short, fun x listed => ?_⟩
  exact inside x (List.mem_of_mem_take listed)

end Context

/-- All abstract objects that a heap model may make of the allocations of a program. -/
def HeapKind.objects (p : Program) : HeapKind → List AbstractObject
  | .perSite =>
    ((Id.below .allocSite p.allocSites ×ˢ Id.below .type p.types.size) ×ˢ
      Id.below .method p.methods.size).map fun entry => ⟨some entry.1.1, entry.1.2, some entry.2⟩
  | .perType => (Id.below .type p.types.size).map fun type => ⟨none, type, none⟩

/-- All that contexts may be made of. -/
def AnalysisKind.elements (p : Program) (heap : HeapKind) : (kind : AnalysisKind) → List kind.Element
  | .insensitive => []
  | .callSiteSensitive => Id.below .callSite p.callSites.size
  | .objectSensitive => heap.objects p

theorem HeapKind.length_objects_lt (p : Program) (heap : HeapKind) :
    (heap.objects p).length < (p.size + 2) ^ 3 := by
  have types : p.types.size < p.size + 2 := by
    unfold Program.size
    omega
  cases heap with
  | perSite =>
    have sites : p.allocSites < p.size + 2 := by
      unfold Program.size
      omega
    have methods : p.methods.size < p.size + 2 := by
      unfold Program.size
      omega
    simp only [objects, List.length_map, List.length_product, Id.length_below]
    calc p.allocSites * p.types.size * p.methods.size
        < (p.size + 2) * (p.size + 2) * (p.size + 2) :=
          Nat.mul_lt_mul'' (Nat.mul_lt_mul'' sites types) methods
      _ = (p.size + 2) ^ 3 := by ring
  | perType =>
    simp only [objects, List.length_map, Id.length_below]
    exact Nat.lt_of_lt_of_le types (Nat.le_self_pow (by decide) _)

theorem AnalysisKind.length_elements_lt (p : Program) (kind : AnalysisKind) (heap : HeapKind) :
    (kind.elements p heap).length < (p.size + 2) ^ 3 := by
  cases kind with
  | insensitive => exact Nat.pow_pos (by omega)
  | callSiteSensitive =>
    have calls : p.callSites.size < p.size + 2 := by
      unfold Program.size
      omega
    refine Nat.lt_of_lt_of_le ?_ (Nat.le_self_pow (by decide) _)
    exact (Id.length_below .callSite _).trans_lt calls
  | objectSensitive => exact heap.length_objects_lt p

namespace Program

variable {described : Described.Program} {p : Program} (coherent : p.Coherent)
include coherent

/-- The object of an allocation is one of those that the heap model may make. -/
theorem Coherent.object_listed {m : MethodId} {target : VarId} {site : AllocSiteId} {type : TypeId}
    {heap : HeapKind} {o : AbstractObject} (has : p.Has m (.alloc target site type))
    (made : heap.model site type m = .ok o) : o ∈ heap.objects p := by
  obtain ⟨_, declared, known⟩ := coherent.statements_scoped has
  obtain ⟨method, found, there⟩ := has
  have listedType : type ∈ Id.below .type p.types.size :=
    Id.mem_below.mpr (Id.index_lt_of_lookup known)
  cases heap with
  | perSite =>
    cases made
    have listedSite : site ∈ Id.below .allocSite p.allocSites :=
      Id.mem_below.mpr ((coherent.methods found).allocs_known there)
    have listedMethod : m ∈ Id.below .method p.methods.size :=
      Id.mem_below.mpr (Id.index_lt_of_lookup found)
    have listed := List.mem_product.mpr ⟨List.mem_product.mpr ⟨listedSite, listedType⟩, listedMethod⟩
    exact List.mem_map.mpr ⟨_, listed, rfl⟩
  | perType =>
    cases made
    exact List.mem_map.mpr ⟨_, listedType, rfl⟩

/-- An analysis that options choose keeps to contexts of its depth. -/
theorem Coherent.analysis_confined (kind : AnalysisKind) (depth : Nat) (heap : HeapKind) :
    (p.analysis kind depth heap).Confined
      (Context.upTo (kind.elements p heap) (kind.policy depth).depth) (heap.objects p) := by
  have empty : ([] : Context kind.Element) ∈
      Context.upTo (kind.elements p heap) (kind.policy depth).depth :=
    Context.mem_upTo.mpr ⟨Nat.zero_le _, by simp⟩
  cases kind with
  | insensitive => exact ⟨empty, fun _ => empty, fun _ _ => empty, fun _ _ _ _ => empty, coherent.object_listed⟩
  | callSiteSensitive =>
    have pushed {c : Context CallSiteId} {site : CallSiteId} {call : CallSite}
        (there : c ∈ Context.upTo (AnalysisKind.callSiteSensitive.elements p heap) depth)
        (found : p.callSite site = .ok call) :
        c.push depth site ∈ Context.upTo (AnalysisKind.callSiteSensitive.elements p heap) depth :=
      Context.push_mem_upTo there (Id.mem_below.mpr (Id.index_lt_of_lookup found))
    exact ⟨empty, fun there => Context.truncate_mem_upTo there _, pushed,
      fun there _ found _ => pushed there found, coherent.object_listed⟩
  | objectSensitive =>
    exact ⟨empty, fun there => Context.truncate_mem_upTo there _, fun there _ => there,
      fun _ there _ listed => Context.push_mem_upTo there listed, coherent.object_listed⟩

theorem Coherent.analysis_bounded (kind : AnalysisKind) (depth : Nat) (heap : HeapKind) :
    (p.analysis kind depth heap).Bounded
      (Context.upTo (kind.elements p heap) (kind.policy depth).depth) (heap.objects p) where
  toConfined := coherent.analysis_confined kind depth heap
  contexts_le := by
    rw [pow_mul]
    exact Nat.le_trans Context.length_upTo_le
      (Nat.pow_le_pow_left (kind.length_elements_lt p heap) _)
  objects_le := Nat.le_of_lt (heap.length_objects_lt p)

end Program

end PointerAnalysis
