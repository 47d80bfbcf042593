import Mathlib.Data.List.ProdSigma
import PointerAnalysis.Proofs.Id
import PointerAnalysis.Proofs.Rules.Scope

/-! How many facts there can be. Where an analysis never leads out of finitely many contexts and
abstract objects, every derivable fact is made of these and of what the program declares. -/
namespace PointerAnalysis

variable {E : Type}

/-- Contexts and abstract objects that an analysis does not lead out of. -/
structure Analysis.Confined (a : Analysis E) (contexts : List (Context E))
    (objects : List AbstractObject) : Prop where
  empty : [] ∈ contexts
  heap : ∀ {c}, c ∈ contexts → a.policy.heap c ∈ contexts
  call : ∀ {c site call}, c ∈ contexts → a.program.callSite site = .ok call →
    a.policy.call c site ∈ contexts
  receiverCall : ∀ {c c' site call o}, c ∈ contexts → c' ∈ contexts →
    a.program.callSite site = .ok call → o ∈ objects → a.policy.receiverCall c site c' o ∈ contexts
  object : ∀ {m target site type o}, a.program.Has m (.alloc target site type) →
    a.heap site type m = .ok o → o ∈ objects

/-- The objects that these contexts and abstract objects make up. -/
def heapObjects (contexts : List (Context E)) (objects : List AbstractObject) : List (HeapObject E) :=
  (contexts ×ˢ objects).map fun entry => ⟨entry.1, entry.2⟩

/-- The variables of a program under these contexts, and its fields of these objects. -/
def Program.locations (p : Program) (contexts : List (Context E)) (objects : List AbstractObject) :
    List (Location E) :=
  (contexts ×ˢ Id.below .var p.vars.size).map (fun entry => .var entry.1 entry.2) ++
    (heapObjects contexts objects ×ˢ Id.below .field p.fields.size).map fun entry =>
      .field entry.1 entry.2

variable {contexts : List (Context E)} {objects : List AbstractObject}

theorem mem_heapObjects {o : HeapObject E} :
    o ∈ heapObjects contexts objects ↔ o.context ∈ contexts ∧ o.object ∈ objects := by
  rw [heapObjects, List.mem_map]
  constructor
  · rintro ⟨⟨c, x⟩, there, rfl⟩
    exact List.mem_product.mp there
  · exact fun there => ⟨(o.context, o.object), List.mem_product.mpr there, rfl⟩

theorem length_heapObjects :
    (heapObjects contexts objects).length = contexts.length * objects.length := by
  rw [heapObjects, List.length_map, List.length_product]

theorem Program.length_locations (p : Program) : (p.locations contexts objects).length =
    contexts.length * p.vars.size + contexts.length * objects.length * p.fields.size := by
  simp only [locations, List.length_append, List.length_map, List.length_product, length_heapObjects,
    Id.length_below]

/-- What holds objects is made of these contexts and objects. -/
def Location.Among (contexts : List (Context E)) (objects : List AbstractObject) :
    Location E → Prop
  | .var c _ => c ∈ contexts
  | .field o _ => o ∈ heapObjects contexts objects

def Fact.Among (contexts : List (Context E)) (objects : List AbstractObject) : Fact E → Prop
  | .reached c _ => c ∈ contexts
  | .calls c _ c' _ => c ∈ contexts ∧ c' ∈ contexts
  | .flows source target _ => source.Among contexts objects ∧ target.Among contexts objects
  | .holds l o => l.Among contexts objects ∧ o ∈ heapObjects contexts objects

namespace Analysis

variable {a : Analysis E} (confined : a.Confined contexts objects)
include confined

/-- No rule leads out of the contexts and objects that an analysis is confined to. -/
theorem Derives.among {f : Fact E} (derived : a.Derives f) : f.Among contexts objects := by
  have entered {c : Context E} {site : CallSiteId} {call : CallSite} {x : VarId} {o : HeapObject E}
      (held : (Fact.holds (.var c x) o).Among contexts objects)
      (found : a.program.callSite site = .ok call) :
      a.policy.receiverCall c site o.context o.object ∈ contexts := by
    obtain ⟨context, object⟩ := mem_heapObjects.mp held.2
    exact confined.receiverCall held.1 context found object
  induction derived with
  | entry => exact confined.empty
  | alloc _ statement made ih =>
    exact ⟨ih, mem_heapObjects.mpr ⟨confined.heap ih, confined.object statement made⟩⟩
  | assign _ _ ih => exact ⟨ih, ih⟩
  | store _ _ ih => exact ih
  | load _ _ ih => exact ih.symm
  | call _ _ enters ih =>
    cases enters with
    | static found => exact ⟨ih, confined.call ih found⟩
    | special found => exact ⟨ih, confined.call ih found⟩
  | receiverCall _ found _ _ ih => exact ⟨ih.1, entered ih found⟩
  | this _ found _ _ _ _ ih => exact ⟨entered ih found, ih.2⟩
  | callee _ ih => exact ih.2
  | param _ _ _ _ ih => exact ih
  | «return» _ _ _ _ _ ih => exact ih.symm
  | flow _ _ ihFlows ihHeld => exact ⟨ihFlows.2, ihHeld.2⟩

/-- The methods that can be reachable. -/
theorem Derives.reached_listed (coherent : a.Coherent) {c : Context E} {m : MethodId}
    (derived : a.Derives (.reached c m)) :
    (c, m) ∈ contexts ×ˢ Id.below .method a.program.methods.size := by
  obtain ⟨method, found⟩ := derived.scoped coherent
  have inside : c ∈ contexts := derived.among confined
  exact List.mem_product.mpr ⟨inside, Id.mem_below.mpr (Id.index_lt_of_lookup found)⟩

/-- The objects that locations can hold. -/
theorem Derives.holds_listed (coherent : a.Coherent) {l : Location E} {o : HeapObject E}
    (derived : a.Derives (.holds l o)) :
    (l, o) ∈ a.program.locations contexts objects ×ˢ heapObjects contexts objects := by
  obtain ⟨within, _⟩ := derived.scoped coherent
  have inside : (Fact.holds l o).Among contexts objects := derived.among confined
  refine List.mem_product.mpr ⟨List.mem_append.mpr ?_, inside.2⟩
  cases l with
  | var c v =>
    obtain ⟨var, found⟩ := within
    refine .inl (List.mem_map.mpr ⟨(c, v), List.mem_product.mpr ⟨inside.1, ?_⟩, rfl⟩)
    exact Id.mem_below.mpr (Id.index_lt_of_lookup found)
  | field x f =>
    obtain ⟨_, name, found⟩ := within
    refine .inr (List.mem_map.mpr ⟨(x, f), List.mem_product.mpr ⟨inside.1, ?_⟩, rfl⟩)
    exact Id.mem_below.mpr (Id.index_lt_of_lookup found)

end Analysis

end PointerAnalysis
