import PointerAnalysis.Proofs.Correspondence
import PointerAnalysis.Proofs.Description.Reordered
import PointerAnalysis.Proofs.Program.Renaming

/-! One description read in two orders. The two programs have the same names, and their statements
can be paired so that those of a pair say the same. As no site stands in two statements, the pairs
tell which site of the second program is which of the first; so the programs differ in numbers
only. -/
namespace PointerAnalysis

namespace Program

/-- The statements of a method. -/
def statements (p : Program) (m : MethodId) : List Statement :=
  match p.method m with
  | .ok method => method.body.toList
  | .error _ => []

theorem has_iff_mem_statements {p : Program} {m : MethodId} {s : Statement} :
    p.Has m s ↔ s ∈ p.statements m := by
  unfold Has statements
  cases p.method m <;> simp

/-- No two statements of a program have one site, and there are so many sites at most. -/
structure Numbers (p : Program) {kind : Entity} (site? : Statement → Option (Id kind))
    (bound : Nat) : Prop where
  once : ∀ m, ((p.statements m).filterMap site?).Nodup
  apart : ∀ {m m' s s' x}, p.Has m s → p.Has m' s' → site? s = some x → site? s' = some x → m = m'
  inside : ∀ {m s x}, p.Has m s → site? s = some x → x.index < bound

private theorem once_of_methods {p : Program} {kind : Entity} {site? : Statement → Option (Id kind)}
    (once : ∀ {m method}, p.method m = .ok method → (method.body.toList.filterMap site?).Nodup)
    (m : MethodId) : ((p.statements m).filterMap site?).Nodup := by
  unfold statements
  cases found : p.method m with
  | ok method => exact once found
  | error _ => exact List.nodup_nil

theorem Coherent.numbers_calls {p : Program} (coherent : p.Coherent) :
    p.Numbers Statement.callSite? p.callSites.size := by
  have placed {m : MethodId} {s : Statement} {x : CallSiteId} (has : p.Has m s)
      (here : s.callSite? = some x) : ∃ call, p.callSite x = .ok call ∧ call.container = m := by
    cases s <;> cases here
    exact coherent.statements_scoped has
  refine ⟨once_of_methods fun found => (coherent.methods found).calls_once, ?_, ?_⟩
  · intro m m' s s' x has has' here here'
    obtain ⟨call, found, container⟩ := placed has here
    obtain ⟨call', found', container'⟩ := placed has' here'
    cases found.symm.trans found'
    exact container.symm.trans container'
  · intro m s x has here
    obtain ⟨call, found, _⟩ := placed has here
    exact Id.index_lt_of_lookup found

theorem Coherent.numbers_allocs {p : Program} (coherent : p.Coherent) :
    p.Numbers Statement.allocSite? p.allocSites := by
  refine ⟨once_of_methods fun found => (coherent.methods found).allocs_once, ?_, ?_⟩
  · intro m m' s s' x has has' here here'
    cases s <;> cases here
    cases s' <;> cases here'
    exact coherent.allocs_apart has has'
  · intro m s x has here
    cases s <;> cases here
    obtain ⟨method, found, there⟩ := has
    exact (coherent.methods found).allocs_known there

end Program

/-- Registries with the same values number them one to one. -/
theorem Registry.exists_perm {kind : Entity} {α : Type} [Coded α] {r r' : Registry α}
    (same : ∀ x, x ∈ r.toList ↔ x ∈ r'.toList) :
    ∃ σ : Equiv.Perm (Id kind), ∀ id x, r.value? id.index = some x ↔ r'.value? (σ id).index = some x := by
  obtain ⟨σ, agrees⟩ := exists_perm_of_relation
    (R := fun id id' : Id kind => ∃ x, r.value? id.index = some x ∧ r'.value? id'.index = some x)
    (Id.below kind r.size)
    (by
      rintro id id' id'' ⟨x, here, there⟩ ⟨y, here', there'⟩
      cases here.symm.trans here'
      exact Id.ext (value?_injective there there'))
    (by
      rintro id id' id'' ⟨x, here, there⟩ ⟨y, here', there'⟩
      cases there.symm.trans there'
      exact Id.ext (value?_injective here here'))
  have forth {id : Id kind} {x : α} (here : r.value? id.index = some x) :
      r'.value? (σ id).index = some x := by
    obtain ⟨i, there⟩ := mem_toList.mp ((same x).mp (mem_toList.mpr ⟨_, here⟩))
    have inside : id ∈ Id.below kind r.size :=
      Id.mem_below.mpr (Array.getElem?_eq_some_iff.mp here).1
    rw [agrees id inside ⟨i⟩ ⟨x, here, there⟩]
    exact there
  refine ⟨σ, fun id x => ⟨forth, fun there => ?_⟩⟩
  obtain ⟨i, here⟩ := mem_toList.mp ((same x).mpr (mem_toList.mpr ⟨_, there⟩))
  have image : r'.value? (σ (⟨i⟩ : Id kind)).index = some x := forth here
  cases σ.injective (Id.ext (value?_injective image there))
  exact here

namespace Builder

/-- The statements of two builders, paired by what they say. -/
structure Pairing (b b' : Builder) (pairs : MethodId → List (Statement × Statement)) : Prop where
  left : ∀ m, ((pairs m).map Prod.fst).Perm (b.program.statements m)
  right : ∀ m, ((pairs m).map Prod.snd).Perm (b'.program.statements m)
  reads : ∀ m, ∀ pair ∈ pairs m, ∃ described, b.Reads m pair.1 described ∧ b'.Reads m pair.2 described

namespace Pairing

variable {b b' : Builder} {pairs : MethodId → List (Statement × Statement)}
  (pairing : b.Pairing b' pairs)
include pairing

theorem symm : b'.Pairing b fun m => (pairs m).map Prod.swap where
  left m := by simpa [Function.comp_def] using pairing.right m
  right m := by simpa [Function.comp_def] using pairing.left m
  reads m pair there := by
    obtain ⟨pair', there', rfl⟩ := List.mem_map.mp there
    obtain ⟨described, first, second⟩ := pairing.reads m pair' there'
    exact ⟨described, second, first⟩

theorem has_left {m : MethodId} {pair : Statement × Statement} (there : pair ∈ pairs m) :
    b.program.Has m pair.1 :=
  Program.has_iff_mem_statements.mpr
    ((pairing.left m).mem_iff.mp (List.mem_map.mpr ⟨pair, there, rfl⟩))

theorem has_right {m : MethodId} {pair : Statement × Statement} (there : pair ∈ pairs m) :
    b'.program.Has m pair.2 :=
  Program.has_iff_mem_statements.mpr
    ((pairing.right m).mem_iff.mp (List.mem_map.mpr ⟨pair, there, rfl⟩))

theorem exists_pair {m : MethodId} {s : Statement} (has : b.program.Has m s) :
    ∃ s', (s, s') ∈ pairs m := by
  have listed := (pairing.left m).mem_iff.mpr (Program.has_iff_mem_statements.mp has)
  obtain ⟨pair, there, rfl⟩ := List.mem_map.mp listed
  exact ⟨pair.2, there⟩

/-- A site determines the pair in which it stands on the left. -/
theorem eq_of_left {kind : Entity} {site? : Statement → Option (Id kind)} {bound : Nat}
    (numbers : b.program.Numbers site? bound) {m m' : MethodId} {pair pair' : Statement × Statement}
    {x : Id kind} (first : pair ∈ pairs m) (second : pair' ∈ pairs m') (here : site? pair.1 = some x)
    (there : site? pair'.1 = some x) : pair = pair' := by
  cases numbers.apart (pairing.has_left first) (pairing.has_left second) here there
  have once : ((pairs m).filterMap fun pair => site? pair.1).Nodup := by
    have sites := ((pairing.left m).filterMap site?).nodup_iff.mpr (numbers.once m)
    rwa [List.filterMap_map] at sites
  exact eq_of_nodup_filterMap once first second here there

theorem eq_of_right {kind : Entity} {site? : Statement → Option (Id kind)} {bound : Nat}
    (numbers : b'.program.Numbers site? bound) {m m' : MethodId} {pair pair' : Statement × Statement}
    {x : Id kind} (first : pair ∈ pairs m) (second : pair' ∈ pairs m') (here : site? pair.2 = some x)
    (there : site? pair'.2 = some x) : pair = pair' :=
  Prod.swap_inj.mp (pairing.symm.eq_of_left numbers (List.mem_map_of_mem first)
    (List.mem_map_of_mem second) here there)

/-- The sites of paired statements correspond one to one. -/
theorem exists_sites {kind : Entity} {site? : Statement → Option (Id kind)} {bound bound' : Nat}
    (numbers : b.program.Numbers site? bound) (numbers' : b'.program.Numbers site? bound')
    (alike : ∀ m, ∀ pair ∈ pairs m, (site? pair.1).isSome = (site? pair.2).isSome) :
    ∃ σ : Equiv.Perm (Id kind), ∀ m, ∀ pair ∈ pairs m, site? pair.2 = (site? pair.1).map σ := by
  obtain ⟨σ, agrees⟩ := exists_perm_of_relation
    (R := fun x x' => ∃ m, ∃ pair ∈ pairs m, site? pair.1 = some x ∧ site? pair.2 = some x')
    (Id.below kind bound)
    (by
      rintro x y y' ⟨m, pair, first, here, there⟩ ⟨m', pair', second, here', there'⟩
      cases pairing.eq_of_left numbers first second here here'
      exact Option.some.inj (there.symm.trans there'))
    (by
      rintro x x' y ⟨m, pair, first, here, there⟩ ⟨m', pair', second, here', there'⟩
      cases pairing.eq_of_right numbers' first second there there'
      exact Option.some.inj (here.symm.trans here'))
  refine ⟨σ, fun m pair there => ?_⟩
  have alike := alike m pair there
  cases here : site? pair.1 with
  | none =>
    rw [here, Option.isSome_none] at alike
    exact Option.isNone_iff_eq_none.mp (Option.isSome_eq_false_iff.mp alike.symm)
  | some x =>
    rw [here, Option.isSome_some] at alike
    obtain ⟨x', here'⟩ := Option.isSome_iff_exists.mp alike.symm
    have inside := Id.mem_below.mpr (numbers.inside (pairing.has_left there) here)
    rw [Option.map_some, agrees x inside x' ⟨m, pair, there, here, here'⟩, here']

end Pairing

end Builder

end PointerAnalysis
