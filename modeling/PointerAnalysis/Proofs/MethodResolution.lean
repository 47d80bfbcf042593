import PointerAnalysis.Proofs.CircleCheck

/-! What methods resolve to. In a loaded program a lookup finds the declaration of the nearest class up the
chain that has one, and dispatch the nearest that has a body. A class below another therefore enters a
method that is declared no further up, and a special call enters the method that it names unless that
is abstract. -/
namespace PointerAnalysis

open Relation

namespace Program

variable (p : Program)

/-- A class declares a method with a body under a signature. -/
def Provides (s : Signature) (t : TypeId) (m : MethodId) : Prop :=
  ∃ method, p.method m = .ok method ∧ method.owner = t ∧ method.signature = s ∧
    method.isAbstract = false

/-- What a special call that names a method enters: the method, or what its owner inherits if it is
abstract. -/
structure EntersSpecially (named : MethodId) (target : Method) (answer : Option MethodId) : Prop where
  itself : answer = some named ↔ target.isAbstract = false
  inherited : target.isAbstract = true → ∀ m, answer = some m ↔
    ∃ super owner, p.Extends target.owner super ∧ p.Nearest (p.Provides target.signature) super owner m
  nothing : target.isAbstract = true → (answer = none ↔
    ∀ super, p.Extends target.owner super → ∀ owner, ReflTransGen p.Extends super owner →
      ∀ m, ¬ p.Provides target.signature owner m)

/-- The laws of method resolution. -/
structure ResolvesMethods : Prop where
  lookup : ∀ {t type}, p.type t = .ok type → ∀ s, ∃ answer, p.lookupMethod t s = .ok answer ∧
    p.Answers (p.Declares s) t answer
  dispatch : ∀ {t type}, p.type t = .ok type → ∀ s, ∃ answer, p.dispatch t s = .ok answer ∧
    p.Answers (p.Provides s) t answer
  /-- What an ancestor finds, a class finds as well, at the same class or nearer. -/
  refined : ∀ {t ancestor s m}, TransGen p.Extends t ancestor → p.dispatch ancestor s = .ok (some m) →
    ∃ m' owner owner', p.dispatch t s = .ok (some m') ∧ p.Provides s owner m ∧
      p.Provides s owner' m' ∧ ReflTransGen p.Extends t owner' ∧ ReflTransGen p.Extends owner' owner
  signature : ∀ {t type s m}, p.type t = .ok type →
    (p.lookupMethod t s = .ok (some m) ∨ p.dispatch t s = .ok (some m)) →
    ∃ method, p.method m = .ok method ∧ method.name = s.name ∧ method.params.length = s.arity
  special : ∀ {site call}, p.callSite site = .ok call → ∃ target answer,
    p.method call.target = .ok target ∧ p.resolveSpecial site = .ok answer ∧
      p.EntersSpecially call.target target answer

variable {d : Described.Program} {p : Program} {s : Signature} {t : TypeId} {type : TypeDecl} {m : MethodId}

/-! ### What the tables list -/

section Loaded

variable (loaded : d.link = .ok p)
include loaded

/-- The table of a class lists what the class declares. -/
theorem declares?_iff (found : p.type t = .ok type) : type.declares? s = some m ↔ p.Declares s t m := by
  have stands := Described.Program.standsFor_of_link loaded
  constructor
  · intro declared
    obtain ⟨method, known, signature, owner⟩ :=
      (stands.coherent.types found).declared_known (mem_of_lookup declared)
    exact ⟨method, known, owner, signature⟩
  · rintro ⟨method, known, rfl, rfl⟩
    obtain ⟨c, described, here, realises⟩ := stands.realises known
    have inside := Id.index_lt_of_lookup found
    rw [stands.types_size] at inside
    obtain ⟨type', found', presents⟩ := stands.types (List.getElem?_eq_getElem inside)
    cases found.symm.trans found'
    -- The class that declares the method by description has the name of its owner.
    obtain ⟨_, found', named⟩ := realises.owner
    cases found.symm.trans found'
    have there := (d.mem_declarations.mp (List.mem_of_getElem? here)).1
    have distinct := (Described.Program.wellFormed_of_link loaded).types_distinct
    have same := List.inj_on_of_nodup_map distinct there (List.getElem_mem inside)
      (named.symm.trans presents.name)
    rw [← same] at presents
    refine (presents.declares _ m).mpr ⟨described, here, ?_⟩
    rw [Described.Method.signature, Method.signature, realises.name, realises.params.length_eq]

theorem asks_declaration (s : Signature) : p.Asks (declarationIn s) (p.Declares s) := by
  intro t type found
  exact ⟨_, rfl, fun m => (declares?_iff loaded found).symm⟩

theorem asks_implementation (s : Signature) : p.Asks (p.implementationIn s) (p.Provides s) := by
  intro t type found
  have declared_iff {m : MethodId} := declares?_iff (s := s) (m := m) loaded found
  unfold implementationIn
  cases declared : type.declares? s with
  | none =>
    refine ⟨none, rfl, fun m => iff_of_false ?_ (by simp)⟩
    rintro ⟨method, known, owner, signature, _⟩
    have listed := declared_iff.mpr ⟨method, known, owner, signature⟩
    rw [declared] at listed
    cases listed
  | some m =>
    obtain ⟨method, known, owner, signature⟩ := declared_iff.mp declared
    refine ⟨if method.isAbstract then none else some m, by simp only [known, ok_bind, pure_eq_ok],
      fun m' => ?_⟩
    constructor
    · rintro ⟨method', known', owner', signature', concrete⟩
      cases declared.symm.trans (declared_iff.mpr ⟨method', known', owner', signature'⟩)
      cases known.symm.trans known'
      simp [concrete]
    · intro answered
      split at answered
      · cases answered
      · next concrete =>
        cases answered
        exact ⟨method, known, owner, signature, Bool.eq_false_iff.mpr concrete⟩

theorem lookupMethod_answers (found : p.type t = .ok type) (s : Signature) :
    ∃ answer, p.lookupMethod t s = .ok answer ∧ p.Answers (p.Declares s) t answer :=
  (Described.Program.founded_of_link loaded).searchChain_answers (asks_declaration loaded s) found
    (Nat.le_succ _)

theorem dispatch_answers (found : p.type t = .ok type) (s : Signature) :
    ∃ answer, p.dispatch t s = .ok answer ∧ p.Answers (p.Provides s) t answer :=
  (Described.Program.founded_of_link loaded).searchChain_answers (asks_implementation loaded s) found
    (Nat.le_succ _)

/-! ### Below an ancestor -/

/-- The nearest method of a class is no further up than that of an ancestor. -/
theorem dispatch_refined {ancestor : TypeId} (below : TransGen p.Extends t ancestor)
    (entered : p.dispatch ancestor s = .ok (some m)) :
    ∃ m' owner owner', p.dispatch t s = .ok (some m') ∧ p.Provides s owner m ∧
      p.Provides s owner' m' ∧ ReflTransGen p.Extends t owner' ∧ ReflTransGen p.Extends owner' owner := by
  have founded := Described.Program.founded_of_link loaded
  obtain ⟨_, ⟨type, found, _⟩, _⟩ := TransGen.head'_iff.mp below
  obtain ⟨_, _, last⟩ := TransGen.tail'_iff.mp below
  obtain ⟨type', found'⟩ := founded.super_known last
  obtain ⟨_, entered', answers'⟩ := dispatch_answers loaded found' s
  cases entered.symm.trans entered'
  obtain ⟨owner, nearest⟩ := (answers'.some_iff m).mp rfl
  have above := below.to_reflTransGen.trans nearest.above
  obtain ⟨answer, dispatched, answers⟩ := dispatch_answers loaded found s
  cases answer with
  | none => exact absurd nearest.held (answers.none_iff.mp rfl owner above m)
  | some m' =>
    obtain ⟨owner', nearest'⟩ := (answers.some_iff m').mp rfl
    refine ⟨m', owner, owner', dispatched, nearest.held, nearest'.held, nearest'.above, ?_⟩
    rcases ancestors_comparable nearest'.above above with rfl | up | up
    · exact .refl
    · exact up.to_reflTransGen
    · exact absurd nearest.held (nearest'.nearest owner above up m)

/-! ### Special calls -/

theorem resolveSpecial_answers {site : CallSiteId} {call : CallSite}
    (placed : p.callSite site = .ok call) : ∃ target answer, p.method call.target = .ok target ∧
      p.resolveSpecial site = .ok answer ∧ p.EntersSpecially call.target target answer := by
  have coherent := Described.Program.link_coherent loaded
  obtain ⟨target, known, _⟩ := (coherent.calls placed).target_known
  obtain ⟨type, found⟩ := (coherent.methods known).owner_known
  obtain ⟨answer, dispatched, answers⟩ := dispatch_answers loaded found target.signature
  -- An abstract target is all that its owner declares under the signature.
  have none (abstract : target.isAbstract = true) (m : MethodId) :
      ¬ p.Provides target.signature target.owner m := by
    rintro ⟨method, known', owner, signature, concrete⟩
    have declared := (declares?_iff loaded found).mpr ⟨target, known, rfl, rfl⟩
    have declared' := (declares?_iff loaded found).mpr ⟨method, known', owner, signature⟩
    cases declared.symm.trans declared'
    cases known.symm.trans known'
    rw [abstract] at concrete
    cases concrete
  refine ⟨target, answer, known, by simpa [resolveSpecial, placed, known] using dispatched, ⟨?_, ?_⟩,
    fun abstract => (answers.inherited (none abstract)).1,
    fun abstract => (answers.inherited (none abstract)).2⟩
  · intro entered
    obtain ⟨owner, nearest⟩ := (answers.some_iff _).mp entered
    obtain ⟨method, known', _, _, concrete⟩ := nearest.held
    cases known.symm.trans known'
    exact concrete
  · intro concrete
    refine (answers.some_iff _).mpr ⟨target.owner, ?_⟩
    exact .self (Described.Program.founded_of_link loaded) ⟨target, known, rfl, rfl, concrete⟩

end Loaded

end Program

/-- Methods of loaded programs resolve to the nearest declaration, or to the nearest with a body. -/
theorem methods_resolve_to_nearest {d : Described.Program} {p : Program} (loaded : d.link = .ok p) :
    p.ResolvesMethods where
  lookup found s := Program.lookupMethod_answers loaded found s
  dispatch found s := Program.dispatch_answers loaded found s
  refined below entered := Program.dispatch_refined loaded below entered
  signature {t type s m} found := by
    rintro (looked | dispatched)
    · obtain ⟨_, looked', answers⟩ := Program.lookupMethod_answers loaded found s
      cases looked.symm.trans looked'
      obtain ⟨owner, nearest⟩ := (answers.some_iff m).mp rfl
      obtain ⟨method, known, _, rfl⟩ := nearest.held
      exact ⟨method, known, rfl, rfl⟩
    · obtain ⟨_, dispatched', answers⟩ := Program.dispatch_answers loaded found s
      cases dispatched.symm.trans dispatched'
      obtain ⟨owner, nearest⟩ := (answers.some_iff m).mp rfl
      obtain ⟨method, known, _, rfl, _⟩ := nearest.held
      exact ⟨method, known, rfl, rfl⟩
  special placed := Program.resolveSpecial_answers loaded placed

/-- Figures, some of which have an area. A circle takes the area of round figures back, and a special
call asks for it nevertheless. -/
def figures : Described.Program where
  types := [
    { name := "Figure", super := none, methods := [
        { name := "area", isStatic := false, isAbstract := true, params := [], body := [] },
        { name := "scale", isStatic := false, isAbstract := false, params := ["by"], body := [] }] },
    { name := "Round", super := some "Figure", methods := [
        { name := "area", isStatic := false, isAbstract := false, params := [], body := [] }] },
    { name := "Circle", super := some "Round", methods := [
        { name := "area", isStatic := false, isAbstract := true, params := [], body := [] }] },
    { name := "Main", super := some "Circle", methods := [
        { name := "main", isStatic := true, isAbstract := false, params := []
          body := [.call .special "Circle.area" none [] none] }] }]
  entries := ["Main.main"]

theorem methods_resolve_to_nearest_figures : ∃ p, figures.link = .ok p ∧ p.ResolvesMethods ∧
    p.lookupMethod ⟨3⟩ ⟨"area", 0⟩ = .ok (some ⟨3⟩) ∧ p.dispatch ⟨3⟩ ⟨"area", 0⟩ = .ok (some ⟨2⟩) ∧
    p.dispatch ⟨0⟩ ⟨"area", 0⟩ = .ok none ∧ p.resolveSpecial ⟨0⟩ = .ok (some ⟨2⟩) := by
  have evaluated : figures.passes fun p => decide (
      (p.lookupMethod ⟨3⟩ ⟨"area", 0⟩).toOption = some (some ⟨3⟩) ∧
      (p.dispatch ⟨3⟩ ⟨"area", 0⟩).toOption = some (some ⟨2⟩) ∧
      (p.dispatch ⟨0⟩ ⟨"area", 0⟩).toOption = some none ∧
      (p.resolveSpecial ⟨0⟩).toOption = some (some ⟨2⟩)) := by decide +kernel
  obtain ⟨p, loaded, evaluated⟩ := Described.Program.exists_of_passes evaluated
  have result {x : Except UnknownId (Option MethodId)} {answer : Option MethodId}
      (same : x.toOption = some answer) : x = .ok answer := by
    cases x with
    | error e => cases same
    | ok a => exact congrArg _ (Option.some.inj same)
  obtain ⟨looked, dispatched, nothing, special⟩ := of_decide_eq_true evaluated
  exact ⟨p, loaded, methods_resolve_to_nearest loaded, result looked, result dispatched, result nothing,
    result special⟩

end PointerAnalysis
