import Mathlib.Data.Fintype.EquivFin
import Mathlib.Data.List.Perm.Subperm
import Mathlib.Logic.Relation
import PointerAnalysis.Proofs.Id
import PointerAnalysis.Proofs.Program.Coherent

/-! Chains of super types and searches along them. A search asks the classes of a chain one after
another until one of them answers. Where super types are declared and no class is its own ancestor,
every search ends, it asks no class twice, and its answer is that of the nearest class that has one. -/
namespace PointerAnalysis.Program

open Relation

variable {α : Type} {p p' : Program} {visit : TypeDecl → Except UnknownId (Option α)}

/-- A class has another one as its super type. -/
def Extends (p : Program) (t super : TypeId) : Prop :=
  ∃ type, p.type t = .ok type ∧ type.super = some super

theorem extends_iff {t super : TypeId} {type : TypeDecl} (found : p.type t = .ok type) :
    p.Extends t super ↔ type.super = some super := by
  constructor
  · rintro ⟨type', found', goes⟩
    cases found.symm.trans found'
    exact goes
  · exact fun goes => ⟨type, found, goes⟩

theorem extends_rightUnique (p : Program) : Relator.RightUnique p.Extends := by
  rintro t super super' ⟨type, found, goes⟩ extended
  exact Option.some.inj (goes.symm.trans ((extends_iff found).mp extended))

theorem extends_iff_getElem? {t super : TypeId} :
    p.Extends t super ↔ p.types[t.index]?.bind (·.super) = some super := by
  simp only [Extends, Program.type, Id.lookup_eq_ok_iff, Option.bind_eq_some_iff]

/-- The relation is read off the super types alone. -/
theorem extends_congr (supers : p'.types.map (·.super) = p.types.map (·.super)) :
    p'.Extends = p.Extends := by
  have joined (p : Program) (t : TypeId) :
      p.types[t.index]?.bind (·.super) = (p.types.map (·.super))[t.index]?.join := by
    rw [Array.getElem?_map]
    cases p.types[t.index]? <;> rfl
  funext t super
  rw [eq_iff_iff, extends_iff_getElem?, extends_iff_getElem?, joined, joined, supers]

/-- Different classes are no more than there are. -/
theorem length_le_of_declared {l : List TypeId} (nodup : l.Nodup)
    (declared : ∀ t ∈ l, ∃ type, p.type t = .ok type) : l.length ≤ p.types.size := by
  have among : l ⊆ Id.below .type p.types.size := fun t there => by
    obtain ⟨type, found⟩ := declared t there
    exact Id.mem_below.mpr (Id.index_lt_of_lookup found)
  simpa using (nodup.subperm among).length_le

/-- A chain of super types runs into a circle. -/
def Circles (p : Program) (t : TypeId) : Prop :=
  ∃ met, ReflTransGen p.Extends t met ∧ TransGen p.Extends met met

/-- A class runs into a circle where its super type does. -/
theorem circles_iff_super {t super : TypeId} (extended : p.Extends t super) :
    p.Circles t ↔ p.Circles super := by
  constructor
  · rintro ⟨met, path, circle⟩
    rcases ReflTransGen.cases_head path with rfl | ⟨super', extended', path⟩
    · obtain ⟨super', extended', path⟩ := TransGen.head'_iff.mp circle
      cases extends_rightUnique p extended extended'
      exact ⟨t, path, circle⟩
    · cases extends_rightUnique p extended extended'
      exact ⟨met, path, circle⟩
  · rintro ⟨met, path, circle⟩
    exact ⟨met, .head extended path, circle⟩

/-- Super types are declared, and no class is its own ancestor. -/
structure Founded (p : Program) : Prop where
  super_known : ∀ {t super}, p.Extends t super → ∃ type, p.type super = .ok type
  no_circle : ∀ t, ¬ TransGen p.Extends t t

/-- Programs with the same super types have chains that end alike. -/
theorem Founded.congr (founded : p.Founded) (supers : p'.types.map (·.super) = p.types.map (·.super)) :
    p'.Founded where
  super_known := by
    intro t super extended
    rw [extends_congr supers] at extended
    obtain ⟨type, found⟩ := founded.super_known extended
    have sizes := congrArg Array.size supers
    rw [Array.size_map, Array.size_map] at sizes
    have inside := Id.index_lt_of_lookup found
    rw [← sizes] at inside
    exact ⟨_, Id.lookup_eq_ok_iff.mpr (Array.getElem?_eq_getElem inside)⟩
  no_circle := by
    rw [extends_congr supers]
    exact founded.no_circle

/-- A search that goes on until a class answers or the chain ends, with the classes that it asks. -/
inductive Walks (p : Program) (visit : TypeDecl → Except UnknownId (Option α)) :
    Option TypeId → List TypeId → Option α → Prop where
  | ends : Walks p visit none [] none
  | answers {t : TypeId} {type : TypeDecl} {answer : α} :
      p.type t = .ok type → visit type = .ok (some answer) → Walks p visit (some t) [t] (some answer)
  | goesOn {t : TypeId} {type : TypeDecl} {trail : List TypeId} {answer : Option α} :
      p.type t = .ok type → visit type = .ok none → Walks p visit type.super trail answer →
      Walks p visit (some t) (t :: trail) answer

/-- A search from a class ends with this result, after asking the class and its ancestors once each, at
most. -/
def AsksOnce (p : Program) (visit : TypeDecl → Except UnknownId (Option α)) (t : TypeId)
    (result : Except UnknownId (Option α)) : Prop :=
  ∃ trail answer, p.Walks visit (some t) trail answer ∧ trail.Nodup ∧
    (∀ x ∈ trail, ReflTransGen p.Extends t x) ∧ result = .ok answer

namespace Walks

variable {current : Option TypeId} {t : TypeId} {trail trail' : List TypeId} {answer answer' : Option α}

/-- A search has one outcome. -/
theorem unique (walks : p.Walks visit current trail answer)
    (walks' : p.Walks visit current trail' answer') : trail = trail' ∧ answer = answer' := by
  induction walks generalizing trail' answer' with
  | ends =>
    cases walks'
    exact ⟨rfl, rfl⟩
  | answers found visited =>
    cases walks' with
    | answers found' visited' =>
      cases found.symm.trans found'
      cases visited.symm.trans visited'
      exact ⟨rfl, rfl⟩
    | goesOn found' visited' _ =>
      cases found.symm.trans found'
      cases visited.symm.trans visited'
  | goesOn found visited _ ih =>
    cases walks' with
    | answers found' visited' =>
      cases found.symm.trans found'
      cases visited.symm.trans visited'
    | goesOn found' _ rest =>
      cases found.symm.trans found'
      obtain ⟨rfl, rfl⟩ := ih rest
      exact ⟨rfl, rfl⟩

/-- Enough steps lead to the end of a search. -/
theorem searchChain_eq (walks : p.Walks visit current trail answer) {steps : Nat}
    (enough : trail.length ≤ steps) : p.searchChain visit steps current = .ok answer := by
  induction walks generalizing steps with
  | ends => cases steps <;> rfl
  | answers found visited =>
    obtain ⟨steps, rfl⟩ := Nat.exists_eq_add_one_of_ne_zero (Nat.ne_of_gt enough)
    simp [searchChain, found, visited]
  | goesOn found visited _ ih =>
    obtain ⟨steps, rfl⟩ := Nat.exists_eq_add_one_of_ne_zero (Nat.ne_of_gt (Nat.zero_lt_of_lt enough))
    simpa [searchChain, found, visited] using ih (Nat.le_of_succ_le_succ enough)

theorem known (walks : p.Walks visit current trail answer) :
    ∀ x ∈ trail, ∃ type, p.type x = .ok type := by
  induction walks with
  | ends => simp
  | answers found => simpa using ⟨_, found⟩
  | goesOn found _ _ ih => exact List.forall_mem_cons.mpr ⟨⟨_, found⟩, ih⟩

/-- Only a class and its ancestors are asked. -/
theorem ancestor (walks : p.Walks visit current trail answer) (start : current = some t) :
    ∀ x ∈ trail, ReflTransGen p.Extends t x := by
  induction walks generalizing t with
  | ends => simp
  | answers =>
    cases start
    simp [ReflTransGen.refl]
  | @goesOn t' type trail _ found _ rest ih =>
    cases start
    refine List.forall_mem_cons.mpr ⟨.refl, fun x there => ?_⟩
    cases goes : type.super with
    | none =>
      rw [goes] at rest
      cases rest
      cases there
    | some super => exact .head ⟨type, found, goes⟩ (ih goes x there)

/-- No class is asked twice: it would be its own ancestor. -/
theorem nodup (founded : p.Founded) (walks : p.Walks visit current trail answer) : trail.Nodup := by
  induction walks with
  | ends => exact List.nodup_nil
  | answers => exact List.nodup_singleton _
  | @goesOn t type trail _ found _ rest ih =>
    refine List.nodup_cons.mpr ⟨fun again => ?_, ih⟩
    cases goes : type.super with
    | none =>
      rw [goes] at rest
      cases rest
      cases again
    | some super =>
      exact founded.no_circle t (.head' ⟨type, found, goes⟩ (rest.ancestor goes t again))

theorem length_le (founded : p.Founded) (walks : p.Walks visit current trail answer) :
    trail.length ≤ p.types.size :=
  length_le_of_declared (walks.nodup founded) walks.known

end Walks

namespace Founded

variable (founded : p.Founded)
include founded

/-- There are finitely many classes, so going up from super type to super type ends. -/
private theorem descending : WellFounded fun i j : Fin p.types.size =>
    TransGen p.Extends ⟨j⟩ ⟨i⟩ := by
  have trans : IsTrans (Fin p.types.size) fun i j => TransGen p.Extends ⟨j⟩ ⟨i⟩ :=
    ⟨fun _ _ _ first second => second.trans first⟩
  have irrefl : Std.Irrefl fun i j : Fin p.types.size => TransGen p.Extends ⟨j⟩ ⟨i⟩ :=
    ⟨fun i circle => founded.no_circle ⟨i⟩ circle⟩
  exact Finite.wellFounded_of_trans_of_irrefl _

/-- What holds of a class if it holds of its super type holds of every class. -/
theorem rising {motive : TypeId → Prop}
    (step : ∀ t type, p.type t = .ok type → (∀ super, p.Extends t super → motive super) → motive t)
    {t : TypeId} {type : TypeDecl} (found : p.type t = .ok type) : motive t := by
  have all (i : Fin p.types.size) : ∀ type, p.type ⟨i⟩ = .ok type → motive ⟨i⟩ := by
    induction i using founded.descending.induction with
    | _ i ih =>
      intro type found
      refine step _ type found fun super extended => ?_
      obtain ⟨type', found'⟩ := founded.super_known extended
      exact ih ⟨super.index, Id.index_lt_of_lookup found'⟩ (.single extended) type' found'
  exact all ⟨t.index, Id.index_lt_of_lookup found⟩ type found

/-- Every search ends, unless a class cannot be asked. -/
theorem walks (visits : ∀ t type, p.type t = .ok type → ∃ answer, visit type = .ok answer)
    {t : TypeId} {type : TypeDecl} (found : p.type t = .ok type) :
    ∃ trail answer, p.Walks visit (some t) trail answer := by
  refine founded.rising (motive := fun t => ∃ trail answer, p.Walks visit (some t) trail answer)
    (fun t type found ih => ?_) found
  obtain ⟨answer, visited⟩ := visits t type found
  cases answer with
  | some answer => exact ⟨_, _, .answers found visited⟩
  | none =>
    cases goes : type.super with
    | none => exact ⟨[t], none, .goesOn found visited (goes ▸ .ends)⟩
    | some super =>
      obtain ⟨trail, answer, rest⟩ := ih super ⟨type, found, goes⟩
      exact ⟨t :: trail, answer, .goesOn found visited (goes ▸ rest)⟩

/-- A search of as many steps as there are classes is one that goes on to the end. -/
theorem searchChain_iff (visits : ∀ t type, p.type t = .ok type → ∃ answer, visit type = .ok answer)
    {t : TypeId} {type : TypeDecl} (found : p.type t = .ok type) {steps : Nat}
    (enough : p.types.size ≤ steps) {answer : Option α} :
    p.searchChain visit steps (some t) = .ok answer ↔
      ∃ trail, p.Walks visit (some t) trail answer := by
  constructor
  · intro searched
    obtain ⟨trail, answer', walks⟩ := founded.walks visits found
    cases searched.symm.trans (walks.searchChain_eq ((walks.length_le founded).trans enough))
    exact ⟨trail, walks⟩
  · rintro ⟨trail, walks⟩
    exact walks.searchChain_eq ((walks.length_le founded).trans enough)

/-- A search ends and asks a class and its ancestors once each, at most. -/
theorem searchChain_once (visits : ∀ t type, p.type t = .ok type → ∃ answer, visit type = .ok answer)
    {t : TypeId} {type : TypeDecl} (found : p.type t = .ok type) {steps : Nat}
    (enough : p.types.size ≤ steps) : p.AsksOnce visit t (p.searchChain visit steps (some t)) := by
  obtain ⟨trail, answer, walks⟩ := founded.walks visits found
  refine ⟨trail, answer, walks, walks.nodup founded, walks.ancestor rfl, ?_⟩
  exact (founded.searchChain_iff visits found enough).mpr ⟨trail, walks⟩

end Founded

/-! ### The nearest class -/

/-- Of a class and its ancestors, `owner` is the nearest that has something. -/
structure Nearest (p : Program) (has : TypeId → α → Prop) (t owner : TypeId) (a : α) : Prop where
  above : ReflTransGen p.Extends t owner
  held : has owner a
  nearest : ∀ t', ReflTransGen p.Extends t t' → TransGen p.Extends t' owner → ∀ a', ¬ has t' a'

/-- What the nearest class has is the answer, and there is none just if no class of the chain has
anything. -/
structure Answers (p : Program) (has : TypeId → α → Prop) (t : TypeId) (answer : Option α) :
    Prop where
  some_iff : ∀ a, answer = some a ↔ ∃ owner, p.Nearest has t owner a
  none_iff : answer = none ↔ ∀ owner, ReflTransGen p.Extends t owner → ∀ a, ¬ has owner a

/-- A class is asked for what it has. -/
def Asks (p : Program) (visit : TypeDecl → Except UnknownId (Option α)) (has : TypeId → α → Prop) :
    Prop :=
  ∀ {t type}, p.type t = .ok type →
    ∃ answer, visit type = .ok answer ∧ ∀ a, has t a ↔ answer = some a

section Nearest

variable {has : TypeId → α → Prop} {t owner owner' : TypeId} {a a' : α}

/-- The ancestors of a class stand in a row. -/
theorem ancestors_comparable (above : ReflTransGen p.Extends t owner)
    (above' : ReflTransGen p.Extends t owner') :
    owner = owner' ∨ TransGen p.Extends owner owner' ∨ TransGen p.Extends owner' owner := by
  rcases ReflTransGen.total_of_right_unique (extends_rightUnique p) above above' with up | up
  · rcases reflTransGen_iff_eq_or_transGen.mp up with same | up
    · exact .inl same.symm
    · exact .inr (.inl up)
  · rcases reflTransGen_iff_eq_or_transGen.mp up with same | up
    · exact .inl same
    · exact .inr (.inr up)

theorem Nearest.unique (nearest : p.Nearest has t owner a) (nearest' : p.Nearest has t owner' a') :
    owner = owner' := by
  rcases ancestors_comparable nearest.above nearest'.above with same | up | up
  · exact same
  · exact absurd nearest.held (nearest'.nearest owner nearest.above up a)
  · exact absurd nearest'.held (nearest.nearest owner' nearest'.above up a')

/-- A class that has something is the nearest itself. -/
theorem Nearest.self (founded : p.Founded) (held : has t a) : p.Nearest has t t a where
  above := .refl
  held := held
  nearest _ above below := absurd (below.trans_right above) (founded.no_circle t)

/-- The nearest class of the super type is that of a class that has nothing itself. -/
theorem Nearest.inherited {super : TypeId} (extended : p.Extends t super) (none : ∀ a, ¬ has t a)
    (nearest : p.Nearest has super owner a) : p.Nearest has t owner a where
  above := .head extended nearest.above
  held := nearest.held
  nearest t' above below := by
    rcases ReflTransGen.cases_head above with rfl | ⟨super', extended', above⟩
    · exact none
    · cases extends_rightUnique p extended extended'
      exact nearest.nearest t' above below

variable {answer : Option α}

/-- A class that has nothing itself answers with what it inherits. -/
theorem Answers.inherited (answers : p.Answers has t answer) (none : ∀ a, ¬ has t a) :
    (∀ a, answer = some a ↔ ∃ super owner, p.Extends t super ∧ p.Nearest has super owner a) ∧
      (answer = .none ↔ ∀ super, p.Extends t super → ∀ owner, ReflTransGen p.Extends super owner →
        ∀ a, ¬ has owner a) := by
  refine ⟨fun a => (answers.some_iff a).trans ⟨?_, ?_⟩, answers.none_iff.trans ⟨?_, ?_⟩⟩
  · rintro ⟨owner, nearest⟩
    rcases ReflTransGen.cases_head nearest.above with rfl | ⟨super, extended, above⟩
    · exact absurd nearest.held (none a)
    · exact ⟨super, owner, extended, above, nearest.held, fun t' up => nearest.nearest t' (.head extended up)⟩
  · rintro ⟨super, owner, extended, nearest⟩
    exact ⟨owner, nearest.inherited extended none⟩
  · exact fun nothing super extended owner above => nothing owner (.head extended above)
  · intro nothing owner above
    rcases ReflTransGen.cases_head above with rfl | ⟨super, extended, above⟩
    · exact none
    · exact nothing super extended owner above

variable {current : Option TypeId} {trail : List TypeId}

private theorem Walks.nearest (founded : p.Founded) (asks : p.Asks visit has)
    (walks : p.Walks visit current trail answer) (start : current = some t) (found : answer = some a) :
    ∃ owner, p.Nearest has t owner a := by
  induction walks generalizing t with
  | ends => cases start
  | @answers t type _ known visited =>
    cases start
    cases found
    obtain ⟨answer, visited', has_iff⟩ := asks known
    cases visited.symm.trans visited'
    exact ⟨t, .self founded ((has_iff a).mpr rfl)⟩
  | @goesOn t type trail _ known visited rest ih =>
    cases start
    obtain ⟨answer, visited', has_iff⟩ := asks known
    cases visited.symm.trans visited'
    have none (a : α) : ¬ has t a := fun held => by cases (has_iff a).mp held
    cases goes : type.super with
    | none =>
      rw [goes] at rest
      cases rest
      cases found
    | some super =>
      obtain ⟨owner, nearest⟩ := ih goes found
      exact ⟨owner, nearest.inherited ⟨type, known, goes⟩ none⟩

private theorem Walks.none (asks : p.Asks visit has) (walks : p.Walks visit current trail answer)
    (start : current = some t) (nothing : answer = .none) (above : ReflTransGen p.Extends t owner) :
    ¬ has owner a := by
  induction walks generalizing t with
  | ends => cases start
  | answers => cases nothing
  | @goesOn t type trail _ known visited rest ih =>
    cases start
    obtain ⟨answer, visited', has_iff⟩ := asks known
    cases visited.symm.trans visited'
    rcases ReflTransGen.cases_head above with rfl | ⟨super, extended, above⟩
    · exact fun held => by cases (has_iff a).mp held
    · exact ih ((extends_iff known).mp extended) nothing above

/-- A search for what classes have answers with what the nearest has. -/
theorem Walks.answers_nearest (founded : p.Founded) (asks : p.Asks visit has)
    (walks : p.Walks visit (some t) trail answer) : p.Answers has t answer where
  some_iff a := by
    refine ⟨walks.nearest founded asks rfl, fun ⟨owner, nearest⟩ => ?_⟩
    cases answer with
    | none => exact absurd nearest.held (walks.none asks rfl rfl nearest.above)
    | some a' =>
      obtain ⟨owner', nearest'⟩ := walks.nearest founded asks rfl rfl
      cases nearest.unique nearest'
      obtain ⟨type, known⟩ : ∃ type, p.type owner = .ok type := by
        rcases ReflTransGen.cases_tail nearest.above with rfl | ⟨_, _, extended⟩
        · exact walks.known _ (by cases walks <;> exact List.mem_cons_self)
        · exact founded.super_known extended
      obtain ⟨answer, _, has_iff⟩ := asks known
      exact ((has_iff a').mp nearest'.held).symm.trans ((has_iff a).mp nearest.held)
  none_iff := by
    refine ⟨fun nothing owner above a => walks.none asks rfl nothing above, fun nothing => ?_⟩
    cases answer with
    | none => rfl
    | some a =>
      obtain ⟨owner, nearest⟩ := walks.nearest founded asks rfl rfl
      exact absurd nearest.held (nothing owner nearest.above a)

/-- A search for what classes have ends with what the nearest has. -/
theorem Founded.searchChain_answers (founded : p.Founded) (asks : p.Asks visit has) {type : TypeDecl}
    (found : p.type t = .ok type) {steps : Nat} (enough : p.types.size ≤ steps) :
    ∃ answer, p.searchChain visit steps (some t) = .ok answer ∧ p.Answers has t answer := by
  have visits (t : TypeId) (type : TypeDecl) (found : p.type t = .ok type) :
      ∃ answer, visit type = .ok answer := by
    obtain ⟨answer, visited, _⟩ := asks found
    exact ⟨answer, visited⟩
  obtain ⟨trail, answer, walks⟩ := founded.walks visits found
  exact ⟨answer, (founded.searchChain_iff visits found enough).mpr ⟨trail, walks⟩,
    walks.answers_nearest founded asks⟩

end Nearest

/-! ### Lookups and dispatch -/

/-- What a lookup asks a class: its declaration of a signature. -/
def declarationIn (s : Signature) (type : TypeDecl) : Except UnknownId (Option MethodId) :=
  .ok (type.declares? s)

/-- What dispatch asks a class: its declaration of a signature, if that has a body. -/
def implementationIn (p : Program) (s : Signature) (type : TypeDecl) :
    Except UnknownId (Option MethodId) :=
  match type.declares? s with
  | none => .ok none
  | some id => do
    let method ← p.method id
    return if method.isAbstract then none else some id

/-- What the tables of classes name is declared. -/
def DeclaredKnown (p : Program) : Prop :=
  ∀ {t type s m}, p.type t = .ok type → type.declares? s = some m → ∃ method, p.method m = .ok method

theorem Coherent.declaredKnown (coherent : p.Coherent) : p.DeclaredKnown := by
  intro t type s m found declared
  obtain ⟨method, known, _⟩ := coherent.declares?_known found declared
  exact ⟨method, known⟩

theorem DeclaredKnown.implementationIn_ok (known : p.DeclaredKnown) (s : Signature) (t : TypeId)
    (type : TypeDecl) (found : p.type t = .ok type) : ∃ answer, p.implementationIn s type = .ok answer := by
  unfold implementationIn
  cases declared : type.declares? s with
  | none => exact ⟨none, rfl⟩
  | some m =>
    obtain ⟨method, known⟩ := known found declared
    exact ⟨if method.isAbstract then none else some m, by simp only [known, ok_bind, pure_eq_ok]⟩

end PointerAnalysis.Program
