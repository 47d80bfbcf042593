import PointerAnalysis.Proofs.EntryNames

/-! How an entry of a description chooses among methods of one name. It tries one number of parameters
after the other, and for each of them the class and its super types, so it never refuses a name that
several methods bear; it takes the one with the fewest parameters, wherever that is declared. Only
where the class leaves no choice is this the method that the name asks for without doubt. -/
namespace PointerAnalysis

namespace Described.Program

section Definitions

variable (d : Described.Program) (p : PointerAnalysis.Program)

/-- A class has a method under a name for so many arguments, its own or an inherited one. -/
def Offers (name : QualifiedName) (arity : Nat) (m : MethodId) : Prop :=
  ∃ owner, d.Finds ⟨name.member, arity⟩ name.type owner ∧
    p.DeclaredAs m owner ⟨name.member, arity⟩

/-- A method has the fewest parameters of all that the class in a text has under the name in it. -/
def HasFewest (text : String) (m : MethodId) : Prop :=
  ∃ name arity, QualifiedName.Spells text name ∧ d.Offers p name arity m ∧
    ∀ arity' m', d.Offers p name arity' m' → arity < arity' ∨ m' = m

/-- A text asks for a method without doubt: the class in it declares the method itself and without
parameters, or has no other one of that name. -/
inductive Unambiguous (text : String) (m : MethodId) : Prop where
  | bare {name : QualifiedName} : QualifiedName.Spells text name →
      p.DeclaredAs m name.type ⟨name.member, 0⟩ → Unambiguous text m
  | only {name : QualifiedName} {arity : Nat} : QualifiedName.Spells text name →
      d.Offers p name arity m → (∀ arity' m', d.Offers p name arity' m' → m' = m) →
      Unambiguous text m

/-- The class in a text leaves no choice: it declares a method of the name in it without parameters, or
all that it declares or inherits under that name take as many. -/
def LeavesNoChoice (text : String) : Prop :=
  ∀ name, QualifiedName.Spells text name →
    (∃ c ∈ d.types, c.name = name.type ∧ c.Declares ⟨name.member, 0⟩) ∨
      ∀ arity arity', d.Sees name.type ⟨name.member, arity⟩ →
        d.Sees name.type ⟨name.member, arity'⟩ → arity = arity'

end Definitions

variable {d : Described.Program} {p : PointerAnalysis.Program} {text : String} {m : MethodId}
  {name : QualifiedName}

namespace StandsFor

variable (stands : d.StandsFor p)
include stands

theorem exists_offers {arity : Nat} (sees : d.Sees name.type ⟨name.member, arity⟩) :
    ∃ m, d.Offers p name arity m := by
  obtain ⟨owner, finds⟩ := sees
  obtain ⟨c, there, named, method, declared, signature⟩ := finds.declares
  obtain ⟨i, here⟩ := List.getElem?_of_mem (d.mem_declarations.mpr ⟨there, declared⟩)
  exact ⟨⟨i⟩, owner, finds, stands.declaredAs_iff.mpr ⟨c, method, here, named, signature⟩⟩

/-- A class has one method for a name and a number of arguments. -/
theorem offers_unique (wellFormed : d.WellFormed) {arity : Nat} {m' : MethodId}
    (offers : d.Offers p name arity m) (offers' : d.Offers p name arity m') : m' = m := by
  obtain ⟨owner, finds, declared⟩ := offers
  obtain ⟨owner', finds', declared'⟩ := offers'
  cases finds.unique wellFormed.types_distinct finds'
  exact stands.declaredAs_unique wellFormed declared' declared

theorem hasFewest_of_enters (wellFormed : d.WellFormed) (enters : d.Enters p text m) :
    d.HasFewest p text m := by
  obtain ⟨name, arity, owner, spells, finds, declared, least⟩ := enters
  have offers : d.Offers p name arity m := ⟨owner, finds, declared⟩
  refine ⟨name, arity, spells, offers, fun arity' m' offers' => ?_⟩
  rcases Nat.lt_trichotomy arity arity' with more | rfl | fewer
  · exact .inl more
  · exact .inr (stands.offers_unique wellFormed offers offers')
  · obtain ⟨owner', finds', _⟩ := offers'
    exact absurd ⟨owner', finds'⟩ (least arity' fewer)

/-- What an entry takes is what its name asks for without doubt just where the class leaves no choice. -/
theorem unambiguous_iff (wellFormed : d.WellFormed) (enters : d.Enters p text m) :
    d.Unambiguous p text m ↔ d.LeavesNoChoice text := by
  constructor
  · intro unambiguous name spells
    cases unambiguous with
    | bare spells' declared =>
      cases spells.unique spells'
      obtain ⟨c, method, here, named, signature⟩ := stands.declaredAs_iff.mp declared
      obtain ⟨there, listed⟩ := d.mem_declarations.mp (List.mem_of_getElem? here)
      exact .inl ⟨c, there, named, method, listed, signature⟩
    | only spells' _ alone =>
      cases spells.unique spells'
      refine .inr fun arity arity' sees sees' => ?_
      obtain ⟨first, offers⟩ := stands.exists_offers sees
      obtain ⟨second, offers'⟩ := stands.exists_offers sees'
      cases alone _ _ offers
      cases alone _ _ offers'
      obtain ⟨_, _, method, found, _, signature⟩ := offers
      obtain ⟨_, _, method', found', _, signature'⟩ := offers'
      cases found.symm.trans found'
      exact congrArg Signature.arity (signature.symm.trans signature')
  · intro settled
    obtain ⟨name, arity, owner, spells, finds, declared, least⟩ := enters
    obtain ⟨c, there, named, declares⟩ | alike := settled name spells
    · have home : d.Finds ⟨name.member, 0⟩ name.type name.type := named ▸ .declared there declares
      obtain rfl : arity = 0 := by
        by_contra some
        exact least 0 (Nat.pos_of_ne_zero some) ⟨_, home⟩
      cases finds.unique wellFormed.types_distinct home
      exact .bare spells declared
    · have offers : d.Offers p name arity m := ⟨owner, finds, declared⟩
      refine .only spells offers fun arity' m' offers' => ?_
      have sees' : d.Sees name.type ⟨name.member, arity'⟩ := offers'.imp fun _ => And.left
      cases alike arity arity' ⟨owner, finds⟩ sees'
      exact stands.offers_unique wellFormed offers offers'

end StandsFor

/-- A class that has no method of the name in a text is what an entry is refused for. -/
theorem firstBroken_entryDemands (unseen : ∀ name, QualifiedName.Spells text name →
    d.Names name.type ∧ ∀ arity, ¬ d.Sees name.type ⟨name.member, arity⟩) :
    FirstBroken (d.entryDemands text) (.unknownMethod text) := by
  unfold entryDemands memberDemands
  cases parsed : QualifiedName.parse? text with
  | none =>
    refine ⟨[], _, [], rfl, by simp, ?_, rfl⟩
    rintro ⟨name, spells⟩
    cases parsed.symm.trans (QualifiedName.spells_iff.mp spells)
  | some name =>
    obtain ⟨named, unseen⟩ := unseen name (QualifiedName.spells_iff.mpr parsed)
    refine ⟨[_], _, [], rfl, by simpa using named, ?_, rfl⟩
    rintro ⟨arity, sees⟩
    exact unseen arity sees

/-- A text is refused as an unknown method only if it has no dot or its class has no method of the name
at all. -/
theorem link_enteredAt_unknown_iff (loaded : d.link = .ok p) :
    (d.enteredAt text).link = .error (.unknownMethod text) ↔
      ∀ name, QualifiedName.Spells text name →
        d.Names name.type ∧ ∀ arity, ¬ d.Sees name.type ⟨name.member, arity⟩ := by
  have meets := meets_enteredAt loaded text
  constructor
  · intro refused name spells
    obtain ⟨met, broken, later, split, held, fails, same⟩ := meets.of_error refused
    simp only [entryDemands, memberDemands, QualifiedName.spells_iff.mp spells] at split
    -- The class comes first and has an error of its own, so it is the method that is missing.
    obtain _ | ⟨_, _ | ⟨_, _⟩⟩ := met
    · cases split
      cases same
    · cases split
      exact ⟨held _ List.mem_cons_self, fun arity sees => fails ⟨arity, sees⟩⟩
    · simp at split
  · intro unseen
    cases ran : (d.enteredAt text).link with
    | ok p' =>
      obtain ⟨name, arity, spells, sees⟩ := entryDemands_iff.mp (meets.of_ok ran).1
      exact absurd sees ((unseen name spells).2 arity)
    | error e =>
      rw [(meets.of_error ran).unique (firstBroken_entryDemands unseen)]

end Described.Program

/-- Of all methods that a class has under a name, its own and inherited ones, an entry takes the one with
the fewest parameters, whether or not there are others. That is the method that the name asks for without
doubt just if the class leaves no choice; and no name is refused as an unknown method for having more than
one, only for having none. -/
theorem entries_take_fewest_parameters {described : Described.Program} {p : Program}
    (loaded : described.link = .ok p) :
    List.Forall₂ (fun text m => described.HasFewest p text m ∧
      (described.Unambiguous p text m ↔ described.LeavesNoChoice text))
        described.entries p.entries.toList ∧
    ∀ text, (described.enteredAt text).link = .error (.unknownMethod text) ↔
      ∀ name, QualifiedName.Spells text name →
        described.Names name.type ∧ ∀ arity, ¬ described.Sees name.type ⟨name.member, arity⟩ := by
  have stands := Described.Program.standsFor_of_link loaded
  have wellFormed := Described.Program.wellFormed_of_link loaded
  refine ⟨stands.entries.imp fun text m enters => ?_, fun text =>
    Described.Program.link_enteredAt_unknown_iff loaded⟩
  exact ⟨stands.hasFewest_of_enters wellFormed enters, stands.unambiguous_iff wellFormed enters⟩

theorem entries_take_fewest_parameters_boxes : ∃ p, boxes.link = .ok p ∧ p.entries = #[⟨2⟩] ∧
    boxes.HasFewest p "Main.main" ⟨2⟩ ∧ boxes.Unambiguous p "Main.main" ⟨2⟩ := by
  have evaluated : boxes.passes fun p => decide (p.entries = #[⟨2⟩]) := by decide +kernel
  obtain ⟨p, loaded, evaluated⟩ := Described.Program.exists_of_passes evaluated
  have entered : p.entries = #[⟨2⟩] := of_decide_eq_true evaluated
  have taken := (entries_take_fewest_parameters loaded).1
  rw [entered] at taken
  obtain ⟨⟨fewest, settled⟩, _⟩ := List.forall₂_cons.mp taken
  refine ⟨p, loaded, entered, fewest, settled.mpr fun name spells => .inl ?_⟩
  obtain rfl : name = ⟨"Main", "main"⟩ := spells.unique (QualifiedName.spells_iff.mpr (by decide))
  decide

/-- A class with two methods of one name, and each of them takes parameters. -/
def variants : Described.Program where
  types := [
    { name := "Main", super := none, methods := [
        { name := "run", isStatic := true, isAbstract := false, params := ["x"], body := [] },
        { name := "run", isStatic := true, isAbstract := false, params := ["x", "y"], body := [] }] }]
  entries := ["Main.run"]

/-- Both methods can be meant, and instead of being refused the entry is the one with fewer
parameters. -/
theorem entry_taken_among_several : ∃ p, variants.link = .ok p ∧ p.entries = #[⟨0⟩] ∧
    (∃ m, variants.Offers p ⟨"Main", "run"⟩ 1 m) ∧ (∃ m, variants.Offers p ⟨"Main", "run"⟩ 2 m) ∧
    ¬ variants.Unambiguous p "Main.run" ⟨0⟩ := by
  have evaluated : variants.passes fun p => decide (p.entries = #[⟨0⟩]) := by decide +kernel
  obtain ⟨p, loaded, evaluated⟩ := Described.Program.exists_of_passes evaluated
  have entered : p.entries = #[⟨0⟩] := of_decide_eq_true evaluated
  have stands := Described.Program.standsFor_of_link loaded
  have enters := stands.entries
  rw [entered] at enters
  have enters : variants.Enters p "Main.run" ⟨0⟩ := (List.forall₂_cons.mp enters).1
  have sees (arity : Nat) (declares : ∃ c ∈ variants.types, c.name = "Main" ∧ c.Declares ⟨"run", arity⟩) :
      variants.Sees "Main" ⟨"run", arity⟩ := by
    obtain ⟨c, there, named, declares⟩ := declares
    rw [← named]
    exact ⟨_, .declared there declares⟩
  have one := sees 1 (by decide)
  have two := sees 2 (by decide)
  refine ⟨p, loaded, entered, stands.exists_offers one, stands.exists_offers two, fun unambiguous => ?_⟩
  have settled := (stands.unambiguous_iff (Described.Program.wellFormed_of_link loaded) enters).mp
    unambiguous
  obtain bare | alike := settled ⟨"Main", "run"⟩ (QualifiedName.spells_iff.mpr (by decide))
  · exact absurd bare (by decide)
  · cases alike 1 2 one two

end PointerAnalysis
