import PointerAnalysis.Proofs.Names

/-! Which method a text asks for. Given as an option it is looked up among the declared methods, in their
order; as an entry of a description it is resolved along the super types, for each number of parameters in
turn. The lookup finds nothing that a class inherits, and of several methods with one name it takes the
first, not the one with the fewest parameters. -/
namespace PointerAnalysis

/-- A text spells one name. -/
theorem QualifiedName.Spells.unique {text : String} {name name' : QualifiedName}
    (spells : Spells text name) (spells' : Spells text name') : name = name' :=
  Option.some.inj ((spells_iff.mp spells).symm.trans (spells_iff.mp spells'))

namespace Described.Program

section Definitions

variable (d : Described.Program)

/-- A class declares a method under a name, at this place among the methods of all classes. -/
def DeclaresAt (name : QualifiedName) (m : MethodId) (method : Method) : Prop :=
  ∃ c, d.declarations[m.index]? = some (c, method) ∧ c.name = name.type ∧ method.name = name.member

/-- A method is the first that its class declares under a name. -/
def DeclaresFirst (name : QualifiedName) (m : MethodId) (method : Method) : Prop :=
  d.DeclaresAt name m method ∧ ∀ m' method', d.DeclaresAt name m' method' → m.index ≤ m'.index

/-- The first method that the class in a text declares under the name in it. -/
def FirstNamed (text : String) (m : MethodId) : Prop :=
  ∃ name method, QualifiedName.Spells text name ∧ d.DeclaresFirst name m method

/-- If the class in a text has methods of the name in it, declared or inherited, then it declares some of
them itself, and none has fewer parameters than the first of these. -/
def FirstIsFewest (text : String) : Prop :=
  ∀ name arity, QualifiedName.Spells text name → d.Sees name.type ⟨name.member, arity⟩ →
    ∃ m method, d.DeclaresFirst name m method ∧ method.params.length ≤ arity

/-- The description with a text for its only entry. -/
def enteredAt (text : String) : Described.Program := { d with entries := [text] }

/-- A text asks for the same method as an option and as an entry of the description, or for none. -/
def TakesAlike (p : PointerAnalysis.Program) (text : String) : Prop :=
  (∀ m, p.findMethod text = some m ↔ (d.enteredAt text).link = .ok { p with entries := #[m] }) ∧
    (p.findMethod text = none ↔ ∃ e, (d.enteredAt text).link = .error e)

end Definitions

variable {d : Described.Program} {p : PointerAnalysis.Program} {text : String} {m m' : MethodId}
  {name : QualifiedName} {method method' : Method}

/-! ### Declarations -/

/-- There is one first method of a name. -/
theorem DeclaresFirst.unique (first : d.DeclaresFirst name m method)
    (first' : d.DeclaresFirst name m' method') : m = m' ∧ method = method' := by
  obtain ⟨⟨c, here, _⟩, least⟩ := first
  obtain ⟨⟨c', here', named'⟩, least'⟩ := first'
  obtain rfl : m = m' := Id.ext (Nat.le_antisymm (least m' method' ⟨c', here', named'⟩)
    (least' m method ⟨c, here, ‹_›⟩))
  cases here.symm.trans here'
  exact ⟨rfl, rfl⟩

/-- What a class declares it finds at home. -/
theorem DeclaresAt.finds (declares : d.DeclaresAt name m method) :
    d.Finds ⟨name.member, method.params.length⟩ name.type name.type := by
  obtain ⟨c, here, sameType, sameMember⟩ := declares
  obtain ⟨known, declared⟩ := d.mem_declarations.mp (List.mem_of_getElem? here)
  rw [← sameType]
  exact .declared known ⟨method, declared, by rw [Method.signature, sameMember]⟩

/-- A class finds one declaration of a signature. -/
theorem Finds.unique (distinct : (d.types.map (·.name)).Nodup) {s : Signature}
    {type owner owner' : String} (finds : d.Finds s type owner) (finds' : d.Finds s type owner') :
    owner = owner' := by
  induction finds with
  | @declared c there declares =>
    generalize same : c.name = type at finds'
    cases finds' with
    | declared _ _ => rfl
    | inherited there' undeclared _ _ =>
      cases List.inj_on_of_nodup_map distinct there there' same
      exact absurd declares undeclared
  | @inherited c _ _ there undeclared extended _ ih =>
    generalize same : c.name = type at finds'
    cases finds' with
    | declared there' declares =>
      cases List.inj_on_of_nodup_map distinct there there' same
      exact absurd declares undeclared
    | inherited there' _ extended' finds' =>
      cases List.inj_on_of_nodup_map distinct there there' same
      cases extended.symm.trans extended'
      exact ih finds'

namespace StandsFor

variable (stands : d.StandsFor p)
include stands

/-- The methods of the program are those of the description, each under its class and signature. -/
theorem declaredAs_iff {owner : String} {s : Signature} : p.DeclaredAs m owner s ↔
    ∃ c method, d.declarations[m.index]? = some (c, method) ∧ c.name = owner ∧ method.signature = s := by
  have signatures {c : Class} {described : Method} {method : PointerAnalysis.Method}
      (realises : d.Realises p c described m method) : method.signature = described.signature := by
    rw [PointerAnalysis.Method.signature, realises.name, ← realises.params.length_eq]
    rfl
  constructor
  · rintro ⟨method, found, ⟨type, typed, rfl⟩, rfl⟩
    obtain ⟨c, described, here, realises⟩ := stands.realises found
    obtain ⟨type', typed', sameType⟩ := realises.owner
    cases typed.symm.trans typed'
    exact ⟨c, described, here, sameType.symm, (signatures realises).symm⟩
  · rintro ⟨c, described, here, rfl, rfl⟩
    obtain ⟨method, found, realises⟩ := stands.methods here
    exact ⟨method, found, realises.owner, signatures realises⟩

theorem declaredAs_unique (wellFormed : d.WellFormed) {owner : String} {s : Signature}
    (declared : p.DeclaredAs m owner s) (declared' : p.DeclaredAs m' owner s) : m = m' := by
  obtain ⟨c, method, here, rfl, rfl⟩ := stands.declaredAs_iff.mp declared
  obtain ⟨c', method', here', sameClass, sameSignature⟩ := stands.declaredAs_iff.mp declared'
  have apart := declarations_distinct wellFormed.types_distinct wellFormed.methods_distinct
  refine Id.ext ((List.getElem?_inj ?_ apart).mp ?_)
  · rw [List.length_map]
    exact (List.getElem?_eq_some_iff.mp here).1
  · rw [List.getElem?_map, List.getElem?_map, here, here', Option.map_some, Option.map_some,
      sameClass, sameSignature]

/-- An entry asks for one method. -/
theorem enters_unique (wellFormed : d.WellFormed) (enters : d.Enters p text m)
    (enters' : d.Enters p text m') : m = m' := by
  obtain ⟨name, arity, owner, spells, finds, declared, least⟩ := enters
  obtain ⟨name', arity', owner', spells', finds', declared', least'⟩ := enters'
  cases spells.unique spells'
  obtain rfl : arity = arity' := Nat.le_antisymm
    (Nat.le_of_not_lt fun less => least arity' less ⟨owner', finds'⟩)
    (Nat.le_of_not_lt fun less => least' arity less ⟨owner, finds⟩)
  cases finds.unique wellFormed.types_distinct finds'
  exact stands.declaredAs_unique wellFormed declared declared'

/-! ### As an option -/

/-- The test of the lookup is whether the class in question declares the method under the name. -/
theorem named_iff {i : Nat} (inside : i < p.methods.size) :
    (p.methods[i].name = name.member ∧
      p.types[p.methods[i].owner.index]?.map (·.name) = some name.type) ↔
      ∃ method, d.DeclaresAt name ⟨i⟩ method := by
  have found : p.method ⟨i⟩ = .ok p.methods[i] :=
    Id.lookup_eq_ok_iff.mpr (Array.getElem?_eq_getElem inside)
  obtain ⟨c, described, here, realises⟩ := stands.realises found
  obtain ⟨type, typed, sameType⟩ := realises.owner
  rw [Id.lookup_eq_ok_iff.mp typed, Option.map_some, sameType, realises.name, Option.some.injEq]
  constructor
  · rintro ⟨member, owner⟩
    exact ⟨described, c, here, owner, member⟩
  · rintro ⟨method, c', here', owner, member⟩
    cases here.symm.trans here'
    exact ⟨member, owner⟩

/-- An option asks for the first method that the class declares under the name. -/
theorem findMethod_iff : p.findMethod text = some m ↔ d.FirstNamed text m := by
  unfold PointerAnalysis.Program.findMethod FirstNamed
  cases parsed : QualifiedName.parse? text with
  | none =>
    refine iff_of_false (by simp) ?_
    rintro ⟨name, _, spells, _⟩
    cases parsed.symm.trans (QualifiedName.spells_iff.mp spells)
  | some name =>
    have spells := QualifiedName.spells_iff.mpr parsed
    simp only [Option.bind_eq_bind, Option.bind_some, Option.bind_eq_some_iff, Option.pure_def,
      Option.some.injEq, Array.findIdx?_eq_some_iff_getElem, decide_eq_true_eq]
    constructor
    · rintro ⟨i, ⟨inside, found, none⟩, rfl⟩
      obtain ⟨method, declares⟩ := (stands.named_iff inside).mp found
      refine ⟨name, method, spells, declares, fun m' method' declares' => Nat.le_of_not_lt fun less => ?_⟩
      exact none m'.index less ((stands.named_iff (less.trans inside)).mpr ⟨method', declares'⟩)
    · rintro ⟨name', method, spells', ⟨declares, least⟩⟩
      cases spells.unique spells'
      have inside : m.index < p.methods.size := by
        obtain ⟨c, here, _⟩ := declares
        exact stands.methods_size ▸ (List.getElem?_eq_some_iff.mp here).1
      refine ⟨m.index, ⟨inside, (stands.named_iff inside).mpr ⟨method, declares⟩, ?_⟩, rfl⟩
      intro j less found
      obtain ⟨method', declares'⟩ := (stands.named_iff (less.trans inside)).mp found
      exact Nat.lt_irrefl _ (less.trans_le (least ⟨j⟩ method' declares'))

end StandsFor

/-! ### As an entry of the description -/

section Loaded

variable (loaded : d.link = .ok p)
include loaded

/-- Declarations and bodies are read the same whatever the entries are, so only the text is left to be
resolved. -/
private theorem link_enteredAt : ∃ b, Builder.Ready d b ∧
    (∀ text, (d.enteredAt text).link = b.resolveMethod text none >>= fun m =>
      .ok { p with entries := #[m] }) ∧
    ∀ text m, d.Enters b.program text m → d.Enters p text m := by
  obtain ⟨b, declared, ran, ready, _⟩ := ((meets_link d).of_ok loaded).2
  obtain ⟨blank, once, _, known⟩ := declare_spec ran
  rw [link_eq, ran, ok_bind] at loaded
  obtain ⟨b', ranBodies, loaded⟩ := bind_eq_ok_iff.mp loaded
  have read := (Builder.linkBodies_spec blank.sound once fun entry there =>
    (known _).mpr (List.mem_map_of_mem there)).2 b' ranBodies
  have program : p = { b'.program with entries := p.entries } := by
    split at loaded
    · cases loaded
    · obtain ⟨b'', ranEntries, loaded⟩ := bind_eq_ok_iff.mp loaded
      cases loaded
      exact ((Builder.linkEntries_spec read.sound d.entries).2 b'' ranEntries).2.1
  refine ⟨b, ready, fun text => ?_, fun text m enters => ?_⟩
  · have same : (d.enteredAt text).declare = .ok (b, declared) := ran
    rw [link_eq, same, ok_bind, program, ← read.later.resolveMethod]
    simp [enteredAt, ranBodies, Builder.linkEntry, Builder.addEntry, read.entries, blank.entries]
  · rw [program]
    exact read.later.enters enters

/-- With a text for its entry a description is accepted just if the class in the text has a method of the
name in it. It then stands for the same program but for the entry. -/
theorem meets_enteredAt (text : String) : Meets (d.enteredAt text).link (d.entryDemands text)
    (fun p' => ∃ m, d.Enters p text m ∧ p' = { p with entries := #[m] }) := by
  obtain ⟨b, ready, linked, enters⟩ := link_enteredAt loaded
  rw [linked]
  exact (ready.meets_entry text).followed fun m entered => ⟨_, rfl, m, enters text m entered, rfl⟩

theorem enters_iff_sees : (∃ m, d.Enters p text m) ↔
    ∃ name arity, QualifiedName.Spells text name ∧ d.Sees name.type ⟨name.member, arity⟩ := by
  constructor
  · rintro ⟨m, name, arity, owner, spells, finds, _⟩
    exact ⟨name, arity, spells, owner, finds⟩
  · intro sees
    have meets := meets_enteredAt loaded text
    cases ran : (d.enteredAt text).link with
    | error e => exact absurd (entryDemands_iff.mpr sees) (meets.of_error ran).not_all
    | ok p' =>
      obtain ⟨m, enters, _⟩ := (meets.of_ok ran).2
      exact ⟨m, enters⟩

/-- An entry of the description asks for the method with the fewest parameters that the class has. -/
theorem link_enteredAt_iff {p' : PointerAnalysis.Program} : (d.enteredAt text).link = .ok p' ↔
    ∃ m, d.Enters p text m ∧ p' = { p with entries := #[m] } := by
  have meets := meets_enteredAt loaded text
  refine ⟨fun ran => (meets.of_ok ran).2, ?_⟩
  rintro ⟨m, enters, rfl⟩
  cases ran : (d.enteredAt text).link with
  | error e =>
    have sees := (enters_iff_sees loaded).mp ⟨m, enters⟩
    exact absurd (entryDemands_iff.mpr sees) (meets.of_error ran).not_all
  | ok p' =>
    obtain ⟨m', enters', rfl⟩ := (meets.of_ok ran).2
    rw [(standsFor_of_link loaded).enters_unique (wellFormed_of_link loaded) enters enters']

/-! ### Both -/

/-- What an option finds, the description has as well, though it may take another method. -/
theorem enters_of_firstNamed (first : d.FirstNamed text m) : ∃ m', d.Enters p text m' := by
  obtain ⟨name, method, spells, ⟨declares, _⟩⟩ := first
  exact (enters_iff_sees loaded).mpr ⟨name, _, spells, _, declares.finds⟩

/-- The first method of a name is the one that an entry asks for if none has fewer parameters. -/
theorem FirstIsFewest.enters (least : d.FirstIsFewest text) (first : d.FirstNamed text m) :
    d.Enters p text m := by
  have stands := standsFor_of_link loaded
  obtain ⟨name, method, spells, first⟩ := first
  refine ⟨name, method.params.length, name.type, spells, first.1.finds, ?_, fun fewer less sees => ?_⟩
  · obtain ⟨c, here, sameType, sameMember⟩ := first.1
    refine stands.declaredAs_iff.mpr ⟨c, method, here, sameType, ?_⟩
    rw [Method.signature, sameMember]
  · obtain ⟨m', method', first', few⟩ := least name fewer spells sees
    obtain ⟨_, rfl⟩ := first.unique first'
    exact Nat.lt_irrefl _ (less.trans_le few)

theorem firstNamed_iff_enters_iff :
    (∀ m, d.FirstNamed text m ↔ d.Enters p text m) ↔ d.FirstIsFewest text := by
  have stands := standsFor_of_link loaded
  constructor
  · intro same name arity spells sees
    obtain ⟨m, enters⟩ := (enters_iff_sees loaded).mpr ⟨name, arity, spells, sees⟩
    obtain ⟨name', method, spells', first⟩ := (same m).mpr enters
    cases spells.unique spells'
    obtain ⟨name', arity', owner, spells', _, declared, least⟩ := enters
    cases spells.unique spells'
    obtain ⟨c, method', here, _, signature⟩ := stands.declaredAs_iff.mp declared
    obtain ⟨c', here', _⟩ := first.1
    cases here.symm.trans here'
    refine ⟨m, method, first, ?_⟩
    rw [show method.params.length = arity' from congrArg Signature.arity signature]
    exact Nat.le_of_not_lt fun less => least arity less sees
  · intro least m
    refine ⟨least.enters loaded, fun enters => ?_⟩
    obtain ⟨name, arity, spells, sees⟩ := (enters_iff_sees loaded).mp ⟨m, enters⟩
    obtain ⟨m', method, first, _⟩ := least name arity spells sees
    have first : d.FirstNamed text m' := ⟨name, method, spells, first⟩
    rwa [stands.enters_unique (wellFormed_of_link loaded) enters (least.enters loaded first)]

theorem takesAlike_iff : d.TakesAlike p text ↔ d.FirstIsFewest text := by
  have linked (m : MethodId) :
      (d.enteredAt text).link = .ok { p with entries := #[m] } ↔ d.Enters p text m := by
    rw [link_enteredAt_iff loaded]
    constructor
    · rintro ⟨m', enters, same⟩
      cases congrArg PointerAnalysis.Program.entries same
      exact enters
    · exact fun enters => ⟨m, enters, rfl⟩
  rw [← firstNamed_iff_enters_iff loaded, TakesAlike]
  simp only [linked, (standsFor_of_link loaded).findMethod_iff]
  refine and_iff_left_of_imp fun same => ?_
  -- Nothing is found just if there is nothing to enter, and then the loader refuses the text.
  rw [Option.eq_none_iff_forall_ne_some]
  simp only [ne_eq, (standsFor_of_link loaded).findMethod_iff, same]
  constructor
  · intro none
    cases ran : (d.enteredAt text).link with
    | error e => exact ⟨e, rfl⟩
    | ok p' =>
      obtain ⟨m, enters, _⟩ := (link_enteredAt_iff loaded).mp ran
      exact absurd enters (none m)
  · rintro ⟨e, refused⟩ m enters
    cases refused.symm.trans ((linked m).mpr enters)

end Loaded

end Described.Program

section Described

variable {described : Described.Program} {p : Program} (loaded : described.link = .ok p)
include loaded

/-- As an option, a text asks for the first method that its class declares under its name; as an entry of
the description, for the one with the fewest parameters among all that the class declares or inherits. What
the option finds the description has too. They are the same method, and miss together, just if the first
that is declared has the fewest parameters. -/
theorem option_and_entry_agree_where_first_is_fewest (text : String) :
    (∀ m, p.findMethod text = some m ↔ described.FirstNamed text m) ∧
    (∀ p', (described.enteredAt text).link = .ok p' ↔
      ∃ m, described.Enters p text m ∧ p' = { p with entries := #[m] }) ∧
    (∀ m, p.findMethod text = some m → ∃ m', described.Enters p text m') ∧
    (described.TakesAlike p text ↔ described.FirstIsFewest text) := by
  have stands := Described.Program.standsFor_of_link loaded
  refine ⟨fun m => stands.findMethod_iff, fun p' => Described.Program.link_enteredAt_iff loaded,
    fun m found => ?_, Described.Program.takesAlike_iff loaded⟩
  exact Described.Program.enters_of_firstNamed loaded (stands.findMethod_iff.mp found)

end Described

theorem option_and_entry_agree_where_first_is_fewest_boxes : ∃ p, boxes.link = .ok p ∧
    p.findMethod "Main.main" = some ⟨2⟩ ∧ boxes.TakesAlike p "Main.main" := by
  have evaluated : boxes.passes fun p => decide (p.findMethod "Main.main" = some ⟨2⟩) := by
    decide +kernel
  obtain ⟨p, loaded, evaluated⟩ := Described.Program.exists_of_passes evaluated
  have found := of_decide_eq_true evaluated
  obtain ⟨first, _, _, alike⟩ := option_and_entry_agree_where_first_is_fewest loaded "Main.main"
  refine ⟨p, loaded, found, alike.mpr fun name arity spells _ => ?_⟩
  obtain ⟨name', method, spells', first⟩ := (first _).mp found
  cases spells.unique spells'
  obtain ⟨c, here, _⟩ := first.1
  have same : boxes.declarations[2]?.map (·.2.params.length) = some 0 := by decide
  rw [here, Option.map_some, Option.some.injEq] at same
  exact ⟨_, method, first, same.trans_le (Nat.zero_le arity)⟩

/-- Two methods of one name, the one with fewer parameters last, and a class that inherits them. -/
def namesakes : Described.Program where
  types := [
    { name := "Main", super := none, methods := [
        { name := "run", isStatic := true, isAbstract := false, params := ["x"]
          body := [.return "x"] },
        { name := "run", isStatic := true, isAbstract := false, params := [], body := [] }] },
    { name := "Sub", super := some "Main", methods := [] }]
  entries := ["Main.run"]

/-- The option takes the first method instead of the one without parameters, and misses what is
inherited. -/
theorem option_and_entry_differ : ∃ p, namesakes.link = .ok p ∧
    p.findMethod "Main.run" = some ⟨0⟩ ∧
    (namesakes.enteredAt "Main.run").link = .ok { p with entries := #[⟨1⟩] } ∧
    ¬ namesakes.TakesAlike p "Main.run" ∧
    p.findMethod "Sub.run" = none ∧
    (namesakes.enteredAt "Sub.run").link = .ok { p with entries := #[⟨1⟩] } ∧
    ¬ namesakes.TakesAlike p "Sub.run" := by
  have evaluated : namesakes.passes fun p => decide
      (p.findMethod "Main.run" = some ⟨0⟩ ∧ p.findMethod "Sub.run" = none) := by decide +kernel
  obtain ⟨p, loaded, evaluated⟩ := Described.Program.exists_of_passes evaluated
  obtain ⟨first, missed⟩ := of_decide_eq_true evaluated
  have entering (text : String) (entered : (namesakes.enteredAt text).passes fun p =>
      decide (p.entries = #[⟨1⟩])) :
      (namesakes.enteredAt text).link = .ok { p with entries := #[⟨1⟩] } := by
    obtain ⟨p', ran, entered⟩ := Described.Program.exists_of_passes entered
    obtain ⟨m, _, rfl⟩ := (Described.Program.link_enteredAt_iff loaded).mp ran
    have entries : #[m] = #[⟨1⟩] := of_decide_eq_true entered
    rw [ran, entries]
  have main := entering "Main.run" (by decide +kernel)
  have sub := entering "Sub.run" (by decide +kernel)
  refine ⟨p, loaded, first, main, fun alike => ?_, missed, sub, fun alike => ?_⟩
  · cases first.symm.trans ((alike.1 ⟨1⟩).mpr main)
  · cases missed.symm.trans ((alike.1 ⟨1⟩).mpr sub)

end PointerAnalysis
