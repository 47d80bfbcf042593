import Mathlib.Data.List.Induction
import Mathlib.Data.List.Nodup
import Mathlib.Logic.Relation
import PointerAnalysis.Description.Link
import PointerAnalysis.Proofs.Lists

/-! What a description has to satisfy. Descriptions are judged by their names alone: classes are told
apart by names, a class inherits along the names of super types, and members are found by qualified
names. The demands come in an order, so a description that breaks some of them breaks one first. -/
namespace PointerAnalysis

namespace QualifiedName

/-- A text spells a qualified name: the member is what stands behind its last dot. -/
def Spells (text : String) (name : QualifiedName) : Prop :=
  text.toList = name.type.toList ++ '.' :: name.member.toList ∧ '.' ∉ name.member.toList

/-- A text without dot spells no qualified name. -/
theorem spells_iff {text : String} {name : QualifiedName} : Spells text name ↔ parse? text = some name := by
  -- The last dot of a text is the first one of the text read backwards.
  have backwards : parse? text = some name ↔ ∃ dot,
      text.toList.reverse.takeWhile (· ≠ '.') = name.member.toList.reverse ∧
        text.toList.reverse.dropWhile (· ≠ '.') = dot :: name.type.toList.reverse := by
    obtain ⟨type, member⟩ := name
    rw [parse?]
    split
    · next undotted => simp only [undotted, reduceCtorEq, and_false, exists_false]
    · next dot before dotted =>
      simp only [dotted, Option.some.injEq, QualifiedName.mk.injEq, ← String.toList_inj, String.toList_ofList,
        List.reverse_eq_iff, List.cons.injEq]
      simp [and_comm]
  simp only [backwards, parted_iff, exists_eq_left, List.mem_reverse, List.reverse_eq_iff, Spells]
  simp [and_comm]

end QualifiedName

namespace Described

def Method.signature (m : Method) : Signature := ⟨m.name, m.params.length⟩

/-- A class declares a method under a signature. -/
def Class.Declares (c : Class) (s : Signature) : Prop := ∃ m ∈ c.methods, m.signature = s

instance (c : Class) (s : Signature) : Decidable (c.Declares s) :=
  inferInstanceAs (Decidable (∃ m ∈ c.methods, m.signature = s))

namespace Program

variable (d : Described.Program)

/-- A name of a class. -/
def Names (name : String) : Prop := ∃ c ∈ d.types, c.name = name

/-- A class has another one as its super type. -/
def Extends (name super : String) : Prop := ∃ c ∈ d.types, c.name = name ∧ c.super = some super

/-- A chain of super types runs into a circle. -/
def Circles (name : String) : Prop :=
  ∃ met, Relation.ReflTransGen d.Extends name met ∧ Relation.TransGen d.Extends met met

/-- The class whose declaration a class has under a signature: its own, or else the inherited one. -/
inductive Finds (s : Signature) : String → String → Prop where
  | declared {c : Class} : c ∈ d.types → c.Declares s → Finds s c.name c.name
  | inherited {c : Class} {super owner : String} :
      c ∈ d.types → ¬ c.Declares s → c.super = some super → Finds s super owner →
      Finds s c.name owner

/-- A class declares or inherits a method with a signature. -/
def Sees (name : String) (s : Signature) : Prop := ∃ owner, d.Finds s name owner

/-- What a statement refers to by a global name is there. -/
def Refers : Described.Statement → Prop
  | .new _ type => d.Names type
  | .call _ target _ args _ =>
    ∃ name, QualifiedName.Spells target name ∧ d.Sees name.type ⟨name.member, args.length⟩
  | _ => True

/-- A description of a program. -/
structure WellFormed : Prop where
  types_distinct : (d.types.map (·.name)).Nodup
  supers_named : ∀ c ∈ d.types, ∀ super, c.super = some super → d.Names super
  chains_end : ∀ name, ¬ Relation.TransGen d.Extends name name
  methods_distinct : ∀ c ∈ d.types, (c.methods.map (·.signature)).Nodup
  static_concrete : ∀ c ∈ d.types, ∀ m ∈ c.methods, ¬ (m.isStatic = true ∧ m.isAbstract = true)
  abstract_empty : ∀ c ∈ d.types, ∀ m ∈ c.methods, m.isAbstract = true → m.body = []
  statements_refer : ∀ c ∈ d.types, ∀ m ∈ c.methods, ∀ s ∈ m.body, d.Refers s
  entered : d.entries ≠ []
  entries_seen : ∀ text ∈ d.entries, ∃ name arity, QualifiedName.Spells text name ∧
    d.Sees name.type ⟨name.member, arity⟩

end Program

end Described

/-! ### Demands -/

/-- Something that has to hold, and what is reported if it does not. -/
structure Demand where
  holds : Prop
  error : LoadError

/-- The first broken demand is reported by this error. -/
def FirstBroken (demands : List Demand) (e : LoadError) : Prop :=
  ∃ met broken later, demands = met ++ broken :: later ∧ (∀ x ∈ met, x.holds) ∧ ¬ broken.holds ∧
    broken.error = e

namespace FirstBroken

variable {demands more : List Demand} {e e' : LoadError}

theorem append (broken : FirstBroken demands e) (more : List Demand) :
    FirstBroken (demands ++ more) e := by
  obtain ⟨met, broken, later, rfl, rest⟩ := broken
  exact ⟨met, broken, later ++ more, by simp, rest⟩

theorem after (broken : FirstBroken more e) (holds : ∀ x ∈ demands, x.holds) :
    FirstBroken (demands ++ more) e := by
  obtain ⟨met, broken, later, rfl, before, rest⟩ := broken
  refine ⟨demands ++ met, broken, later, by simp, fun x there => ?_, rest⟩
  exact (List.mem_append.mp there).elim (holds x) (before x)

theorem not_all (broken : FirstBroken demands e) : ¬ ∀ x ∈ demands, x.holds := by
  obtain ⟨met, broken, later, rfl, _, fails, _⟩ := broken
  exact fun all => fails (all broken (by simp))

/-- There is one first broken demand. -/
theorem unique (first : FirstBroken demands e) (second : FirstBroken demands e') : e = e' := by
  induction demands with
  | nil =>
    obtain ⟨met, broken, later, split, _⟩ := first
    simp at split
  | cons x demands ih =>
    obtain ⟨met, broken, later, split, holds, fails, rfl⟩ := first
    obtain ⟨met', broken', later', split', holds', fails', rfl⟩ := second
    cases met with
    | nil =>
      cases split
      cases met' with
      | nil =>
        cases split'
        rfl
      | cons y met' =>
        cases split'
        exact absurd (holds' x List.mem_cons_self) fails
    | cons y met =>
      obtain ⟨rfl, rest⟩ := List.cons.inj split
      cases met' with
      | nil =>
        cases split'
        exact absurd (holds _ List.mem_cons_self) fails'
      | cons y' met' =>
        exact ih ⟨met, broken, later, rest, fun z there => holds z (List.mem_cons_of_mem _ there), fails, rfl⟩
          ⟨met', broken', later', (List.cons.inj split').2,
            fun z there => holds' z (List.mem_cons_of_mem _ there), fails', rfl⟩

end FirstBroken

/-- A computation succeeds just if all demands are met, and else reports the first broken one. -/
def Meets {α : Type} (x : Except LoadError α) (demands : List Demand) (success : α → Prop) : Prop :=
  match x with
  | .ok a => (∀ x ∈ demands, x.holds) ∧ success a
  | .error e => FirstBroken demands e

/-- The demands on the elements of a list, each of which comes after others. -/
def demandsAlong {α : Type} (demands : List α → α → List Demand) (before : List α) :
    List α → List Demand
  | [] => []
  | x :: l => demands before x ++ demandsAlong demands (before ++ [x]) l

section Meets

variable {α β : Type} {demands more : List Demand} {success : α → Prop}

/-- One demand more, met or else reported. -/
theorem meets_guard {refused holds : Prop} [Decidable refused] {error : LoadError}
    {x : Except LoadError α} (refused_iff : refused ↔ ¬ holds)
    (rest : holds → Meets x demands success) :
    Meets (if refused then .error error else x) (⟨holds, error⟩ :: demands) success := by
  split
  · next fails => exact ⟨[], _, demands, rfl, by simp, refused_iff.mp fails, rfl⟩
  · next passes =>
    have holds : holds := not_not.mp (mt refused_iff.mpr passes)
    have rest := rest holds
    cases x with
    | ok a => exact ⟨List.forall_mem_cons.mpr ⟨holds, rest.1⟩, rest.2⟩
    | error e =>
      obtain ⟨met, broken, later, rfl, before, fails, same⟩ := rest
      exact ⟨_ :: met, broken, later, rfl, List.forall_mem_cons.mpr ⟨holds, before⟩, fails, same⟩

theorem Meets.of_ok {x : Except LoadError α} (meets : Meets x demands success) {a : α}
    (ran : x = .ok a) : (∀ x ∈ demands, x.holds) ∧ success a := by
  unfold Meets at meets
  rwa [ran] at meets

theorem Meets.of_error {x : Except LoadError α} (meets : Meets x demands success) {e : LoadError}
    (ran : x = .error e) : FirstBroken demands e := by
  unfold Meets at meets
  rwa [ran] at meets

/-- What meets its demands succeeds. -/
theorem Meets.ok_iff {x : Except LoadError α} (meets : Meets x demands success) :
    (∃ a, x = .ok a) ↔ ∀ x ∈ demands, x.holds := by
  refine ⟨fun ⟨_, ran⟩ => (meets.of_ok ran).1, fun holds => ?_⟩
  cases ran : x with
  | ok a => exact ⟨a, rfl⟩
  | error e => exact absurd holds (meets.of_error ran).not_all

/-- What is reported is the first broken demand. -/
theorem Meets.error_iff {x : Except LoadError α} (meets : Meets x demands success) {e : LoadError} :
    x = .error e ↔ FirstBroken demands e := by
  refine ⟨meets.of_error, fun broken => ?_⟩
  cases ran : x with
  | ok a => exact absurd (meets.of_ok ran).1 broken.not_all
  | error e' => rw [(meets.of_error ran).unique broken]

theorem meets_ok {a : α} (holds : success a) : Meets (.ok a) [] success := ⟨by simp, holds⟩

/-- A single check. -/
theorem meets_check {x : Except LoadError α} {demand : Demand}
    (succeeds : demand.holds → ∃ a, x = .ok a ∧ success a)
    (fails : ¬ demand.holds → x = .error demand.error) : Meets x [demand] success := by
  by_cases holds : demand.holds
  · obtain ⟨a, rfl, good⟩ := succeeds holds
    exact ⟨by simpa using holds, good⟩
  · rw [fails holds]
    exact ⟨[], demand, [], rfl, by simp, holds, rfl⟩

theorem Meets.mono {x : Except LoadError α} {success' : α → Prop} (meets : Meets x demands success)
    (weaker : ∀ a, x = .ok a → success a → success' a) : Meets x demands success' := by
  cases ran : x with
  | ok a =>
    have held := meets.of_ok ran
    exact ⟨held.1, weaker a ran held.2⟩
  | error e => exact meets.of_error ran

/-- Of a chain, the second part is judged once the first one has met its demands. -/
theorem Meets.bind {x : Except LoadError α} {f : α → Except LoadError β} {success' : β → Prop}
    (first : Meets x demands success)
    (rest : ∀ a, (∀ x ∈ demands, x.holds) → success a → Meets (f a) more success') :
    Meets (x >>= f) (demands ++ more) success' := by
  cases x with
  | error e => exact FirstBroken.append first more
  | ok a =>
    obtain ⟨holds, good⟩ := first
    have second := rest a holds good
    show Meets (f a) (demands ++ more) success'
    cases ran : f a with
    | ok b =>
      have held := second.of_ok ran
      exact ⟨fun x there => (List.mem_append.mp there).elim (holds x) (held.1 x), held.2⟩
    | error e => exact (second.of_error ran).after holds

/-- A second part that succeeds asks for nothing more. -/
theorem Meets.followed {x : Except LoadError α} {f : α → Except LoadError β} {success' : β → Prop}
    (first : Meets x demands success) (rest : ∀ a, success a → ∃ b, f a = .ok b ∧ success' b) :
    Meets (x >>= f) demands success' := by
  have whole := first.bind fun a _ good => (show Meets (f a) [] success' by
    obtain ⟨b, ran, good'⟩ := rest a good
    exact ran ▸ meets_ok good')
  rwa [List.append_nil] at whole

/-- A chain over a list meets the demands on its elements one after another. -/
theorem meets_foldlM {step : β → α → Except LoadError β} {demands : List α → α → List Demand}
    {before l : List α} {b : β} (reached : List α → β → Prop) (start : reached before b)
    (steps : ∀ done x rest b, l = done ++ x :: rest → reached (before ++ done) b →
      Meets (step b x) (demands (before ++ done) x) (reached (before ++ done ++ [x]))) :
    Meets (l.foldlM step b) (demandsAlong demands before l) (reached (before ++ l)) := by
  induction l generalizing before b with
  | nil => exact meets_ok (by simpa using start)
  | cons x l ih =>
    have first : Meets (step b x) (demands before x) (reached (before ++ [x])) := by
      simpa using steps [] x l b rfl (by simpa using start)
    rw [List.foldlM_cons, List.append_cons]
    refine first.bind fun b' _ good => ih good fun done y rest b'' split held => ?_
    have step := steps (x :: done) y rest b'' (by rw [split]; rfl) (by simpa using held)
    simpa using step

theorem demandsAlong_const (f : α → List Demand) (before l : List α) :
    demandsAlong (fun _ x => f x) before l = l.flatMap f := by
  induction l generalizing before with
  | nil => rfl
  | cons x l ih => rw [demandsAlong, ih, List.flatMap_cons]

theorem forall_mem_demandsAlong {demands : List α → α → List Demand} {before l : List α} :
    (∀ x ∈ demandsAlong demands before l, x.holds) ↔
      ∀ done y rest, l = done ++ y :: rest → ∀ x ∈ demands (before ++ done) y, x.holds := by
  induction l generalizing before with
  | nil => simp [demandsAlong]
  | cons y l ih =>
    simp only [demandsAlong, List.forall_mem_append, ih]
    constructor
    · rintro ⟨first, others⟩ done y' rest split
      cases done with
      | nil =>
        cases split
        simpa using first
      | cons y'' done =>
        cases split
        simpa using others done y' rest rfl
    · intro all
      refine ⟨by simpa using all [] y l rfl, fun done y' rest split => ?_⟩
      simpa using all (y :: done) y' rest (by rw [split]; rfl)

end Meets

/-- Elements are told apart by a property if no one has it in common with one before. -/
theorem nodup_map_iff {α β : Type} {f : α → β} {l : List α} :
    (l.map f).Nodup ↔ ∀ done x rest, l = done ++ x :: rest → f x ∉ done.map f := by
  constructor
  · rintro nodup done x rest rfl there
    rw [List.map_append, List.map_cons, List.nodup_append] at nodup
    exact nodup.2.2 _ there _ List.mem_cons_self rfl
  · intro apart
    induction l using List.reverseRecOn with
    | nil => exact List.nodup_nil
    | append_singleton l x ih =>
      rw [List.map_append, List.nodup_append]
      refine ⟨ih fun done y rest split => apart done y (rest ++ [x]) (by rw [split]; simp), by simp, ?_⟩
      rintro y there z last rfl
      rw [List.map_singleton, List.mem_singleton] at last
      exact apart l x [] rfl (last ▸ there)

namespace Described.Program

variable (d : Described.Program)

/-- Classes have names of their own. -/
def typeDemands : List Demand :=
  demandsAlong (fun before c => [⟨c.name ∉ before.map (·.name), .duplicateType c.name⟩]) [] d.types

def superDemands : List Demand :=
  d.types.flatMap fun c => c.super.toList.map fun super => ⟨d.Names super, .unknownType super⟩

def chainDemands : List Demand :=
  d.types.flatMap fun c => [⟨¬ d.Circles c.name, .cyclicInheritance c.name⟩]

/-- A method of a class differs from those before it, and its modifiers agree. -/
def methodDemands (owner : String) (before : List Described.Method) (m : Described.Method) :
    List Demand :=
  [⟨m.signature ∉ before.map (·.signature), .duplicateMethod (owner ++ "." ++ m.name)⟩,
    ⟨¬ (m.isStatic = true ∧ m.isAbstract = true), .staticAbstractMethod (owner ++ "." ++ m.name)⟩,
    ⟨m.isAbstract = true → m.body = [], .abstractMethodWithBody (owner ++ "." ++ m.name)⟩]

def classDemands (c : Described.Class) : List Demand :=
  demandsAlong (methodDemands c.name) [] c.methods

/-- A qualified name of a member that its class has to satisfy something for. -/
def memberDemands (text : String) (found : QualifiedName → Prop) : List Demand :=
  match QualifiedName.parse? text with
  | none => [⟨∃ name, QualifiedName.Spells text name, .unknownMethod text⟩]
  | some name => [⟨d.Names name.type, .unknownType name.type⟩, ⟨found name, .unknownMethod text⟩]

def targetDemands (text : String) (arity : Nat) : List Demand :=
  d.memberDemands text fun name => d.Sees name.type ⟨name.member, arity⟩

def statementDemands : Described.Statement → List Demand
  | .new _ type => [⟨d.Names type, .unknownType type⟩]
  | .call _ target _ args _ => d.targetDemands target args.length
  | _ => []

def bodyDemands (m : Described.Method) : List Demand := m.body.flatMap d.statementDemands

def entryDemands (text : String) : List Demand :=
  d.memberDemands text fun name => ∃ arity, d.Sees name.type ⟨name.member, arity⟩

/-- All demands on a description, phase by phase. -/
def demands : List Demand :=
  d.typeDemands ++ d.superDemands ++ d.chainDemands ++ d.types.flatMap classDemands ++
    (d.types.flatMap (·.methods)).flatMap d.bodyDemands ++ [⟨d.entries ≠ [], .noEntry⟩] ++
    d.entries.flatMap d.entryDemands

variable {d}

theorem Finds.named {s : Signature} {name owner : String} (finds : d.Finds s name owner) :
    d.Names name := by
  cases finds with
  | declared there => exact ⟨_, there, rfl⟩
  | inherited there => exact ⟨_, there, rfl⟩

/-- What is found is declared by the class that it is found at. -/
theorem Finds.declares {s : Signature} {name owner : String} (finds : d.Finds s name owner) :
    ∃ c ∈ d.types, c.name = owner ∧ c.Declares s := by
  induction finds with
  | declared there declares => exact ⟨_, there, rfl, declares⟩
  | inherited _ _ _ _ ih => exact ih

private theorem memberDemands_iff {text : String} {found : QualifiedName → Prop}
    (named : ∀ name, found name → d.Names name.type) :
    (∀ x ∈ d.memberDemands text found, x.holds) ↔ ∃ name, QualifiedName.Spells text name ∧ found name := by
  simp only [QualifiedName.spells_iff, memberDemands]
  cases parsed : QualifiedName.parse? text with
  | none => simp
  | some name =>
    simp only [List.forall_mem_cons, List.not_mem_nil, false_implies, implies_true, and_true,
      Option.some.injEq, exists_eq_left']
    exact ⟨And.right, fun held => ⟨named name held, held⟩⟩

theorem entryDemands_iff {text : String} : (∀ x ∈ d.entryDemands text, x.holds) ↔
    ∃ name arity, QualifiedName.Spells text name ∧ d.Sees name.type ⟨name.member, arity⟩ := by
  refine (memberDemands_iff ?_).trans ?_
  · rintro name ⟨arity, owner, finds⟩
    exact finds.named
  · simp only [exists_and_left]

theorem statementDemands_iff {s : Described.Statement} :
    (∀ x ∈ d.statementDemands s, x.holds) ↔ d.Refers s := by
  cases s with
  | call kind target receiver args result =>
    refine memberDemands_iff ?_
    rintro name ⟨owner, finds⟩
    exact finds.named
  | new var type => simp [statementDemands, Refers]
  | assign => simp [statementDemands, Refers]
  | load => simp [statementDemands, Refers]
  | store => simp [statementDemands, Refers]
  | «return» => simp [statementDemands, Refers]

theorem classDemands_iff {c : Described.Class} : (∀ x ∈ classDemands c, x.holds) ↔
    (c.methods.map (·.signature)).Nodup ∧
      (∀ m ∈ c.methods, ¬ (m.isStatic = true ∧ m.isAbstract = true)) ∧
      ∀ m ∈ c.methods, m.isAbstract = true → m.body = [] := by
  have listed {m : Described.Method} : m ∈ c.methods ↔ ∃ done rest, c.methods = done ++ m :: rest :=
    List.mem_iff_append
  simp only [classDemands, forall_mem_demandsAlong, methodDemands, List.nil_append,
    List.forall_mem_cons, List.not_mem_nil, false_implies, implies_true, and_true, nodup_map_iff]
  constructor
  · intro all
    refine ⟨fun done m rest split => (all done m rest split).1, fun m there => ?_, fun m there => ?_⟩
    all_goals obtain ⟨done, rest, split⟩ := listed.mp there
    · exact (all done m rest split).2.1
    · exact (all done m rest split).2.2
  · rintro ⟨distinct, concrete, empty⟩ done m rest split
    have there := listed.mpr ⟨done, rest, split⟩
    exact ⟨distinct done m rest split, concrete m there, empty m there⟩

/-- A circle has a class on it, and runs through it. -/
theorem chainDemands_iff : (∀ c ∈ d.types, ¬ d.Circles c.name) ↔
    ∀ name, ¬ Relation.TransGen d.Extends name name := by
  constructor
  · intro none name circle
    obtain ⟨_, ⟨c, there, rfl, _⟩, _⟩ := Relation.TransGen.head'_iff.mp circle
    exact none c there ⟨c.name, .refl, circle⟩
  · rintro none c _ ⟨met, _, circle⟩
    exact none met circle

/-- A description is well formed just if it meets all demands. -/
theorem wellFormed_iff : d.WellFormed ↔ ∀ x ∈ d.demands, x.holds := by
  simp only [demands, List.forall_mem_append, typeDemands, superDemands, chainDemands,
    List.forall_mem_flatMap, forall_mem_demandsAlong, List.nil_append, List.forall_mem_singleton,
    List.forall_mem_map, classDemands_iff, chainDemands_iff, bodyDemands, statementDemands_iff,
    entryDemands_iff, Option.mem_toList]
  rw [← nodup_map_iff (f := fun c : Described.Class => c.name)]
  constructor
  · rintro ⟨types, supers, chains, methods, concrete, empty, statements, entered, entries⟩
    exact ⟨⟨⟨⟨⟨⟨types, supers⟩, chains⟩, fun c there =>
      ⟨methods c there, concrete c there, empty c there⟩⟩,
      statements⟩, entered⟩, entries⟩
  · rintro ⟨⟨⟨⟨⟨⟨types, supers⟩, chains⟩, classes⟩, statements⟩, entered⟩, entries⟩
    exact ⟨types, supers, chains, fun c there => (classes c there).1,
      fun c there => (classes c there).2.1, fun c there => (classes c there).2.2,
      statements, entered, entries⟩

end Described.Program

end PointerAnalysis
