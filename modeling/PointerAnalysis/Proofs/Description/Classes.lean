import Mathlib.Data.List.Chain
import PointerAnalysis.Proofs.Description.Declare
import PointerAnalysis.Proofs.Description.WellFormed

/-! Classes and their chains of super types. A class gets the number of its place in the description, and
its super type is the class of that name. Chains are followed no further than there are classes: one
that goes on has met a class twice, so it runs into a circle. -/
namespace PointerAnalysis

open Relation

namespace Builder

variable {b b' : Builder} {d : Described.Program} {name : String} {t : TypeId}

/-- The table of names says where each of these classes stands. -/
def Places (b : Builder) (types : List Described.Class) : Prop :=
  ∀ name t, b.typeId? name = some t ↔ ∃ c, types[t.index]? = some c ∧ c.name = name

theorem Places.named_iff {types : List Described.Class} (places : b.Places types) :
    (∃ t, b.typeId? name = some t) ↔ ∃ c ∈ types, c.name = name := by
  constructor
  · rintro ⟨t, found⟩
    obtain ⟨c, there, named⟩ := (places name t).mp found
    exact ⟨c, List.mem_of_getElem? there, named⟩
  · rintro ⟨c, listed, named⟩
    obtain ⟨i, there⟩ := List.mem_iff_getElem?.mp listed
    exact ⟨⟨i⟩, (places name ⟨i⟩).mpr ⟨c, there, named⟩⟩

theorem resolveType_of_typeId? (found : b.typeId? name = some t) : b.resolveType name = .ok t := by
  rw [resolveType, found]

theorem typeId?_of_resolveType (resolved : b.resolveType name = .ok t) : b.typeId? name = some t := by
  unfold resolveType at resolved
  split at resolved
  · next found =>
    cases resolved
    exact found
  · cases resolved

/-- A name of a class resolves just if there is such a class. -/
theorem meets_resolveType (places : b.Places d.types) (name : String) :
    Meets (b.resolveType name) [⟨d.Names name, .unknownType name⟩] (b.typeId? name = some ·) := by
  refine meets_check (fun named => ?_) fun unnamed => ?_
  · obtain ⟨t, found⟩ := places.named_iff.mpr named
    exact ⟨t, resolveType_of_typeId? found, found⟩
  · rw [resolveType]
    cases found : b.typeId? name with
    | none => rfl
    | some t => exact absurd (places.named_iff.mp ⟨t, found⟩) unnamed

/-! ### Declarations -/

/-- Neither methods nor names in them have been declared. -/
structure Unused (b : Builder) : Prop where
  methods : b.program.methods = #[]
  varNames : b.varNames = .empty
  fieldNames : b.fieldNames = .empty

/-- The classes that have been declared, without super types. -/
structure Declared (classes : List Described.Class) (b : Builder) : Prop where
  blank : b.Blank
  unused : b.Unused
  types : b.program.types.toList = classes.map fun c => ⟨c.name, none, []⟩
  places : b.Places classes

private theorem meets_declareType {classes : List Described.Class} (declared : Declared classes b)
    (c : Described.Class) :
    Meets (b.declareType c) [⟨c.name ∉ classes.map (·.name), .duplicateType c.name⟩]
      (Declared (classes ++ [c])) := by
  have known : (b.typeId? c.name).isSome = true ↔ c.name ∈ classes.map (·.name) := by
    rw [Option.isSome_iff_exists, declared.places.named_iff, List.mem_map]
  refine meets_check (fun new => ?_) fun old => ?_
  · have unknown : ¬ (b.typeId? c.name).isSome = true := fun held => new (known.mp held)
    have ran : b.declareType c = .ok (b.addType c.name none).1 := if_neg unknown
    have blank := (declareType_blank declared.blank ran).1
    have unused : (b.addType c.name none).1.Unused :=
      ⟨declared.unused.methods, declared.unused.varNames, declared.unused.fieldNames⟩
    refine ⟨_, ran, blank, unused, ?_, fun name t => ?_⟩
    · show (b.program.types.push ⟨c.name, none, []⟩).toList = _
      rw [Array.toList_push, declared.types, List.map_append]
      rfl
    · have size : b.program.types.size = classes.length := by
        rw [← Array.length_toList, declared.types, List.length_map]
      have added : (b.addType c.name none).1.typeId? name =
          if c.name = name then some ⟨classes.length⟩ else b.typeId? name := by
        show (b.typeNames.insert c.name ⟨b.program.types.size⟩)[name]? = _
        rw [Std.TreeMap.getElem?_insert, size]
        simp only [Std.LawfulEqCmp.compare_eq_iff_eq]
        rfl
      rw [added]
      split
      · next same =>
        subst same
        constructor
        · rintro ⟨⟩
          exact ⟨c, getElem?_append_singleton.mpr (.inr ⟨rfl, rfl⟩), rfl⟩
        · rintro ⟨c', there, named⟩
          rcases getElem?_append_singleton.mp there with earlier | ⟨last, _⟩
          · exact absurd (List.mem_map.mpr ⟨c', List.mem_of_getElem? earlier, named⟩) new
          · exact congrArg some (Id.ext last.symm)
      · next other =>
        rw [declared.places]
        refine exists_congr fun c' => and_congr_left fun named => ?_
        rw [getElem?_append_singleton, or_iff_left]
        rintro ⟨_, rfl⟩
        exact other named
  · rw [declareType, if_pos (known.mpr (not_not.mp old))]

/-! ### Super types -/

/-- The classes of a description with their super types, whatever circles these run in. -/
def linkClasses (d : Described.Program) : Except LoadError Builder := do
  let b ← d.types.foldlM declareType .empty
  d.types.foldlM linkSuper b

/-- The first classes have got their super types. -/
structure Supers (d : Described.Program) (done : List Described.Class) (b : Builder) : Prop where
  blank : b.Blank
  unused : b.Unused
  places : b.Places d.types
  size : b.program.types.size = d.types.length
  types : ∀ {i : Nat} {c : Described.Class}, d.types[i]? = some c → ∃ type, b.program.types[i]? = some type ∧
    type.name = c.name ∧ type.declared = [] ∧
    (i < done.length → Option.Rel (b.typeId? · = some ·) c.super type.super)

private theorem Supers.set {done rest : List Described.Class} {c : Described.Class}
    (supers : Supers d done b) (split : d.types = done ++ c :: rest)
    {super : Option TypeId} (known : ∀ id, super = some id → ∃ type, b.program.type id = .ok type)
    (named : Option.Rel (b.typeId? · = some ·) c.super super) :
    Supers d (done ++ [c]) (b.setSuper ⟨done.length⟩ super) := by
  have sound := setSuper_sound supers.blank.sound ⟨done.length⟩ known
  have unused : (b.setSuper ⟨done.length⟩ super).Unused :=
    ⟨supers.unused.methods, supers.unused.varNames, supers.unused.fieldNames⟩
  refine ⟨⟨sound, supers.blank.entries, supers.blank.unfilled⟩, unused, supers.places, ?_,
    fun {i c'} there => ?_⟩
  · exact (Array.size_modify ..).trans supers.size
  · obtain ⟨type, found, sameName, empty, before⟩ := supers.types there
    show ∃ type, (b.program.types.modify done.length _)[i]? = some type ∧ _
    rw [Array.getElem?_modify, found]
    by_cases here : done.length = i
    · subst here
      have same : c' = c := by
        rw [split] at there
        simpa using there.symm
      subst same
      exact ⟨{ type with super }, by rw [if_pos rfl]; rfl, sameName, empty, fun _ => named⟩
    · refine ⟨type, by rw [if_neg here], sameName, empty, fun inside => before ?_⟩
      rw [List.length_append, List.length_singleton] at inside
      omega

private theorem meets_linkSuper {done rest : List Described.Class} {c : Described.Class}
    (supers : Supers d done b) (split : d.types = done ++ c :: rest) :
    Meets (b.linkSuper c)
      (c.super.toList.map fun super => ⟨d.Names super, .unknownType super⟩)
      (Supers d (done ++ [c])) := by
  have here : b.typeId? c.name = some ⟨done.length⟩ :=
    (supers.places _ _).mpr ⟨c, by rw [split]; simp, rfl⟩
  unfold linkSuper
  rw [resolveType_of_typeId? here, ok_bind]
  cases named : c.super with
  | none => exact meets_ok (supers.set split (by simp) (named ▸ .none))
  | some super =>
    refine (meets_resolveType supers.places super).followed fun id found =>
      ⟨_, rfl, supers.set split ?_ (named ▸ .some found)⟩
    rintro _ ⟨⟩
    exact supers.blank.sound.types found

/-! ### Chains -/

/-- What is known of classes once they have their super types, whatever methods they declare. -/
structure ClassTable (d : Described.Program) (b : Builder) : Prop where
  places : b.Places d.types
  size : b.program.types.size = d.types.length
  types : ∀ {i : Nat} {c : Described.Class}, d.types[i]? = some c → ∃ type, b.program.types[i]? = some type ∧
    type.name = c.name ∧ Option.Rel (b.typeId? · = some ·) c.super type.super

namespace ClassTable

variable (table : ClassTable d b)
include table

/-- A class of the description in the table. -/
theorem found (named : b.typeId? name = some t) : ∃ c type, c ∈ d.types ∧ c.name = name ∧
    b.program.type t = .ok type ∧ type.name = name ∧
    Option.Rel (b.typeId? · = some ·) c.super type.super := by
  obtain ⟨c, there, rfl⟩ := (table.places name t).mp named
  obtain ⟨type, found, sameName, super⟩ := table.types there
  exact ⟨c, type, List.mem_of_getElem? there, rfl, Id.lookup_eq_ok_iff.mpr found, sameName, super⟩

/-- Names tell classes apart. -/
theorem eq_of_name {c c' : Described.Class} (there : c ∈ d.types) (there' : c' ∈ d.types)
    (same : c.name = c'.name) : c = c' := by
  obtain ⟨i, here⟩ := List.mem_iff_getElem?.mp there
  obtain ⟨j, here'⟩ := List.mem_iff_getElem?.mp there'
  have first := (table.places c.name ⟨i⟩).mpr ⟨c, here, rfl⟩
  have second := (table.places c.name ⟨j⟩).mpr ⟨c', here', same.symm⟩
  cases first.symm.trans second
  exact Option.some.inj (here.symm.trans here')

/-- Where a chain goes on from a class. -/
theorem super_iff (named : b.typeId? name = some t) {s : TypeId} :
    b.program.types[t.index]?.bind (·.super) = some s ↔
      ∃ super, d.Extends name super ∧ b.typeId? super = some s := by
  obtain ⟨c, type, there, rfl, found, _, super⟩ := table.found named
  rw [Id.lookup_eq_ok_iff.mp found, Option.bind_some]
  constructor
  · intro goes
    rw [goes] at super
    obtain ⟨name', same, named'⟩ := exists_left_of_rel super
    exact ⟨name', ⟨c, there, rfl, same⟩, named'⟩
  · rintro ⟨name', ⟨c', there', same, extended⟩, named'⟩
    cases table.eq_of_name there' there same
    rw [extended] at super
    obtain ⟨s', goes, named⟩ := exists_right_of_rel super
    cases named.symm.trans named'
    exact goes

/-- A chain that goes on after so many classes has as many and one more. -/
private theorem path_of_chainEnds {n : Nat} (goes : b.chainEnds n (some t) = false)
    (named : b.typeId? name = some t) : ∃ path : List String, path.length = n + 1 ∧
      List.IsChain d.Extends (path : List String) ∧ path.head? = some name ∧ ∀ x ∈ path, d.Names x := by
  have here : d.Names name := table.places.named_iff.mp ⟨t, named⟩
  induction n generalizing name t with
  | zero => exact ⟨[name], rfl, .singleton _, rfl, by simpa using here⟩
  | succ n ih =>
    rw [chainEnds] at goes
    cases super : b.program.types[t.index]?.bind (·.super) with
    | none => simp [super, chainEnds] at goes
    | some s =>
      rw [super] at goes
      obtain ⟨name', extended, named'⟩ := (table.super_iff named).mp super
      obtain ⟨path, length, chain, head, known⟩ :=
        ih goes named' (table.places.named_iff.mp ⟨s, named'⟩)
      refine ⟨name :: path, by simp [length], ?_, rfl, by simpa using ⟨here, known⟩⟩
      refine List.isChain_cons.mpr ⟨fun y first => ?_, chain⟩
      cases head.symm.trans first
      exact extended

/-- A chain that runs into a circle goes on for ever. -/
private theorem not_chainEnds_of_circles (circles : d.Circles name) (n : Nat)
    (named : b.typeId? name = some t) : b.chainEnds n (some t) = false := by
  induction n generalizing name t with
  | zero => rfl
  | succ n ih =>
    obtain ⟨super, extended, circles⟩ : ∃ super, d.Extends name super ∧ d.Circles super := by
      obtain ⟨met, path, circle⟩ := circles
      rcases ReflTransGen.cases_head path with rfl | ⟨super, extended, path⟩
      · obtain ⟨super, extended, path⟩ := TransGen.head'_iff.mp circle
        exact ⟨super, extended, name, path, circle⟩
      · exact ⟨super, extended, met, path, circle⟩
    obtain ⟨c, _, _, supered⟩ := id extended
    obtain ⟨c', type, there, sameName, found, _, rel⟩ := table.found named
    obtain ⟨s, named'⟩ : ∃ s, b.typeId? super = some s := by
      obtain ⟨c, there', sameName', supered⟩ := extended
      cases table.eq_of_name there' there (sameName'.trans sameName.symm)
      rw [supered] at rel
      obtain ⟨s, _, named⟩ := exists_right_of_rel rel
      exact ⟨s, named⟩
    rw [chainEnds, (table.super_iff named).mpr ⟨super, extended, named'⟩]
    exact ih circles named'

omit table in
/-- A chain that runs into no circle meets no class twice. -/
private theorem nodup_of_not_circles {path : List String} (chain : List.IsChain d.Extends path)
    (head : path.head? = some name) (none : ¬ d.Circles name) : path.Nodup := by
  have far : path.Pairwise (TransGen d.Extends) :=
    List.isChain_iff_pairwise.mp (chain.imp fun _ _ => TransGen.single)
  -- A class on the way that came again would be on a circle, and it can be reached.
  have reached : ∀ x ∈ path, ReflTransGen d.Extends name x := by
    cases path with
    | nil => cases head
    | cons first path =>
      cases Option.some.inj head
      intro x there
      rcases List.mem_cons.mp there with rfl | there
      · exact .refl
      · exact ((List.pairwise_cons.mp far).1 x there).to_reflTransGen
  refine far.imp_of_mem fun {x y} there _ later same => none ⟨x, reached x there, ?_⟩
  rw [same]
  exact same ▸ later

/-- Chains end within the number of classes just if they do not run into a circle. -/
theorem chainEnds_iff (named : b.typeId? name = some t) :
    b.chainEnds b.program.types.size (some t) = true ↔ ¬ d.Circles name := by
  constructor
  · intro ends circles
    rw [table.not_chainEnds_of_circles circles _ named] at ends
    cases ends
  · intro none
    by_contra goes
    obtain ⟨path, length, chain, head, known⟩ :=
      table.path_of_chainEnds (Bool.eq_false_iff.mpr goes) named
    have nodup := nodup_of_not_circles chain head none
    have fewer : path.length ≤ d.types.length :=
      length_le_of_injective (R := fun (x : String) (c : Described.Class) => x = c.name)
        (fun {x x' c} same same' => same.trans same'.symm) nodup fun x there => by
          obtain ⟨c, listed, rfl⟩ := known x there
          exact ⟨c, listed, rfl⟩
    rw [length, table.size] at fewer
    omega

end ClassTable

theorem ClassTable.chainEnds_class_iff (table : ClassTable d b) {c : Described.Class}
    (there : c ∈ d.types) :
    b.chainEnds b.program.types.size (b.typeId? c.name) = true ↔ ¬ d.Circles c.name := by
  obtain ⟨t, named⟩ := table.places.named_iff.mpr ⟨c, there, rfl⟩
  rw [named]
  exact table.chainEnds_iff named

theorem meets_checkAcyclic (table : ClassTable d b) :
    Meets (b.checkAcyclic d.types) d.chainDemands
      (fun _ => ∀ c ∈ d.types, ¬ d.Circles c.name) := by
  let demand (c : Described.Class) : Demand := ⟨¬ d.Circles c.name, .cyclicInheritance c.name⟩
  have demands : d.chainDemands = d.types.map demand := (List.map_eq_flatMap ..).symm
  unfold checkAcyclic
  split
  · next c found =>
    obtain ⟨fails, done, rest, split, before⟩ := List.find?_eq_some_iff_append.mp found
    have there : c ∈ d.types := split ▸ List.mem_append_right _ List.mem_cons_self
    refine ⟨done.map demand, demand c, rest.map demand, ?_, ?_, ?_, rfl⟩
    · rw [demands, split, List.map_append, List.map_cons]
    · intro x listed
      obtain ⟨c', earlier, rfl⟩ := List.mem_map.mp listed
      have there' : c' ∈ d.types := split ▸ List.mem_append_left _ earlier
      exact (table.chainEnds_class_iff there').mp (by simpa using before c' earlier)
    · intro none
      rw [(table.chainEnds_class_iff there).mpr none] at fails
      cases fails
  · next none =>
    have acyclic (c : Described.Class) (there : c ∈ d.types) : ¬ d.Circles c.name :=
      (table.chainEnds_class_iff there).mp (by simpa using List.find?_eq_none.mp none c there)
    exact ⟨by simpa only [demands, List.forall_mem_map] using acyclic, acyclic⟩

/-- The phases before chains are checked. -/
theorem meets_supers (d : Described.Program) :
    Meets (linkClasses d) (d.typeDemands ++ d.superDemands) fun b =>
      Supers d d.types b ∧ ClassTable d b := by
  have first : Meets (d.types.foldlM declareType .empty) d.typeDemands (Declared d.types) := by
    have empty : Declared [] empty :=
      ⟨blank_empty, ⟨rfl, rfl, rfl⟩, rfl, fun name t => by simp [typeId?, Builder.empty]⟩
    exact meets_foldlM Declared empty fun done c rest b _ declared => meets_declareType declared c
  refine first.bind fun b₁ _ declared => ?_
  have start : Supers d [] b₁ := by
    refine ⟨declared.blank, declared.unused, declared.places, ?_, fun {i c} there => ?_⟩
    · rw [← Array.length_toList, declared.types, List.length_map]
    · refine ⟨⟨c.name, none, []⟩, ?_, rfl, rfl, fun inside => absurd inside (Nat.not_lt_zero _)⟩
      rw [← Array.getElem?_toList, declared.types, List.getElem?_map, there]
      rfl
  have second : Meets (d.types.foldlM linkSuper b₁) d.superDemands (Supers d d.types) := by
    rw [Described.Program.superDemands, ← demandsAlong_const _ [] d.types]
    exact meets_foldlM (Supers d) start fun done c rest b split supers => meets_linkSuper supers split
  refine second.mono fun b₂ _ supers => ⟨supers, supers.places, supers.size, fun there => ?_⟩
  obtain ⟨type, found, sameName, _, super⟩ := supers.types there
  exact ⟨type, found, sameName, super (List.getElem?_eq_some_iff.mp there).1⟩

/-- The phases before the methods. -/
theorem meets_classes (d : Described.Program) :
    Meets (do
      let b ← d.types.foldlM declareType .empty
      let b ← d.types.foldlM linkSuper b
      b.checkAcyclic d.types
      return b) (d.typeDemands ++ (d.superDemands ++ d.chainDemands)) fun b =>
        Supers d d.types b ∧ ClassTable d b ∧ ∀ c ∈ d.types, ¬ d.Circles c.name := by
  rw [← bind_assoc, ← List.append_assoc]
  refine (meets_supers d).bind fun b _ ⟨supers, table⟩ => ?_
  exact (meets_checkAcyclic table).followed fun _ acyclic => ⟨b, rfl, supers, table, acyclic⟩

end Builder

end PointerAnalysis
