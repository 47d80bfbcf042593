import Mathlib.Data.List.Nodup
import PointerAnalysis.Proofs.Description.Resolution

/-! The phases before the bodies: classes, their super types, methods. They read the names, the
modifiers and the parameters of a description, and of a body only whether it is empty. What they
leave is a coherent program whose methods are numbered in the order of their description and have
no statements yet. -/
namespace PointerAnalysis

namespace Builder

/-- A builder that has read no body. -/
structure Blank (b : Builder) : Prop where
  sound : b.Sound
  entries : b.program.entries = #[]
  unfilled : ∀ {m method}, b.program.method m = .ok method → method.returns = [] ∧ method.body = #[]

theorem blank_empty : empty.Blank where
  sound := {
    coherent := Program.coherent_empty
    vars := by simp [empty, varTable, Program.empty, Registry.empty]
    fields := rfl
    types := fun named => by simp [typeId?, empty] at named }
  entries := rfl
  unfilled found := by simp [Program.method, empty, Program.empty, Id.lookup] at found

/-- A change that leaves methods and entries alone leaves a builder without bodies. -/
private theorem Blank.of_methods {b b' : Builder} (blank : b.Blank) (sound : b'.Sound)
    (methods : b'.program.methods = b.program.methods)
    (entries : b'.program.entries = b.program.entries) : b'.Blank where
  sound := sound
  entries := entries.trans blank.entries
  unfilled found := by
    rw [Program.method, methods] at found
    exact blank.unfilled found

theorem declareType_blank {b b' : Builder} (blank : b.Blank) {type : Described.Class}
    (declared : b.declareType type = .ok b') :
    b'.Blank ∧ b'.program.methods = b.program.methods := by
  unfold declareType at declared
  split at declared
  · cases declared
  · cases declared
    exact ⟨blank.of_methods (addType_sound blank.sound type.name) rfl rfl, rfl⟩

theorem linkSuper_blank {b b' : Builder} (blank : b.Blank) {type : Described.Class}
    (linked : b.linkSuper type = .ok b') :
    b'.Blank ∧ b'.program.methods = b.program.methods := by
  obtain ⟨t, _, linked⟩ := bind_eq_ok_iff.mp linked
  split at linked
  · cases linked
    exact ⟨blank.of_methods (setSuper_sound blank.sound t (by simp)) rfl rfl, rfl⟩
  · obtain ⟨super, resolved, linked⟩ := bind_eq_ok_iff.mp linked
    cases linked
    refine ⟨blank.of_methods (setSuper_sound blank.sound t ?_) rfl rfl, rfl⟩
    intro id same
    exact Option.some.inj same ▸ resolveType_ok blank.sound resolved

/-! ### Methods -/

/-- A builder has declared these methods behind those it had. -/
structure Declaring (b b' : Builder) (declared : List (MethodId × Described.Method)) : Prop where
  blank : b'.Blank
  typeNames : b'.typeNames = b.typeNames
  ids : declared.map (·.1.index) = List.range' b.program.methods.size declared.length
  size : b'.program.methods.size = b.program.methods.size + declared.length

namespace Declaring

variable {b b' b'' : Builder} {first second : List (MethodId × Described.Method)}

theorem nil (blank : b.Blank) : b.Declaring b [] := ⟨blank, rfl, rfl, rfl⟩

theorem append (before : b.Declaring b' first) (after : b'.Declaring b'' second) :
    b.Declaring b'' (first ++ second) where
  blank := after.blank
  typeNames := after.typeNames.trans before.typeNames
  ids := by
    rw [List.map_append, before.ids, after.ids, before.size, List.length_append,
      List.range'_append_1]
  size := by
    rw [after.size, before.size, List.length_append]
    omega

theorem resolveType (declaring : b.Declaring b' first) (name : String) :
    b'.resolveType name = b.resolveType name := by
  simp only [Builder.resolveType, typeId?, declaring.typeNames]

theorem nodup (declaring : b.Declaring b' first) : (first.map (·.1)).Nodup := by
  have indices : ((first.map (·.1)).map Id.index).Nodup := by
    rw [List.map_map]
    exact declaring.ids ▸ List.nodup_range'
  exact List.Nodup.of_map Id.index indices

/-- Where there was no method before, the methods are those declared. -/
theorem known_iff (declaring : b.Declaring b' first) (none : b.program.methods = #[])
    (m : MethodId) :
    (∃ method, b'.program.method m = .ok method) ↔ m ∈ first.map (·.1) := by
  have index : m.index ∈ first.map (·.1.index) ↔ m ∈ first.map (·.1) := by
    simp only [List.mem_map]
    exact exists_congr fun entry => and_congr_right fun _ => Id.ext_iff.symm
  rw [← index, declaring.ids, List.mem_range'_1]
  rw [← declaring.size, none]
  constructor
  · rintro ⟨method, found⟩
    exact ⟨Nat.zero_le _, Id.index_lt_of_lookup found⟩
  · rintro ⟨_, inside⟩
    exact ⟨_, Id.lookup_eq_ok_iff.mpr (Array.getElem?_eq_getElem inside)⟩

end Declaring

/-- One more method. -/
theorem addMethod_declaring {b : Builder} (blank : b.Blank) {owner : TypeId} {type : TypeDecl}
    (known : b.program.type owner = .ok type) (form : MethodForm) (m : Described.Method) :
    b.Declaring (b.addMethod owner m.name m.params form).1
      [((b.addMethod owner m.name m.params form).2, m)] := by
  obtain ⟨sound, id, typeNames, entries, method, methods, declares⟩ :=
    addMethod_spec blank.sound known m.name m.params form
  refine ⟨⟨sound, entries.trans blank.entries, fun {m' method'} found => ?_⟩, typeNames, ?_, ?_⟩
  · rw [Program.method, methods, Id.lookup_push] at found
    rcases found with old | ⟨_, rfl⟩
    · exact blank.unfilled old
    · exact ⟨declares.returns, declares.body⟩
  · simp [id]
  · simp [methods]

theorem declareMethods_spec {b b' : Builder} (blank : b.Blank) {owner : TypeId} {name : String}
    (resolved : b.resolveType name = .ok owner) {seen : List Signature}
    {methods : List Described.Method} {declared : List (MethodId × Described.Method)}
    (ran : b.declareMethods owner name seen methods = .ok (b', declared)) :
    b.Declaring b' declared ∧ declared.map (·.2) = methods := by
  induction methods generalizing b seen declared with
  | nil =>
    cases ran
    exact ⟨.nil blank, rfl⟩
  | cons m methods ih =>
    simp only [declareMethods] at ran
    split at ran
    · cases ran
    · obtain ⟨form, _, ran⟩ := bind_eq_ok_iff.mp ran
      obtain ⟨⟨b₂, others⟩, rest, ran⟩ := bind_eq_ok_iff.mp ran
      cases ran
      obtain ⟨type, known⟩ := resolveType_ok blank.sound resolved
      have first := addMethod_declaring blank known form m
      obtain ⟨second, same⟩ := ih first.blank ((first.resolveType name).trans resolved) rest
      exact ⟨first.append second, congrArg (m :: ·) same⟩

theorem declareAllMethods_spec {b b' : Builder} (blank : b.Blank) {types : List Described.Class}
    {declared : List (MethodId × Described.Method)}
    (ran : b.declareAllMethods types = .ok (b', declared)) :
    b.Declaring b' declared ∧ declared.map (·.2) = types.flatMap (·.methods) := by
  induction types generalizing b declared with
  | nil =>
    cases ran
    exact ⟨.nil blank, rfl⟩
  | cons type types ih =>
    obtain ⟨owner, resolved, ran⟩ := bind_eq_ok_iff.mp ran
    obtain ⟨⟨b₁, first⟩, ranFirst, ran⟩ := bind_eq_ok_iff.mp ran
    obtain ⟨⟨b₂, others⟩, rest, ran⟩ := bind_eq_ok_iff.mp ran
    cases ran
    obtain ⟨before, same⟩ := declareMethods_spec blank resolved ranFirst
    obtain ⟨after, same'⟩ := ih before.blank rest
    refine ⟨before.append after, ?_⟩
    rw [List.map_append, same, same', List.flatMap_cons]

end Builder

namespace Described.Program

/-- The builder that all bodies are read with, and the methods to which they belong. -/
def declare (described : Described.Program) :
    Except LoadError (Builder × List (MethodId × Described.Method)) := do
  let b ← described.types.foldlM Builder.declareType .empty
  let b ← described.types.foldlM Builder.linkSuper b
  b.checkAcyclic described.types
  b.declareAllMethods described.types

/-- A description is read in three parts: declarations, bodies, entries. -/
theorem link_eq (described : Described.Program) : described.link = do
    let (b, declared) ← described.declare
    let b ← declared.foldlM Builder.linkBody b
    if described.entries.isEmpty then .error .noEntry
    else
      let b ← described.entries.foldlM Builder.linkEntry b
      return b.program := by
  simp only [link, declare, bind_assoc]
  rfl

theorem declare_spec {described : Described.Program} {b : Builder}
    {declared : List (MethodId × Described.Method)} (ran : described.declare = .ok (b, declared)) :
    b.Blank ∧ (declared.map (·.1)).Nodup ∧ declared.map (·.2) = described.types.flatMap (·.methods) ∧
      ∀ m, (∃ method, b.program.method m = .ok method) ↔ m ∈ declared.map (·.1) := by
  obtain ⟨b₁, types, ran⟩ := bind_eq_ok_iff.mp ran
  obtain ⟨b₂, supers, ran⟩ := bind_eq_ok_iff.mp ran
  obtain ⟨_, _, ran⟩ := bind_eq_ok_iff.mp ran
  let invariant (b : Builder) := b.Blank ∧ b.program.methods = #[]
  have unfilled₁ : invariant b₁ := by
    refine foldlM_invariant (fun b type b' before declared => ?_) ⟨Builder.blank_empty, rfl⟩ types
    exact (Builder.declareType_blank before.1 declared).imp_right (·.trans before.2)
  have unfilled₂ : invariant b₂ := by
    refine foldlM_invariant (fun b type b' before linked => ?_) unfilled₁ supers
    exact (Builder.linkSuper_blank before.1 linked).imp_right (·.trans before.2)
  obtain ⟨declaring, same⟩ := Builder.declareAllMethods_spec unfilled₂.1 ran
  exact ⟨declaring.blank, declaring.nodup, same, declaring.known_iff unfilled₂.2⟩

end Described.Program

end PointerAnalysis
