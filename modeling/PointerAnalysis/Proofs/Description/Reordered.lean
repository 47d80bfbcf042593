import PointerAnalysis.Proofs.Description.Link

/-! Descriptions in another order. Only the statements inside a body and the entries are moved; all
that is declared before the bodies comes out the same, and so does whether a description stands for
a program. -/
namespace PointerAnalysis

namespace Described

/-- The same method with its statements in another order. -/
structure Method.Reordered (m m' : Method) : Prop where
  name : m'.name = m.name
  isStatic : m'.isStatic = m.isStatic
  isAbstract : m'.isAbstract = m.isAbstract
  params : m'.params = m.params
  body : m.body.Perm m'.body

/-- The same class with the statements of its methods in another order. -/
structure Class.Reordered (c c' : Class) : Prop where
  name : c'.name = c.name
  super : c'.super = c.super
  methods : List.Forall₂ Method.Reordered c.methods c'.methods

/-- The same program with the statements of its methods and its entries in another order. -/
structure Program.Reordered (d d' : Program) : Prop where
  types : List.Forall₂ Class.Reordered d.types d'.types
  entries : d.entries.Perm d'.entries

theorem Method.Reordered.refl (m : Method) : m.Reordered m := ⟨rfl, rfl, rfl, rfl, .refl _⟩

theorem Method.Reordered.symm {m m' : Method} (same : m.Reordered m') : m'.Reordered m :=
  ⟨same.name.symm, same.isStatic.symm, same.isAbstract.symm, same.params.symm, same.body.symm⟩

theorem Class.Reordered.symm {c c' : Class} (same : c.Reordered c') : c'.Reordered c where
  name := same.name.symm
  super := same.super.symm
  methods := List.Forall₂.flip (same.methods.imp fun _ _ => Method.Reordered.symm)

theorem Program.Reordered.symm {d d' : Program} (same : d.Reordered d') : d'.Reordered d where
  types := List.Forall₂.flip (same.types.imp fun _ _ => Class.Reordered.symm)
  entries := same.entries.symm

theorem Program.Reordered.refl (d : Program) : d.Reordered d where
  types := List.forall₂_same.mpr fun _ _ =>
    ⟨rfl, rfl, List.forall₂_same.mpr fun m _ => Method.Reordered.refl m⟩
  entries := .refl _

/-- A program with every body and the list of entries turned around. -/
def Program.reversed (d : Program) : Program where
  types := d.types.map fun c =>
    { c with methods := c.methods.map fun m => { m with body := m.body.reverse } }
  entries := d.entries.reverse

theorem Program.reordered_reversed (d : Program) : d.Reordered d.reversed where
  types := by
    refine List.forall₂_map_right_iff.mpr (List.forall₂_same.mpr fun c _ => ⟨rfl, rfl, ?_⟩)
    refine List.forall₂_map_right_iff.mpr (List.forall₂_same.mpr fun m _ => ?_)
    exact ⟨rfl, rfl, rfl, rfl, (List.reverse_perm _).symm⟩
  entries := (List.reverse_perm _).symm

end Described

namespace Builder

variable {b b' : Builder}

/-- The same method under the same number, with its statements in another order. -/
def SameEntry (entry entry' : MethodId × Described.Method) : Prop :=
  entry'.1 = entry.1 ∧ entry.2.Reordered entry'.2

theorem checkAcyclic_reordered {types types' : List Described.Class}
    (same : List.Forall₂ Described.Class.Reordered types types') :
    b.checkAcyclic types' = b.checkAcyclic types := by
  induction same with
  | nil => rfl
  | @cons type type' _ _ first _ ih =>
    unfold checkAcyclic at ih ⊢
    simp only [List.find?_cons, first.name]
    cases b.chainEnds b.program.types.size (b.typeId? type.name) with
    | true => exact ih
    | false => exact congrArg (Except.error ∘ LoadError.cyclicInheritance) first.name

theorem methodForm_reordered {m m' : Described.Method} (same : m.Reordered m') (owner : String) :
    methodForm owner m' = methodForm owner m := by
  simp only [methodForm, same.name, same.isStatic, same.isAbstract, same.body.isEmpty_eq]

theorem declareMethods_reordered {owner : TypeId} {name : String} {seen : List Signature}
    {methods methods' : List Described.Method} {declared : List (MethodId × Described.Method)}
    (same : List.Forall₂ Described.Method.Reordered methods methods')
    (ran : b.declareMethods owner name seen methods = .ok (b', declared)) :
    ∃ declared', b.declareMethods owner name seen methods' = .ok (b', declared') ∧
      List.Forall₂ SameEntry declared declared' := by
  induction same generalizing b seen declared with
  | nil =>
    cases ran
    exact ⟨[], rfl, .nil⟩
  | @cons m m' methods methods' first rest ih =>
    simp only [declareMethods] at ran ⊢
    rw [first.name, first.params, methodForm_reordered first]
    split at ran
    · cases ran
    · next new =>
      obtain ⟨form, made, ran⟩ := bind_eq_ok_iff.mp ran
      obtain ⟨⟨b₁, others⟩, ranOthers, ran⟩ := bind_eq_ok_iff.mp ran
      cases ran
      obtain ⟨others', ranOthers', related⟩ := ih ranOthers
      refine ⟨(_, m') :: others', ?_, .cons ⟨rfl, first⟩ related⟩
      rw [if_neg new, made]
      simp only [ok_bind, ranOthers', pure_eq_ok]

theorem declareAllMethods_reordered {types types' : List Described.Class}
    {declared : List (MethodId × Described.Method)}
    (same : List.Forall₂ Described.Class.Reordered types types')
    (ran : b.declareAllMethods types = .ok (b', declared)) :
    ∃ declared', b.declareAllMethods types' = .ok (b', declared') ∧
      List.Forall₂ SameEntry declared declared' := by
  induction same generalizing b declared with
  | nil =>
    cases ran
    exact ⟨[], rfl, .nil⟩
  | cons first rest ih =>
    obtain ⟨owner, resolved, ran⟩ := bind_eq_ok_iff.mp ran
    obtain ⟨⟨b₁, methods⟩, ranFirst, ran⟩ := bind_eq_ok_iff.mp ran
    obtain ⟨⟨b₂, others⟩, ranRest, ran⟩ := bind_eq_ok_iff.mp ran
    cases ran
    obtain ⟨methods', ranFirst', related⟩ := declareMethods_reordered first.methods ranFirst
    obtain ⟨others', ranRest', related'⟩ := ih ranRest
    refine ⟨methods' ++ others', ?_, List.rel_append related related'⟩
    simp only [declareAllMethods, first.name, resolved, ranFirst', ranRest', ok_bind, pure_eq_ok]

end Builder

namespace Described.Program

variable {described described' : Described.Program} {b : Builder}
  {declared : List (MethodId × Described.Method)}

/-- Declarations do not depend on the order of statements. -/
theorem Reordered.declare (same : described.Reordered described')
    (ran : described.declare = .ok (b, declared)) :
    ∃ declared', described'.declare = .ok (b, declared') ∧
      List.Forall₂ Builder.SameEntry declared declared' := by
  obtain ⟨b₁, types, ran⟩ := bind_eq_ok_iff.mp ran
  obtain ⟨b₂, supers, ran⟩ := bind_eq_ok_iff.mp ran
  obtain ⟨_, acyclic, ran⟩ := bind_eq_ok_iff.mp ran
  obtain ⟨declared', ran', related⟩ := Builder.declareAllMethods_reordered same.types ran
  have types' : described'.types.foldlM Builder.declareType .empty = .ok b₁ := by
    rw [← types]
    refine foldlM_congr (List.Forall₂.flip (same.types.imp fun type type' first b => ?_)) _
    simp only [Builder.declareType, first.name]
  have supers' : described'.types.foldlM Builder.linkSuper b₁ = .ok b₂ := by
    rw [← supers]
    refine foldlM_congr (List.Forall₂.flip (same.types.imp fun type type' first b => ?_)) _
    simp only [Builder.linkSuper, first.name, first.super]
  rw [← Builder.checkAcyclic_reordered same.types] at acyclic
  exact ⟨declared', by simp only [Program.declare, types', supers', acyclic, ran', ok_bind], related⟩

/-- Whether a description stands for a program does not depend on the order of its statements and
entries. -/
theorem Reordered.links (same : described.Reordered described')
    (linked : ∃ p, described.link = .ok p) : ∃ p, described'.link = .ok p := by
  obtain ⟨b, declared, ran⟩ : ∃ b declared, described.declare = .ok (b, declared) := by
    obtain ⟨p, linked⟩ := linked
    rw [link_eq] at linked
    obtain ⟨⟨b, declared⟩, ran, _⟩ := bind_eq_ok_iff.mp linked
    exact ⟨b, declared, ran⟩
  obtain ⟨declared', ran', related⟩ := same.declare ran
  obtain ⟨resolves, some, entries⟩ := (link_iff ran).mp linked
  refine (link_iff ran').mpr ⟨fun entry' there s listed => ?_, ?_, fun name listed => ?_⟩
  · obtain ⟨entry, there, _, reordered⟩ := exists_left_of_forall₂ related there
    exact resolves entry there s (reordered.body.mem_iff.mpr listed)
  · intro none
    have empty := same.entries
    rw [none] at empty
    exact some empty.eq_nil
  · exact entries name (same.entries.mem_iff.mpr listed)

end Described.Program

end PointerAnalysis
