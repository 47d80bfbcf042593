import PointerAnalysis.Proofs.Description.Bodies
import PointerAnalysis.Proofs.Description.Declare

/-! From descriptions to programs. Once classes and methods are declared, a description stands for a
program just if all names in its bodies and entries resolve, and that does not change while they are
read. The program that comes out is coherent and says what its description says. -/
namespace PointerAnalysis

namespace Builder

/-! ### All bodies -/

/-- A builder has read the bodies of these methods. -/
structure Bodies (b b' : Builder) (declared : List (MethodId × Described.Method)) : Prop where
  sound : b'.Sound
  later : b.Later b'
  entries : b'.program.entries = b.program.entries
  others : ∀ {m}, m ∉ declared.map (·.1) → b'.program.method m = b.program.method m
  filled : ∀ {m described method}, (m, described) ∈ declared → b.program.method m = .ok method →
    ∃ method', b'.program.method m = .ok method' ∧ b'.Fills m described.body method method'
  vars : ∀ x, x ∈ b'.varNames.toList ↔ x ∈ b.varNames.toList ∨
    ∃ described, (x.1, described) ∈ declared ∧ ∃ s ∈ described.body, x.2 ∈ s.vars
  fields : ∀ x, x ∈ b'.fieldNames.toList ↔ x ∈ b.fieldNames.toList ∨
    ∃ entry ∈ declared, ∃ s ∈ entry.2.body, x ∈ s.fields

theorem Bodies.cons {b b₁ b₂ : Builder} {m : MethodId} {described : Described.Method}
    {declared : List (MethodId × Described.Method)} (once : m ∉ declared.map (·.1))
    (first : b.Reading b₁ m described.body) (rest : b₁.Bodies b₂ declared) :
    b.Bodies b₂ ((m, described) :: declared) where
  sound := rest.sound
  later := first.later.trans rest.later
  entries := rest.entries.trans first.entries
  others other := by
    rw [List.map_cons, List.mem_cons, not_or] at other
    exact (rest.others other.2).trans (first.others other.1)
  filled := by
    intro m' described' method there found
    rcases List.mem_cons.mp there with same | there
    · cases same
      obtain ⟨method₁, found₁, fills⟩ := first.filled found
      refine ⟨method₁, (rest.others once).trans found₁, fills.later rest.later ?_⟩
      exact fun s there name named => (first.vars _).mpr (.inr ⟨rfl, s, there, named⟩)
    · have other : m' ≠ m := fun same => once (List.mem_map.mpr ⟨(m', described'), there, same⟩)
      exact rest.filled there ((first.others other).trans found)
  vars := by
    intro x
    rw [rest.vars, first.vars, or_assoc]
    refine or_congr_right ⟨?_, ?_⟩
    · rintro (⟨same, s, there, named⟩ | ⟨described', listed, named⟩)
      · exact ⟨described, by rw [same]; exact List.mem_cons_self, s, there, named⟩
      · exact ⟨described', List.mem_cons_of_mem _ listed, named⟩
    · rintro ⟨described', listed, named⟩
      rcases List.mem_cons.mp listed with same | listed
      · cases same
        exact .inl ⟨rfl, named⟩
      · exact .inr ⟨described', listed, named⟩
  fields := by
    intro x
    rw [rest.fields, first.fields, or_assoc]
    simp only [List.exists_mem_cons_iff]

/-- The bodies are read just if all that their statements refer to is there. -/
theorem linkBodies_spec {b : Builder} (sound : b.Sound)
    {declared : List (MethodId × Described.Method)} (once : (declared.map (·.1)).Nodup)
    (known : ∀ entry ∈ declared, ∃ method, b.program.method entry.1 = .ok method) :
    ((∃ b', declared.foldlM linkBody b = .ok b') ↔
        ∀ entry ∈ declared, ∀ s ∈ entry.2.body, b.Resolves s) ∧
      ∀ b', declared.foldlM linkBody b = .ok b' → b.Bodies b' declared := by
  induction declared generalizing b with
  | nil =>
    refine ⟨by simp, fun b' linked => ?_⟩
    cases linked
    exact ⟨sound, .refl b, rfl, fun _ => rfl, by simp, by simp, by simp⟩
  | cons entry declared ih =>
    obtain ⟨m, described⟩ := entry
    obtain ⟨new, once⟩ := List.nodup_cons.mp once
    obtain ⟨⟨method, found⟩, known⟩ := List.forall_mem_cons.mp known
    obtain ⟨resolves, reading⟩ := linkBody_spec sound found described.body
    have others {b₁ : Builder} (linked : b.linkBody (m, described) = .ok b₁) :=
      ih (reading b₁ linked).sound once fun entry there => by
        obtain ⟨method, found⟩ := known entry there
        obtain ⟨method', found', _⟩ := (reading b₁ linked).later.method_header found
        exact ⟨method', found'⟩
    constructor
    · rw [List.foldlM_cons, List.forall_mem_cons, ← resolves]
      constructor
      · rintro ⟨b', linked⟩
        obtain ⟨b₁, first, rest⟩ := bind_eq_ok_iff.mp linked
        refine ⟨⟨b₁, first⟩, fun entry there s listed => ?_⟩
        exact ((reading b₁ first).later.resolves s).mp
          ((others first).1.mp ⟨b', rest⟩ entry there s listed)
      · rintro ⟨⟨b₁, first⟩, rest⟩
        obtain ⟨b', linked⟩ := (others first).1.mpr fun entry there s listed =>
          ((reading b₁ first).later.resolves s).mpr (rest entry there s listed)
        exact ⟨b', bind_eq_ok_iff.mpr ⟨b₁, first, linked⟩⟩
    · intro b' linked
      obtain ⟨b₁, first, rest⟩ := bind_eq_ok_iff.mp linked
      exact .cons new (reading b₁ first) ((others first).2 b' rest)

/-! ### Entries -/

/-- Where entries are added, nothing else changes. -/
theorem later_addEntry (b : Builder) (m : MethodId) : b.Later (b.addEntry m) :=
  ⟨rfl, rfl, rfl, .refl _, .refl _, id⟩

/-- The entries are read just if all of them are there. -/
theorem linkEntries_spec {b : Builder} (sound : b.Sound) (names : List String) :
    ((∃ b', names.foldlM linkEntry b = .ok b') ↔
        ∀ name ∈ names, ∃ m, b.resolveMethod name none = .ok m) ∧
      ∀ b', names.foldlM linkEntry b = .ok b' → b'.Sound ∧
        b'.program = { b.program with entries := b'.program.entries } ∧
        ∀ m, m ∈ b'.program.entries ↔
          m ∈ b.program.entries ∨ ∃ name ∈ names, b.resolveMethod name none = .ok m := by
  induction names generalizing b with
  | nil =>
    refine ⟨by simp, fun b' linked => ?_⟩
    cases linked
    exact ⟨sound, rfl, by simp⟩
  | cons name names ih =>
    cases resolved : b.resolveMethod name none with
    | error e => simp [linkEntry, resolved]
    | ok first =>
      obtain ⟨method, known, _⟩ := resolveMethod_ok sound resolved
      obtain ⟨resolves, added⟩ := ih (addEntry_sound sound known)
      have later := later_addEntry b first
      have linked_iff (b' : Builder) : (name :: names).foldlM linkEntry b = .ok b' ↔
          names.foldlM linkEntry (b.addEntry first) = .ok b' := by
        simp [List.foldlM_cons, linkEntry, resolved]
      simp only [linked_iff, resolves, later.resolveMethod, List.forall_mem_cons, resolved,
        List.exists_mem_cons_iff] at added ⊢
      refine ⟨by simp, fun b' linked => ?_⟩
      obtain ⟨sound', rest, entries⟩ := added b' linked
      refine ⟨sound', by rw [rest]; rfl, fun m => (entries m).trans ?_⟩
      simp only [addEntry, Array.mem_push, Except.ok.injEq, eq_comm (a := first), or_assoc]

end Builder

namespace Described.Program

variable {described : Described.Program} {b : Builder}
  {declared : List (MethodId × Described.Method)}

/-- Once its classes and methods are declared, a description stands for a program just if it has
entries and all names in its bodies and entries resolve. -/
theorem link_iff (ran : described.declare = .ok (b, declared)) :
    (∃ p, described.link = .ok p) ↔ (∀ entry ∈ declared, ∀ s ∈ entry.2.body, b.Resolves s) ∧
      described.entries ≠ [] ∧ ∀ name ∈ described.entries, ∃ m, b.resolveMethod name none = .ok m := by
  obtain ⟨blank, once, _, known⟩ := declare_spec ran
  obtain ⟨resolves, bodies⟩ := Builder.linkBodies_spec blank.sound once fun entry there =>
    (known _).mpr (List.mem_map_of_mem there)
  rw [← resolves, link_eq, ran, ok_bind]
  constructor
  · rintro ⟨p, linked⟩
    obtain ⟨b₁, ranBodies, linked⟩ := bind_eq_ok_iff.mp linked
    split at linked
    · cases linked
    · next some =>
      obtain ⟨b₂, ranEntries, _⟩ := bind_eq_ok_iff.mp linked
      have read := bodies b₁ ranBodies
      have all := (Builder.linkEntries_spec read.sound described.entries).1.mp ⟨b₂, ranEntries⟩
      simp only [read.later.resolveMethod] at all
      exact ⟨⟨b₁, ranBodies⟩, by simpa using some, all⟩
  · rintro ⟨⟨b₁, ranBodies⟩, some, all⟩
    have read := bodies b₁ ranBodies
    simp only [← read.later.resolveMethod] at all
    obtain ⟨b₂, ranEntries⟩ := (Builder.linkEntries_spec read.sound described.entries).1.mpr all
    exact ⟨b₂.program, by simp [ranBodies, ranEntries, some]⟩

/-- What the program of a description is made of. -/
theorem link_spec (ran : described.declare = .ok (b, declared)) {p : PointerAnalysis.Program}
    (linked : described.link = .ok p) :
    p.Coherent ∧ ∃ b', b.Bodies b' declared ∧
      p = { b'.program with entries := p.entries } ∧
      ∀ m, m ∈ p.entries ↔ ∃ name ∈ described.entries, b.resolveMethod name none = .ok m := by
  obtain ⟨blank, once, _, known⟩ := declare_spec ran
  obtain ⟨_, bodies⟩ := Builder.linkBodies_spec blank.sound once fun entry there =>
    (known _).mpr (List.mem_map_of_mem there)
  rw [link_eq, ran, ok_bind] at linked
  obtain ⟨b₁, ranBodies, linked⟩ := bind_eq_ok_iff.mp linked
  split at linked
  · cases linked
  obtain ⟨b₂, ranEntries, linked⟩ := bind_eq_ok_iff.mp linked
  cases linked
  have read := bodies b₁ ranBodies
  obtain ⟨_, added⟩ := Builder.linkEntries_spec read.sound described.entries
  obtain ⟨sound, rest, entries⟩ := added b₂ ranEntries
  refine ⟨sound.coherent, b₁, read, rest, fun m => ?_⟩
  simp only [entries, read.entries, blank.entries, read.later.resolveMethod, Array.not_mem_empty, false_or]

/-- Every program that a description stands for is coherent. -/
theorem link_coherent {p : PointerAnalysis.Program} (linked : described.link = .ok p) :
    p.Coherent := by
  have ran := linked
  rw [link_eq] at ran
  obtain ⟨⟨b, declared⟩, ran, _⟩ := bind_eq_ok_iff.mp ran
  exact (link_spec ran linked).1

end Described.Program

end PointerAnalysis
