import PointerAnalysis.Proofs.Loader
import PointerAnalysis.Proofs.Program.Chains

/-! The check of super types. It follows the chain of each class and remembers the classes it has met, so it
ends on every description, also where a chain leads into a circle that it does not start on. A
description that passes leaves chains on which every later search ends. -/
namespace PointerAnalysis

open Relation

/-- A chain that goes no further runs into no circle. -/
private theorem not_circles_of_end {α : Type} {r : α → α → Prop} {a : α} (stops : ∀ b, ¬ r a b) :
    ¬ ∃ met, ReflTransGen r a met ∧ TransGen r met met := by
  rintro ⟨met, path, circle⟩
  rcases ReflTransGen.cases_head path with rfl | ⟨b, step, _⟩
  · obtain ⟨b, step, _⟩ := TransGen.head'_iff.mp circle
    exact stops b step
  · exact stops b step

/-! ### Following a chain -/

/-- The walk along a chain that remembers what it has met: it stops where the chain ends, or at a class
that it has met before. -/
inductive Program.Follows (p : Program) : List TypeId → Option TypeId → Bool → Prop where
  | ends {seen : List TypeId} : Follows p seen none true
  | again {seen : List TypeId} {t : TypeId} : t ∈ seen → Follows p seen (some t) false
  | goesOn {seen : List TypeId} {t : TypeId} {type : TypeDecl} {ends : Bool} :
      t ∉ seen → p.type t = .ok type → Follows p (t :: seen) type.super ends →
      Follows p seen (some t) ends

namespace Program.Follows

variable {p : Program} {seen : List TypeId} {current : Option TypeId} {ends ends' : Bool}

/-- The walk has one outcome. -/
theorem unique (follows : p.Follows seen current ends) (follows' : p.Follows seen current ends') :
    ends = ends' := by
  induction follows with
  | ends =>
    cases follows'
    rfl
  | again met =>
    cases follows' with
    | again => rfl
    | goesOn new => exact absurd met new
  | goesOn new found _ ih =>
    cases follows' with
    | again met => exact absurd met new
    | goesOn _ found' rest =>
      cases found.symm.trans found'
      exact ih rest

/-- The walk ends: it remembers different classes, and there are finitely many. -/
theorem exists_outcome (known : ∀ {t super}, p.Extends t super → ∃ type, p.type super = .ok type)
    (nodup : seen.Nodup) (declared : ∀ t ∈ seen, ∃ type, p.type t = .ok type)
    (start : ∀ t ∈ current, ∃ type, p.type t = .ok type) :
    ∃ ends, p.Follows seen current ends := by
  -- What is left of the classes gets fewer with every class that is met.
  generalize left : p.types.size + 1 - seen.length = n
  induction n generalizing seen current with
  | zero =>
    have few := length_le_of_declared nodup declared
    omega
  | succ n ih =>
    cases current with
    | none => exact ⟨true, .ends⟩
    | some t =>
      by_cases met : t ∈ seen
      · exact ⟨false, .again met⟩
      · obtain ⟨type, found⟩ := start t rfl
        obtain ⟨ends, rest⟩ := ih (List.nodup_cons.mpr ⟨met, nodup⟩)
          (List.forall_mem_cons.mpr ⟨⟨type, found⟩, declared⟩)
          (fun _ goes => known ⟨type, found, goes⟩) (by rw [List.length_cons]; omega)
        exact ⟨ends, .goesOn met found rest⟩

/-- A class that is met again is on a circle, and a chain with a circle does not end. -/
theorem circles_iff {t : TypeId} (follows : p.Follows seen current ends) (start : current = some t)
    (below : ∀ x ∈ seen, TransGen p.Extends x t) : ends = false ↔ p.Circles t := by
  induction follows generalizing t with
  | ends => cases start
  | @again _ t met =>
    cases start
    exact iff_of_true rfl ⟨t, .refl, below t met⟩
  | @goesOn seen t type ends new found rest ih =>
    cases start
    cases goes : type.super with
    | none =>
      rw [goes] at rest
      cases rest
      refine iff_of_false (by simp) (not_circles_of_end fun super extended => ?_)
      rw [(extends_iff found).mp extended] at goes
      cases goes
    | some super =>
      have extended : p.Extends t super := ⟨type, found, goes⟩
      rw [circles_iff_super extended]
      refine ih goes (List.forall_mem_cons.mpr ⟨.single extended, fun x there => ?_⟩)
      exact (below x there).tail extended

end Program.Follows

/-! ### Names and numbers -/

/-- Where steps can be followed, a circle can be followed to a circle. -/
private theorem circles_of_simulation {α β : Type} {r : α → α → Prop} {r' : β → β → Prop}
    {R : α → β → Prop} (follow : ∀ {a a' x}, R a x → r a a' → ∃ x', R a' x' ∧ r' x x')
    (unique : ∀ {a x x'}, R a x → R a x' → x = x') {a : α} {x : β} (related : R a x)
    (circles : ∃ met, ReflTransGen r a met ∧ TransGen r met met) :
    ∃ met, ReflTransGen r' x met ∧ TransGen r' met met := by
  have far {a a' : α} {x : β} (related : R a x) (path : TransGen r a a') :
      ∃ x', R a' x' ∧ TransGen r' x x' := by
    induction path with
    | single step =>
      obtain ⟨x', related', step'⟩ := follow related step
      exact ⟨x', related', .single step'⟩
    | tail _ step ih =>
      obtain ⟨x', related', path'⟩ := ih
      obtain ⟨x'', related'', step'⟩ := follow related' step
      exact ⟨x'', related'', path'.tail step'⟩
  obtain ⟨met, path, circle⟩ := circles
  obtain ⟨y, here, path'⟩ : ∃ y, R met y ∧ ReflTransGen r' x y := by
    rcases reflTransGen_iff_eq_or_transGen.mp path with rfl | path
    · exact ⟨x, related, .refl⟩
    · obtain ⟨y, here, path'⟩ := far related path
      exact ⟨y, here, path'.to_reflTransGen⟩
  obtain ⟨y', here', circle'⟩ := far here circle
  cases unique here here'
  exact ⟨y, path', circle'⟩

namespace Builder

variable {d : Described.Program} {b b' : Builder}

namespace ClassTable

variable {name : String} {t : TypeId} {type : TypeDecl} (table : ClassTable d b)
include table

theorem extends_iff (named : b.typeId? name = some t) {super : TypeId} :
    b.program.Extends t super ↔ ∃ name', d.Extends name name' ∧ b.typeId? name' = some super :=
  Program.extends_iff_getElem?.trans (table.super_iff named)

/-- Every class of the table has a name. -/
theorem named_of_known (known : b.program.type t = .ok type) :
    ∃ c ∈ d.types, b.typeId? c.name = some t := by
  have inside := Id.index_lt_of_lookup known
  rw [table.size] at inside
  have there : d.types[t.index]? = some d.types[t.index] := List.getElem?_eq_getElem inside
  exact ⟨_, List.getElem_mem inside, (table.places _ t).mpr ⟨_, there, rfl⟩⟩

/-- A super type by name is one in the table. -/
private theorem exists_super (named : b.typeId? name = some t) {name' : String}
    (extended : d.Extends name name') :
    ∃ super, b.typeId? name' = some super ∧ b.program.Extends t super := by
  obtain ⟨c, type, there, rfl, found, _, super⟩ := table.found named
  obtain ⟨c', there', same, extended'⟩ := id extended
  cases table.eq_of_name there' there same
  rw [extended'] at super
  obtain ⟨s, _, named'⟩ := exists_right_of_rel super
  exact ⟨s, named', (table.extends_iff named).mpr ⟨name', extended, named'⟩⟩

theorem circles_iff (named : b.typeId? name = some t) : b.program.Circles t ↔ d.Circles name := by
  constructor
  · refine circles_of_simulation (R := fun t name => b.typeId? name = some t) ?_ table.places.name_eq
      named
    intro t super name named extended
    obtain ⟨name', extended', named'⟩ := (table.extends_iff named).mp extended
    exact ⟨name', named', extended'⟩
  · refine circles_of_simulation (R := fun name t => b.typeId? name = some t) ?_
      ?_ named
    · exact fun named extended => table.exists_super named extended
    · exact fun first second => Option.some.inj (first.symm.trans second)

theorem super_known {super : TypeId} (extended : b.program.Extends t super) :
    ∃ type, b.program.type super = .ok type := by
  obtain ⟨type, known, goes⟩ := extended
  obtain ⟨c, _, named⟩ := table.named_of_known known
  obtain ⟨_, _, named'⟩ := (table.extends_iff named).mp ⟨type, known, goes⟩
  obtain ⟨_, type', _, _, known', _⟩ := table.found named'
  exact ⟨type', known'⟩

/-- If no chain by names runs into a circle, no class of the table is its own ancestor. -/
theorem founded (acyclic : ∀ c ∈ d.types, ¬ d.Circles c.name) : b.program.Founded where
  super_known := table.super_known
  no_circle t circle := by
    obtain ⟨_, ⟨type, known, _⟩, _⟩ := TransGen.head'_iff.mp circle
    obtain ⟨c, there, named⟩ := table.named_of_known known
    exact acyclic c there ((table.circles_iff named).mp ⟨t, .refl, circle⟩)

/-- A description decides the super types in its tables. -/
theorem supers_eq (table' : ClassTable d b') :
    b'.program.types.map (·.super) = b.program.types.map (·.super) := by
  have numbers (name : String) : b'.typeId? name = b.typeId? name :=
    Option.ext fun t => (table'.places name t).trans (table.places name t).symm
  refine Array.ext_getElem? fun i => ?_
  rw [Array.getElem?_map, Array.getElem?_map]
  cases there : d.types[i]? with
  | none =>
    have outside := List.getElem?_eq_none_iff.mp there
    rw [Array.getElem?_eq_none (table'.size ▸ outside), Array.getElem?_eq_none (table.size ▸ outside)]
  | some c =>
    obtain ⟨type, found, _, super⟩ := table.types there
    obtain ⟨type', found', _, super'⟩ := table'.types there
    rw [found, found', Option.map_some, Option.map_some]
    cases named : c.super with
    | none => rw [(none_iff_of_rel super).mpr named, (none_iff_of_rel super').mpr named]
    | some name =>
      rw [named] at super super'
      obtain ⟨s, goes, here⟩ := exists_right_of_rel super
      obtain ⟨s', goes', here'⟩ := exists_right_of_rel super'
      rw [goes, goes', ← here, ← here', numbers]

end ClassTable

/-! ### The check -/

/-- The check of these classes, one after another: each chain is followed from the class on, and the first
that does not end is reported. -/
inductive Checks (b : Builder) : List Described.Class → Except LoadError Unit → Prop where
  | done : Checks b [] (.ok ())
  | refuses {c : Described.Class} {types : List Described.Class} :
      b.program.Follows [] (b.typeId? c.name) false →
      Checks b (c :: types) (.error (.cyclicInheritance c.name))
  | goesOn {c : Described.Class} {types : List Described.Class} {result : Except LoadError Unit} :
      b.program.Follows [] (b.typeId? c.name) true → Checks b types result → Checks b (c :: types) result

/-- A chain is followed to its end just if it ends within the number of classes. -/
theorem ClassTable.follows_iff (table : ClassTable d b) {c : Described.Class} (there : c ∈ d.types)
    {ends : Bool} : b.program.Follows [] (b.typeId? c.name) ends ↔
      b.chainEnds b.program.types.size (b.typeId? c.name) = ends := by
  have bounded := table.chainEnds_class_iff there
  obtain ⟨t, named⟩ := table.places.named_iff.mpr ⟨c, there, rfl⟩
  rw [named] at bounded ⊢
  obtain ⟨_, type, _, _, known, _⟩ := table.found named
  obtain ⟨outcome, follows⟩ := Program.Follows.exists_outcome table.super_known List.nodup_nil (by simp)
    fun t' same => ⟨type, Option.some.inj same ▸ known⟩
  have circles := (follows.circles_iff rfl (by simp)).trans (table.circles_iff named)
  have same : b.chainEnds b.program.types.size (some t) = outcome := by
    rw [← circles, Bool.not_eq_false] at bounded
    exact Bool.eq_iff_iff.mpr bounded
  rw [same]
  exact ⟨fun follows' => follows.unique follows', fun same => same ▸ follows⟩

private theorem checkAcyclic_cons (b : Builder) (c : Described.Class) (types : List Described.Class) :
    b.checkAcyclic (c :: types) = if b.chainEnds b.program.types.size (b.typeId? c.name) then
      b.checkAcyclic types else .error (.cyclicInheritance c.name) := by
  unfold checkAcyclic
  rw [List.find?_cons]
  cases b.chainEnds b.program.types.size (b.typeId? c.name) <;> rfl

theorem ClassTable.checks_iff (table : ClassTable d b) {types : List Described.Class}
    (listed : ∀ c ∈ types, c ∈ d.types) {result : Except LoadError Unit} :
    b.Checks types result ↔ b.checkAcyclic types = result := by
  induction types with
  | nil =>
    constructor
    · rintro ⟨⟩
      rfl
    · rintro rfl
      exact .done
  | cons c types ih =>
    obtain ⟨there, listed⟩ := List.forall_mem_cons.mp listed
    rw [checkAcyclic_cons]
    cases ends : b.chainEnds b.program.types.size (b.typeId? c.name) with
    | false =>
      have follows := (table.follows_iff there).mpr ends
      constructor
      · rintro (_ | _ | ⟨follows', _⟩)
        · rfl
        · cases follows.unique follows'
      · rintro rfl
        exact .refuses follows
    | true =>
      have follows := (table.follows_iff there).mpr ends
      refine Iff.trans ⟨?_, .goesOn follows⟩ (ih listed)
      rintro (_ | follows' | ⟨_, rest⟩)
      · cases follows.unique follows'
      · exact rest

end Builder

/-! ### What the check says -/

namespace Described.Program

variable {d : Described.Program}

/-- The first class whose chain runs into a circle. -/
def FirstCircle (d : Described.Program) (c : Class) : Prop :=
  ∃ before after, d.types = before ++ c :: after ∧ (∀ c' ∈ before, ¬ d.Circles c'.name) ∧
    d.Circles c.name

private theorem firstBroken_chainDemands {e : LoadError} : FirstBroken d.chainDemands e ↔
    ∃ c, d.FirstCircle c ∧ e = .cyclicInheritance c.name := by
  let demand (c : Class) : Demand := ⟨¬ d.Circles c.name, .cyclicInheritance c.name⟩
  have demands : d.chainDemands = d.types.map demand := (List.map_eq_flatMap ..).symm
  constructor
  · rintro ⟨met, broken, later, split, passed, fails, rfl⟩
    rw [demands] at split
    obtain ⟨before, rest, whole, rfl, mapped⟩ := List.map_eq_append_iff.mp split
    obtain ⟨c, after, rfl, rfl, rfl⟩ := List.map_eq_cons_iff.mp mapped
    refine ⟨c, ⟨before, after, whole, fun c' earlier => ?_, not_not.mp fails⟩, rfl⟩
    exact passed (demand c') (List.mem_map_of_mem earlier)
  · rintro ⟨c, ⟨before, after, split, passed, circles⟩, rfl⟩
    refine ⟨before.map demand, demand c, after.map demand, ?_, ?_, not_not.mpr circles, rfl⟩
    · rw [demands, split, List.map_append, List.map_cons]
    · exact List.forall_mem_map.mpr passed

/-- Names of their own and super types that exist are all that the phases before the check ask for. -/
private theorem linkClasses_ok (distinct : (d.types.map (·.name)).Nodup)
    (named : ∀ c ∈ d.types, ∀ super, c.super = some super → d.Names super) :
    ∃ b, Builder.linkClasses d = .ok b ∧ Builder.ClassTable d b := by
  have meets := Builder.meets_supers d
  have holds : ∀ x ∈ d.typeDemands ++ d.superDemands, x.holds := by
    simp only [List.forall_mem_append, typeDemands, superDemands, List.forall_mem_flatMap,
      forall_mem_demandsAlong, List.nil_append, List.forall_mem_singleton, List.forall_mem_map,
      Option.mem_toList]
    exact ⟨nodup_map_iff.mp distinct, named⟩
  obtain ⟨b, ran⟩ := meets.ok_iff.mpr holds
  exact ⟨b, ran, (meets.of_ok ran).2.2⟩

/-- The classes of a loaded program are those that have been checked. -/
private theorem classTable_of_link {p : PointerAnalysis.Program} (loaded : d.link = .ok p) :
    ∃ b, Builder.ClassTable d b ∧ (∀ c ∈ d.types, ¬ d.Circles c.name) ∧ p.types = b.program.types := by
  obtain ⟨b, declared, ran, ready, _⟩ := ((meets_link d).of_ok loaded).2
  obtain ⟨_, b', read, same, _⟩ := link_spec ran loaded
  rw [same]
  exact ⟨b, ready.classes, ready.acyclic, read.later.types⟩

/-- Chains of super types end in every loaded program. -/
theorem founded_of_link {p : PointerAnalysis.Program} (loaded : d.link = .ok p) : p.Founded := by
  obtain ⟨b, table, acyclic, types⟩ := classTable_of_link loaded
  exact (table.founded acyclic).congr (congrArg (·.map (·.super)) types)

end Described.Program

open Described.Program in
/-- For classes with names of their own whose super types exist, whatever circles they run in, the check
comes to one outcome, which is that of the bounded check. It passes just if no class is its own
ancestor, and else it reports the first class whose chain runs into a circle. On classes that pass,
whatever methods they come to declare, lookups and dispatch end and ask the class and its ancestors
once each at most. Loaded programs are made of classes that pass. -/
theorem circle_check_is_exact {d : Described.Program} (distinct : (d.types.map (·.name)).Nodup)
    (named : ∀ c ∈ d.types, ∀ super, c.super = some super → d.Names super) :
    ∃ b, Builder.linkClasses d = .ok b ∧
      (∀ result, b.Checks d.types result ↔ b.checkAcyclic d.types = result) ∧
      (b.checkAcyclic d.types = .ok () ↔ ∀ name, ¬ TransGen d.Extends name name) ∧
      (∀ e, b.checkAcyclic d.types = .error e ↔
        ∃ c, d.FirstCircle c ∧ e = .cyclicInheritance c.name) ∧
      (b.checkAcyclic d.types = .ok () → ∀ p : Program,
        p.types.map (·.super) = b.program.types.map (·.super) → p.DeclaredKnown →
        ∀ t type, p.type t = .ok type → ∀ s,
          p.AsksOnce (Program.declarationIn s) t (p.lookupMethod t s) ∧
          p.AsksOnce (p.implementationIn s) t (p.dispatch t s)) ∧
      ∀ p, d.link = .ok p → b.checkAcyclic d.types = .ok () ∧
        p.types.map (·.super) = b.program.types.map (·.super) ∧ p.DeclaredKnown := by
  obtain ⟨b, ran, table⟩ := linkClasses_ok distinct named
  have meets := Builder.meets_checkAcyclic table
  have passes : b.checkAcyclic d.types = .ok () ↔ ∀ name, ¬ TransGen d.Extends name name := by
    rw [← chainDemands_iff]
    refine ⟨fun passed => (meets.of_ok passed).2, fun acyclic => ?_⟩
    obtain ⟨⟨⟩, passed⟩ := meets.ok_iff.mpr (by
      simpa only [chainDemands, List.forall_mem_flatMap, List.forall_mem_singleton] using acyclic)
    exact passed
  refine ⟨b, ran, fun result => table.checks_iff fun _ => id, passes,
    fun e => meets.error_iff.trans firstBroken_chainDemands, ?_, fun p loaded => ?_⟩
  · intro passed p supers declared t type found s
    have founded : p.Founded := (table.founded (meets.of_ok passed).2).congr supers
    exact ⟨founded.searchChain_once (fun _ _ _ => ⟨_, rfl⟩) found (Nat.le_succ _),
      founded.searchChain_once (declared.implementationIn_ok s) found (Nat.le_succ _)⟩
  · obtain ⟨b', table', _, types⟩ := classTable_of_link loaded
    refine ⟨passes.mpr (wellFormed_of_link loaded).chains_end, ?_, (link_coherent loaded).declaredKnown⟩
    rw [types]
    exact table.supers_eq table'

/-- Two classes that extend each other, and a class before them whose chain leads into their circle. -/
def tangled : Described.Program where
  types := [⟨"D", none, []⟩, ⟨"C", some "A", []⟩, ⟨"A", some "B", []⟩, ⟨"B", some "A", []⟩]
  entries := []

open Described.Program in
theorem circle_check_is_exact_tangled :
    (∃ b, Builder.linkClasses tangled = .ok b ∧
      b.Checks tangled.types (.error (.cyclicInheritance "C"))) ∧
    ∃ b p, Builder.linkClasses boxes = .ok b ∧ b.Checks boxes.types (.ok ()) ∧ boxes.link = .ok p ∧
      p.AsksOnce (p.implementationIn ⟨"get", 0⟩) ⟨1⟩ (p.dispatch ⟨1⟩ ⟨"get", 0⟩) := by
  constructor
  · obtain ⟨b, ran, checks, _, reports, _⟩ :=
      circle_check_is_exact (d := tangled) (by decide +kernel) (by simp [tangled, Names])
    refine ⟨b, ran, (checks _).mpr ((reports _).mpr ⟨⟨"C", some "A", []⟩, ?_, rfl⟩)⟩
    have up : tangled.Extends "C" "A" := ⟨⟨"C", some "A", []⟩, by simp [tangled], rfl, rfl⟩
    have there : tangled.Extends "A" "B" := ⟨⟨"A", some "B", []⟩, by simp [tangled], rfl, rfl⟩
    have back : tangled.Extends "B" "A" := ⟨⟨"B", some "A", []⟩, by simp [tangled], rfl, rfl⟩
    refine ⟨[⟨"D", none, []⟩], _, rfl, fun c' earlier => ?_, "A", .single up, .head there (.single back)⟩
    rw [List.mem_singleton.mp earlier]
    exact not_circles_of_end fun super extended => by simp [Extends, tangled] at extended
  · obtain ⟨p, _, loaded, _⟩ := boxes_solved
    have wellFormed := wellFormed_of_link loaded
    obtain ⟨b, ran, checks, _, _, walks, passed⟩ :=
      circle_check_is_exact wellFormed.types_distinct wellFormed.supers_named
    obtain ⟨passed, supers, known⟩ := passed p loaded
    have size := (standsFor_of_link loaded).types_size
    have inside : 1 < p.types.size := by
      rw [size]
      decide
    have found : p.type ⟨1⟩ = .ok p.types[1] := Id.lookup_eq_ok_iff.mpr (Array.getElem?_eq_getElem inside)
    exact ⟨b, p, ran, (checks _).mpr passed, loaded, (walks passed p supers known _ _ found _).2⟩

end PointerAnalysis
