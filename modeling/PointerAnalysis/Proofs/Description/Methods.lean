import PointerAnalysis.Proofs.Description.Classes
import PointerAnalysis.Proofs.Description.Meaning

/-! Methods and what finds them. Every method gets the number of its place among the methods of all
classes and is declared by its class. As chains of super types end, a lookup finds the method that its
class has by name: its own, or else the inherited one. -/
namespace PointerAnalysis

namespace Builder

variable {b b' : Builder} {d : Described.Program} {name : String} {t : TypeId}

/-- A name of a class is its only one. -/
theorem Places.name_eq {types : List Described.Class} {name' : String} (places : b.Places types)
    (named : b.typeId? name = some t) (named' : b.typeId? name' = some t) : name = name' := by
  obtain ⟨c, there, rfl⟩ := (places _ _).mp named
  obtain ⟨c', there', rfl⟩ := (places _ _).mp named'
  rw [Option.some.inj (there.symm.trans there')]

/-- What classes declare does not touch their names and super types. -/
private theorem ClassTable.declare (table : ClassTable d b) (typeNames : b'.typeNames = b.typeNames)
    {i : Nat} {s : Signature} {m : MethodId}
    (types : b'.program.types = b.program.types.modify i (·.declare s m)) : ClassTable d b' where
  places name t := by
    rw [typeId?, typeNames]
    exact table.places name t
  size := by
    rw [types, Array.size_modify]
    exact table.size
  types := by
    intro j c there
    obtain ⟨type, found, sameName, super⟩ := table.types there
    simp only [typeId?, typeNames, types, Array.getElem?_modify, found]
    split
    · exact ⟨_, rfl, sameName, super⟩
    · exact ⟨_, rfl, sameName, super⟩

/-! ### Declarations -/

theorem meets_methodForm (owner : String) (m : Described.Method) :
    Meets (methodForm owner m)
      [⟨¬ (m.isStatic = true ∧ m.isAbstract = true), .staticAbstractMethod (owner ++ "." ++ m.name)⟩,
        ⟨m.isAbstract = true → m.body = [], .abstractMethodWithBody (owner ++ "." ++ m.name)⟩]
      (fun form => decide (form = .static) = m.isStatic ∧ decide (form = .abstract) = m.isAbstract) := by
  unfold methodForm
  dsimp only
  cases abstract : m.isAbstract with
  | false =>
    cases static : m.isStatic with
    | false => exact ⟨by simp, rfl, rfl⟩
    | true => exact ⟨by simp, rfl, rfl⟩
  | true =>
    cases static : m.isStatic with
    | true => exact ⟨[], _, _, rfl, by simp, by simp, rfl⟩
    | false =>
      cases body : m.body with
      | nil => exact ⟨by simp, rfl, rfl⟩
      | cons s others => exact ⟨[_], _, [], rfl, by simp, by simp, rfl⟩

/-- These methods have been declared by their classes, in this order. -/
structure MethodTable (d : Described.Program) (ms : List (Described.Class × Described.Method))
    (b : Builder) : Prop where
  blank : b.Blank
  classes : ClassTable d b
  size : b.program.methods.size = ms.length
  methods : ∀ {i : Nat} {c : Described.Class} {m : Described.Method}, ms[i]? = some (c, m) →
    ∃ owner form method, b.typeId? c.name = some owner ∧ methodForm c.name m = .ok form ∧
      b.program.method ⟨i⟩ = .ok method ∧ b.Declares ⟨i⟩ owner m.name m.params form method
  declares : ∀ {t type}, b.program.type t = .ok type → ∀ s (id : MethodId),
    type.declares? s = some id ↔
      ∃ c m, ms[id.index]? = some (c, m) ∧ b.typeId? c.name = some t ∧ m.signature = s
  varNames : ∀ x : MethodId × String, x ∈ b.varNames.toList ↔
    ∃ c m, ms[x.1.index]? = some (c, m) ∧ x.2 ∈ m.declaredVars
  fieldNames : b.fieldNames = .empty

/-- One more method, which differs from those that its class has declared. -/
theorem MethodTable.push {ms : List (Described.Class × Described.Method)} {c : Described.Class}
    {m : Described.Method} {owner : TypeId} {form : MethodForm} (table : MethodTable d ms b)
    (named : b.typeId? c.name = some owner) (formed : methodForm c.name m = .ok form)
    (new : ∀ c' m', (c', m') ∈ ms → b.typeId? c'.name = some owner → m'.signature ≠ m.signature) :
    MethodTable d (ms ++ [(c, m)]) (b.addMethod owner m.name m.params form).1 := by
  obtain ⟨_, type, _, _, known, _⟩ := table.classes.found named
  obtain ⟨_, _, typeNames, _, method, methods, declares⟩ :=
    addMethod_spec table.blank.sound known m.name m.params form
  obtain ⟨types, fields, names, listed⟩ := addMethod_tables b owner m.name m.params form
  have blank := (addMethod_declaring table.blank known form m).blank
  generalize (b.addMethod owner m.name m.params form).1 = b' at *
  change _ = b.program.types.modify owner.index
    (·.declare m.signature ⟨b.program.methods.size⟩) at types
  have same (name : String) : b'.typeId? name = b.typeId? name := by
    rw [typeId?, typeNames]
    rfl
  refine ⟨blank, table.classes.declare typeNames types, ?_, fun {i c' m'} there => ?_,
    fun {t type'} found s id => ?_, fun x => ?_, fields.trans table.fieldNames⟩
  · rw [methods, Array.size_push, table.size, List.length_append, List.length_singleton]
  · rw [same]
    rcases getElem?_append_singleton.mp there with old | ⟨last, new⟩
    · obtain ⟨owner', form', method', named', formed', found, declares'⟩ := table.methods old
      refine ⟨owner', form', method', named', formed', ?_, declares'.later names⟩
      rw [Program.method, methods]
      exact Id.lookup_push.mpr (.inl found)
    · cases new
      refine ⟨owner, form, method, named, formed, ?_, ?_⟩
      · rw [Program.method, methods, last, ← table.size]
        exact Id.lookup_push_self _
      · rw [last, ← table.size]
        exact declares
  · rw [Program.type, types] at found
    obtain ⟨old, before, rfl⟩ := Id.lookup_modify.mp found
    simp only [same, exists_getElem?_append_singleton, ← table.declares before]
    -- Only the owner answers otherwise than before, and only when it is asked for the new method.
    by_cases here : t = owner ∧ s = m.signature
    · obtain ⟨rfl, rfl⟩ := here
      have unknown : old.declares? m.signature ≠ some id := fun known => by
        obtain ⟨c', m', there, named', signature⟩ := (table.declares before _ _).mp known
        exact new c' m' (List.mem_of_getElem? there) named' signature
      rw [if_pos rfl, TypeDecl.declares?_declare, if_pos rfl]
      simp [unknown, named, ← table.size, Id.ext_iff, eq_comm]
    · have other : ¬ (b.typeId? c.name = some t ∧ m.signature = s) := by
        rintro ⟨named', signature⟩
        exact here ⟨Option.some.inj (named'.symm.trans named), signature.symm⟩
      have kept : TypeDecl.declares? (if t = owner then
          old.declare m.signature ⟨b.program.methods.size⟩ else old) s = old.declares? s := by
        split
        · next same =>
          rw [TypeDecl.declares?_declare, if_neg fun asked => here ⟨same, asked⟩]
        · rfl
      simp [kept, other]
  · have static := ((meets_methodForm c.name m).of_ok formed).2.1
    have declared : (m.params ++ if form = .static then [] else ["this"]) = m.declaredVars := by
      simp [Described.Method.declaredVars, ← static]
    rw [listed, table.varNames, declared, exists_getElem?_append_singleton, Id.ext_iff, table.size]

private theorem ClassTable.here (table : ClassTable d b) {done rest : List Described.Class}
    {c : Described.Class} (split : d.types = done ++ c :: rest) :
    b.typeId? c.name = some ⟨done.length⟩ :=
  (table.places _ _).mpr ⟨c, by rw [split]; simp, rfl⟩

private theorem ClassTable.not_here (table : ClassTable d b) {done rest : List Described.Class}
    (split : d.types = done ++ rest) {c : Described.Class} (earlier : c ∈ done) :
    b.typeId? c.name ≠ some ⟨done.length⟩ := by
  obtain ⟨front, back, rfl⟩ := List.append_of_mem earlier
  rw [table.here (split.trans (List.append_assoc ..))]
  intro same
  have clash := congrArg Id.index (Option.some.inj same)
  simp at clash

private theorem meets_declareMethods {done rest : List Described.Class} {c : Described.Class}
    {before methods : List Described.Method} {seen : List Signature}
    (split : d.types = done ++ c :: rest) (all : c.methods = before ++ methods)
    (noted : ∀ s, s ∈ seen ↔ s ∈ before.map (·.signature))
    (table : MethodTable d (done.flatMap (·.declarations) ++ before.map (c, ·)) b) :
    Meets (b.declareMethods ⟨done.length⟩ c.name seen methods)
      (demandsAlong (Described.Program.methodDemands c.name) before methods)
      (fun r => MethodTable d (done.flatMap (·.declarations) ++ c.declarations) r.1) := by
  induction methods generalizing b before seen with
  | nil =>
    rw [List.append_nil] at all
    rw [Described.Class.declarations, all]
    exact meets_ok table
  | cons m methods ih =>
    have again : seen.contains m.signature = true ↔ ¬ m.signature ∉ before.map (·.signature) := by
      rw [List.contains_iff_mem, noted, not_not]
    refine meets_guard again fun new => ?_
    have formed := (meets_methodForm c.name m).mono fun form ran _ => ran
    refine formed.bind fun form _ formed => ?_
    -- Of the methods before, those of the same class are the ones that this one is compared with.
    have apart (c' : Described.Class) (m' : Described.Method)
        (there : (c', m') ∈ done.flatMap (·.declarations) ++ before.map (c, ·))
        (named : b.typeId? c'.name = some ⟨done.length⟩) : m'.signature ≠ m.signature := by
      rcases List.mem_append.mp there with earlier | there
      · obtain ⟨c₀, listed, there⟩ := List.mem_flatMap.mp earlier
        obtain ⟨_, _, same⟩ := List.mem_map.mp there
        cases same
        exact absurd named (table.classes.not_here split listed)
      · obtain ⟨_, listed, same⟩ := List.mem_map.mp there
        cases same
        exact fun same => new (List.mem_map.mpr ⟨m', listed, same⟩)
    have table' := table.push (table.classes.here split) formed apart
    rw [List.append_assoc, ← List.map_singleton (f := (c, ·)), ← List.map_append] at table'
    refine (ih (by rw [all]; simp) (fun s => ?_) table').followed fun r good => ⟨_, rfl, good⟩
    rw [List.mem_cons, noted, List.map_append, List.mem_append, List.map_singleton,
      List.mem_singleton, or_comm]
    rfl

private theorem meets_declareAllMethods {done rest : List Described.Class}
    (split : d.types = done ++ rest) (table : MethodTable d (done.flatMap (·.declarations)) b) :
    Meets (b.declareAllMethods rest) (rest.flatMap Described.Program.classDemands)
      (fun r => MethodTable d d.declarations r.1) := by
  induction rest generalizing done b with
  | nil =>
    rw [List.append_nil] at split
    rw [Described.Program.declarations, split]
    exact meets_ok table
  | cons c rest ih =>
    rw [declareAllMethods, resolveType_of_typeId? (table.classes.here split), ok_bind,
      List.flatMap_cons]
    have unnoted (s : Signature) : s ∈ [] ↔ s ∈ ([] : List Described.Method).map (·.signature) :=
      Iff.rfl
    refine (meets_declareMethods split rfl unnoted (by simpa using table)).bind fun r _ table' => ?_
    have further : d.types = (done ++ [c]) ++ rest := by rw [split]; simp
    exact (ih further (by simpa using table')).followed fun r good => ⟨_, rfl, good⟩

/-- What is known once all classes and methods are declared. -/
structure Ready (d : Described.Program) (b : Builder) : Prop extends MethodTable d d.declarations b where
  acyclic : ∀ c ∈ d.types, ¬ d.Circles c.name

/-- The methods of all classes are those declared, in this order. -/
private theorem Declaring.mem_iff {declared : List (MethodId × Described.Method)}
    (declaring : b.Declaring b' declared) (none : b.program.methods = #[])
    (same : declared.map (·.2) = d.types.flatMap (·.methods)) {id : MethodId} {m : Described.Method} :
    (id, m) ∈ declared ↔ ∃ c, d.declarations[id.index]? = some (c, m) := by
  have methods : declared.map (·.2) = d.declarations.map (·.2) := by
    simp [same, Described.Program.declarations, Described.Class.declarations, List.map_flatMap,
      Function.comp_def]
  have place {i : Nat} {entry : MethodId × Described.Method} (found : declared[i]? = some entry) :
      entry.1.index = i := by
    have here := congrArg (·[i]?) declaring.ids
    have inside := (List.getElem?_eq_some_iff.mp found).1
    simp only [List.getElem?_map, found, Option.map_some, none, List.size_toArray, List.length_nil,
      List.getElem?_range' inside, Option.some.injEq] at here
    omega
  have described (i : Nat) : declared[i]?.map (·.2) = d.declarations[i]?.map (·.2) := by
    simpa only [List.getElem?_map] using congrArg (·[i]?) methods
  constructor
  · intro there
    obtain ⟨i, found⟩ := List.mem_iff_getElem?.mp there
    cases place found
    have same := described id.index
    rw [found] at same
    obtain ⟨⟨c, _⟩, listed, rfl⟩ := Option.map_eq_some_iff.mp same.symm
    exact ⟨c, listed⟩
  · rintro ⟨c, listed⟩
    have same := described id.index
    rw [listed] at same
    obtain ⟨⟨id', _⟩, found, rfl⟩ := Option.map_eq_some_iff.mp same
    cases Id.ext (place found)
    exact List.mem_of_getElem? found

/-- The phases before the bodies. -/
theorem meets_declare (d : Described.Program) :
    Meets d.declare (d.typeDemands ++ d.superDemands ++ d.chainDemands ++
      d.types.flatMap Described.Program.classDemands) (fun r => Ready d r.1 ∧
        ∀ {id m}, (id, m) ∈ r.2 ↔ ∃ c, d.declarations[id.index]? = some (c, m)) := by
  have ran : d.declare = (do
      let b ← d.types.foldlM declareType .empty
      let b ← d.types.foldlM linkSuper b
      b.checkAcyclic d.types
      return b) >>= (·.declareAllMethods d.types) := by
    simp only [Described.Program.declare, bind_assoc, pure_bind]
  have classes := meets_classes d
  rw [← List.append_assoc] at classes
  rw [ran]
  refine classes.bind ?_
  rintro b _ ⟨supers, table, acyclic⟩
  have start : MethodTable d [] b := by
    refine ⟨supers.blank, table, by simp [supers.unused.methods], by simp,
      fun {t type} found s id => ?_, by simp [supers.unused.varNames], supers.unused.fieldNames⟩
    have inside : t.index < d.types.length := supers.size ▸ Id.index_lt_of_lookup found
    obtain ⟨type', found', _, empty, _⟩ := supers.types (List.getElem?_eq_getElem inside)
    cases (Id.lookup_eq_ok_iff.mp found).symm.trans found'
    simp [TypeDecl.declares?, empty]
  refine (meets_declareAllMethods (List.nil_append _).symm start).mono fun r ran table =>
    ⟨⟨table, acyclic⟩, ?_⟩
  obtain ⟨declaring, same⟩ := declareAllMethods_spec supers.blank ran
  exact declaring.mem_iff supers.unused.methods same

/-! ### Lookups -/

section Lookup

variable {s : Signature}

/-- A declared method is known by its class and signature. -/
theorem MethodTable.declaredAs {ms : List (Described.Class × Described.Method)}
    (table : MethodTable d ms b) {i : Nat} {c : Described.Class} {m : Described.Method}
    (there : ms[i]? = some (c, m)) : b.program.DeclaredAs ⟨i⟩ c.name m.signature := by
  obtain ⟨owner, form, method, named, _, found, declares⟩ := table.methods there
  obtain ⟨_, type, _, _, known, sameName, _⟩ := table.classes.found named
  refine ⟨method, found, declares.owner ▸ ⟨type, known, sameName⟩, ?_⟩
  rw [Method.signature, declares.name, ← declares.params.length_eq]
  rfl

/-- Where a class finds what it does not declare itself. -/
theorem ClassTable.finds_iff (table : ClassTable d b) {c : Described.Class} (there : c ∈ d.types)
    {owner : String} : d.Finds s c.name owner ↔ (c.Declares s ∧ owner = c.name) ∨
      (¬ c.Declares s ∧ ∃ super, c.super = some super ∧ d.Finds s super owner) := by
  constructor
  · intro finds
    generalize same : c.name = name at finds
    cases finds with
    | declared there' declares =>
      cases table.eq_of_name there there' same
      exact .inl ⟨declares, rfl⟩
    | inherited there' declares extended finds =>
      cases table.eq_of_name there there' same
      exact .inr ⟨declares, _, extended, finds⟩
  · rintro (⟨declares, rfl⟩ | ⟨declares, super, extended, finds⟩)
    · exact .declared there declares
    · exact .inherited there declares extended finds

/-- An answer to the question which method a class has under a signature. -/
def Answers (d : Described.Program) (b : Builder) (name : String) (s : Signature) :
    Option MethodId → Prop
  | some m => ∃ owner, d.Finds s name owner ∧ b.program.DeclaredAs m owner s
  | none => ¬ d.Sees name s

namespace Ready

variable (ready : Ready d b)
include ready

/-- What a class answers to a signature is its own declaration, if it has one. -/
private theorem declares_cases {c : Described.Class} {type : TypeDecl} (there : c ∈ d.types)
    (named : b.typeId? c.name = some t) (found : b.program.type t = .ok type) (s : Signature) :
    (∃ m, type.declares? s = some m ∧ c.Declares s ∧ b.program.DeclaredAs m c.name s) ∨
      (type.declares? s = none ∧ ¬ c.Declares s) := by
  cases answer : type.declares? s with
  | some m =>
    obtain ⟨c', method, listed, named', rfl⟩ := (ready.declares found s m).mp answer
    obtain ⟨there', declared⟩ := d.mem_declarations.mp (List.mem_of_getElem? listed)
    cases ready.classes.eq_of_name there there' (ready.classes.places.name_eq named named')
    exact .inl ⟨m, rfl, ⟨method, declared, rfl⟩, ready.declaredAs listed⟩
  | none =>
    refine .inr ⟨rfl, ?_⟩
    rintro ⟨method, declared, same⟩
    obtain ⟨i, listed⟩ :=
      List.mem_iff_getElem?.mp (d.mem_declarations.mpr ⟨there, declared⟩)
    have known := (ready.declares found s ⟨i⟩).mpr ⟨c, method, listed, named, same⟩
    cases known.symm.trans answer

/-- A chain of super types is searched as far as it goes. -/
private theorem searchChain {n steps : Nat} (within : n ≤ steps)
    (ends : b.chainEnds n (some t) = true) (named : b.typeId? name = some t) :
    ∃ answer, b.program.searchChain (fun type => .ok (type.declares? s)) steps (some t) = .ok answer ∧
      Answers d b name s answer := by
  induction n generalizing steps name t with
  | zero => cases ends
  | succ n ih =>
    obtain _ | steps := steps
    · omega
    obtain ⟨c, type, there, rfl, found, _, super⟩ := ready.classes.found named
    rcases ready.declares_cases there named found s with
      ⟨m, answer, declares, declared⟩ | ⟨answer, undeclared⟩
    · refine ⟨some m, ?_, c.name, .declared there declares, declared⟩
      simp [Program.searchChain, found, answer]
    -- A class that has no answer of its own passes the question on along the chain.
    · have goes : b.program.searchChain (fun type => .ok (type.declares? s)) (steps + 1) (some t) =
          b.program.searchChain (fun type => .ok (type.declares? s)) steps type.super := by
        simp [Program.searchChain, found, answer]
      have inherits {owner : String} : d.Finds s c.name owner ↔
          ∃ super, c.super = some super ∧ d.Finds s super owner := by
        simp [ready.classes.finds_iff there, undeclared]
      cases last : type.super with
      | none =>
        rw [last] at super goes
        refine ⟨none, goes.trans (by cases steps <;> rfl), ?_⟩
        rintro ⟨owner, finds⟩
        obtain ⟨_, extended, _⟩ := inherits.mp finds
        cases extended.symm.trans ((none_iff_of_rel super).mp rfl)
      | some t' =>
        rw [last] at super goes
        obtain ⟨name', extended, named'⟩ := exists_left_of_rel super
        have ends' : b.chainEnds n (some t') = true := by
          rw [chainEnds, Id.lookup_eq_ok_iff.mp found, Option.bind_some, last] at ends
          exact ends
        obtain ⟨answer', searched, good⟩ := ih (Nat.le_of_succ_le_succ within) ends' named'
        refine ⟨answer', goes.trans searched, ?_⟩
        cases answer' with
        | some m =>
          obtain ⟨owner, finds, declared⟩ := good
          exact ⟨owner, inherits.mpr ⟨name', extended, finds⟩, declared⟩
        | none =>
          rintro ⟨owner, finds⟩
          obtain ⟨super', same, finds⟩ := inherits.mp finds
          cases extended.symm.trans same
          exact good ⟨owner, finds⟩

/-- A lookup answers what the class has by name. -/
theorem lookupMethod (named : b.typeId? name = some t) (s : Signature) :
    ∃ answer, b.program.lookupMethod t s = .ok answer ∧ Answers d b name s answer := by
  obtain ⟨c, there, same⟩ := ready.classes.places.named_iff.mp ⟨t, named⟩
  have ends := (ready.classes.chainEnds_iff named).mpr (same ▸ ready.acyclic c there)
  exact ready.searchChain (Nat.le_succ _) ends named

/-- Of some numbers of parameters, the first one decides with which the class has a method. -/
private theorem findVisible?_some (named : b.typeId? name = some t) {member : String}
    {arities : List Nat} {m : MethodId} (visible : b.findVisible? t member arities = some m) :
    ∃ before arity after owner, arities = before ++ arity :: after ∧
      d.Finds ⟨member, arity⟩ name owner ∧ b.program.DeclaredAs m owner ⟨member, arity⟩ ∧
      ∀ fewer ∈ before, ¬ d.Sees name ⟨member, fewer⟩ := by
  obtain ⟨before, arity, after, split, found, none⟩ := List.findSome?_eq_some_iff.mp visible
  obtain ⟨answer, looked, good⟩ := ready.lookupMethod named ⟨member, arity⟩
  rw [looked] at found
  cases found
  obtain ⟨owner, finds, declared⟩ := good
  refine ⟨before, arity, after, owner, split, finds, declared, fun fewer there => ?_⟩
  obtain ⟨answer, looked, good⟩ := ready.lookupMethod named ⟨member, fewer⟩
  have missing := none fewer there
  rw [looked] at missing
  cases missing
  exact good

private theorem findVisible?_none (named : b.typeId? name = some t) {member : String}
    {arities : List Nat} (invisible : b.findVisible? t member arities = none) :
    ∀ arity ∈ arities, ¬ d.Sees name ⟨member, arity⟩ := by
  intro arity there
  obtain ⟨answer, looked, good⟩ := ready.lookupMethod named ⟨member, arity⟩
  have missing := List.findSome?_eq_none_iff.mp invisible arity there
  rw [looked] at missing
  cases missing
  exact good

/-- No class has a method with more parameters than any method has. -/
private theorem le_maxArity {member : String} {arity : Nat} (sees : d.Sees name ⟨member, arity⟩) :
    arity ≤ b.maxArity := by
  obtain ⟨_, finds⟩ := sees
  obtain ⟨c, there, _, method, declared, same⟩ := finds.declares
  obtain ⟨i, listed⟩ := List.mem_iff_getElem?.mp (d.mem_declarations.mpr ⟨there, declared⟩)
  obtain ⟨method', found, _, signature⟩ := ready.declaredAs listed
  have length : method'.params.length = arity :=
    congrArg Signature.arity (signature.trans same)
  have there' : method' ∈ b.program.methods.toList :=
    List.mem_of_getElem? (Array.getElem?_toList ▸ Id.lookup_eq_ok_iff.mp found)
  rw [maxArity, ← Array.foldl_toList, ← length]
  exact (le_foldl_max (f := fun method : Method => method.params.length) _ 0).2 method' there'

/-! ### Names of methods -/

/-- A name of a method is resolved in its class. -/
private theorem meets_member {text : String} {arity : Option Nat} {found : QualifiedName → Prop}
    {success : MethodId → Prop} (arities : List Nat)
    (tries : arities = match arity with
      | some arity => [arity]
      | none => List.range (b.maxArity + 1))
    (hit : ∀ name t m, QualifiedName.Spells text name → b.typeId? name.type = some t →
      b.findVisible? t name.member arities = some m → found name ∧ success m)
    (miss : ∀ name t, QualifiedName.Spells text name → b.typeId? name.type = some t →
      b.findVisible? t name.member arities = none → ¬ found name) :
    Meets (b.resolveMethod text arity) (d.memberDemands text found) success := by
  subst tries
  unfold resolveMethod Described.Program.memberDemands
  cases parsed : QualifiedName.parse? text with
  | none =>
    refine meets_check ?_ fun _ => rfl
    rintro ⟨name, spells⟩
    cases parsed.symm.trans (QualifiedName.spells_iff.mp spells)
  | some name =>
    have spells := QualifiedName.spells_iff.mpr parsed
    have type := meets_resolveType ready.classes.places name.type
    refine type.bind fun t _ named => ?_
    dsimp only
    split
    · next m visible =>
      obtain ⟨holds, good⟩ := hit name t m spells named visible
      exact meets_check (fun _ => ⟨m, rfl, good⟩) fun fails => absurd holds fails
    · next invisible =>
      have fails := miss name t spells named invisible
      exact meets_check (fun holds => absurd holds fails) fun _ => rfl

/-- The target of a call is the method that its class has under this name and number of parameters. -/
theorem meets_target (text : String) (arity : Nat) :
    Meets (b.resolveMethod text (some arity)) (d.targetDemands text arity)
      (d.Calls b.program text arity) := by
  refine ready.meets_member [arity] rfl (fun name t m spells named visible => ?_)
    fun name t _ named invisible => ?_
  · obtain ⟨before, arity', after, owner, split, finds, declared, _⟩ :=
      ready.findVisible?_some named visible
    have same : arity' = arity := by
      have there : arity' ∈ [arity] := by rw [split]; simp
      simpa using there
    subst same
    exact ⟨⟨owner, finds⟩, name, owner, spells, finds, declared⟩
  · exact ready.findVisible?_none named invisible arity (List.mem_singleton.mpr rfl)

/-- An entry is the method with the fewest parameters that its class has under this name. -/
theorem meets_entry (text : String) :
    Meets (b.resolveMethod text none) (d.entryDemands text) (d.Enters b.program text) := by
  refine ready.meets_member (List.range (b.maxArity + 1)) rfl (fun name t m spells named visible => ?_)
    fun name t _ named invisible => ?_
  · obtain ⟨before, arity, after, owner, split, finds, declared, none⟩ :=
      ready.findVisible?_some named visible
    refine ⟨⟨arity, owner, finds⟩, name, arity, owner, spells, finds, declared, fun fewer less => ?_⟩
    -- Numbers are tried in increasing order, so all smaller ones have been tried in vain.
    have sorted := List.pairwise_lt_range (n := b.maxArity + 1)
    have bound : arity < b.maxArity + 1 := List.mem_range.mp (by rw [split]; simp)
    have tried : fewer ∈ List.range (b.maxArity + 1) := List.mem_range.mpr (less.trans bound)
    rw [split] at sorted tried
    refine none fewer ((List.mem_append.mp tried).resolve_right fun late => ?_)
    rcases List.mem_cons.mp late with rfl | later
    · exact Nat.lt_irrefl _ less
    · have after := (List.pairwise_cons.mp (List.pairwise_append.mp sorted).2.1).1 fewer later
      exact Nat.lt_asymm less after
  · rintro ⟨arity, sees⟩
    have tried := List.mem_range.mpr (Nat.lt_succ_of_le (ready.le_maxArity sees))
    exact ready.findVisible?_none named invisible arity tried sees

end Ready

end Lookup

end Builder

end PointerAnalysis
