import PointerAnalysis.Proofs.Description.Link
import PointerAnalysis.Proofs.Description.Methods
import PointerAnalysis.Proofs.LeastSolution

/-! The loader. A description is accepted just if it is well formed; else the first demand that it
breaks is reported, phase by phase and in its own order. The program that comes out of an accepted one
is what the description stands for. -/
namespace PointerAnalysis

namespace Builder

variable {b b' : Builder} {d : Described.Program}

/-! ### What stays -/

theorem Later.typeNamed (later : b.Later b') {name : String} {t : TypeId} :
    b'.program.TypeNamed name t ↔ b.program.TypeNamed name t := by
  simp only [Program.TypeNamed, Program.type, later.types]

theorem Later.declaredAs (later : b.Later b') {m : MethodId} {owner : String} {s : Signature}
    (declared : b.program.DeclaredAs m owner s) : b'.program.DeclaredAs m owner s := by
  obtain ⟨method, found, named, signature⟩ := declared
  obtain ⟨method', found', header⟩ := later.method_header found
  have owners : method'.owner = method.owner := congrArg (·.owner) header
  refine ⟨method', found', ?_, (congrArg Method.signature header).trans signature⟩
  rw [owners]
  exact later.typeNamed.mpr named

theorem Later.calls_of_calls (later : b.Later b') {text : String} {arity : Nat} {m : MethodId}
    (calls : d.Calls b.program text arity m) : d.Calls b'.program text arity m := by
  obtain ⟨name, owner, spells, finds, declared⟩ := calls
  exact ⟨name, owner, spells, finds, later.declaredAs declared⟩

theorem Later.enters (later : b.Later b') {text : String} {m : MethodId}
    (enters : d.Enters b.program text m) : d.Enters b'.program text m := by
  obtain ⟨name, arity, owner, spells, finds, declared, least⟩ := enters
  exact ⟨name, arity, owner, spells, finds, later.declaredAs declared, least⟩

/-! ### Bodies and entries -/

section Phases

variable (ready : Ready d b)
include ready

private theorem meets_linkStatement (later : b.Later b') (m : MethodId) (s : Described.Statement) :
    Meets (b'.linkStatement m s) (d.statementDemands s) (fun _ => True) := by
  cases s with
  | new var type =>
    have resolved := meets_resolveType ready.classes.places type
    rw [← later.resolveType] at resolved
    exact resolved.followed fun _ _ => ⟨_, rfl, trivial⟩
  | call kind target receiver args result =>
    have resolved := ready.meets_target target args.length
    rw [← later.resolveMethod] at resolved
    exact resolved.followed fun _ _ => ⟨_, rfl, trivial⟩
  | assign target source => exact meets_ok trivial
  | load target base field => exact meets_ok trivial
  | store base field source => exact meets_ok trivial
  | «return» var => exact meets_ok trivial

private theorem meets_linkBody (sound : b'.Sound) (later : b.Later b')
    {entry : MethodId × Described.Method} {method : Method}
    (known : b.program.method entry.1 = .ok method) :
    Meets (b'.linkBody entry) (d.bodyDemands entry.2) (fun b'' => b''.Sound ∧ b.Later b'') := by
  rw [Described.Program.bodyDemands, ← demandsAlong_const _ [] entry.2.body]
  refine meets_foldlM (fun _ b'' => b''.Sound ∧ b.Later b'') ⟨sound, later⟩ ?_
  rintro done s rest b'' _ ⟨sound', later'⟩
  refine (meets_linkStatement ready later' entry.1 s).mono fun b₃ ran _ => ?_
  obtain ⟨method', found, _⟩ := later'.method_header known
  have reading := (linkStatement_spec sound' found s).2 b₃ ran
  exact ⟨reading.sound, later'.trans reading.later⟩

private theorem meets_linkBodies (declared : List (MethodId × Described.Method))
    (known : ∀ entry ∈ declared, ∃ method, b.program.method entry.1 = .ok method) :
    Meets (declared.foldlM linkBody b) ((declared.map (·.2)).flatMap d.bodyDemands)
      (fun b' => b'.Sound ∧ b.Later b') := by
  rw [List.flatMap_map, ← demandsAlong_const _ [] declared]
  refine meets_foldlM (fun _ b' => b'.Sound ∧ b.Later b') ⟨ready.blank.sound, .refl b⟩ ?_
  rintro done entry rest b' split ⟨sound, later⟩
  obtain ⟨method, found⟩ := known entry (by rw [split]; simp)
  exact meets_linkBody ready sound later found

private theorem meets_linkEntries (later : b.Later b') (none : b'.program.entries = #[]) :
    Meets (d.entries.foldlM linkEntry b') (d.entries.flatMap d.entryDemands) (fun b'' =>
      b.Later b'' ∧ List.Forall₂ (d.Enters b.program) d.entries b''.program.entries.toList) := by
  rw [← demandsAlong_const _ [] d.entries]
  refine meets_foldlM (fun done b'' =>
    b.Later b'' ∧ List.Forall₂ (d.Enters b.program) done b''.program.entries.toList)
    ⟨later, by simp [none]⟩ ?_
  rintro done text rest b'' _ ⟨later', entered⟩
  have resolved := ready.meets_entry text
  rw [← later'.resolveMethod] at resolved
  refine resolved.followed fun m enters => ⟨_, rfl, later'.trans (later_addEntry b'' m), ?_⟩
  rw [addEntry, Array.toList_push]
  exact List.rel_append entered (.cons enters .nil)

end Phases

end Builder

namespace Described.Program

/-- All phases, one after another. -/
theorem meets_link (d : Described.Program) : Meets d.link d.demands (fun p =>
    ∃ b declared, d.declare = .ok (b, declared) ∧ Builder.Ready d b ∧
      (∀ {id m}, (id, m) ∈ declared ↔ ∃ c, d.declarations[id.index]? = some (c, m)) ∧
      List.Forall₂ (d.Enters b.program) d.entries p.entries.toList) := by
  have order : d.demands = d.typeDemands ++ d.superDemands ++ d.chainDemands ++
      d.types.flatMap classDemands ++ ((d.types.flatMap (·.methods)).flatMap d.bodyDemands ++
        (⟨d.entries ≠ [], .noEntry⟩ :: d.entries.flatMap d.entryDemands)) := by
    simp only [demands, List.append_assoc, List.singleton_append]
  rw [order, link_eq]
  -- Bodies and entries are judged by what has been declared: reading them changes no name.
  refine ((Builder.meets_declare d).mono fun r ran good => And.intro ran good).bind ?_
  rintro ⟨b, declared⟩ _ ⟨ran, ready, listed⟩
  obtain ⟨blank, once, same, known⟩ := declare_spec ran
  rw [← same]
  have known' : ∀ entry ∈ declared, ∃ method, b.program.method entry.1 = .ok method :=
    fun entry there => (known _).mpr (List.mem_map_of_mem there)
  have bodies := (Builder.meets_linkBodies ready declared known').mono fun b₁ ran _ =>
    (Builder.linkBodies_spec blank.sound once known').2 b₁ ran
  refine bodies.bind fun b₁ _ read => ?_
  have unentered : d.entries.isEmpty = true ↔ ¬ d.entries ≠ [] := by simp
  refine meets_guard unentered fun _ => ?_
  have entered := Builder.meets_linkEntries ready read.later (read.entries.trans blank.entries)
  exact entered.followed fun b₂ good => ⟨b₂.program, rfl, b, declared, ran, ready, listed, good.2⟩

/-! ### What the program is -/

section StandsFor

variable {d : Described.Program} {b b' : Builder} {declared : List (MethodId × Described.Method)}
  (ready : Builder.Ready d b) (read : b.Bodies b' declared) (entries : Array MethodId)
include read

private theorem varNamed_iff {m : MethodId} {name : String} {v : VarId} :
    PointerAnalysis.Program.VarNamed { b'.program with entries } m name v ↔
      b'.VarNamed m name v := by
  refine ⟨?_, read.sound.var_of_named⟩
  rintro ⟨var, found, rfl, rfl⟩
  exact read.sound.named_of_var found

private theorem fieldNamed_iff {name : String} {f : FieldId} :
    PointerAnalysis.Program.field { b'.program with entries } f = .ok name ↔
      b'.FieldNamed name f := ⟨read.sound.named_of_field, read.sound.field_of_named⟩

include ready

private theorem typeNamed_of_typeId? {name : String} {t : TypeId} (named : b.typeId? name = some t) :
    PointerAnalysis.Program.TypeNamed { b'.program with entries } name t := by
  obtain ⟨_, type, _, _, found, sameName, _⟩ := ready.classes.found named
  have here : b'.program.TypeNamed name t := read.later.typeNamed.mpr ⟨type, found, sameName⟩
  exact here

private theorem says_of_reads {m : MethodId} {s : PointerAnalysis.Statement} {described : Statement}
    (reads : b'.Reads m s described) : d.Says { b'.program with entries } m s described := by
  have var {name : String} {v : VarId} (named : b'.VarNamed m name v) :=
    (varNamed_iff read entries).mpr named
  have field {name : String} {f : FieldId} (named : b'.FieldNamed name f) :=
    (fieldNamed_iff read entries).mpr named
  cases reads with
  | new target resolved =>
    rw [read.later.resolveType] at resolved
    exact .new (var target)
      (typeNamed_of_typeId? ready read entries (Builder.typeId?_of_resolveType resolved))
  | assign target source => exact .assign (var target) (var source)
  | load target base named => exact .load (var target) (var base) (field named)
  | store base source named => exact .store (var base) (var source) (field named)
  | @call _ _ target _ _ args found container resolved receiver passed result =>
    rw [read.later.resolveMethod] at resolved
    have calls := read.later.calls_of_calls ((ready.meets_target target args.length).of_ok resolved).2
    exact .call found container calls (rel_imp (fun _ _ => var) receiver)
      (passed.imp fun _ _ => var) (rel_imp (fun _ _ => var) result)

private theorem presents {i : Nat} {c : Class} (there : d.types[i]? = some c) :
    ∃ type, PointerAnalysis.Program.type { b'.program with entries } ⟨i⟩ = .ok type ∧
      d.Presents { b'.program with entries } c type := by
  obtain ⟨type, found, sameName, super⟩ := ready.classes.types there
  have known : b.program.type ⟨i⟩ = .ok type := Id.lookup_eq_ok_iff.mpr found
  have here : b.typeId? c.name = some ⟨i⟩ := (ready.classes.places _ _).mpr ⟨c, there, rfl⟩
  refine ⟨type, ?_, sameName, ?_, fun s m => (ready.declares known s m).trans ⟨?_, ?_⟩⟩
  · show b'.program.type ⟨i⟩ = _
    rw [PointerAnalysis.Program.type, read.later.types]
    exact known
  · exact rel_imp (fun _ _ => typeNamed_of_typeId? ready read entries) super
  · rintro ⟨c', method, listed, named, signature⟩
    have there' := (d.mem_declarations.mp (List.mem_of_getElem? listed)).1
    cases ready.classes.eq_of_name (List.mem_of_getElem? there) there'
      (ready.classes.places.name_eq here named)
    exact ⟨method, listed, signature⟩
  · rintro ⟨method, listed, signature⟩
    exact ⟨c, method, listed, here, signature⟩

private theorem realises {i : Nat} {c : Class} {described : Method}
    (there : d.declarations[i]? = some (c, described)) (placed : (⟨i⟩, described) ∈ declared) :
    ∃ method, PointerAnalysis.Program.method { b'.program with entries } ⟨i⟩ = .ok method ∧
      d.Realises { b'.program with entries } c described ⟨i⟩ method := by
  obtain ⟨owner, form, method, named, formed, found, declares⟩ := ready.methods there
  obtain ⟨static, abstract⟩ := ((Builder.meets_methodForm c.name described).of_ok formed).2
  obtain ⟨method', found', fills⟩ := read.filled placed found
  obtain ⟨returns, body⟩ := ready.blank.unfilled found
  have var {name : String} {v : VarId} (named : b'.VarNamed ⟨i⟩ name v) :=
    (varNamed_iff read entries).mpr named
  have header {α : Type} (part : PointerAnalysis.Method → α)
      (seen : ∀ method, part method.header = part method := by exact fun _ => rfl) :
      part method' = part method := by
    rw [← seen method', fills.header, seen]
  refine ⟨method', found', ?_, ?_, ?_, ?_, ?_, ?_, ?_, ?_⟩
  · exact (header (·.name)).trans declares.name
  · rw [header (·.owner), declares.owner]
    exact typeNamed_of_typeId? ready read entries named
  · exact ((header (·.isStatic)).trans declares.isStatic).trans static
  · exact ((header (·.isAbstract)).trans declares.isAbstract).trans abstract
  · rw [header (·.params)]
    exact declares.params.imp fun _ _ named => var (read.later.varNamed named)
  · have same : (if form = .static then none else some "this") =
        if described.isStatic then none else some "this" := by simp [← static]
    rw [header (·.this), ← same]
    exact rel_imp (fun _ _ named => var (read.later.varNamed named)) declares.this
  · obtain ⟨added, whole, reads⟩ := fills.body
    rw [whole, body, Array.toList_empty, List.nil_append]
    exact reads.imp fun _ _ => says_of_reads ready read entries
  -- Names and variables of a method correspond one to one, so repetitions do as well.
  · obtain ⟨vars, named, whole⟩ := fills.returned
    rw [whole, returns, foldl_addOnce]
    refine (forall₂_eraseDups (fun {name name'} v named named' => ?_)
      (fun named named' => named.unique named') named).imp fun _ _ => var
    exact congrArg Prod.snd (Option.some.inj (named.symm.trans named'))

section Used

variable (listed : ∀ {id m}, (id, m) ∈ declared ↔ ∃ c, d.declarations[id.index]? = some (c, m))
include listed

private theorem usesVar_iff (m : MethodId) (name : String) :
    (∃ v, PointerAnalysis.Program.VarNamed { b'.program with entries } m name v) ↔
      d.UsesVar m name := by
  simp only [varNamed_iff read entries, Builder.exists_varNamed_iff, read.vars, ready.varNames,
    listed, UsesVar]
  constructor
  · rintro (⟨c, method, here, declared⟩ | ⟨method, ⟨c, here⟩, mentioned⟩)
    · exact ⟨c, method, here, .inl declared⟩
    · exact ⟨c, method, here, .inr mentioned⟩
  · rintro ⟨c, method, here, declared | mentioned⟩
    · exact .inl ⟨c, method, here, declared⟩
    · exact .inr ⟨method, ⟨c, here⟩, mentioned⟩

private theorem usesField_iff (name : String) :
    (∃ f, PointerAnalysis.Program.field { b'.program with entries } f = .ok name) ↔
      d.UsesField name := by
  simp only [fieldNamed_iff read entries, Builder.exists_fieldNamed_iff, read.fields,
    ready.fieldNames, Registry.toList_empty, List.not_mem_nil, false_or, UsesField]
  constructor
  · rintro ⟨⟨id, method⟩, there, mentioned⟩
    obtain ⟨c, here⟩ := listed.mp there
    obtain ⟨known, declared⟩ := d.mem_declarations.mp (List.mem_of_getElem? here)
    exact ⟨c, known, method, declared, mentioned⟩
  · rintro ⟨c, known, method, declared, mentioned⟩
    obtain ⟨i, here⟩ := List.mem_iff_getElem?.mp (d.mem_declarations.mpr ⟨known, declared⟩)
    exact ⟨(⟨i⟩, method), listed.mpr ⟨c, here⟩, mentioned⟩

/-- The program is what the description stands for. -/
private theorem standsFor
    (coherent : PointerAnalysis.Program.Coherent { b'.program with entries })
    (entered : List.Forall₂ (d.Enters b.program) d.entries entries.toList) :
    d.StandsFor { b'.program with entries } where
  coherent := coherent
  types_size := by
    show b'.program.types.size = _
    rw [read.later.types, ready.classes.size]
  types := presents ready read entries
  methods_size := by
    have same := congrArg Array.size read.later.headers
    rw [Array.size_map, Array.size_map, ready.size] at same
    exact same
  methods there := realises ready read entries there (listed.mpr ⟨_, there⟩)
  vars := by
    intro v v' m m' name name' named named'
    rw [varNamed_iff read entries] at named named'
    constructor
    · rintro rfl
      exact Prod.ext_iff.mp (Option.some.inj (named.symm.trans named'))
    · rintro ⟨rfl, rfl⟩
      exact named.unique named'
  vars_used := usesVar_iff ready read entries listed
  fields := by
    intro f f' name name' named named'
    rw [fieldNamed_iff read entries] at named named'
    constructor
    · rintro rfl
      exact Option.some.inj (named.symm.trans named')
    · rintro rfl
      exact named.unique named'
  fields_used := usesField_iff ready read entries listed
  entries := entered.imp fun _ _ enters => read.later.enters enters

end Used

end StandsFor

theorem standsFor_of_link {d : Described.Program} {p : PointerAnalysis.Program}
    (linked : d.link = .ok p) : d.StandsFor p := by
  obtain ⟨b, declared, ran, ready, listed, entered⟩ := ((meets_link d).of_ok linked).2
  obtain ⟨coherent, b', read, same, _⟩ := link_spec ran linked
  rw [same] at coherent ⊢
  exact standsFor ready read p.entries listed coherent entered

theorem wellFormed_of_link {d : Described.Program} {p : PointerAnalysis.Program}
    (linked : d.link = .ok p) : d.WellFormed :=
  d.wellFormed_iff.mpr ((meets_link d).of_ok linked).1

end Described.Program

/-- The loader accepts just the well-formed descriptions, and reports of any other one the first demand
that it breaks. The program of an accepted description is what it stands for. -/
theorem loader_accepts_well_formed (d : Described.Program) :
    ((∃ p, d.link = .ok p) ↔ d.WellFormed) ∧
      (∀ e, d.link = .error e ↔ FirstBroken d.demands e) ∧
      ∀ p, d.link = .ok p → d.StandsFor p := by
  have meets := d.meets_link
  refine ⟨?_, fun e => ⟨fun refused => meets.of_error refused, fun broken => ?_⟩,
    fun p linked => Described.Program.standsFor_of_link linked⟩
  · rw [Described.Program.wellFormed_iff]
    refine ⟨fun ⟨p, linked⟩ => (meets.of_ok linked).1, fun holds => ?_⟩
    cases ran : d.link with
    | ok p => exact ⟨p, rfl⟩
    | error e => exact absurd holds (meets.of_error ran).not_all
  · cases ran : d.link with
    | ok p => exact absurd (meets.of_ok ran).1 broken.not_all
    | error e' => rw [(meets.of_error ran).unique broken]

theorem loader_accepts_well_formed_boxes :
    (∃ p, boxes.link = .ok p ∧ boxes.WellFormed ∧ boxes.StandsFor p) ∧
      ¬ ∃ p, Described.Program.link { boxes with entries := [] } = .ok p := by
  obtain ⟨p, _, loaded, _⟩ := boxes_solved
  obtain ⟨accepted, _, meant⟩ := loader_accepts_well_formed boxes
  obtain ⟨accepted', _⟩ := loader_accepts_well_formed { boxes with entries := [] }
  exact ⟨⟨p, loaded, accepted.mp ⟨p, loaded⟩, meant p loaded⟩,
    fun linked => (accepted'.mp linked).entered rfl⟩

end PointerAnalysis
