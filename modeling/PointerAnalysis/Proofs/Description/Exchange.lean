import PointerAnalysis.Proofs.Description.Pairing

/-! Programs of descriptions in different orders. Names and statements correspond, so there is a
renaming that exchanges the two programs: variables with the same method and name, fields with the
same name, and sites that stand in statements that say the same. -/
namespace PointerAnalysis

namespace Builder

/-- Two builders have read the same bodies, each in an order of its own. -/
structure Reread (b b₁ b₂ : Builder) (declared declared' : List (MethodId × Described.Method)) :
    Prop where
  blank : b.Blank
  known : ∀ m, (∃ method, b.program.method m = .ok method) ↔ m ∈ declared.map (·.1)
  known' : ∀ m, (∃ method, b.program.method m = .ok method) ↔ m ∈ declared'.map (·.1)
  first : b.Bodies b₁ declared
  second : b.Bodies b₂ declared'
  same : List.Forall₂ SameEntry declared declared'

/-- What a method says it said when it was declared. -/
theorem Later.header_of {b b' : Builder} (later : b.Later b') {m : MethodId} {method' : Method}
    (found : b'.program.method m = .ok method') :
    ∃ method, b.program.method m = .ok method ∧ method'.header = method.header := by
  have here := congrArg (·[m.index]?) later.headers
  simp only [Array.getElem?_map, Id.lookup_eq_ok_iff.mp found, Option.map_some] at here
  obtain ⟨method, found, same⟩ := Option.map_eq_some_iff.mp here.symm
  exact ⟨method, Id.lookup_eq_ok_iff.mpr found, same.symm⟩

theorem SameEntry.symm {entry entry' : MethodId × Described.Method} (same : SameEntry entry entry') :
    SameEntry entry' entry := ⟨same.1.symm, same.2.symm⟩

namespace Reread

variable {b b₁ b₂ : Builder} {declared declared' : List (MethodId × Described.Method)}
  (reread : b.Reread b₁ b₂ declared declared')
include reread

theorem symm : b.Reread b₂ b₁ declared' declared where
  blank := reread.blank
  known := reread.known'
  known' := reread.known
  first := reread.second
  second := reread.first
  same := List.Forall₂.flip (reread.same.imp fun _ _ => SameEntry.symm)

theorem entry {m : MethodId} {described : Described.Method} (there : (m, described) ∈ declared) :
    ∃ described', (m, described') ∈ declared' ∧ described.body.Perm described'.body := by
  obtain ⟨⟨_, described'⟩, there', rfl, reordered⟩ := exists_right_of_forall₂ reread.same there
  exact ⟨described', there', reordered.body⟩

private theorem varNames_subset {x : MethodId × String} (named : x ∈ b₁.varNames.toList) :
    x ∈ b₂.varNames.toList := by
  rcases (reread.first.vars x).mp named with before | ⟨described, there, s, listed, mentioned⟩
  · exact (reread.second.vars x).mpr (.inl before)
  · obtain ⟨described', there', reordered⟩ := reread.entry there
    exact (reread.second.vars x).mpr
      (.inr ⟨described', there', s, reordered.mem_iff.mp listed, mentioned⟩)

private theorem fieldNames_subset {x : String} (named : x ∈ b₁.fieldNames.toList) :
    x ∈ b₂.fieldNames.toList := by
  rcases (reread.first.fields x).mp named with before | ⟨⟨m, described⟩, there, s, listed, mentioned⟩
  · exact (reread.second.fields x).mpr (.inl before)
  · obtain ⟨described', there', reordered⟩ := reread.entry there
    exact (reread.second.fields x).mpr
      (.inr ⟨_, there', s, reordered.mem_iff.mp listed, mentioned⟩)

/-- The variables of the two programs correspond by method and name. -/
theorem exists_vars : ∃ σ : Equiv.Perm VarId, ∀ m name v,
    b₁.VarNamed m name v ↔ b₂.VarNamed m name (σ v) := by
  have same (x : MethodId × String) : x ∈ b₁.varNames.toList ↔ x ∈ b₂.varNames.toList :=
    ⟨reread.varNames_subset, reread.symm.varNames_subset⟩
  obtain ⟨σ, agrees⟩ := Registry.exists_perm same
  exact ⟨σ, fun m name v => agrees v (m, name)⟩

/-- The fields of the two programs correspond by name. -/
theorem exists_fields : ∃ σ : Equiv.Perm FieldId, ∀ name f,
    b₁.FieldNamed name f ↔ b₂.FieldNamed name (σ f) := by
  have same (x : String) : x ∈ b₁.fieldNames.toList ↔ x ∈ b₂.fieldNames.toList :=
    ⟨reread.fieldNames_subset, reread.symm.fieldNames_subset⟩
  obtain ⟨σ, agrees⟩ := Registry.exists_perm same
  exact ⟨σ, fun name f => agrees f name⟩

/-- A body reads the statements that describe it. -/
private theorem statements_read {m : MethodId} {described : Described.Method}
    (there : (m, described) ∈ declared) :
    List.Forall₂ (b₁.Reads m) (b₁.program.statements m)
      (described.body.filter (·.returned?.isNone)) := by
  obtain ⟨method, found⟩ := (reread.known m).mpr (List.mem_map_of_mem there)
  obtain ⟨method', found', fills⟩ := reread.first.filled there found
  obtain ⟨added, body, reads⟩ := fills.body
  have same : b₁.program.statements m = added := by
    simp only [Program.statements, found', body, (reread.blank.unfilled found).2, List.nil_append]
  rwa [same]

private theorem statements_undeclared {m : MethodId} (other : m ∉ declared.map (·.1)) :
    b₁.program.statements m = [] := by
  have same := reread.first.others other
  unfold Program.statements
  cases found : b₁.program.method m with
  | error _ => rfl
  | ok method => exact absurd ((reread.known m).mp ⟨method, same.symm.trans found⟩) other

/-- The statements of the two programs can be paired. -/
theorem exists_pairing : ∃ pairs, b₁.Pairing b₂ pairs := by
  have paired (m : MethodId) : ∃ pairs : List (Statement × Statement),
      (pairs.map Prod.fst).Perm (b₁.program.statements m) ∧
        (pairs.map Prod.snd).Perm (b₂.program.statements m) ∧
        ∀ pair ∈ pairs, ∃ described, b₁.Reads m pair.1 described ∧ b₂.Reads m pair.2 described := by
    by_cases listed : m ∈ declared.map (·.1)
    · obtain ⟨⟨_, described⟩, there, rfl⟩ := List.mem_map.mp listed
      obtain ⟨described', there', reordered⟩ := reread.entry there
      exact exists_pairs (reread.statements_read there) (reordered.filter _)
        (reread.symm.statements_read there')
    · have listed' : m ∉ declared'.map (·.1) := fun there =>
        listed ((reread.known m).mp ((reread.known' m).mpr there))
      refine ⟨[], ?_, ?_, by simp⟩
      · rw [reread.statements_undeclared listed, List.map_nil]
      · rw [reread.symm.statements_undeclared listed', List.map_nil]
  choose pairs left right reads using paired
  exact ⟨pairs, left, right, reads⟩

end Reread

/-! ### One renaming for all -/

/-- A statement that says what a described call says is a call like it. -/
theorem Reads.call_of_described {b : Builder} {m : MethodId} {s : Statement} {kind : CallKind}
    {target : String} {receiver result : Option String} {args : List String}
    (reads : b.Reads m s (.call kind target receiver args result)) :
    ∃ site call, s = .call site ∧ b.program.callSite site = .ok call ∧ call.container = m ∧
      call.kind = kind ∧ b.resolveMethod target (some args.length) = .ok call.target ∧
      Option.Rel (b.VarNamed m) receiver call.receiver ∧
      List.Forall₂ (b.VarNamed m) args call.args ∧ Option.Rel (b.VarNamed m) result call.result := by
  generalize same : Described.Statement.call kind target receiver args result = described at reads
  cases reads with
  | call found container resolved receiver args result =>
    cases same
    exact ⟨_, _, rfl, found, container, rfl, resolved, receiver, args, result⟩
  | _ => cases same

/-- Statements that say the same are alike in having sites. -/
theorem Reads.alike {b b' : Builder} {m : MethodId} {s s' : Statement}
    {described : Described.Statement} (reads : b.Reads m s described)
    (reads' : b'.Reads m s' described) :
    s.callSite?.isSome = s'.callSite?.isSome ∧ s.allocSite?.isSome = s'.allocSite?.isSome := by
  cases reads with
  | call =>
    obtain ⟨site', _, rfl, _⟩ := reads'.call_of_described
    exact ⟨rfl, rfl⟩
  | _ => cases reads'; exact ⟨rfl, rfl⟩

/-- A renaming fits two builders: names stand for the same things, and paired statements have the
same sites. -/
structure Fitting (names : Renaming) (b b' : Builder)
    (pairs : MethodId → List (Statement × Statement)) : Prop where
  vars : ∀ m name v, b.VarNamed m name v ↔ b'.VarNamed m name (names.var v)
  fields : ∀ name f, b.FieldNamed name f ↔ b'.FieldNamed name (names.field f)
  pairing : b.Pairing b' pairs
  callSites : ∀ m, ∀ pair ∈ pairs m, pair.2.callSite? = pair.1.callSite?.map names.callSite
  allocSites : ∀ m, ∀ pair ∈ pairs m, pair.2.allocSite? = pair.1.allocSite?.map names.allocSite

namespace Fitting

variable {names : Renaming} {b b₁ b₂ : Builder} {pairs : MethodId → List (Statement × Statement)}

theorem symm (fitting : Fitting names b₁ b₂ pairs) :
    Fitting names.symm b₂ b₁ fun m => (pairs m).map Prod.swap where
  vars m name v := by simp [fitting.vars, Renaming.symm]
  fields name f := by simp [fitting.fields, Renaming.symm]
  pairing := fitting.pairing.symm
  callSites m pair there := by
    obtain ⟨pair', there', rfl⟩ := List.mem_map.mp there
    simp [fitting.callSites m pair' there', Renaming.symm, Function.comp_def]
  allocSites m pair there := by
    obtain ⟨pair', there', rfl⟩ := List.mem_map.mp there
    simp [fitting.allocSites m pair' there', Renaming.symm, Function.comp_def]

variable (fitting : Fitting names b₁ b₂ pairs)
include fitting

theorem var_eq {m : MethodId} {name : String} {v w : VarId} (first : b₁.VarNamed m name v)
    (second : b₂.VarNamed m name w) : w = names.var v :=
  second.unique ((fitting.vars m name v).mp first)

theorem field_eq {name : String} {f g : FieldId} (first : b₁.FieldNamed name f)
    (second : b₂.FieldNamed name g) : g = names.field f :=
  second.unique ((fitting.fields name f).mp first)

theorem option_eq {m : MethodId} {name : Option String} {v w : Option VarId}
    (first : Option.Rel (b₁.VarNamed m) name v) (second : Option.Rel (b₂.VarNamed m) name w) :
    w = v.map names.var := by
  cases first with
  | none =>
    cases second
    rfl
  | some first =>
    cases second with
    | some second => exact congrArg some (fitting.var_eq first second)

theorem list_eq {m : MethodId} {named : List String} {v w : List VarId}
    (first : List.Forall₂ (b₁.VarNamed m) named v) (second : List.Forall₂ (b₂.VarNamed m) named w) :
    w = v.map names.var := by
  induction first generalizing w with
  | nil =>
    cases second
    rfl
  | cons first _ ih =>
    cases second with
    | cons second rest => rw [List.map_cons, fitting.var_eq first second, ih rest]

variable (later : b.Later b₁) (later' : b.Later b₂)
include later later'

/-- Of two paired statements one is the other under new numbers. -/
theorem statement_eq {m : MethodId} {pair : Statement × Statement} (there : pair ∈ pairs m) :
    pair.2 = names.statement pair.1 := by
  have callSites := fitting.callSites m pair there
  have allocSites := fitting.allocSites m pair there
  obtain ⟨s, s'⟩ := pair
  obtain ⟨described, reads, reads'⟩ := fitting.pairing.reads m _ there
  cases reads with
  | new target type =>
    cases reads' with
    | new target' type' =>
      rw [later.resolveType] at type
      rw [later'.resolveType] at type'
      cases type.symm.trans type'
      cases fitting.var_eq target target'
      cases Option.some.inj allocSites
      rfl
  | assign target source =>
    cases reads' with
    | assign target' source' =>
      cases fitting.var_eq target target'
      cases fitting.var_eq source source'
      rfl
  | load target base field =>
    cases reads' with
    | load target' base' field' =>
      cases fitting.var_eq target target'
      cases fitting.var_eq base base'
      cases fitting.field_eq field field'
      rfl
  | store base source field =>
    cases reads' with
    | store base' source' field' =>
      cases fitting.var_eq base base'
      cases fitting.var_eq source source'
      cases fitting.field_eq field field'
      rfl
  | call =>
    obtain ⟨site', _, rfl, _⟩ := reads'.call_of_described
    cases Option.some.inj callSites
    rfl

theorem has {m : MethodId} {s : Statement} (has : b₁.program.Has m s) :
    b₂.program.Has m (names.statement s) := by
  obtain ⟨s', there⟩ := fitting.pairing.exists_pair has
  have same := fitting.statement_eq later later' there
  exact same ▸ fitting.pairing.has_right there

/-- The calls of paired statements differ in numbers only. -/
theorem call_eq {m : MethodId} {site : CallSiteId} {call : CallSite}
    (has : b₁.program.Has m (.call site)) (found : b₁.program.callSite site = .ok call) :
    b₂.program.callSite (names.callSite site) = .ok (names.call call) := by
  obtain ⟨s', there⟩ := fitting.pairing.exists_pair has
  have same := fitting.statement_eq later later' there
  obtain ⟨described, reads, reads'⟩ := fitting.pairing.reads m _ there
  cases reads with
  | @call _ call₁ _ _ _ _ found₁ container resolved receiver args result =>
    cases found.symm.trans found₁
    obtain ⟨site', call', rfl, found', container', kind', resolved', receiver', args', result'⟩ :=
      reads'.call_of_described
    cases same
    rw [later.resolveMethod] at resolved
    rw [later'.resolveMethod] at resolved'
    have renamed : call' = names.call call := by
      obtain ⟨_, _, _, _, _, _⟩ := call'
      cases container'
      cases kind'
      cases resolved.symm.trans resolved'
      cases fitting.option_eq receiver receiver'
      cases fitting.list_eq args args'
      cases fitting.option_eq result result'
      cases container
      rfl
    exact renamed ▸ found'

end Fitting

namespace Reread

variable {b b₁ b₂ : Builder} {declared declared' : List (MethodId × Described.Method)}
  (reread : b.Reread b₁ b₂ declared declared')
include reread

theorem exists_fitting : ∃ names pairs, Fitting names b₁ b₂ pairs := by
  obtain ⟨vars, sameVars⟩ := reread.exists_vars
  obtain ⟨fields, sameFields⟩ := reread.exists_fields
  obtain ⟨pairs, pairing⟩ := reread.exists_pairing
  have alike (m : MethodId) (pair : Statement × Statement) (there : pair ∈ pairs m) :
      pair.1.callSite?.isSome = pair.2.callSite?.isSome ∧
        pair.1.allocSite?.isSome = pair.2.allocSite?.isSome := by
    obtain ⟨described, reads, reads'⟩ := pairing.reads m pair there
    exact reads.alike reads'
  have first := reread.first.sound.coherent
  have second := reread.second.sound.coherent
  obtain ⟨callSites, sameCalls⟩ := pairing.exists_sites first.numbers_calls second.numbers_calls
    fun m pair there => (alike m pair there).1
  obtain ⟨allocSites, sameAllocs⟩ := pairing.exists_sites first.numbers_allocs second.numbers_allocs
    fun m pair there => (alike m pair there).2
  exact ⟨⟨vars, fields, callSites, allocSites⟩, pairs, sameVars, sameFields, pairing, sameCalls,
    sameAllocs⟩

variable {names : Renaming} {pairs : MethodId → List (Statement × Statement)}
  (fitting : Fitting names b₁ b₂ pairs)
include fitting

/-- Variables that were declared before the bodies keep their numbers. -/
theorem var_fixed {m : MethodId} {v : VarId} (owns : b.program.Owns m v) : names.var v = v := by
  obtain ⟨var, found, _⟩ := owns
  have named := reread.blank.sound.named_of_var found
  exact (fitting.var_eq (reread.first.later.varNamed named) (reread.second.later.varNamed named)).symm

theorem restates {m : MethodId} {method : Method} (found : b₁.program.method m = .ok method) :
    ∃ method', b₂.program.method m = .ok method' ∧ names.Restates method method' := by
  obtain ⟨method₀, found₀, _⟩ := reread.first.later.header_of found
  obtain ⟨⟨_, described⟩, there, rfl⟩ := List.mem_map.mp ((reread.known m).mp ⟨method₀, found₀⟩)
  obtain ⟨described', there', reordered⟩ := reread.entry there
  obtain ⟨_, found₁, fills⟩ := reread.first.filled there found₀
  cases found.symm.trans found₁
  obtain ⟨method', found', fills'⟩ := reread.second.filled there' found₀
  have coherent := reread.blank.sound.coherent.methods found₀
  have same : method'.header = method.header := fills'.header.trans fills.header.symm
  refine ⟨method', found', ?_, ?_, ?_, ?_, ?_, ?_, fun v listed => ?_⟩
  · exact (congrArg Method.name same :)
  · exact (congrArg Method.owner same :)
  · exact (congrArg Method.isStatic same :)
  · exact (congrArg Method.isAbstract same :)
  · have params : method.params = method₀.params := (congrArg Method.params fills.header :)
    have fixed : method₀.params.map names.var = method₀.params :=
      (List.map_congr_left fun v listed =>
        reread.var_fixed fitting (coherent.params_owned v listed)).trans (List.map_id _)
    rw [params, fixed]
    exact (congrArg Method.params fills'.header :)
  · have this : method.this = method₀.this := (congrArg Method.this fills.header :)
    have fixed : method₀.this.map names.var = method₀.this := by
      cases named : method₀.this with
      | none => rfl
      | some v => exact congrArg some (reread.var_fixed fitting (coherent.this_owned named))
    rw [this, fixed]
    exact (congrArg Method.this fills'.header :)
  · have none := (reread.blank.unfilled found₀).1
    simp only [fills.returns, fills'.returns, none, List.not_mem_nil, false_or] at listed ⊢
    obtain ⟨name, stated, named⟩ := listed
    exact ⟨name, reordered.mem_iff.mp stated, (fitting.vars _ _ _).mp named⟩

/-- All that is in the first program is in the second under new numbers. -/
theorem carries {entries entries' : Array MethodId} (listed : ∀ {m}, m ∈ entries → m ∈ entries') :
    names.Carries { b₁.program with entries } { b₂.program with entries := entries' } where
  types := reread.second.later.types.trans reread.first.later.types.symm
  entries := listed
  methods := reread.restates fitting
  vars found := by
    have named := reread.first.sound.named_of_var found
    obtain ⟨var', found', method, name⟩ :=
      reread.second.sound.var_of_named ((fitting.vars _ _ _).mp named)
    exact ⟨var', found', name, method⟩
  fields {f name} found := by
    have named : b₁.FieldNamed name f := by
      rw [Program.field, reread.first.sound.fields] at found
      exact Id.lookup_eq_ok_iff.mp found
    exact reread.second.sound.field_of_named ((fitting.fields _ _).mp named)
  has := fitting.has reread.first.later reread.second.later
  calls found := fitting.call_eq reread.first.later reread.second.later
    (reread.first.sound.coherent.calls found).placed found

/-- A renaming that fits exchanges the two programs. -/
theorem exchanges {entries entries' : Array MethodId} (same : ∀ m, m ∈ entries ↔ m ∈ entries') :
    names.Exchanges { b₁.program with entries } { b₂.program with entries := entries' } where
  forth := reread.carries fitting (same _).mp
  back := reread.symm.carries fitting.symm (same _).mpr

end Reread

end Builder

namespace Described.Program

variable {described described' : Described.Program} {p p' : PointerAnalysis.Program}

/-- The programs of one description in two orders differ in numbers only. -/
theorem Reordered.exists_exchange (same : described.Reordered described')
    (linked : described.link = .ok p) (linked' : described'.link = .ok p') :
    ∃ names : Renaming, names.Exchanges p p' := by
  have ran := linked
  rw [link_eq] at ran
  obtain ⟨⟨b, declared⟩, ran, _⟩ := bind_eq_ok_iff.mp ran
  obtain ⟨declared', ran', related⟩ := same.declare ran
  obtain ⟨blank, _, _, known⟩ := declare_spec ran
  obtain ⟨_, _, _, known'⟩ := declare_spec ran'
  obtain ⟨_, b₁, first, program, entries⟩ := link_spec ran linked
  obtain ⟨_, b₂, second, program', entries'⟩ := link_spec ran' linked'
  have reread : b.Reread b₁ b₂ declared declared' := ⟨blank, known, known', first, second, related⟩
  obtain ⟨names, pairs, fitting⟩ := reread.exists_fitting
  refine ⟨names, ?_⟩
  rw [program, program']
  refine reread.exchanges fitting fun m => ?_
  rw [entries, entries']
  exact exists_congr fun name => and_congr_left fun _ => same.entries.mem_iff

end Described.Program

end PointerAnalysis
