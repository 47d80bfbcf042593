import PointerAnalysis.Proofs.Description.Resolution

/-! Reading the bodies of methods. Every statement of a description but a return becomes one
statement of the program that says the same about the variables, fields, classes and methods that
the names stand for, in the same order; a return adds its variable to what the method returns. -/
namespace PointerAnalysis

namespace Described.Statement

/-- The variable that a return names. -/
def returned? : Statement → Option String
  | .return var => some var
  | _ => none

/-- The variables that a statement names. -/
def vars : Statement → List String
  | .new var _ => [var]
  | .assign target source => [target, source]
  | .load target base _ => [target, base]
  | .store base _ source => [base, source]
  | .call _ _ receiver args result => receiver.toList ++ args ++ result.toList
  | .return var => [var]

/-- The fields that a statement names. -/
def fields : Statement → List String
  | .load _ _ field | .store _ field _ => [field]
  | _ => []

end Described.Statement

namespace Builder

/-- A statement of a method says what a described statement says. -/
inductive Reads (b : Builder) (m : MethodId) : Statement → Described.Statement → Prop where
  | new {target : VarId} {site : AllocSiteId} {type : TypeId} {var typeName : String} :
      b.VarNamed m var target → b.resolveType typeName = .ok type →
      Reads b m (.alloc target site type) (.new var typeName)
  | assign {target source : VarId} {targetName sourceName : String} :
      b.VarNamed m targetName target → b.VarNamed m sourceName source →
      Reads b m (.assign target source) (.assign targetName sourceName)
  | load {target base : VarId} {field : FieldId} {targetName baseName fieldName : String} :
      b.VarNamed m targetName target → b.VarNamed m baseName base → b.FieldNamed fieldName field →
      Reads b m (.load target base field) (.load targetName baseName fieldName)
  | store {base source : VarId} {field : FieldId} {baseName sourceName fieldName : String} :
      b.VarNamed m baseName base → b.VarNamed m sourceName source → b.FieldNamed fieldName field →
      Reads b m (.store base field source) (.store baseName fieldName sourceName)
  | call {site : CallSiteId} {call : CallSite} {target : String} {receiver result : Option String}
      {args : List String} :
      b.program.callSite site = .ok call → call.container = m →
      b.resolveMethod target (some args.length) = .ok call.target →
      Option.Rel (b.VarNamed m) receiver call.receiver →
      List.Forall₂ (b.VarNamed m) args call.args → Option.Rel (b.VarNamed m) result call.result →
      Reads b m (.call site) (.call call.kind target receiver args result)

theorem Reads.later {b b' : Builder} (later : b.Later b') {m : MethodId} {s : Statement}
    {described : Described.Statement} (reads : b.Reads m s described) :
    b'.Reads m s described := by
  have named {name : String} {v : VarId} (before : b.VarNamed m name v) : b'.VarNamed m name v :=
    later.varNamed before
  cases reads with
  | new target type => exact .new (named target) ((later.resolveType _).trans type)
  | assign target source => exact .assign (named target) (named source)
  | load target base field => exact .load (named target) (named base) (later.fieldNamed field)
  | store base source field => exact .store (named base) (named source) (later.fieldNamed field)
  | call found container target receiver args result =>
    exact .call (later.calls found) container ((later.resolveMethod _ _).trans target)
      (rel_imp (fun _ _ => named) receiver) (args.imp fun _ _ => named)
      (rel_imp (fun _ _ => named) result)

/-- What the statements of a description make of a method. -/
structure Fills (b : Builder) (m : MethodId) (described : List Described.Statement)
    (method method' : Method) : Prop where
  header : method'.header = method.header
  body : ∃ added, method'.body.toList = method.body.toList ++ added ∧
    List.Forall₂ (b.Reads m) added (described.filter (·.returned?.isNone))
  returns : ∀ v, v ∈ method'.returns ↔
    v ∈ method.returns ∨ ∃ name, .return name ∈ described ∧ b.VarNamed m name v
  returned : ∃ vars, List.Forall₂ (b.VarNamed m) (described.filterMap (·.returned?)) vars ∧
    method'.returns = vars.foldl addOnce method.returns

namespace Fills

variable {b b' : Builder} {m : MethodId} {first second : List Described.Statement}
  {method method' method'' : Method}

/-- What statements have made of a method stays true while further names are declared. -/
theorem later (fills : b.Fills m first method method') (later : b.Later b')
    (known : ∀ s ∈ first, ∀ name ∈ s.vars, (m, name) ∈ b.varNames.toList) :
    b'.Fills m first method method' where
  header := fills.header
  body := by
    obtain ⟨added, body, reads⟩ := fills.body
    exact ⟨added, body, reads.imp fun _ _ => Reads.later later⟩
  returns := by
    intro v
    have same {name : String} (listed : .return name ∈ first) :
        b.VarNamed m name v ↔ b'.VarNamed m name v := by
      refine ⟨later.varNamed, fun named => ?_⟩
      obtain ⟨i, here⟩ := Registry.mem_toList.mp (known _ listed name (List.mem_singleton.mpr rfl))
      have stays : b'.VarNamed m name ⟨i⟩ := later.varNamed here
      cases (Registry.value?_injective stays named : i = v.index)
      exact here
    rw [fills.returns]
    exact or_congr_right (exists_congr fun name => and_congr_right same)
  returned := by
    obtain ⟨vars, named, same⟩ := fills.returned
    exact ⟨vars, named.imp fun _ _ => later.varNamed, same⟩

theorem append (before : b.Fills m first method method') (after : b.Fills m second method' method'') :
    b.Fills m (first ++ second) method method'' where
  header := after.header.trans before.header
  body := by
    obtain ⟨added, body, reads⟩ := before.body
    obtain ⟨added', body', reads'⟩ := after.body
    refine ⟨added ++ added', by rw [body', body, List.append_assoc], ?_⟩
    rw [List.filter_append]
    exact List.rel_append reads reads'
  returns := by
    intro v
    rw [after.returns, before.returns, or_assoc]
    simp only [List.mem_append, or_and_right, exists_or]
  returned := by
    obtain ⟨vars, named, same⟩ := before.returned
    obtain ⟨vars', named', same'⟩ := after.returned
    refine ⟨vars ++ vars', ?_, by rw [same', same, List.foldl_append]⟩
    rw [List.filterMap_append]
    exact List.rel_append named named'

end Fills

/-- A builder has read statements of one method. -/
structure Reading (b b' : Builder) (m : MethodId) (described : List Described.Statement) : Prop where
  sound : b'.Sound
  later : b.Later b'
  entries : b'.program.entries = b.program.entries
  others : ∀ {m'}, m' ≠ m → b'.program.method m' = b.program.method m'
  filled : ∀ {method}, b.program.method m = .ok method →
    ∃ method', b'.program.method m = .ok method' ∧ b'.Fills m described method method'
  vars : ∀ x, x ∈ b'.varNames.toList ↔
    x ∈ b.varNames.toList ∨ (x.1 = m ∧ ∃ s ∈ described, x.2 ∈ s.vars)
  fields : ∀ x, x ∈ b'.fieldNames.toList ↔
    x ∈ b.fieldNames.toList ∨ ∃ s ∈ described, x ∈ s.fields

namespace Reading

variable {b b' b'' : Builder} {m : MethodId} {first second : List Described.Statement}

theorem nil (sound : b.Sound) (m : MethodId) : b.Reading b m [] where
  sound := sound
  later := .refl b
  entries := rfl
  others _ := rfl
  filled found := ⟨_, found, rfl, ⟨[], by simp, .nil⟩, by simp, [], .nil, rfl⟩
  vars := by simp
  fields := by simp

theorem append (before : b.Reading b' m first) (after : b'.Reading b'' m second) :
    b.Reading b'' m (first ++ second) where
  sound := after.sound
  later := before.later.trans after.later
  entries := after.entries.trans before.entries
  others other := (after.others other).trans (before.others other)
  filled := by
    intro method found
    obtain ⟨method', found', fills⟩ := before.filled found
    obtain ⟨method'', found'', fills'⟩ := after.filled found'
    refine ⟨method'', found'', (fills.later after.later ?_).append fills'⟩
    exact fun s there name named => (before.vars _).mpr (.inr ⟨rfl, s, there, named⟩)
  vars := by
    intro x
    rw [after.vars, before.vars, or_assoc]
    simp only [List.mem_append, or_and_right, exists_or, and_or_left]
  fields := by
    intro x
    rw [after.fields, before.fields, or_assoc]
    simp only [List.mem_append, or_and_right, exists_or]

end Reading

/-! ### One statement -/

section Gains

variable {b b₁ b₂ : Builder} {m : MethodId} {s : Statement} {described : Described.Statement}
  (naming : b.Naming b₁ m described.vars described.fields)
  (gains : b₁.program.Gains b₂.program m s) (typeNames : b₂.typeNames = b₁.typeNames)
  (varNames : b₂.varNames = b₁.varNames) (fieldNames : b₂.fieldNames = b₁.fieldNames)
include naming gains typeNames varNames fieldNames

private theorem later_of_gains : b.Later b₂ where
  types := by rw [gains.types, naming.rest]
  typeNames := typeNames.trans naming.typeNames
  headers := by
    have same (method : Method) :
        Method.header { method with body := method.body.push s } = method.header := rfl
    rw [gains.methods, map_modify same, naming.rest]
  varNames := varNames ▸ naming.varNames
  fieldNames := fieldNames ▸ naming.fieldNames
  calls found := gains.calls (by rw [naming.rest]; exact found)

/-- A statement that a program gains is read by a builder, once its names are declared. -/
private theorem reading_of_gains
    (fieldTable : b₂.program.fields = b₁.program.fields)
    (varTable : b₂.varTable = b₁.varTable)
    (reads : b.Later b₂ → b₂.Reads m s described) : b.Reading b₂ m [described] := by
  have later := later_of_gains naming gains typeNames varNames fieldNames
  have reads := reads later
  have kept : described.returned? = none := by cases reads <;> rfl
  have sound₁ := naming.sound
  have sound₂ : b₂.Sound := {
    coherent := sound₁.coherent.gain gains
    vars := by rw [varNames, varTable, sound₁.vars]
    fields := by rw [fieldNames, fieldTable, sound₁.fields]
    types := by
      intro name t known
      rw [typeId?, typeNames] at known
      obtain ⟨_, found⟩ := sound₁.types known
      exact gains.within.types found }
  refine ⟨sound₂, later, ?_, fun {m'} other => ?_, fun {method} found => ?_, ?_, ?_⟩
  · rw [gains.entries, naming.rest]
  · have same : b.program.method m' = b₁.program.method m' := by rw [naming.rest]; rfl
    rw [same, Program.method, gains.methods]
    exact Id.lookup_modify_other other
  · have found₁ : b₁.program.method m = .ok method := by rw [naming.rest]; exact found
    refine ⟨_, gains.method_iff.mpr ⟨method, found₁, rfl⟩, ?_⟩
    rw [if_pos rfl]
    refine ⟨rfl, ⟨[s], by simp, ?_⟩, fun v => ?_, [], by simp [kept], rfl⟩
    · simpa [kept] using reads
    · refine ⟨.inl, fun listed => listed.resolve_right ?_⟩
      rintro ⟨name, same, _⟩
      cases List.mem_singleton.mp same
      cases kept
  · simpa [varNames] using naming.mem_varNames
  · simpa [fieldNames] using naming.mem_fieldNames

end Gains

/-- A method that a later builder has, under the names declared meanwhile. -/
private theorem Naming.method {b b' : Builder} {m m' : MethodId} {vars fields : List String}
    (naming : b.Naming b' m vars fields) {method : Method}
    (found : b.program.method m' = .ok method) : b'.program.method m' = .ok method := by
  rw [naming.rest]
  exact found

section Statements

variable {b b' : Builder} {m : MethodId} {method : Method} (sound : b.Sound)
  (declared : b.program.method m = .ok method)
include sound declared

private theorem reading_new {name typeName : String} {t : TypeId}
    (resolved : b.resolveType typeName = .ok t) :
    b.Reading ((b.var m name).1.alloc m (b.var m name).2 t).1 m [.new name typeName] := by
  obtain ⟨type, known⟩ := resolveType_ok sound resolved
  obtain ⟨naming, target⟩ := var_spec sound m name
  have known₁ : (b.var m name).1.program.type t = .ok type := by
    rw [naming.rest]
    exact known
  exact reading_of_gains naming (gains_alloc naming.sound (naming.method declared)
    (naming.sound.owns_of_named target) known₁) rfl rfl rfl rfl rfl
    fun later => .new target ((later.resolveType _).trans resolved)

private theorem reading_assign (target source : String) :
    let (b₁, target') := b.var m target
    let (b₂, source') := b₁.var m source
    b.Reading (b₂.assign m target' source') m [.assign target source] := by
  obtain ⟨naming₁, targetNamed⟩ := var_spec sound m target
  obtain ⟨naming₂, sourceNamed⟩ := var_spec naming₁.sound m source
  have naming := naming₁.append naming₂
  have targetNamed := naming₂.varNamed targetNamed
  exact reading_of_gains naming (gains_assign naming.sound (naming.method declared)
    (naming.sound.owns_of_named targetNamed) (naming.sound.owns_of_named sourceNamed))
    rfl rfl rfl rfl rfl fun _ => .assign targetNamed sourceNamed

private theorem reading_load (target base field : String) :
    let (b₁, target') := b.var m target
    let (b₂, base') := b₁.var m base
    let (b₃, field') := b₂.field field
    b.Reading (b₃.load m target' base' field') m [.load target base field] := by
  obtain ⟨naming₁, targetNamed⟩ := var_spec sound m target
  obtain ⟨naming₂, baseNamed⟩ := var_spec naming₁.sound m base
  obtain ⟨naming₃, fieldNamed⟩ := field_spec naming₂.sound m field
  have naming := (naming₁.append naming₂).append naming₃
  have targetNamed := naming₃.varNamed (naming₂.varNamed targetNamed)
  have baseNamed := naming₃.varNamed baseNamed
  exact reading_of_gains naming (gains_load naming.sound (naming.method declared)
    (naming.sound.owns_of_named targetNamed) (naming.sound.owns_of_named baseNamed)
    (naming.sound.field_of_named fieldNamed))
    rfl rfl rfl rfl (varTable_load _ _ _ _ _) fun _ => .load targetNamed baseNamed fieldNamed

private theorem reading_store (base field source : String) :
    let (b₁, base') := b.var m base
    let (b₂, source') := b₁.var m source
    let (b₃, field') := b₂.field field
    b.Reading (b₃.store m base' field' source') m [.store base field source] := by
  obtain ⟨naming₁, baseNamed⟩ := var_spec sound m base
  obtain ⟨naming₂, sourceNamed⟩ := var_spec naming₁.sound m source
  obtain ⟨naming₃, fieldNamed⟩ := field_spec naming₂.sound m field
  have naming := (naming₁.append naming₂).append naming₃
  have baseNamed := naming₃.varNamed (naming₂.varNamed baseNamed)
  have sourceNamed := naming₃.varNamed sourceNamed
  exact reading_of_gains naming (gains_store naming.sound (naming.method declared)
    (naming.sound.owns_of_named baseNamed) (naming.sound.owns_of_named sourceNamed)
    (naming.sound.field_of_named fieldNamed))
    rfl rfl rfl rfl (varTable_store _ _ _ _ _) fun _ => .store baseNamed sourceNamed fieldNamed

/-- A call whose variables have been named. -/
private theorem reading_named_call {b₁ : Builder} {call : CallSite} {targetName : String}
    {receiver result : Option String} {args : List String} (here : call.container = m)
    (naming : b.Naming b₁ m (receiver.toList ++ args ++ result.toList) [])
    (resolved : b.resolveMethod targetName (some args.length) = .ok call.target)
    (receiverNamed : Option.Rel (b₁.VarNamed m) receiver call.receiver)
    (argsNamed : List.Forall₂ (b₁.VarNamed m) args call.args)
    (resultNamed : Option.Rel (b₁.VarNamed m) result call.result) :
    b.Reading (b₁.call call).1 m [.call call.kind targetName receiver args result] := by
  obtain ⟨target, known, takes⟩ := resolveMethod_ok sound resolved
  have fits := (takes _ rfl).trans argsNamed.length_eq
  have gains := gains_call naming.sound (naming.method declared) here (naming.method known) fits
    (naming.sound.owns_of_option receiverNamed) (naming.sound.owns_of_list argsNamed)
    (naming.sound.owns_of_option resultNamed)
  obtain ⟨typeNames, varNames, fieldNames, fields, found⟩ := call_tables b₁ call
  have named {name : String} {v : VarId} (before : b₁.VarNamed m name v) :
      (b₁.call call).1.VarNamed m name v := by
    rw [VarNamed, varNames]
    exact before
  refine reading_of_gains naming gains typeNames varNames fieldNames fields (varTable_call b₁ call)
    fun later => .call found here ((later.resolveMethod _ _).trans resolved) ?_ ?_ ?_
  · exact rel_imp (fun _ _ => named) receiverNamed
  · exact argsNamed.imp fun _ _ => named
  · exact rel_imp (fun _ _ => named) resultNamed

private theorem reading_call (kind : CallKind) {targetName : String}
    {receiver result : Option String} {args : List String} {target : MethodId}
    (resolved : b.resolveMethod targetName (some args.length) = .ok target) :
    let (b₁, receiver') := b.varOption m receiver
    let (b₂, args') := b₁.varList m args
    let (b₃, result') := b₂.varOption m result
    b.Reading
      (b₃.call { container := m, kind, target, receiver := receiver', args := args', result := result' }).1
      m [.call kind targetName receiver args result] := by
  obtain ⟨naming₁, receiverNamed⟩ := varOption_spec sound m receiver
  obtain ⟨naming₂, argsNamed⟩ := varList_spec naming₁.sound m args
  obtain ⟨naming₃, resultNamed⟩ := varOption_spec naming₂.sound m result
  have naming := (naming₁.append naming₂).append naming₃
  refine reading_named_call sound declared rfl naming resolved ?_ ?_ resultNamed
  · exact rel_imp (fun _ _ named => naming₃.varNamed (naming₂.varNamed named)) receiverNamed
  · exact argsNamed.imp fun _ _ => naming₃.varNamed

omit sound declared in
/-- A returned variable that has been named. -/
private theorem reading_named_return {b₁ : Builder} {name : String} {v : VarId}
    (naming : b.Naming b₁ m [name] []) (named : b₁.VarNamed m name v) :
    b.Reading (b₁.addReturn m v) m [.return name] := by
  have header (method : Method) : Method.header
      { method with returns := if v ∈ method.returns then method.returns else method.returns ++ [v] } =
        method.header := rfl
  refine ⟨addReturn_sound naming.sound (naming.sound.owns_of_named named), ?_, ?_,
    fun {m'} other => ?_, fun {method} found => ?_, ?_, ?_⟩
  · refine ⟨?_, naming.typeNames, ?_, naming.varNames, naming.fieldNames, fun found => ?_⟩
    · show b₁.program.types = b.program.types
      rw [naming.rest]
    · refine (map_modify header).trans ?_
      rw [naming.rest]
    · show b₁.program.callSite _ = _
      rw [naming.rest]
      exact found
  · show b₁.program.entries = b.program.entries
    rw [naming.rest]
  · refine (Id.lookup_modify_other other).trans ?_
    rw [naming.rest]
    rfl
  · refine ⟨_, Id.lookup_modify.mpr ⟨method, naming.method found, rfl⟩, ?_⟩
    rw [if_pos rfl]
    refine ⟨rfl, ⟨[], by simp, by simp [Described.Statement.returned?]⟩, fun w => ?_,
      [v], .cons named .nil, rfl⟩
    have same : (∃ name', .return name' ∈ [Described.Statement.return name] ∧
        b₁.VarNamed m name' w) ↔ w = v := by
      constructor
      · rintro ⟨name', listed, named'⟩
        cases List.mem_singleton.mp listed
        exact named'.unique named
      · rintro rfl
        exact ⟨name, List.mem_singleton.mpr rfl, named⟩
    refine Iff.trans ?_ (or_congr_right same.symm)
    dsimp only
    split
    · next known => exact ⟨.inl, fun h => h.elim id (· ▸ known)⟩
    · simp
  · intro x
    refine (naming.mem_varNames x).trans ?_
    simp [Described.Statement.vars]
  · intro x
    refine (naming.mem_fieldNames x).trans ?_
    simp [Described.Statement.fields]

omit declared in
private theorem reading_return (name : String) :
    b.Reading ((b.var m name).1.addReturn m (b.var m name).2) m [.return name] := by
  obtain ⟨naming, named⟩ := var_spec sound m name
  exact reading_named_return naming named

end Statements

/-- All that a statement refers to by a global name is there. -/
def Resolves (b : Builder) : Described.Statement → Prop
  | .new _ type => ∃ t, b.resolveType type = .ok t
  | .call _ target _ args _ => ∃ m, b.resolveMethod target (some args.length) = .ok m
  | _ => True

theorem Later.resolves {b b' : Builder} (later : b.Later b') (s : Described.Statement) :
    b'.Resolves s ↔ b.Resolves s := by
  cases s <;> simp only [Resolves, later.resolveType, later.resolveMethod]

/-- A statement is read just if what it refers to is there. -/
theorem linkStatement_spec {b : Builder} (sound : b.Sound) {m : MethodId} {method : Method}
    (declared : b.program.method m = .ok method) (s : Described.Statement) :
    ((∃ b', b.linkStatement m s = .ok b') ↔ b.Resolves s) ∧
      ∀ b', b.linkStatement m s = .ok b' → b.Reading b' m [s] := by
  cases s with
  | new name typeName =>
    cases resolved : b.resolveType typeName with
    | error e => simp [linkStatement, Resolves, resolved]
    | ok t =>
      refine ⟨by simp [linkStatement, Resolves, resolved], fun b' linked => ?_⟩
      obtain ⟨t', resolved', linked⟩ := bind_eq_ok_iff.mp linked
      cases resolved.symm.trans resolved'
      exact Except.ok.inj linked ▸ reading_new sound declared resolved
  | assign target source =>
    refine ⟨iff_of_true ⟨_, rfl⟩ trivial, fun b' linked => ?_⟩
    exact Except.ok.inj linked ▸ reading_assign sound declared target source
  | load target base field =>
    refine ⟨iff_of_true ⟨_, rfl⟩ trivial, fun b' linked => ?_⟩
    exact Except.ok.inj linked ▸ reading_load sound declared target base field
  | store base field source =>
    refine ⟨iff_of_true ⟨_, rfl⟩ trivial, fun b' linked => ?_⟩
    exact Except.ok.inj linked ▸ reading_store sound declared base field source
  | call kind target receiver args result =>
    cases resolved : b.resolveMethod target (some args.length) with
    | error e => simp [linkStatement, Resolves, resolved]
    | ok id =>
      refine ⟨by simp [linkStatement, Resolves, resolved], fun b' linked => ?_⟩
      obtain ⟨id', resolved', linked⟩ := bind_eq_ok_iff.mp linked
      cases resolved.symm.trans resolved'
      exact Except.ok.inj linked ▸ reading_call sound declared kind resolved
  | «return» name =>
    refine ⟨iff_of_true ⟨_, rfl⟩ trivial, fun b' linked => ?_⟩
    exact Except.ok.inj linked ▸ reading_return sound name

/-- A body is read just if what its statements refer to is there. -/
theorem linkBody_spec {b : Builder} (sound : b.Sound) {m : MethodId} {method : Method}
    (declared : b.program.method m = .ok method) (body : List Described.Statement) :
    ((∃ b', body.foldlM (fun b s => b.linkStatement m s) b = .ok b') ↔ ∀ s ∈ body, b.Resolves s) ∧
      ∀ b', body.foldlM (fun b s => b.linkStatement m s) b = .ok b' → b.Reading b' m body := by
  induction body generalizing b method with
  | nil =>
    refine ⟨by simp, fun b' linked => ?_⟩
    cases linked
    exact .nil sound m
  | cons s body ih =>
    obtain ⟨resolves, reading⟩ := linkStatement_spec sound declared s
    have others {b₁ : Builder} (linked : b.linkStatement m s = .ok b₁) :
        ((∃ b', body.foldlM (fun b s => b.linkStatement m s) b₁ = .ok b') ↔
          ∀ s ∈ body, b₁.Resolves s) ∧
        ∀ b', body.foldlM (fun b s => b.linkStatement m s) b₁ = .ok b' → b₁.Reading b' m body := by
      have first := reading b₁ linked
      obtain ⟨method₁, declared₁, _⟩ := first.filled declared
      exact ih first.sound declared₁
    constructor
    · rw [List.foldlM_cons, List.forall_mem_cons, ← resolves]
      constructor
      · rintro ⟨b', linked⟩
        obtain ⟨b₁, first, rest⟩ := bind_eq_ok_iff.mp linked
        refine ⟨⟨b₁, first⟩, fun s' there => ?_⟩
        exact ((reading b₁ first).later.resolves s').mp ((others first).1.mp ⟨b', rest⟩ s' there)
      · rintro ⟨⟨b₁, first⟩, rest⟩
        obtain ⟨b', linked⟩ := (others first).1.mpr fun s' there =>
          ((reading b₁ first).later.resolves s').mpr (rest s' there)
        exact ⟨b', bind_eq_ok_iff.mpr ⟨b₁, first, linked⟩⟩
    · intro b' linked
      obtain ⟨b₁, first, rest⟩ := bind_eq_ok_iff.mp linked
      exact (reading b₁ first).append ((others first).2 b' rest)

end Builder

end PointerAnalysis
