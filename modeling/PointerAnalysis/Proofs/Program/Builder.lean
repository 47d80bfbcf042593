import PointerAnalysis.Program.Builder
import PointerAnalysis.Proofs.Lists
import PointerAnalysis.Proofs.Program.Growth
import PointerAnalysis.Proofs.Registry

/-! Builders keep their programs coherent. Every variable stands in the table of names under its
method and name, every name of a class stands for a class, and naming a thing that has a name
changes nothing. -/
namespace PointerAnalysis.Builder

/-- A variable is that of a name in a method. -/
def VarNamed (b : Builder) (m : MethodId) (name : String) (v : VarId) : Prop :=
  b.varNames.value? v.index = some (m, name)

/-- A field is that of a name. -/
def FieldNamed (b : Builder) (name : String) (f : FieldId) : Prop :=
  b.fieldNames.value? f.index = some name

/-- A method has one variable of a name. -/
theorem VarNamed.unique {b : Builder} {m : MethodId} {name : String} {v v' : VarId}
    (named : b.VarNamed m name v) (named' : b.VarNamed m name v') : v = v' :=
  Id.ext (Registry.value?_injective named named')

/-- There is one field of a name. -/
theorem FieldNamed.unique {b : Builder} {name : String} {f f' : FieldId}
    (named : b.FieldNamed name f) (named' : b.FieldNamed name f') : f = f' :=
  Id.ext (Registry.value?_injective named named')

theorem exists_varNamed_iff {b : Builder} {m : MethodId} {name : String} :
    (∃ v, b.VarNamed m name v) ↔ (m, name) ∈ b.varNames.toList := by
  rw [Registry.mem_toList]
  exact ⟨fun ⟨v, named⟩ => ⟨v.index, named⟩, fun ⟨i, named⟩ => ⟨⟨i⟩, named⟩⟩

theorem exists_fieldNamed_iff {b : Builder} {name : String} :
    (∃ f, b.FieldNamed name f) ↔ name ∈ b.fieldNames.toList := by
  rw [Registry.mem_toList]
  exact ⟨fun ⟨f, named⟩ => ⟨f.index, named⟩, fun ⟨i, named⟩ => ⟨⟨i⟩, named⟩⟩

/-- The method and the name of every variable. -/
def varTable (b : Builder) : Array (MethodId × String) :=
  b.program.vars.map fun var => (var.method, var.name)

/-- The program is coherent, and the tables of names say what is in it. -/
structure Sound (b : Builder) : Prop where
  coherent : b.program.Coherent
  vars : b.varNames.values = b.varTable
  fields : b.program.fields = b.fieldNames.values
  types : ∀ {name t}, b.typeId? name = some t → ∃ type, b.program.type t = .ok type

/-- A later builder has named more variables and fields, and nothing else has happened. -/
structure Named (b b' : Builder) : Prop where
  rest : b'.program = { b.program with vars := b'.program.vars, fields := b'.program.fields }
  typeNames : b'.typeNames = b.typeNames
  varNames : b.varNames.Extends b'.varNames
  fieldNames : b.fieldNames.Extends b'.fieldNames
  var_eq : ∀ {v var}, b.program.var v = .ok var → b'.program.var v = .ok var

theorem Sound.var_of_named {b : Builder} (sound : b.Sound) {m : MethodId} {name : String} {v : VarId}
    (named : b.VarNamed m name v) :
    ∃ var, b.program.var v = .ok var ∧ var.method = m ∧ var.name = name := by
  rw [VarNamed, Registry.value?, sound.vars, varTable, Array.getElem?_map, Option.map_eq_some_iff] at named
  obtain ⟨var, found, same⟩ := named
  cases same
  exact ⟨var, Id.lookup_eq_ok_iff.mpr found, rfl, rfl⟩

/-- A variable has its name. -/
theorem Sound.named_of_var {b : Builder} (sound : b.Sound) {v : VarId} {var : Variable}
    (found : b.program.var v = .ok var) : b.VarNamed var.method var.name v := by
  rw [VarNamed, Registry.value?, sound.vars, varTable, Array.getElem?_map,
    Id.lookup_eq_ok_iff.mp found, Option.map_some]

theorem Sound.owns_of_named {b : Builder} (sound : b.Sound) {m : MethodId} {name : String}
    {v : VarId} (named : b.VarNamed m name v) : b.program.Owns m v := by
  obtain ⟨var, found, method, _⟩ := sound.var_of_named named
  exact ⟨var, found, method⟩

theorem Sound.field_of_named {b : Builder} (sound : b.Sound) {name : String} {f : FieldId}
    (named : b.FieldNamed name f) : b.program.field f = .ok name := by
  rw [Program.field, sound.fields]
  exact Id.lookup_eq_ok_iff.mpr named

theorem Sound.named_of_field {b : Builder} (sound : b.Sound) {name : String} {f : FieldId}
    (found : b.program.field f = .ok name) : b.FieldNamed name f := by
  rw [Program.field, sound.fields] at found
  exact Id.lookup_eq_ok_iff.mp found

theorem Sound.owns_of_list {b : Builder} (sound : b.Sound) {m : MethodId} {names : List String}
    {vars : List VarId} (named : List.Forall₂ (b.VarNamed m) names vars) :
    ∀ v ∈ vars, b.program.Owns m v := by
  intro v there
  obtain ⟨_, _, named⟩ := exists_left_of_forall₂ named there
  exact sound.owns_of_named named

theorem Sound.owns_of_option {b : Builder} (sound : b.Sound) {m : MethodId} {name : Option String}
    {var : Option VarId} (named : Option.Rel (b.VarNamed m) name var) :
    ∀ v, var = some v → b.program.Owns m v := by
  rintro v rfl
  obtain ⟨_, _, named⟩ := exists_left_of_rel named
  exact sound.owns_of_named named

namespace Named

theorem refl (b : Builder) : b.Named b := ⟨rfl, rfl, .refl _, .refl _, id⟩

theorem trans {b b' b'' : Builder} (first : b.Named b') (second : b'.Named b'') : b.Named b'' where
  rest := by rw [second.rest, first.rest]
  typeNames := second.typeNames.trans first.typeNames
  varNames := first.varNames.trans second.varNames
  fieldNames := first.fieldNames.trans second.fieldNames
  var_eq found := second.var_eq (first.var_eq found)

theorem varNamed {b b' : Builder} (named : b.Named b') {m : MethodId} {name : String} {v : VarId}
    (before : b.VarNamed m name v) : b'.VarNamed m name v := named.varNames.value? before

theorem fieldNamed {b b' : Builder} (named : b.Named b') {name : String} {f : FieldId}
    (before : b.FieldNamed name f) : b'.FieldNamed name f := named.fieldNames.value? before

end Named

/-! ### Naming -/

/-- A later builder has named these variables of a method and these fields. -/
structure Naming (b b' : Builder) (m : MethodId) (vars fields : List String) : Prop
    extends b.Named b' where
  sound : b'.Sound
  mem_varNames : ∀ x, x ∈ b'.varNames.toList ↔ x ∈ b.varNames.toList ∨ (x.1 = m ∧ x.2 ∈ vars)
  mem_fieldNames : ∀ x, x ∈ b'.fieldNames.toList ↔ x ∈ b.fieldNames.toList ∨ x ∈ fields

theorem Naming.nil {b : Builder} (sound : b.Sound) (m : MethodId) : b.Naming b m [] [] :=
  { Named.refl b with sound, mem_varNames := by simp, mem_fieldNames := by simp }

theorem Naming.append {b b' b'' : Builder} {m : MethodId} {vars vars' fields fields' : List String}
    (first : b.Naming b' m vars fields) (second : b'.Naming b'' m vars' fields') :
    b.Naming b'' m (vars ++ vars') (fields ++ fields') :=
  { first.toNamed.trans second.toNamed with
    sound := second.sound
    mem_varNames := fun x => by
      rw [second.mem_varNames, first.mem_varNames, List.mem_append, or_assoc, and_or_left]
    mem_fieldNames := fun x => by
      rw [second.mem_fieldNames, first.mem_fieldNames, List.mem_append, or_assoc] }

section Naming

variable {b : Builder} (sound : b.Sound)
include sound

/-- Naming a variable declares it unless it has been named before. -/
theorem var_spec (m : MethodId) (name : String) :
    b.Naming (b.var m name).1 m [name] [] ∧
      (b.var m name).1.VarNamed m name (b.var m name).2 := by
  have size : b.varNames.values.size = b.program.vars.size := by
    rw [sound.vars, varTable, Array.size_map]
  have named : (b.var m name).1.VarNamed m name (b.var m name).2 := Registry.value?_register _ _
  have mem_varNames (x : MethodId × String) : x ∈ (b.var m name).1.varNames.toList ↔
      x ∈ b.varNames.toList ∨ (x.1 = m ∧ x.2 ∈ [name]) := by
    refine Registry.mem_toList_register.trans (or_congr_right ?_)
    rw [List.mem_singleton, Prod.ext_iff]
  cases known : b.varNames.position? (m, name) with
  | some i =>
    have inside : i < b.program.vars.size := by
      rw [← size]
      exact (Array.getElem?_eq_some_iff.mp (Registry.position?_eq_some_iff.mp known)).1
    have same : b.var m name = (b, ⟨i⟩) := by
      simp only [var, Registry.register_of_known known, inside, ↓reduceIte]
    rw [same] at named mem_varNames ⊢
    exact ⟨{ Named.refl b with sound, mem_varNames, mem_fieldNames := by simp }, named⟩
  | none =>
    obtain ⟨values, position⟩ := Registry.register_of_fresh known
    have last : ¬ (b.varNames.register (m, name)).2 < b.program.vars.size := by
      rw [position, Registry.size, size]
      exact Nat.lt_irrefl _
    have same : (b.var m name).1 =
        { b with
          varNames := (b.varNames.register (m, name)).1
          program := { b.program with vars := b.program.vars.push ⟨name, m, #[], #[], #[]⟩ } } := by
      simp only [var, last, ↓reduceIte]
    rw [same] at named mem_varNames ⊢
    refine ⟨{ rest := rfl, typeNames := rfl, varNames := Registry.register_extends _ _,
              fieldNames := .refl _, var_eq := fun found => Id.lookup_push.mpr (.inl found),
              sound := ⟨sound.coherent.push_var name m, ?_, sound.fields, sound.types⟩,
              mem_varNames, mem_fieldNames := by simp }, named⟩
    simp [values, sound.vars, varTable]

/-- Naming variables one after another. -/
theorem varList_spec (m : MethodId) (names : List String) :
    b.Naming (b.varList m names).1 m names [] ∧
      List.Forall₂ ((b.varList m names).1.VarNamed m) names (b.varList m names).2 := by
  induction names generalizing b with
  | nil => exact ⟨.nil sound m, .nil⟩
  | cons name names ih =>
    obtain ⟨naming₁, first⟩ := var_spec sound m name
    obtain ⟨naming₂, others⟩ := ih naming₁.sound
    exact ⟨naming₁.append naming₂, .cons (naming₂.varNamed first) others⟩

theorem varOption_spec (m : MethodId) (name : Option String) :
    b.Naming (b.varOption m name).1 m name.toList [] ∧
      Option.Rel ((b.varOption m name).1.VarNamed m) name (b.varOption m name).2 := by
  cases name with
  | none => exact ⟨.nil sound m, .none⟩
  | some name =>
    obtain ⟨naming, first⟩ := var_spec sound m name
    exact ⟨naming, .some first⟩

theorem field_spec (m : MethodId) (name : String) :
    b.Naming (b.field name).1 m [] [name] ∧
      (b.field name).1.FieldNamed name (b.field name).2 := by
  refine ⟨{ rest := rfl, typeNames := rfl, varNames := .refl _,
            fieldNames := Registry.register_extends _ _, var_eq := id,
            sound := ⟨sound.coherent.set_fields ?_, sound.vars, rfl, sound.types⟩,
            mem_varNames := by simp [field], mem_fieldNames := fun x => ?_ },
    Registry.value?_register _ _⟩
  · intro f known found
    rw [Program.field, sound.fields] at found
    exact Id.lookup_eq_ok_iff.mpr
      ((Registry.register_extends _ _).value? (Id.lookup_eq_ok_iff.mp found))
  · rw [List.mem_singleton]
    exact Registry.mem_toList_register

end Naming

/-! ### Statements -/

/-- A variable stays in its method when something is entered under it. -/
private theorem owns_modifyVar {b : Builder} {m : MethodId} {v changed : VarId}
    {change : Variable → Variable} (keeps : ∀ var, (change var).method = var.method)
    (owns : b.program.Owns m v) : (b.modifyVar changed change).program.Owns m v := by
  obtain ⟨var, found, same⟩ := owns
  refine ⟨_, Id.lookup_modify.mpr ⟨var, found, rfl⟩, ?_⟩
  split
  · exact (keeps var).trans same
  · exact same

private theorem varTable_modifyVar (b : Builder) (v : VarId) (change : Variable → Variable)
    (keeps : ∀ var, (change var).method = var.method ∧ (change var).name = var.name) :
    (b.modifyVar v change).varTable = b.varTable :=
  map_modify fun var => by rw [(keeps var).1, (keeps var).2]

theorem varTable_load (b : Builder) (m : MethodId) (target base : VarId) (f : FieldId) :
    (b.load m target base f).varTable = b.varTable :=
  varTable_modifyVar b base (fun v => { v with loads := v.loads.push (f, target) })
    fun _ => ⟨rfl, rfl⟩

theorem varTable_store (b : Builder) (m : MethodId) (base : VarId) (f : FieldId) (source : VarId) :
    (b.store m base f source).varTable = b.varTable :=
  varTable_modifyVar b base (fun v => { v with stores := v.stores.push (f, source) })
    fun _ => ⟨rfl, rfl⟩

theorem varTable_call (b : Builder) (site : CallSite) :
    (b.call site).1.varTable = b.varTable := by
  unfold call
  dsimp only
  split
  · rfl
  · next receiver _ =>
    exact varTable_modifyVar b receiver (fun v =>
      { v with calls := v.calls.push ⟨b.program.callSites.size⟩ }) fun _ => ⟨rfl, rfl⟩

theorem callSites_call (b : Builder) (site : CallSite) :
    (b.call site).1.program.callSites = b.program.callSites.push site := by
  unfold call
  dsimp only
  split <;> rfl

/-- A call joins the others under its number. -/
theorem callSite_call {b : Builder} {site call' : CallSite} {id : CallSiteId} :
    (b.call site).1.program.callSite id = .ok call' ↔
      b.program.callSite id = .ok call' ∨ (id = (b.call site).2 ∧ call' = site) := by
  rw [Program.callSite, callSites_call]
  exact Id.lookup_push

theorem call_vars_of_none (b : Builder) {site : CallSite} (none : site.receiver = none) :
    (b.call site).1.program.vars = b.program.vars := by
  simp [call, none, addStatement, modifyMethod]

theorem call_vars_of_some (b : Builder) {site : CallSite} {r : VarId} (through : site.receiver = some r) :
    (b.call site).1.program.vars = b.program.vars.modify r.index
      fun var => { var with calls := var.calls.push (b.call site).2 } := by
  simp [call, through, addStatement, modifyMethod, modifyVar]

/-- A call is entered under its receiver and under no other variable. -/
theorem var_call {b : Builder} {site : CallSite} {v : VarId} {var' : Variable} :
    (b.call site).1.program.var v = .ok var' ↔
      ∃ var, b.program.var v = .ok var ∧ var' = if site.receiver = some v
        then { var with calls := var.calls.push (b.call site).2 } else var := by
  cases through : site.receiver with
  | none =>
    rw [Program.var, call_vars_of_none b through]
    simp [Program.var]
  | some r =>
    rw [Program.var, call_vars_of_some b through, Id.lookup_modify]
    simp only [Option.some.injEq, eq_comm (a := v)]
    rfl

/-- A call changes no table of names, and is found under its number. -/
theorem call_tables (b : Builder) (site : CallSite) :
    (b.call site).1.typeNames = b.typeNames ∧ (b.call site).1.varNames = b.varNames ∧
      (b.call site).1.fieldNames = b.fieldNames ∧
      (b.call site).1.program.fields = b.program.fields ∧
      (b.call site).1.program.callSite (b.call site).2 = .ok site := by
  refine ⟨?_, ?_, ?_, ?_, callSite_call.mpr (.inr ⟨rfl, rfl⟩)⟩
  all_goals
    unfold call
    dsimp only
    split <;> rfl

/-- Of methods and what else a program declares, a call changes the body that it is added to. -/
theorem call_declares (b : Builder) (site : CallSite) :
    (b.call site).1.program.types = b.program.types ∧
      (b.call site).1.program.entries = b.program.entries ∧
      (b.call site).1.program.allocSites = b.program.allocSites ∧
      (b.call site).1.program.methods = b.program.methods.modify site.container.index
        fun method => { method with body := method.body.push (.call (b.call site).2) } := by
  unfold call
  dsimp only
  split <;> exact ⟨rfl, rfl, rfl, rfl⟩

section Statements

variable {b : Builder} {m : MethodId} {method : Method} (sound : b.Sound)
  (declared : b.program.method m = .ok method)
include sound declared

theorem gains_alloc {target : VarId} {t : TypeId} {type : TypeDecl}
    (owns : b.program.Owns m target) (known : b.program.type t = .ok type) :
    b.program.Gains (b.alloc m target t).1.program m
      (.alloc target (b.alloc m target t).2 t) where
  types := rfl
  fields := rfl
  methods := rfl
  entries := rfl
  declared := ⟨method, declared⟩
  mentions := ⟨owns, type, known⟩
  vars found := ⟨_, found, rfl⟩
  noted found := ⟨_, found, rfl, by simp, by simp, by simp,
    (sound.coherent.vars found).calls_once⟩
  calls found := found
  called found := .inl found
  call_new same := by cases same
  allocSites := Nat.le_succ _
  alloc_new same := by
    cases same
    exact ⟨Nat.le_refl _, Nat.lt_succ_self _⟩

theorem gains_assign {target source : VarId} (owns : b.program.Owns m target)
    (owns' : b.program.Owns m source) :
    b.program.Gains (b.assign m target source).program m (.assign target source) where
  types := rfl
  fields := rfl
  methods := rfl
  entries := rfl
  declared := ⟨method, declared⟩
  mentions := ⟨owns, owns'⟩
  vars found := ⟨_, found, rfl⟩
  noted found := ⟨_, found, rfl, by simp, by simp, by simp,
    (sound.coherent.vars found).calls_once⟩
  calls found := found
  called found := .inl found
  call_new same := by cases same
  allocSites := Nat.le_refl _
  alloc_new same := by cases same

theorem gains_store {base source : VarId} {f : FieldId} {name : String}
    (owns : b.program.Owns m base) (owns' : b.program.Owns m source)
    (known : b.program.field f = .ok name) :
    b.program.Gains (b.store m base f source).program m (.store base f source) where
  types := rfl
  fields := rfl
  methods := rfl
  entries := rfl
  declared := ⟨method, declared⟩
  mentions := ⟨owns_modifyVar (fun _ => rfl) owns, owns_modifyVar (fun _ => rfl) owns', name, known⟩
  vars found := ⟨_, Id.lookup_modify.mpr ⟨_, found, rfl⟩, by split <;> rfl⟩
  noted found := by
    obtain ⟨var, before, rfl⟩ := Id.lookup_modify.mp found
    refine ⟨var, before, ?_⟩
    have once := (sound.coherent.vars before).calls_once
    split
    · next same => simp [same, once, eq_comm]
    · next other => simp [Ne.symm other, once]
  calls found := found
  called found := .inl found
  call_new same := by cases same
  allocSites := Nat.le_refl _
  alloc_new same := by cases same

theorem gains_load {target base : VarId} {f : FieldId} {name : String}
    (owns : b.program.Owns m target) (owns' : b.program.Owns m base)
    (known : b.program.field f = .ok name) :
    b.program.Gains (b.load m target base f).program m (.load target base f) where
  types := rfl
  fields := rfl
  methods := rfl
  entries := rfl
  declared := ⟨method, declared⟩
  mentions := ⟨owns_modifyVar (fun _ => rfl) owns, owns_modifyVar (fun _ => rfl) owns', name, known⟩
  vars found := ⟨_, Id.lookup_modify.mpr ⟨_, found, rfl⟩, by split <;> rfl⟩
  noted found := by
    obtain ⟨var, before, rfl⟩ := Id.lookup_modify.mp found
    refine ⟨var, before, ?_⟩
    have once := (sound.coherent.vars before).calls_once
    split
    · next same => simp [same, once, eq_comm, and_comm]
    · next other => simp [Ne.symm other, once]
  calls found := found
  called found := .inl found
  call_new same := by cases same
  allocSites := Nat.le_refl _
  alloc_new same := by cases same

omit declared in
/-- A call is new, so no variable lists it; afterwards its receiver does, once. -/
private theorem listed_call {site : CallSite} {v : VarId} {var var' : Variable}
    (found : b.program.var v = .ok var) (same : var' = if site.receiver = some v
      then { var with calls := var.calls.push (b.call site).2 } else var) :
    (∀ id, id ∈ var'.calls.toList ↔
      id ∈ var.calls.toList ∨ (id = (b.call site).2 ∧ site.receiver = some v)) ∧
      var'.calls.toList.Nodup := by
  have once := (sound.coherent.vars found).calls_once
  have unlisted : (b.call site).2 ∉ var.calls.toList := by
    intro there
    obtain ⟨call', found', _⟩ := ((sound.coherent.vars found).calls_iff _).mp there
    exact Nat.lt_irrefl _ (Id.index_lt_of_lookup found')
  subst same
  split
  · next through =>
    refine ⟨fun id => by simp [through], ?_⟩
    rw [Array.toList_push]
    refine List.nodup_append.mpr ⟨once, List.nodup_cons.mpr ⟨List.not_mem_nil, List.nodup_nil⟩, ?_⟩
    intro first there last new same
    rw [List.mem_singleton.mp new] at same
    exact unlisted (same ▸ there)
  · next elsewhere => exact ⟨fun id => by simp [elsewhere], once⟩

theorem gains_call {site : CallSite} {target : Method} (here : site.container = m)
    (known : b.program.method site.target = .ok target)
    (fits : target.params.length = site.args.length)
    (receiver : ∀ v, site.receiver = some v → b.program.Owns m v)
    (args : ∀ v ∈ site.args, b.program.Owns m v)
    (result : ∀ v, site.result = some v → b.program.Owns m v) :
    b.program.Gains (b.call site).1.program m (.call (b.call site).2) where
  types := (call_declares b site).1
  fields := (call_tables b site).2.2.2.1
  methods := here ▸ (call_declares b site).2.2.2
  entries := (call_declares b site).2.1
  declared := ⟨method, declared⟩
  mentions := ⟨site, callSite_call.mpr (.inr ⟨rfl, rfl⟩), here⟩
  vars {v var} found := ⟨_, var_call.mpr ⟨var, found, rfl⟩, by split <;> rfl⟩
  noted := by
    intro v var' found
    obtain ⟨var, before, same⟩ := var_call.mp found
    obtain ⟨listed, once⟩ := listed_call sound before same
    subst same
    refine ⟨var, before, by split <;> rfl, by split <;> simp, by split <;> simp, ?_, once⟩
    refine fun id => (listed id).trans (or_congr_right ⟨?_, ?_⟩)
    · rintro ⟨rfl, through⟩
      exact ⟨rfl, site, callSite_call.mpr (.inr ⟨rfl, rfl⟩), through⟩
    · rintro ⟨same, call', found', through⟩
      cases same
      rcases callSite_call.mp found' with old | ⟨_, rfl⟩
      · exact absurd (Id.index_lt_of_lookup old) (Nat.lt_irrefl _)
      · exact ⟨rfl, through⟩
  calls found := callSite_call.mpr (.inl found)
  called := by
    intro id call' found
    rcases callSite_call.mp found with old | ⟨rfl, rfl⟩
    · exact .inl old
    · exact .inr ⟨rfl, here, ⟨target, known, fits⟩, receiver, args, result⟩
  call_new := by
    rintro id call' same found
    cases same
    exact Nat.lt_irrefl _ (Id.index_lt_of_lookup found)
  allocSites := Nat.le_of_eq (call_declares b site).2.2.1.symm
  alloc_new same := by cases same

end Statements

/-! ### Declarations -/

theorem sound_of_program {b : Builder} (sound : b.Sound) {program : Program}
    (coherent : program.Coherent) (vars : varTable { b with program } = b.varTable)
    (fields : program.fields = b.program.fields)
    (types : ∀ {t type}, b.program.type t = .ok type → ∃ type', program.type t = .ok type') :
    Sound { b with program } where
  coherent := coherent
  vars := sound.vars.trans vars.symm
  fields := fields.trans sound.fields
  types named := by
    obtain ⟨_, known⟩ := sound.types named
    exact types known

section Declarations

variable {b : Builder} (sound : b.Sound)
include sound

theorem addType_sound (name : String) : (b.addType name none).1.Sound where
  coherent := sound.coherent.push_type name
  vars := sound.vars
  fields := sound.fields
  types {name' t} named := by
    have named : (b.typeNames.insert name ⟨b.program.types.size⟩)[name']? = some t := named
    rw [Std.TreeMap.getElem?_insert] at named
    split at named
    · cases named
      exact ⟨_, Id.lookup_push_self _⟩
    · obtain ⟨_, known⟩ := sound.types named
      exact ⟨_, Id.lookup_push.mpr (.inl known)⟩

theorem setSuper_sound (t : TypeId) {super : Option TypeId}
    (known : ∀ id, super = some id → ∃ type, b.program.type id = .ok type) :
    (b.setSuper t super).Sound :=
  sound_of_program sound (sound.coherent.set_super t known) rfl rfl
    fun found => ⟨_, Id.lookup_modify.mpr ⟨_, found, rfl⟩⟩

theorem addReturn_sound {m : MethodId} {v : VarId} (owns : b.program.Owns m v) :
    (b.addReturn m v).Sound := by
  refine sound_of_program sound (sound.coherent.set_returns fun {method} found v' listed => ?_)
    rfl rfl fun found => ⟨_, found⟩
  split at listed
  · exact (sound.coherent.methods found).returns_owned v' listed
  · rcases List.mem_append.mp listed with old | new
    · exact (sound.coherent.methods found).returns_owned v' old
    · exact List.mem_singleton.mp new ▸ owns

theorem addEntry_sound {m : MethodId} {method : Method}
    (known : b.program.method m = .ok method) : (b.addEntry m).Sound :=
  sound_of_program sound (sound.coherent.push_entry known) rfl rfl fun found => ⟨_, found⟩

end Declarations

/-- Naming does not look at methods. -/
theorem varList_methods (b : Builder) (methods : Array Method) (m : MethodId)
    (names : List String) :
    varList { b with program := { b.program with methods } } m names =
      ({ (b.varList m names).1 with
          program := { (b.varList m names).1.program with methods } }, (b.varList m names).2) := by
  induction names generalizing b with
  | nil => rfl
  | cons name names ih =>
    have first : var { b with program := { b.program with methods } } m name =
        ({ (b.var m name).1 with program := { (b.var m name).1.program with methods } },
          (b.var m name).2) := rfl
    simp only [varList, first, ih]

theorem varOption_methods (b : Builder) (methods : Array Method) (m : MethodId)
    (name : Option String) :
    varOption { b with program := { b.program with methods } } m name =
      ({ (b.varOption m name).1 with
          program := { (b.varOption m name).1.program with methods } },
        (b.varOption m name).2) := by
  cases name <;> rfl

theorem modify_push {α : Type} (table : Array α) (x : α) (change : α → α) :
    (table.push x).modify table.size change = table.push (change x) := by
  apply Array.ext_getElem?
  intro i
  rw [Array.getElem?_modify, Array.getElem?_push, Array.getElem?_push]
  by_cases last : i = table.size
  · simp [last]
  · simp [last, Ne.symm last]

/-- Naming variables looks at neither classes nor fields, and keeps the names there are. -/
private theorem varList_tables (b : Builder) (m : MethodId) (names : List String) :
    (b.varList m names).1.program.types = b.program.types ∧
      (b.varList m names).1.fieldNames = b.fieldNames ∧
      b.varNames.Extends (b.varList m names).1.varNames ∧
      ∀ x, x ∈ (b.varList m names).1.varNames.toList ↔
        x ∈ b.varNames.toList ∨ (x.1 = m ∧ x.2 ∈ names) := by
  induction names generalizing b with
  | nil => exact ⟨rfl, rfl, .refl _, by simp [varList]⟩
  | cons name names ih =>
    obtain ⟨types, fields, grown, listed⟩ := ih (b.var m name).1
    refine ⟨types, fields, (Registry.register_extends _ _).trans grown, fun x => ?_⟩
    have first : x ∈ (b.var m name).1.varNames.toList ↔ x ∈ b.varNames.toList ∨ x = (m, name) :=
      Registry.mem_toList_register
    refine (listed x).trans ?_
    rw [first, or_assoc, List.mem_cons, and_or_left, Prod.ext_iff]

/-- Of the classes, a new method changes what its owner declares; its parameters and `this` are named. -/
theorem addMethod_tables (b : Builder) (owner : TypeId) (name : String) (params : List String)
    (form : MethodForm) :
    (b.addMethod owner name params form).1.program.types = b.program.types.modify owner.index
        (·.declare ⟨name, params.length⟩ ⟨b.program.methods.size⟩) ∧
      (b.addMethod owner name params form).1.fieldNames = b.fieldNames ∧
      b.varNames.Extends (b.addMethod owner name params form).1.varNames ∧
      ∀ x, x ∈ (b.addMethod owner name params form).1.varNames.toList ↔
        x ∈ b.varNames.toList ∨ (x.1 = ⟨b.program.methods.size⟩ ∧
          x.2 ∈ params ++ if form = .static then [] else ["this"]) := by
  unfold addMethod
  dsimp only
  generalize b.program.methods.push _ = methods
  obtain ⟨types, fields, grown, listed⟩ :=
    varList_tables { b with program := { b.program with methods } } ⟨b.program.methods.size⟩ params
  have types := congrArg (fun table : Array TypeDecl => table.modify owner.index
    (·.declare ⟨name, params.length⟩ ⟨b.program.methods.size⟩)) types
  split
  · refine ⟨types, fields, grown, fun x => (listed x).trans ?_⟩
    rw [List.append_nil]
  · refine ⟨types, fields, grown.trans (Registry.register_extends _ _), fun x => ?_⟩
    refine Registry.mem_toList_register.trans ((or_congr_left (listed x)).trans ?_)
    rw [or_assoc, List.mem_append, List.mem_singleton, and_or_left, Prod.ext_iff]

/-- What a new method declares: its parameters and `this` are variables of it, and it has neither
statements nor returned variables. -/
structure Declares (b : Builder) (m : MethodId) (owner : TypeId) (name : String)
    (params : List String) (form : MethodForm) (method : Method) : Prop where
  name : method.name = name
  owner : method.owner = owner
  isStatic : method.isStatic = decide (form = .static)
  isAbstract : method.isAbstract = decide (form = .abstract)
  params : List.Forall₂ (b.VarNamed m) params method.params
  this : Option.Rel (b.VarNamed m) (if form = .static then none else some "this") method.this
  returns : method.returns = []
  body : method.body = #[]

theorem Declares.later {b b' : Builder} {m : MethodId} {owner : TypeId} {name : String}
    {params : List String} {form : MethodForm} {method : Method}
    (declares : b.Declares m owner name params form method)
    (names : b.varNames.Extends b'.varNames) : b'.Declares m owner name params form method :=
  { declares with
    params := declares.params.imp fun _ _ => names.value?
    this := rel_imp (fun _ _ => names.value?) declares.this }

/-- A new method of a declared class. All that was declared before is still there. -/
theorem addMethod_spec {b : Builder} (sound : b.Sound) {owner : TypeId} {type : TypeDecl}
    (known : b.program.type owner = .ok type) (name : String) (params : List String)
    (form : MethodForm) :
    (b.addMethod owner name params form).1.Sound ∧
      (b.addMethod owner name params form).2 = ⟨b.program.methods.size⟩ ∧
      (b.addMethod owner name params form).1.typeNames = b.typeNames ∧
      (b.addMethod owner name params form).1.program.entries = b.program.entries ∧
      ∃ method, (b.addMethod owner name params form).1.program.methods =
          b.program.methods.push method ∧
        (b.addMethod owner name params form).1.Declares ⟨b.program.methods.size⟩ owner name params
          form method := by
  generalize newest : (⟨b.program.methods.size⟩ : MethodId) = id
  obtain ⟨named₁, listed⟩ := varList_spec sound id params
  generalize rest₁ : b.varList id params = first at named₁ listed
  obtain ⟨named₂, this⟩ :=
    varOption_spec named₁.sound id (if form = .static then none else some "this")
  generalize rest₂ : first.1.varOption id (if form = .static then none else some "this") = second
    at named₂ this
  have sound₂ := named₂.sound
  let method : Method :=
    { name, owner, isStatic := form = .static, isAbstract := form = .abstract
      params := first.2, this := second.2, returns := [], body := #[] }
  have methods : second.1.program.methods = b.program.methods := by
    rw [named₂.rest, named₁.rest]
  have length : params.length = first.2.length := listed.length_eq
  have index : id.index = b.program.methods.size := by rw [← newest]
  have result : b.addMethod owner name params form =
      ({ second.1 with program := second.1.program.pushMethod method }, id) := by
    unfold addMethod
    dsimp only
    rw [newest, varList_methods, rest₁, varOption_methods, rest₂]
    simp only [modifyMethod, Program.pushMethod, Method.signature, method, methods, newest, length,
      index, modify_push]
  have fresh : second.1.program.methods.size = b.program.methods.size := by rw [methods]
  have types : second.1.program.types = b.program.types := by rw [named₂.rest, named₁.rest]
  have entries : second.1.program.entries = b.program.entries := by rw [named₂.rest, named₁.rest]
  have coherent : (second.1.program.pushMethod method).Coherent := by
    have owner : second.1.program.type owner = .ok type := by
      rw [Program.type, types]
      exact known
    refine sound₂.coherent.pushMethod owner ?_ ?_ ?_ rfl rfl
    · rw [fresh, newest]
      exact sound₂.owns_of_list (listed.imp fun _ _ => named₂.varNamed)
    · rw [fresh, newest]
      exact sound₂.owns_of_option this
    · refine (none_iff_of_rel this).trans ?_
      show _ ↔ decide (form = .static) = true
      by_cases static : form = .static <;> simp [static]
  rw [result]
  refine ⟨sound_of_program sound₂ coherent rfl rfl fun found =>
      ⟨_, Id.lookup_modify.mpr ⟨_, found, rfl⟩⟩, rfl, named₂.typeNames.trans named₁.typeNames,
    entries, method, ?_, ?_⟩
  · exact congrArg (·.push method) methods
  · exact ⟨rfl, rfl, rfl, rfl, listed.imp fun _ _ => named₂.varNamed, this, rfl, rfl⟩

end PointerAnalysis.Builder
