import Mathlib.Data.List.Induction
import PointerAnalysis.Program.Edit
import PointerAnalysis.Proofs.Correspondence
import PointerAnalysis.Proofs.Description.Link

/-! What sequences of builder commands leave behind. The statements that were added, in order and each
with its method, are a history; bodies, the accesses listed under variables, and the numbers of calls
and allocations are all read off it, and what methods and tables declare is read off the declarations. -/
namespace PointerAnalysis

/-! ### Lists in tables -/

/-- A list that the entries of a table have; ids without an entry have an empty one. -/
def Id.listed {kind : Entity} {α β : Type} (id : Id kind) (table : Array α) (list : α → Array β) : List β :=
  (table[id.index]?.map fun entry => (list entry).toList).getD []

section Listed

variable {kind : Entity} {α β : Type} {id changed : Id kind} {table : Array α} {list : α → Array β}
  {entry : α} {change : α → α} {y : β}

theorem listed_push (empty : list entry = #[]) :
    id.listed (table.push entry) list = id.listed table list := by
  unfold Id.listed
  rw [Array.getElem?_push]
  split
  · next last =>
    rw [last, Array.getElem?_eq_none (Nat.le_refl _)]
    simp [empty]
  · rfl

theorem listed_modify (keeps : ∀ x, list (change x) = list x) {i : Nat} :
    id.listed (table.modify i change) list = id.listed table list := by
  unfold Id.listed
  rw [Array.getElem?_modify]
  split
  · cases table[id.index]? <;> simp [keeps]
  · rfl

/-- An entry of a changed list is added to the list of what was changed, and of nothing else. -/
theorem listed_modify_push (found : changed.lookup table = .ok entry)
    (adds : ∀ x, list (change x) = (list x).push y) :
    id.listed (table.modify changed.index change) list =
      id.listed table list ++ if changed = id then [y] else [] := by
  unfold Id.listed
  rw [Array.getElem?_modify]
  by_cases same : changed = id
  · subst same
    rw [if_pos rfl, if_pos rfl, Id.lookup_eq_ok_iff.mp found]
    simp [adds]
  · have other : ¬ changed.index = id.index := fun h => same (Id.ext h)
    rw [if_neg other, if_neg same, List.append_nil]

end Listed

/-! ### Histories -/

/-- What a store through a variable enters under it. -/
def Statement.storeThrough? (v : VarId) : Statement → Option (FieldId × VarId)
  | .store base field source => if base = v then some (field, source) else none
  | _ => none

/-- What a load through a variable enters under it. -/
def Statement.loadThrough? (v : VarId) : Statement → Option (FieldId × VarId)
  | .load target base field => if base = v then some (field, target) else none
  | _ => none

/-- What a method is declared with. -/
structure Declaration where
  owner : TypeId
  signature : Signature
  isStatic : Bool
  isAbstract : Bool
  hasThis : Bool

def Method.declaration (m : Method) : Declaration :=
  ⟨m.owner, m.signature, m.isStatic, m.isAbstract, m.this.isSome⟩

/-- Statements in the order in which they were added, each with its method. -/
abbrev History := List (MethodId × Statement)

namespace History

variable (history : History)

/-- The statements of a method. -/
def within (m : MethodId) : List Statement :=
  history.filterMap fun entry => if entry.1 = m then some entry.2 else none

/-- The sites of the calls. -/
def calls : List CallSiteId := history.filterMap (·.2.callSite?)

/-- The sites of the allocations. -/
def allocs : List AllocSiteId := history.filterMap (·.2.allocSite?)

def storesThrough (v : VarId) : List (FieldId × VarId) := history.filterMap (·.2.storeThrough? v)

def loadsThrough (v : VarId) : List (FieldId × VarId) := history.filterMap (·.2.loadThrough? v)

variable {history} {more : History}

@[simp] theorem within_append (m : MethodId) :
    (history ++ more).within m = history.within m ++ more.within m := List.filterMap_append

@[simp] theorem calls_append : (history ++ more).calls = history.calls ++ more.calls :=
  List.filterMap_append

@[simp] theorem allocs_append : (history ++ more).allocs = history.allocs ++ more.allocs :=
  List.filterMap_append

@[simp] theorem storesThrough_append (v : VarId) :
    (history ++ more).storesThrough v = history.storesThrough v ++ more.storesThrough v :=
  List.filterMap_append

@[simp] theorem loadsThrough_append (v : VarId) :
    (history ++ more).loadsThrough v = history.loadsThrough v ++ more.loadsThrough v :=
  List.filterMap_append

end History

namespace Edit

/-- The statement that a command adds after so many allocations and calls. -/
def adds? (allocs calls : Nat) : Edit → Option (MethodId × Statement)
  | .alloc method target type => some (method, .alloc target ⟨allocs⟩ type)
  | .assign method target source => some (method, .assign target source)
  | .load method target base field => some (method, .load target base field)
  | .store method base field source => some (method, .store base field source)
  | .call site => some (site.container, .call ⟨calls⟩)
  | _ => none

def call? : Edit → Option CallSite
  | .call site => some site
  | _ => none

def declaration? : Edit → Option Declaration
  | .addMethod owner name params form =>
    some ⟨owner, ⟨name, params.length⟩, form = .static, form = .abstract, form ≠ .static⟩
  | _ => none

/-- The statements that commands add. Allocations and calls are numbered in the order of the commands. -/
def history (edits : List Edit) : History :=
  edits.foldl (fun h e => h ++ (e.adds? h.allocs.length h.calls.length).toList) []

theorem history_concat (edits : List Edit) (e : Edit) : history (edits ++ [e]) =
    history edits ++ (e.adds? (history edits).allocs.length (history edits).calls.length).toList := by
  rw [history, List.foldl_append]
  rfl

/-- Commands one after another; a refused one ends them. -/
def run (b : Builder) (edits : List Edit) : Except UnknownId Builder :=
  edits.foldlM (fun b e => return (← e.apply b).1) b

theorem run_concat {b b' : Builder} {edits : List Edit} {e : Edit} :
    run b (edits ++ [e]) = .ok b' ↔
      ∃ b₁, run b edits = .ok b₁ ∧ e.check b₁.program = .ok () ∧ b' = (e.perform b₁).1 := by
  rw [run, List.foldlM_append, bind_eq_ok_iff]
  refine exists_congr fun b₁ => and_congr_right fun _ => ?_
  cases checked : e.check b₁.program with
  | error _ => simp [List.foldlM_cons, Edit.apply, checked]
  | ok _ => simp [List.foldlM_cons, Edit.apply, checked, eq_comm]

end Edit

/-! ### Naming variables -/

namespace Builder

variable (b : Builder) (m : MethodId)

/-- Variables have been added that list nothing, and nothing else of the program has changed. -/
structure Blanks (b b' : Builder) : Prop where
  rest : b'.program = { b.program with vars := b'.program.vars }
  listed : ∀ {β : Type} {list : Variable → Array β}, (∀ name m, list ⟨name, m, #[], #[], #[]⟩ = #[]) →
    ∀ v : VarId, v.listed b'.program.vars list = v.listed b.program.vars list

theorem Blanks.refl : b.Blanks b := ⟨rfl, fun _ _ => rfl⟩

theorem Blanks.trans {b b' b'' : Builder} (first : b.Blanks b') (second : b'.Blanks b'') : b.Blanks b'' where
  rest := by rw [second.rest, first.rest]
  listed blank v := (second.listed blank v).trans (first.listed blank v)

theorem var_blanks (name : String) : b.Blanks (b.var m name).1 where
  rest := rfl
  listed blank v := by
    unfold var
    dsimp only
    split
    · rfl
    · exact listed_push (blank _ _)

theorem varList_blanks (names : List String) :
    b.Blanks (b.varList m names).1 ∧ (b.varList m names).2.length = names.length := by
  induction names generalizing b with
  | nil => exact ⟨.refl b, rfl⟩
  | cons name names ih =>
    obtain ⟨blanks, length⟩ := ih (b.var m name).1
    exact ⟨(b.var_blanks m name).trans blanks, congrArg (· + 1) length⟩

theorem varOption_blanks (name : Option String) :
    b.Blanks (b.varOption m name).1 ∧ (b.varOption m name).2.isSome = name.isSome := by
  cases name with
  | none => exact ⟨.refl b, rfl⟩
  | some name => exact ⟨b.var_blanks m name, rfl⟩

/-- A new method has no statements, and its parameters and `this` list nothing. -/
theorem addMethod_blanks (owner : TypeId) (name : String) (params : List String) (form : MethodForm) :
    ∃ method vars, (b.addMethod owner name params form).1.program =
        { b.program with
          vars
          methods := b.program.methods.push method
          types := b.program.types.modify owner.index
            (·.declare ⟨name, params.length⟩ ⟨b.program.methods.size⟩) } ∧
      method.declaration =
        ⟨owner, ⟨name, params.length⟩, form = .static, form = .abstract, form ≠ .static⟩ ∧
      method.body = #[] ∧
      b.Blanks { b with program := { b.program with vars } } := by
  generalize newest : (⟨b.program.methods.size⟩ : MethodId) = id
  obtain ⟨named₁, length⟩ := b.varList_blanks id params
  generalize rest₁ : b.varList id params = first at named₁ length
  obtain ⟨named₂, this⟩ := first.1.varOption_blanks id (if form = .static then none else some "this")
  generalize rest₂ : first.1.varOption id (if form = .static then none else some "this") = second
    at named₂ this
  have index : id.index = b.program.methods.size := by rw [← newest]
  have named := named₁.trans named₂
  refine ⟨⟨name, owner, form = .static, form = .abstract, first.2, second.2, [], #[]⟩,
    second.1.program.vars, ?_, ?_, rfl, rfl, named.listed⟩
  · unfold addMethod
    dsimp only
    rw [newest, varList_methods, rest₁, varOption_methods, rest₂, named.rest]
    simp only [modifyMethod, index, modify_push]
  · simp only [Method.declaration, Method.signature, length, this]
    by_cases static : form = .static <;> simp [static]

end Builder

/-! ### One command -/

namespace Edit

variable {b : Builder} {e : Edit}

/-- The statements that a command adds to a program. -/
def adds (p : Program) (e : Edit) : History := (e.adds? p.allocSites p.callSites.size).toList

private theorem discard_eq_ok {ε α : Type} {x : Except ε α} :
    (discard x : Except ε PUnit) = .ok () ↔ ∃ a, x = .ok a := by
  cases x with
  | error e => exact iff_of_false (fun same => by cases same) (by simp)
  | ok a => exact iff_of_true rfl ⟨a, rfl⟩

/-- A statement is added to a declared method. -/
theorem method_known {p : Program} (checked : e.check p = .ok ()) {m : MethodId} {s : Statement}
    (there : (m, s) ∈ e.adds p) : ∃ method, p.method m = .ok method := by
  cases e with
  | alloc | assign =>
    cases List.mem_singleton.mp there
    exact discard_eq_ok.mp checked
  | load | store =>
    cases List.mem_singleton.mp there
    obtain ⟨_, _, checked⟩ := bind_eq_ok_iff.mp checked
    exact discard_eq_ok.mp checked
  | call site =>
    cases List.mem_singleton.mp there
    simp only [check] at checked
    split at checked
    · obtain ⟨_, _, checked⟩ := bind_eq_ok_iff.mp checked
      exact discard_eq_ok.mp checked
    · exact discard_eq_ok.mp checked
  | _ => cases there

theorem listed_body_perform (checked : e.check b.program = .ok ()) (m : MethodId) :
    m.listed (e.perform b).1.program.methods Method.body =
      m.listed b.program.methods Method.body ++ (e.adds b.program).within m := by
  -- A statement that is added stands at the end of its method.
  have push {changed : MethodId} {s : Statement} (added : e.adds b.program = [(changed, s)]) :
      m.listed (b.program.methods.modify changed.index fun method =>
        { method with body := method.body.push s }) Method.body =
        m.listed b.program.methods Method.body ++ (e.adds b.program).within m := by
    obtain ⟨method, known⟩ := method_known checked (added ▸ List.mem_singleton.mpr rfl)
    rw [listed_modify_push known fun _ => rfl, added]
    by_cases here : changed = m <;> simp [History.within, here]
  cases e with
  | addMethod owner name params form =>
    obtain ⟨method, vars, program, _, blank, _⟩ := b.addMethod_blanks owner name params form
    simp only [perform, program]
    rw [listed_push blank]
    exact (List.append_nil _).symm
  | addReturn method var =>
    refine Eq.trans (listed_modify ?_) (List.append_nil _).symm
    exact fun _ => rfl
  | alloc | assign | load | store => exact push rfl
  | call site =>
    simp only [perform, (b.call_declares site).2.2.2]
    exact push rfl
  | _ => exact (List.append_nil _).symm

/-- A command enters nothing in these lists of variables. -/
def Spares {β : Type} (list : Variable → Array β) : Edit → Prop
  | .store .. => ∀ var stores, list { var with stores } = list var
  | .load .. => ∀ var loads, list { var with loads } = list var
  | .call .. => ∀ var calls, list { var with calls } = list var
  | _ => True

/-- A list that a command enters nothing in stays as it is. -/
private theorem listed_of_spares {β : Type} {list : Variable → Array β}
    (blank : ∀ name m, list ⟨name, m, #[], #[], #[]⟩ = #[]) (spares : e.Spares list) (v : VarId) :
    v.listed (e.perform b).1.program.vars list = v.listed b.program.vars list ++ [] := by
  rw [List.append_nil]
  cases e with
  | addMethod owner name params form =>
    obtain ⟨method, vars, program, _, _, blanks⟩ := b.addMethod_blanks owner name params form
    simp only [perform, program]
    exact blanks.listed blank v
  | nameVar method name => exact (b.var_blanks method name).listed blank v
  | store => exact listed_modify fun var => spares var _
  | load => exact listed_modify fun var => spares var _
  | call site =>
    cases through : site.receiver with
    | none => simp only [perform, b.call_vars_of_none through]
    | some receiver =>
      simp only [perform, b.call_vars_of_some through]
      exact listed_modify fun var => spares var _
  | _ => rfl

theorem listed_stores_perform (checked : e.check b.program = .ok ()) (v : VarId) :
    v.listed (e.perform b).1.program.vars Variable.stores =
      v.listed b.program.vars Variable.stores ++ (e.adds b.program).storesThrough v := by
  cases e with
  | store method base field source =>
    obtain ⟨_, known, _⟩ := bind_eq_ok_iff.mp checked
    obtain ⟨var, known⟩ := discard_eq_ok.mp known
    refine (listed_modify_push known fun _ => rfl).trans ?_
    by_cases same : base = v <;> simp [adds, adds?, History.storesThrough, Statement.storeThrough?, same]
  | _ =>
    refine listed_of_spares (fun _ _ => rfl) ?_ v
    first | exact trivial | exact fun _ _ => rfl

theorem listed_loads_perform (checked : e.check b.program = .ok ()) (v : VarId) :
    v.listed (e.perform b).1.program.vars Variable.loads =
      v.listed b.program.vars Variable.loads ++ (e.adds b.program).loadsThrough v := by
  cases e with
  | load method target base field =>
    obtain ⟨_, known, _⟩ := bind_eq_ok_iff.mp checked
    obtain ⟨var, known⟩ := discard_eq_ok.mp known
    refine (listed_modify_push known fun _ => rfl).trans ?_
    by_cases same : base = v <;> simp [adds, adds?, History.loadsThrough, Statement.loadThrough?, same]
  | _ =>
    refine listed_of_spares (fun _ _ => rfl) ?_ v
    first | exact trivial | exact fun _ _ => rfl

/-- A call that is added is the last one. -/
theorem callSites_perform : (e.perform b).1.program.callSites.toList =
    b.program.callSites.toList ++ e.call?.toList := by
  cases e with
  | call site => simp only [perform, b.callSites_call, Array.toList_push, call?, Option.toList_some]
  | addMethod owner name params form =>
    obtain ⟨method, vars, program, _⟩ := b.addMethod_blanks owner name params form
    simp only [perform, program, call?, Option.toList_none, List.append_nil]
  | _ => exact (List.append_nil _).symm

theorem listed_calls_perform (checked : e.check b.program = .ok ()) (v : VarId) :
    v.listed (e.perform b).1.program.vars Variable.calls =
      v.listed b.program.vars Variable.calls ++ (e.adds b.program).calls.filter fun id =>
        (e.perform b).1.program.callSites[id.index]?.bind (·.receiver) = some v := by
  cases e with
  | call site =>
    have calls : (adds b.program (.call site)).calls = [(b.call site).2] := rfl
    have last : (b.program.callSites.push site)[(b.call site).2.index]? = some site :=
      Array.getElem?_push_size
    rw [calls]
    simp only [perform, b.callSites_call, last, Option.bind_some, List.filter_cons, List.filter_nil,
      decide_eq_true_eq]
    cases through : site.receiver with
    | none => simp [b.call_vars_of_none through]
    | some receiver =>
      obtain ⟨var, known⟩ : ∃ var, b.program.var receiver = .ok var := by
        simp only [check, through] at checked
        obtain ⟨_, known, _⟩ := bind_eq_ok_iff.mp checked
        exact discard_eq_ok.mp known
      rw [b.call_vars_of_some through]
      refine (listed_modify_push known fun _ => rfl).trans ?_
      simp only [Option.some.injEq]
  | _ =>
    refine listed_of_spares (fun _ _ => rfl) ?_ v
    first | exact trivial | exact fun _ _ => rfl

/-- Calls and allocations get the numbers that come next. -/
theorem calls_perform : Id.below .callSite (e.perform b).1.program.callSites.size =
    Id.below .callSite b.program.callSites.size ++ (e.adds b.program).calls := by
  rw [← Array.length_toList, callSites_perform, List.length_append, Array.length_toList]
  cases e with
  | call site => exact Id.below_succ ..
  | _ => exact (List.append_nil _).symm

theorem allocs_perform : Id.below .allocSite (e.perform b).1.program.allocSites =
    Id.below .allocSite b.program.allocSites ++ (e.adds b.program).allocs := by
  cases e with
  | alloc method target type => exact Id.below_succ ..
  | call site =>
    simp only [perform, (b.call_declares site).2.2.1]
    exact (List.append_nil _).symm
  | addMethod owner name params form =>
    obtain ⟨method, vars, program, _⟩ := b.addMethod_blanks owner name params form
    simp only [perform, program]
    exact (List.append_nil _).symm
  | _ => exact (List.append_nil _).symm

theorem declarations_perform : (e.perform b).1.program.methods.toList.map Method.declaration =
    b.program.methods.toList.map Method.declaration ++ e.declaration?.toList := by
  -- Bodies and returned variables are no part of a declaration.
  have same {m : MethodId} {change : Method → Method} (keeps : ∀ x, (change x).declaration = x.declaration) :
      (b.program.methods.modify m.index change).toList.map Method.declaration =
        b.program.methods.toList.map Method.declaration ++ [] := by
    rw [List.append_nil, ← Array.toList_map, map_modify keeps, Array.toList_map]
  cases e with
  | addMethod owner name params form =>
    obtain ⟨method, vars, program, declared, _⟩ := b.addMethod_blanks owner name params form
    simp only [perform, program, Array.toList_push, List.map_append, List.map_cons, List.map_nil, declared]
    rfl
  | addReturn | alloc | assign | load | store => exact same fun _ => rfl
  | call site =>
    simp only [perform, (b.call_declares site).2.2.2]
    exact same fun _ => rfl
  | _ => exact (List.append_nil _).symm

end Edit

/-! ### Tables of methods -/

namespace Program

variable {p p' : Program} {s : Signature} {t : TypeId} {m : MethodId}

/-- A method is the last one that a class declares under a signature. -/
def LastDeclared (p : Program) (s : Signature) (t : TypeId) (m : MethodId) : Prop :=
  p.Declares s t m ∧ ∀ m', p.Declares s t m' → m'.index ≤ m.index

/-- Owners are declared, and their tables lead from each signature to the last method declared with it. -/
structure Tabled (p : Program) : Prop where
  owner_known : ∀ {m method}, p.method m = .ok method → ∃ type, p.type method.owner = .ok type
  some_iff : ∀ {t type}, p.type t = .ok type → ∀ s m, type.declares? s = some m ↔ p.LastDeclared s t m
  none_iff : ∀ {t type}, p.type t = .ok type → ∀ s, type.declares? s = none ↔ ∀ m, ¬ p.Declares s t m

theorem declares_iff : p.Declares s t m ↔ ∃ declaration,
    (p.methods.toList.map Method.declaration)[m.index]? = some declaration ∧ declaration.owner = t ∧
      declaration.signature = s := by
  simp only [Declares, Program.method, Id.lookup_eq_ok_iff, List.getElem?_map, Array.getElem?_toList,
    Option.map_eq_some_iff]
  constructor
  · rintro ⟨method, found, rest⟩
    exact ⟨_, ⟨method, found, rfl⟩, rest⟩
  · rintro ⟨_, ⟨method, found, rfl⟩, rest⟩
    exact ⟨method, found, rest⟩

theorem declares_congr (declarations : p'.methods.toList.map Method.declaration =
    p.methods.toList.map Method.declaration) : p'.Declares = p.Declares := by
  funext s t m
  rw [eq_iff_iff, declares_iff, declares_iff, declarations]

private theorem type_of_tables (tables : p'.types.map (·.declared) = p.types.map (·.declared))
    {type' : TypeDecl} (found : p'.type t = .ok type') :
    ∃ type, p.type t = .ok type ∧ type'.declares? = type.declares? := by
  have same := congrArg (·[t.index]?) tables
  simp only [Array.getElem?_map, Id.lookup_eq_ok_iff.mp found, Option.map_some] at same
  obtain ⟨type, found, equal⟩ := Option.map_eq_some_iff.mp same.symm
  refine ⟨type, Id.lookup_eq_ok_iff.mpr found, ?_⟩
  funext s
  rw [TypeDecl.declares?, TypeDecl.declares?, equal]

theorem Tabled.congr (tabled : p.Tabled) (declarations : p'.methods.toList.map Method.declaration =
    p.methods.toList.map Method.declaration)
    (tables : p'.types.map (·.declared) = p.types.map (·.declared)) : p'.Tabled where
  owner_known {m method} found := by
    have declares : p'.Declares method.signature method.owner m := ⟨method, found, rfl, rfl⟩
    rw [declares_congr declarations] at declares
    obtain ⟨method', found', same, _⟩ := declares
    obtain ⟨type, known⟩ := tabled.owner_known found'
    rw [same] at known
    obtain ⟨type', known', _⟩ := type_of_tables tables.symm known
    exact ⟨type', known'⟩
  some_iff found s m := by
    obtain ⟨type, found, same⟩ := type_of_tables tables found
    rw [same, LastDeclared, declares_congr declarations]
    exact tabled.some_iff found s m
  none_iff found s := by
    obtain ⟨type, found, same⟩ := type_of_tables tables found
    rw [same, declares_congr declarations]
    exact tabled.none_iff found s

/-- A new class declares nothing yet. -/
theorem Tabled.push_type (tabled : p.Tabled) (name : String) (super : Option TypeId) :
    Tabled { p with types := p.types.push ⟨name, super, []⟩ } := by
  have undeclared (s : Signature) (m : MethodId) : ¬ p.Declares s ⟨p.types.size⟩ m := by
    rintro ⟨method, found, owner, _⟩
    obtain ⟨type, known⟩ := tabled.owner_known found
    rw [owner] at known
    exact Nat.lt_irrefl _ (Id.index_lt_of_lookup known)
  refine ⟨fun found => ?_, fun found s m => ?_, fun found s => ?_⟩
  · obtain ⟨type, known⟩ := tabled.owner_known found
    exact ⟨type, Id.lookup_push.mpr (.inl known)⟩
  · rcases Id.lookup_push.mp found with old | ⟨rfl, rfl⟩
    · exact tabled.some_iff old s m
    · exact iff_of_false (by simp [TypeDecl.declares?]) fun last => undeclared s m last.1
  · rcases Id.lookup_push.mp found with old | ⟨rfl, rfl⟩
    · exact tabled.none_iff old s
    · exact iff_of_true rfl (undeclared s)

/-- A new method is the last one with its signature, and takes the place of the others in the table of its
owner. -/
theorem Tabled.push_method (tabled : p.Tabled) {type : TypeDecl} {method : Method}
    (known : p.type method.owner = .ok type) (methods : p'.methods = p.methods.push method)
    (types : p'.types = p.types.modify method.owner.index
      (·.declare method.signature ⟨p.methods.size⟩)) : p'.Tabled := by
  have declares_iff (s : Signature) (t : TypeId) (m : MethodId) : p'.Declares s t m ↔
      p.Declares s t m ∨ (m = ⟨p.methods.size⟩ ∧ t = method.owner ∧ s = method.signature) := by
    simp only [Declares, Program.method, methods, Id.lookup_push, or_and_right, exists_or, and_assoc,
      exists_and_left, exists_eq_left, eq_comm (b := t), eq_comm (b := s)]
  have earlier {s : Signature} {t : TypeId} {m : MethodId} (declares : p.Declares s t m) :
      m.index < p.methods.size := by
    obtain ⟨_, found, _⟩ := declares
    exact Id.index_lt_of_lookup found
  have type_iff {t : TypeId} {type' : TypeDecl} : p'.type t = .ok type' ↔ ∃ type, p.type t = .ok type ∧
      type' = if t = method.owner then type.declare method.signature ⟨p.methods.size⟩ else type := by
    rw [Program.type, types]
    exact Id.lookup_modify
  -- The table of the owner answers for the new signature otherwise than before, and no other does.
  have answer {t : TypeId} {type' : TypeDecl} (found : p'.type t = .ok type') (s : Signature) :
      ∃ type, p.type t = .ok type ∧ type'.declares? s =
        if t = method.owner ∧ s = method.signature then some ⟨p.methods.size⟩ else type.declares? s := by
    obtain ⟨type, before, rfl⟩ := type_iff.mp found
    refine ⟨type, before, ?_⟩
    by_cases here : t = method.owner
    · rw [if_pos here, TypeDecl.declares?_declare]
      simp [here]
    · simp [here]
  refine ⟨fun {m method'} found => ?_, fun {t type'} found s m => ?_, fun {t type'} found s => ?_⟩
  · have there : p'.Declares method'.signature method'.owner m := ⟨method', found, rfl, rfl⟩
    rcases (declares_iff _ _ _).mp there with ⟨old, found, same, _⟩ | ⟨_, same, _⟩
    · obtain ⟨type, known⟩ := tabled.owner_known found
      exact ⟨_, type_iff.mpr ⟨type, same ▸ known, rfl⟩⟩
    · exact ⟨_, type_iff.mpr ⟨type, same ▸ known, rfl⟩⟩
  · obtain ⟨type, before, answered⟩ := answer found s
    rw [answered]
    simp only [LastDeclared, declares_iff]
    split
    · next here =>
      constructor
      · rintro ⟨⟩
        refine ⟨.inr ⟨rfl, here⟩, ?_⟩
        rintro m' (old | ⟨rfl, _⟩)
        · exact Nat.le_of_lt (earlier old)
        · exact Nat.le_refl _
      · rintro ⟨old | ⟨rfl, _⟩, last⟩
        · exact absurd (earlier old) (Nat.not_lt.mpr (last _ (.inr ⟨rfl, here⟩)))
        · rfl
    · next other =>
      rw [tabled.some_iff before, LastDeclared]
      simp only [other, and_false, or_false]
  · obtain ⟨type, before, answered⟩ := answer found s
    rw [answered]
    simp only [declares_iff]
    split
    · next here => exact iff_of_false (by simp) fun none => none _ (.inr ⟨rfl, here⟩)
    · next other =>
      rw [tabled.none_iff before]
      simp only [other, and_false, or_false]

end Program

theorem Edit.tabled_perform {b : Builder} {e : Edit} (tabled : b.program.Tabled)
    (checked : e.check b.program = .ok ()) : (e.perform b).1.program.Tabled := by
  have kept (same : e.declaration? = none)
      (tables : (e.perform b).1.program.types.map (·.declared) = b.program.types.map (·.declared)) :
      (e.perform b).1.program.Tabled := by
    have declarations := declarations_perform (b := b) (e := e)
    rw [same, Option.toList_none, List.append_nil] at declarations
    exact tabled.congr declarations tables
  cases e with
  | addType name super => exact tabled.push_type name super
  | setSuper t super =>
    refine kept rfl ?_
    simp only [perform, Builder.setSuper]
    exact map_modify fun _ => rfl
  | addMethod owner name params form =>
    obtain ⟨method, vars, program, declared, _⟩ := b.addMethod_blanks owner name params form
    obtain ⟨type, known⟩ := discard_eq_ok.mp checked
    have owned : method.owner = owner := congrArg (·.owner) declared
    have signature : method.signature = ⟨name, params.length⟩ := congrArg (·.signature) declared
    rw [← owned] at known
    simp only [perform, program]
    refine tabled.push_method known rfl ?_
    rw [owned, signature]
  | call site => exact kept rfl (by simp only [perform, (b.call_declares site).1])
  | _ => exact kept rfl rfl

/-! ### Sequences of commands -/

namespace Program

/-- A program is what a sequence of commands has made of it. -/
structure BuiltBy (p : Program) (edits : List Edit) : Prop where
  bodies : ∀ m : MethodId, m.listed p.methods Method.body = (Edit.history edits).within m
  stores : ∀ v : VarId, v.listed p.vars Variable.stores = (Edit.history edits).storesThrough v
  loads : ∀ v : VarId, v.listed p.vars Variable.loads = (Edit.history edits).loadsThrough v
  calls : ∀ v : VarId, v.listed p.vars Variable.calls = (Edit.history edits).calls.filter fun id =>
    p.callSites[id.index]?.bind (·.receiver) = some v
  callSites : p.callSites.toList = edits.filterMap Edit.call?
  call_numbers : (Edit.history edits).calls = Id.below .callSite p.callSites.size
  alloc_numbers : (Edit.history edits).allocs = Id.below .allocSite p.allocSites
  containers : ∀ {m id}, (m, .call id) ∈ Edit.history edits →
    ∃ call, p.callSite id = .ok call ∧ call.container = m
  declarations : p.methods.toList.map Method.declaration = edits.filterMap Edit.declaration?
  tabled : p.Tabled

theorem builtBy_nil : Program.empty.BuiltBy [] where
  bodies _ := rfl
  stores _ := rfl
  loads _ := rfl
  calls _ := rfl
  callSites := rfl
  call_numbers := rfl
  alloc_numbers := rfl
  containers there := by cases there
  declarations := rfl
  tabled := by
    refine ⟨fun found => ?_, fun found => ?_, fun found => ?_⟩
    all_goals simp [Program.method, Program.type, Id.lookup, Program.empty] at found

end Program

/-- What one more command does to a program that commands have built. -/
theorem Edit.builtBy_perform {b : Builder} {e : Edit} {edits : List Edit} (built : b.program.BuiltBy edits)
    (checked : e.check b.program = .ok ()) : (e.perform b).1.program.BuiltBy (edits ++ [e]) := by
  have history : history (edits ++ [e]) = history edits ++ e.adds b.program := by
    rw [history_concat, built.alloc_numbers, built.call_numbers, Id.length_below, Id.length_below]
    rfl
  have kept {id : CallSiteId} (inside : id.index < b.program.callSites.size) :
      (e.perform b).1.program.callSites[id.index]? = b.program.callSites[id.index]? := by
    rw [← Array.getElem?_toList, callSites_perform, List.getElem?_append_left (by simpa using inside),
      Array.getElem?_toList]
  refine ⟨fun m => ?_, fun v => ?_, fun v => ?_, fun v => ?_, ?_, ?_, ?_, fun {m id} there => ?_, ?_,
    tabled_perform built.tabled checked⟩
  · rw [listed_body_perform checked, built.bodies, history, History.within_append]
  · rw [listed_stores_perform checked, built.stores, history, History.storesThrough_append]
  · rw [listed_loads_perform checked, built.loads, history, History.loadsThrough_append]
  · rw [listed_calls_perform checked, built.calls, history, History.calls_append, List.filter_append]
    congr 1
    refine List.filter_congr fun id there => ?_
    rw [built.call_numbers, Id.mem_below] at there
    rw [kept there]
  · rw [callSites_perform, built.callSites, List.filterMap_append]
    cases e <;> rfl
  · rw [calls_perform, history, History.calls_append, built.call_numbers]
  · rw [allocs_perform, history, History.allocs_append, built.alloc_numbers]
  · rw [history] at there
    rcases List.mem_append.mp there with old | new
    · obtain ⟨call, found, within⟩ := built.containers old
      refine ⟨call, ?_, within⟩
      rw [Program.callSite, Id.lookup_eq_ok_iff] at found ⊢
      rw [kept (Array.getElem?_eq_some_iff.mp found).1, found]
    · cases e with
      | call site =>
        cases List.mem_singleton.mp new
        exact ⟨site, Builder.callSite_call.mpr (.inr ⟨rfl, rfl⟩), rfl⟩
      | _ => simp [adds, adds?] at new
  · rw [declarations_perform, built.declarations, List.filterMap_append]
    cases e <;> rfl

theorem Edit.builtBy_run {edits : List Edit} {b : Builder} (ran : run .empty edits = .ok b) :
    b.program.BuiltBy edits := by
  induction edits using List.reverseRecOn generalizing b with
  | nil =>
    cases ran
    exact Program.builtBy_nil
  | append_singleton edits e ih =>
    obtain ⟨b₁, before, checked, rfl⟩ := run_concat.mp ran
    exact builtBy_perform (ih before) checked

end PointerAnalysis
