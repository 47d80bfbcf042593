import PointerAnalysis.Proofs.Description.Bodies
import PointerAnalysis.Proofs.Description.WellFormed

/-! What a description says of a program. Names stand for what bears them: a class for the one of its
name, a variable for the one of its name in the method, and a qualified name for the method that the
class declares or inherits. -/
namespace PointerAnalysis

namespace Program

variable (p : Program)

/-- A class is that of a name. -/
def TypeNamed (name : String) (t : TypeId) : Prop := ∃ type, p.type t = .ok type ∧ type.name = name

/-- A variable is that of a name in a method. -/
def VarNamed (m : MethodId) (name : String) (v : VarId) : Prop :=
  ∃ var, p.var v = .ok var ∧ var.method = m ∧ var.name = name

/-- A method is the one that a class declares under a signature. -/
def DeclaredAs (m : MethodId) (owner : String) (s : Signature) : Prop :=
  ∃ method, p.method m = .ok method ∧ p.TypeNamed owner method.owner ∧ method.signature = s

end Program

/-- The variables that a method has whatever its statements are. -/
def Described.Method.declaredVars (m : Described.Method) : List String :=
  m.params ++ if m.isStatic then [] else ["this"]

/-- The methods of a class, each with the class. -/
def Described.Class.declarations (c : Described.Class) : List (Described.Class × Described.Method) :=
  c.methods.map (c, ·)

namespace Described.Program

variable (d : Described.Program) (p : PointerAnalysis.Program)

/-- The methods of all classes, each with the class that declares it. -/
def declarations : List (Class × Method) := d.types.flatMap (·.declarations)

theorem mem_declarations {c : Class} {m : Method} :
    (c, m) ∈ d.declarations ↔ c ∈ d.types ∧ m ∈ c.methods := by
  simp only [declarations, Class.declarations, List.mem_flatMap, List.mem_map, Prod.mk.injEq]
  constructor
  · rintro ⟨_, there, _, there', rfl, rfl⟩
    exact ⟨there, there'⟩
  · rintro ⟨there, there'⟩
    exact ⟨c, there, m, there', rfl, rfl⟩

/-- A method declares a variable, or one of its statements names it. -/
def UsesVar (m : MethodId) (name : String) : Prop :=
  ∃ c method, d.declarations[m.index]? = some (c, method) ∧
    (name ∈ method.declaredVars ∨ ∃ s ∈ method.body, name ∈ s.vars)

/-- A statement names a field. -/
def UsesField (name : String) : Prop :=
  ∃ c ∈ d.types, ∃ method ∈ c.methods, ∃ s ∈ method.body, name ∈ s.fields

/-- The method that a call with so many arguments names. -/
def Calls (text : String) (arity : Nat) (m : MethodId) : Prop :=
  ∃ name owner, QualifiedName.Spells text name ∧ d.Finds ⟨name.member, arity⟩ name.type owner ∧
    p.DeclaredAs m owner ⟨name.member, arity⟩

/-- The method at which an entry enters: of those with its name, the one with the fewest parameters. -/
def Enters (text : String) (m : MethodId) : Prop :=
  ∃ name arity owner, QualifiedName.Spells text name ∧
    d.Finds ⟨name.member, arity⟩ name.type owner ∧ p.DeclaredAs m owner ⟨name.member, arity⟩ ∧
    ∀ fewer < arity, ¬ d.Sees name.type ⟨name.member, fewer⟩

/-- A statement of a method says what a described statement says. -/
inductive Says (m : MethodId) : PointerAnalysis.Statement → Statement → Prop where
  | new {target : VarId} {site : AllocSiteId} {type : TypeId} {var typeName : String} :
      p.VarNamed m var target → p.TypeNamed typeName type →
      Says m (.alloc target site type) (.new var typeName)
  | assign {target source : VarId} {targetName sourceName : String} :
      p.VarNamed m targetName target → p.VarNamed m sourceName source →
      Says m (.assign target source) (.assign targetName sourceName)
  | load {target base : VarId} {field : FieldId} {targetName baseName fieldName : String} :
      p.VarNamed m targetName target → p.VarNamed m baseName base → p.field field = .ok fieldName →
      Says m (.load target base field) (.load targetName baseName fieldName)
  | store {base source : VarId} {field : FieldId} {baseName sourceName fieldName : String} :
      p.VarNamed m baseName base → p.VarNamed m sourceName source → p.field field = .ok fieldName →
      Says m (.store base field source) (.store baseName fieldName sourceName)
  | call {site : CallSiteId} {call : CallSite} {target : String} {receiver result : Option String}
      {args : List String} :
      p.callSite site = .ok call → call.container = m → d.Calls p target args.length call.target →
      Option.Rel (p.VarNamed m) receiver call.receiver →
      List.Forall₂ (p.VarNamed m) args call.args → Option.Rel (p.VarNamed m) result call.result →
      Says m (.call site) (.call call.kind target receiver args result)

/-- A class as it is described, with the methods that it declares. -/
structure Presents (c : Class) (type : TypeDecl) : Prop where
  name : type.name = c.name
  super : Option.Rel p.TypeNamed c.super type.super
  declares : ∀ s (m : MethodId), type.declares? s = some m ↔
    ∃ method, d.declarations[m.index]? = some (c, method) ∧ method.signature = s

/-- A method as it is described. Its body is that of the description without the returns, and it returns
what these name, in the order in which they first do. -/
structure Realises (c : Class) (described : Method) (m : MethodId) (method : PointerAnalysis.Method) :
    Prop where
  name : method.name = described.name
  owner : p.TypeNamed c.name method.owner
  isStatic : method.isStatic = described.isStatic
  isAbstract : method.isAbstract = described.isAbstract
  params : List.Forall₂ (p.VarNamed m) described.params method.params
  this : Option.Rel (p.VarNamed m) (if described.isStatic then none else some "this") method.this
  body : List.Forall₂ (d.Says p m) method.body.toList
    (described.body.filter (·.returned?.isNone))
  returns : List.Forall₂ (p.VarNamed m) (described.body.filterMap (·.returned?)).eraseDups
    method.returns

/-- A description stands for a program. Classes and methods come in the order of the description, and
what is named the same is the same. -/
structure StandsFor : Prop where
  coherent : p.Coherent
  types_size : p.types.size = d.types.length
  types : ∀ {i : Nat} {c : Class}, d.types[i]? = some c →
    ∃ type, p.type ⟨i⟩ = .ok type ∧ d.Presents p c type
  methods_size : p.methods.size = d.declarations.length
  methods : ∀ {i : Nat} {c : Class} {described : Method}, d.declarations[i]? = some (c, described) →
    ∃ method, p.method ⟨i⟩ = .ok method ∧ d.Realises p c described ⟨i⟩ method
  vars : ∀ {v v' m m' name name'}, p.VarNamed m name v → p.VarNamed m' name' v' →
    (v = v' ↔ m = m' ∧ name = name')
  vars_used : ∀ m name, (∃ v, p.VarNamed m name v) ↔ d.UsesVar m name
  fields : ∀ {f f' name name'}, p.field f = .ok name → p.field f' = .ok name' →
    (f = f' ↔ name = name')
  fields_used : ∀ name, (∃ f, p.field f = .ok name) ↔ d.UsesField name
  entries : List.Forall₂ (d.Enters p) d.entries p.entries.toList

variable {d p}

/-- Every method of the program is one of the description. -/
theorem StandsFor.realises (stands : d.StandsFor p) {m : MethodId} {method : PointerAnalysis.Method}
    (found : p.method m = .ok method) :
    ∃ c described, d.declarations[m.index]? = some (c, described) ∧ d.Realises p c described m method := by
  have inside := Id.index_lt_of_lookup found
  rw [stands.methods_size] at inside
  obtain ⟨⟨c, described⟩, here⟩ : ∃ entry, d.declarations[m.index]? = some entry :=
    ⟨_, List.getElem?_eq_getElem inside⟩
  obtain ⟨method', found', realises⟩ := stands.methods here
  cases found.symm.trans found'
  exact ⟨c, described, here, realises⟩

end Described.Program

end PointerAnalysis
