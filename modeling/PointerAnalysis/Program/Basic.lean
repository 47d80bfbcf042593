import PointerAnalysis.Id

/-! Programs under analysis: classes with single inheritance, methods made of five kinds of
statements, and for every variable the heap accesses and calls that go through it. Control flow
is absent on purpose: the analysis takes a method body as a set of statements. -/
namespace PointerAnalysis

/-- How a call finds the method it enters: by name alone, by name with the inherited
implementation if need be, or by the class of the receiver object. -/
inductive CallKind where
  | static
  | special
  | virtual
  deriving DecidableEq

def CallKind.text : CallKind → String
  | .static => "static"
  | .special => "special"
  | .virtual => "virtual"

/-- What dispatch compares: a method's name and its number of parameters. -/
structure Signature where
  name : String
  arity : Nat
  deriving DecidableEq

/-- A class with the methods it declares itself, inherited ones left out. -/
structure TypeDecl where
  name : String
  super : Option TypeId
  declared : List (Signature × MethodId)

/-- The method that a class itself declares under a signature. -/
def TypeDecl.declares? (t : TypeDecl) (s : Signature) : Option MethodId :=
  t.declared.lookup s

/-- Declaring a signature again replaces the earlier method. -/
def TypeDecl.declare (t : TypeDecl) (s : Signature) (m : MethodId) : TypeDecl :=
  { t with declared := t.declared.filter (fun entry => entry.1 ≠ s) ++ [(s, m)] }

inductive Statement where
  /-- A new object of a class at an allocation site. -/
  | alloc (target : VarId) (site : AllocSiteId) (type : TypeId)
  | assign (target source : VarId)
  /-- Reads the field of the object that `base` holds. -/
  | load (target base : VarId) (field : FieldId)
  /-- Writes the field of the object that `base` holds. -/
  | store (base : VarId) (field : FieldId) (source : VarId)
  | call (site : CallSiteId)
  deriving DecidableEq

/-- A method; `this` stands apart from the parameters and is absent from static methods. -/
structure Method where
  name : String
  owner : TypeId
  isStatic : Bool
  isAbstract : Bool
  params : List VarId
  this : Option VarId
  returns : List VarId
  body : Array Statement

def Method.signature (m : Method) : Signature := ⟨m.name, m.params.length⟩

/-- A local variable with the statements of its method that dereference it. -/
structure Variable where
  name : String
  method : MethodId
  /-- The field and the source of every store through this variable. -/
  stores : Array (FieldId × VarId)
  /-- The field and the target of every load through this variable. -/
  loads : Array (FieldId × VarId)
  /-- The calls that have this variable as receiver. -/
  calls : Array CallSiteId

/-- A call statement; `target` is the method named in the text of the call. -/
structure CallSite where
  container : MethodId
  kind : CallKind
  target : MethodId
  receiver : Option VarId
  args : List VarId
  result : Option VarId

/-- A whole program; an id is a position in the table of its kind. -/
structure Program where
  types : Array TypeDecl
  fields : Array String
  methods : Array Method
  vars : Array Variable
  callSites : Array CallSite
  allocSites : Nat
  entries : Array MethodId

namespace Program

def empty : Program := ⟨#[], #[], #[], #[], #[], 0, #[]⟩

def type (p : Program) (id : TypeId) : Except UnknownId TypeDecl := id.lookup p.types

def field (p : Program) (id : FieldId) : Except UnknownId String := id.lookup p.fields

def method (p : Program) (id : MethodId) : Except UnknownId Method := id.lookup p.methods

def var (p : Program) (id : VarId) : Except UnknownId Variable := id.lookup p.vars

def callSite (p : Program) (id : CallSiteId) : Except UnknownId CallSite := id.lookup p.callSites

def typeName (p : Program) (id : TypeId) : Except UnknownId String := do
  let type ← p.type id
  return type.name

/-- The class and the name of a method, joined by a dot (`method_name`). -/
def methodName (p : Program) (id : MethodId) : Except UnknownId String := do
  let method ← p.method id
  let owner ← p.typeName method.owner
  return owner ++ "." ++ method.name

/-- The name of the method that holds a variable and its own, joined by a slash (`var_name`). -/
def varName (p : Program) (id : VarId) : Except UnknownId String := do
  let var ← p.var id
  let method ← p.methodName var.method
  return method ++ "/" ++ var.name

end Program

end PointerAnalysis
