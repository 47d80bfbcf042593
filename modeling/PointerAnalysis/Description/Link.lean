import PointerAnalysis.Description.Format
import PointerAnalysis.Program.Builder

/-! From descriptions to programs. Names are resolved phase by phase: classes, their super types,
methods, bodies, entries. A phase is complete before the next begins, so names may be used before
they are described, and the first check that fails decides the error. -/
namespace PointerAnalysis

/-- Why a text describes no program. -/
inductive LoadError where
  | json (error : Json.ReadError)
  | unknownType (name : String)
  | unknownMethod (name : String)
  | duplicateType (name : String)
  | duplicateMethod (name : String)
  | staticAbstractMethod (name : String)
  | abstractMethodWithBody (name : String)
  | cyclicInheritance (name : String)
  | noEntry

def LoadError.message : LoadError → String
  | .json (.fault .malformed) => "JSON error: the text is no JSON"
  | .json (.fault .cutShort) => "JSON error: the text ends too early"
  | .json (.shape error) => "JSON error: " ++ error.message
  | .unknownType name => "Unknown type: " ++ name
  | .unknownMethod name => "Unknown method: " ++ name
  | .duplicateType name => "Duplicate type: " ++ name
  | .duplicateMethod name => "Duplicate method: " ++ name
  | .staticAbstractMethod name => "Method " ++ name ++ " cannot be both static and abstract"
  | .abstractMethodWithBody name => "Abstract method " ++ name ++ " has a body"
  | .cyclicInheritance name => "Cyclic inheritance involving type " ++ name
  | .noEntry => "No entry method specified"

namespace Builder

def resolveType (b : Builder) (name : String) : Except LoadError TypeId :=
  match b.typeId? name with
  | some id => .ok id
  | none => .error (.unknownType name)

/-- The nearest method of a class with a name and one of these numbers of parameters, tried in
order. -/
def findVisible? (b : Builder) (t : TypeId) (name : String) (arities : List Nat) :
    Option MethodId :=
  arities.findSome? fun arity =>
    match b.program.lookupMethod t ⟨name, arity⟩ with
    | .ok found => found
    | .error _ => none

/-- The method that a class declares or inherits under a qualified name (`resolve_method`). Without a number
of parameters, the least number that some such method has decides. -/
def resolveMethod (b : Builder) (qualified : String) (arity : Option Nat) :
    Except LoadError MethodId := do
  let some name := QualifiedName.parse? qualified | throw (.unknownMethod qualified)
  let type ← b.resolveType name.type
  let arities := match arity with
    | some arity => [arity]
    | none => List.range (b.maxArity + 1)
  match b.findVisible? type name.member arities with
  | some id => return id
  | none => throw (.unknownMethod qualified)

/-- Declares a class under a name of its own; its super type follows later. -/
def declareType (b : Builder) (type : Described.Class) : Except LoadError Builder :=
  if (b.typeId? type.name).isSome then .error (.duplicateType type.name)
  else .ok (b.addType type.name none).1

def linkSuper (b : Builder) (type : Described.Class) : Except LoadError Builder := do
  let id ← b.resolveType type.name
  match type.super with
  | none => return b.setSuper id none
  | some name => return b.setSuper id (some (← b.resolveType name))

/-- Whether the chain of super types from `current` ends after at most so many classes. -/
def chainEnds (b : Builder) : Nat → Option TypeId → Bool
  | _, none => true
  | 0, some _ => false
  | steps + 1, some current =>
    b.chainEnds steps (b.program.types[current.index]?.bind (·.super))

/-- Refuses the first class whose chain of super types runs into a circle (`check_acyclic`). A chain without
one visits no class twice, so it ends within the number of classes. -/
def checkAcyclic (b : Builder) (types : List Described.Class) : Except LoadError Unit :=
  match types.find? fun type => !b.chainEnds b.program.types.size (b.typeId? type.name) with
  | some type => .error (.cyclicInheritance type.name)
  | none => .ok ()

/-- What a method's modifiers make of it. An abstract method is no static one and has no body. -/
def methodForm (owner : String) (m : Described.Method) : Except LoadError MethodForm :=
  let name := owner ++ "." ++ m.name
  if m.isAbstract then
    if m.isStatic then .error (.staticAbstractMethod name)
    else if m.body.isEmpty then .ok .abstract
    else .error (.abstractMethodWithBody name)
  else .ok (if m.isStatic then .static else .onReceiver)

/-- Declares the methods of a class, no two of them with one name and number of parameters. -/
def declareMethods (b : Builder) (owner : TypeId) (ownerName : String) (seen : List Signature) :
    List Described.Method → Except LoadError (Builder × List (MethodId × Described.Method))
  | [] => .ok (b, [])
  | m :: others => do
    let signature : Signature := ⟨m.name, m.params.length⟩
    if seen.contains signature then throw (.duplicateMethod (ownerName ++ "." ++ m.name))
    let form ← methodForm ownerName m
    let (b, id) := b.addMethod owner m.name m.params form
    let (b, declared) ← b.declareMethods owner ownerName (signature :: seen) others
    return (b, (id, m) :: declared)

/-- Declares the methods of all classes and pairs each with its description. -/
def declareAllMethods (b : Builder) :
    List Described.Class → Except LoadError (Builder × List (MethodId × Described.Method))
  | [] => .ok (b, [])
  | type :: others => do
    let owner ← b.resolveType type.name
    let (b, declared) ← b.declareMethods owner type.name [] type.methods
    let (b, more) ← b.declareAllMethods others
    return (b, declared ++ more)

/-- Adds a statement to a method (`add_stmt`). Types and methods are resolved before any name is declared,
and variables are declared in the order of this text. -/
def linkStatement (b : Builder) (method : MethodId) : Described.Statement → Except LoadError Builder
  | .new var type => do
    let type ← b.resolveType type
    let (b, target) := b.var method var
    return (b.alloc method target type).1
  | .assign target source =>
    let (b, target) := b.var method target
    let (b, source) := b.var method source
    .ok (b.assign method target source)
  | .load target base field =>
    let (b, target) := b.var method target
    let (b, base) := b.var method base
    let (b, field) := b.field field
    .ok (b.load method target base field)
  | .store base field source =>
    let (b, base) := b.var method base
    let (b, source) := b.var method source
    let (b, field) := b.field field
    .ok (b.store method base field source)
  | .call kind target receiver args result => do
    let target ← b.resolveMethod target (some args.length)
    let (b, receiver) := b.varOption method receiver
    let (b, args) := b.varList method args
    let (b, result) := b.varOption method result
    return (b.call { container := method, kind, target, receiver, args, result }).1
  | .return var =>
    let (b, var) := b.var method var
    .ok (b.addReturn method var)

def linkBody (b : Builder) (declared : MethodId × Described.Method) : Except LoadError Builder :=
  declared.2.body.foldlM (·.linkStatement declared.1) b

def linkEntry (b : Builder) (qualified : String) : Except LoadError Builder := do
  return b.addEntry (← b.resolveMethod qualified none)

end Builder

namespace Described.Program

/-- The program that a description stands for (`build_program`). -/
def link (described : Described.Program) : Except LoadError PointerAnalysis.Program := do
  let b ← described.types.foldlM Builder.declareType .empty
  let b ← described.types.foldlM Builder.linkSuper b
  b.checkAcyclic described.types
  let (b, declared) ← b.declareAllMethods described.types
  let b ← declared.foldlM Builder.linkBody b
  if described.entries.isEmpty then throw .noEntry
  let b ← described.entries.foldlM Builder.linkEntry b
  return b.program

end Described.Program

/-- The program that a text describes (`load_program_from_str`). -/
def Program.load (text : String) : Except LoadError Program :=
  match Described.Program.parse text with
  | .error error => .error (.json error)
  | .ok described => described.link

end PointerAnalysis
