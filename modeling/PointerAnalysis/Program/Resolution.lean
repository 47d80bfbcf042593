import PointerAnalysis.Program.Basic

/-! Finding methods: by qualified name, and along the chain of super types. A lookup takes the
nearest declaration of a signature, dispatch the nearest one that has a body. -/
namespace PointerAnalysis

/-- A member of a class, written with a dot between the two names. -/
structure QualifiedName where
  type : String
  member : String
  deriving DecidableEq

/-- Splits at the last dot, so class names may hold dots and member names may not. -/
def QualifiedName.parse? (text : String) : Option QualifiedName :=
  let backwards := text.toList.reverse
  match backwards.dropWhile (· ≠ '.') with
  | [] => none
  | _ :: type =>
    some ⟨String.ofList type.reverse, String.ofList (backwards.takeWhile (· ≠ '.')).reverse⟩

namespace Program

/-- The first answer along a chain of super types, within a number of steps. A chain of one class
more than there are has met one of them twice, so it runs in a circle and holds no further answer;
a chain that leaves the program does so in one step more than there are classes, at most. -/
def searchChain {α : Type} (p : Program) (visit : TypeDecl → Except UnknownId (Option α)) :
    Nat → Option TypeId → Except UnknownId (Option α)
  | _, none => .ok none
  | 0, some _ => .ok none
  | steps + 1, some current => do
    let type ← p.type current
    match ← visit type with
    | some answer => return some answer
    | none => p.searchChain visit steps type.super

/-- The nearest method with a signature that a class declares or inherits (`lookup_method`). -/
def lookupMethod (p : Program) (t : TypeId) (s : Signature) : Except UnknownId (Option MethodId) :=
  p.searchChain (fun type => .ok (type.declares? s)) (p.types.size + 1) (some t)

/-- The nearest method with a signature that has a body. -/
def dispatch (p : Program) (t : TypeId) (s : Signature) : Except UnknownId (Option MethodId) :=
  p.searchChain (fun type =>
    match type.declares? s with
    | none => .ok none
    | some id => do
      let method ← p.method id
      return if method.isAbstract then none else some id) (p.types.size + 1) (some t)

/-- The method that a virtual call naming `target` enters on an object of class `t`
(`resolve_virtual_call`). -/
def resolveVirtual (p : Program) (t : TypeId) (target : MethodId) :
    Except UnknownId (Option MethodId) := do
  let named ← p.method target
  p.dispatch t named.signature

/-- The method that a special call enters, found from the class that declares its target
(`resolve_special_call`). -/
def resolveSpecial (p : Program) (site : CallSiteId) : Except UnknownId (Option MethodId) := do
  let call ← p.callSite site
  let named ← p.method call.target
  p.dispatch named.owner named.signature

/-- The first method with a qualified name (`find_method`). -/
def findMethod (p : Program) (qualified : String) : Option MethodId := do
  let name ← QualifiedName.parse? qualified
  let position ← p.methods.findIdx? fun method =>
    method.name = name.member ∧ p.types[method.owner.index]?.map (·.name) = some name.type
  return ⟨position⟩

/-- The first variable of a method with a name (`find_var`). -/
def findVar (p : Program) (method : MethodId) (name : String) : Option VarId := do
  let position ← p.vars.findIdx? fun var => var.method = method ∧ var.name = name
  return ⟨position⟩

end Program

end PointerAnalysis
