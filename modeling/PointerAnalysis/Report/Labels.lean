import PointerAnalysis.Solver.Run

/-! Names for what an analysis finds. An object is named by its site, class and method, or by its
class alone if it stands for all objects of that; under a context the context stands before. -/
namespace PointerAnalysis.Solution

variable {E S : Type} [Coded E] (r : Solution E S)

def contextLabel (id : ContextId) : Except UnknownId String := do
  let context ← r.state.canon.context id
  let number (o : AbstractObject) : ObjectId := ⟨r.state.canon.objects.idxOf o⟩
  return context.text (r.analysis.policy.label number)

/-- The name of an abstract object (`obj_label`). -/
def objectLabel (o : AbstractObject) : Except UnknownId String := do
  let type ← r.analysis.program.typeName o.type
  match o.site, o.container with
  | none, _ => return "MergedObj<" ++ type ++ ">"
  | some site, none => return "NewObj#" ++ toString site.index ++ "<" ++ type ++ ">"
  | some site, some container =>
    let method ← r.analysis.program.methodName container
    return "NewObj#" ++ toString site.index ++ "<" ++ type ++ ">@" ++ method

/-- The name of the abstract object behind an object under a context. -/
def mergedObjectLabel (id : ContextObjectId) : Except UnknownId String := do
  let entry ← r.state.canon.contextObject id
  r.objectLabel (← r.state.canon.object entry.object)

/-- The name of an object under a context (`cs_obj_label`). -/
def contextObjectLabel (id : ContextObjectId) : Except UnknownId String := do
  let entry ← r.state.canon.contextObject id
  let context ← r.contextLabel entry.context
  return context ++ ":" ++ (← r.mergedObjectLabel id)

/-- The name of a pointer with its context (`pointer_label`). -/
def pointerLabel (id : PointerId) : Except UnknownId String := do
  match ← r.state.canon.pointer id with
  | .var context var =>
    return (← r.contextLabel context) ++ ":" ++ (← r.analysis.program.varName var)
  | .field object field =>
    return (← r.contextObjectLabel object) ++ "." ++ (← r.analysis.program.field field)

/-- The name of a pointer with the context dropped. -/
def mergedPointerLabel (p : Pointer) : Except UnknownId String := do
  match p with
  | .var _ var => r.analysis.program.varName var
  | .field object field =>
    return (← r.mergedObjectLabel object) ++ "." ++ (← r.analysis.program.field field)

def methodLabel (id : ContextMethodId) : Except UnknownId String := do
  let entry ← r.state.canon.method id
  let context ← r.contextLabel entry.context
  return context ++ ":" ++ (← r.analysis.program.methodName entry.method)

end PointerAnalysis.Solution
