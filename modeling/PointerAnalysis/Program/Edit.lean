import PointerAnalysis.Program.Builder

/-! The editing commands of a program builder, as data. A command that reads or changes an entity
which was never declared is refused; ids that are only recorded are not looked at. -/
namespace PointerAnalysis

inductive Edit where
  | addType (name : String) (super : Option TypeId)
  | setSuper (type : TypeId) (super : Option TypeId)
  | nameField (name : String)
  | addMethod (owner : TypeId) (name : String) (params : List String) (form : MethodForm)
  | nameVar (method : MethodId) (name : String)
  | alloc (method : MethodId) (target : VarId) (type : TypeId)
  | assign (method : MethodId) (target source : VarId)
  | load (method : MethodId) (target base : VarId) (field : FieldId)
  | store (method : MethodId) (base : VarId) (field : FieldId) (source : VarId)
  | call (site : CallSite)
  | addReturn (method : MethodId) (var : VarId)
  | addEntry (method : MethodId)

namespace Edit

/-- Whether all that a command reads or changes has been declared. -/
def check (p : Program) : Edit → Except UnknownId Unit
  | .addType .. | .nameField .. | .nameVar .. | .addEntry .. => .ok ()
  | .setSuper type _ | .addMethod type .. => do discard (p.type type)
  | .alloc method .. | .assign method .. | .addReturn method _ => do discard (p.method method)
  | .load method _ base _ | .store method base .. => do
    discard (p.var base)
    discard (p.method method)
  | .call site => do
    if let some receiver := site.receiver then discard (p.var receiver)
    discard (p.method site.container)

/-- Carries a command out; the number is that of the entity it names or creates. -/
def perform (b : Builder) : Edit → Builder × Option Nat
  | .addType name super => let (b, id) := b.addType name super; (b, some id.index)
  | .setSuper type super => (b.setSuper type super, none)
  | .nameField name => let (b, id) := b.field name; (b, some id.index)
  | .addMethod owner name params form =>
    let (b, id) := b.addMethod owner name params form; (b, some id.index)
  | .nameVar method name => let (b, id) := b.var method name; (b, some id.index)
  | .alloc method target type =>
    let (b, id) := b.alloc method target type; (b, some id.index)
  | .assign method target source => (b.assign method target source, none)
  | .load method target base field => (b.load method target base field, none)
  | .store method base field source => (b.store method base field source, none)
  | .call site => let (b, id) := b.call site; (b, some id.index)
  | .addReturn method var => (b.addReturn method var, none)
  | .addEntry method => (b.addEntry method, none)

/-- A command on a builder: refused, or carried out. -/
def apply (b : Builder) (edit : Edit) : Except UnknownId (Builder × Option Nat) := do
  edit.check b.program
  return edit.perform b

end Edit

end PointerAnalysis
