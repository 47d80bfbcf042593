import PointerAnalysis.Program.Resolution
import PointerAnalysis.Registry

/-! Building programs piece by piece. Names are declared on first use, and each heap access or
receiver call is entered twice: as a statement of its method and under the variable it goes
through, which is where the analysis looks it up. -/
namespace PointerAnalysis

/-- A program in the making with the names declared so far (`ProgramBuilder`). -/
structure Builder where
  program : Program
  typeNames : Std.TreeMap String TypeId
  fieldNames : Registry String
  /-- Variables are numbered in the order in which their names are first used. -/
  varNames : Registry (MethodId × String)

/-- What a method is declared as; only instance methods of either sort have a `this`. -/
inductive MethodForm where
  | onReceiver
  | static
  | abstract
  deriving DecidableEq

namespace Builder

def empty : Builder := ⟨.empty, ∅, .empty, .empty⟩

/-- A class (`add_type`); its name now stands for it, also if another class had that name before. -/
def addType (b : Builder) (name : String) (super : Option TypeId) : Builder × TypeId :=
  let id : TypeId := ⟨b.program.types.size⟩
  ({ b with
      program := { b.program with types := b.program.types.push ⟨name, super, []⟩ }
      typeNames := b.typeNames.insert name id },
   id)

def typeId? (b : Builder) (name : String) : Option TypeId := b.typeNames[name]?

/-- Gives a class another super type, or none (`set_super_type`). -/
def setSuper (b : Builder) (t : TypeId) (super : Option TypeId) : Builder :=
  { b with
    program := { b.program with
      types := b.program.types.modify t.index ({ · with super }) } }

/-- The largest number of parameters that a method has (`max_arity`). -/
def maxArity (b : Builder) : Nat :=
  b.program.methods.foldl (fun most method => max most method.params.length) 0

/-- The field with a name, declared if it is new. -/
def field (b : Builder) (name : String) : Builder × FieldId :=
  let (fieldNames, position) := b.fieldNames.register name
  ({ b with fieldNames, program := { b.program with fields := fieldNames.values } }, ⟨position⟩)

/-- The variable of a method with a name, declared if it is new. -/
def var (b : Builder) (method : MethodId) (name : String) : Builder × VarId :=
  let (varNames, position) := b.varNames.register (method, name)
  let vars :=
    if position < b.program.vars.size then b.program.vars
    else b.program.vars.push ⟨name, method, #[], #[], #[]⟩
  ({ b with varNames, program := { b.program with vars } }, ⟨position⟩)

/-- The variables of a method with these names, in order; new ones are declared. -/
def varList (b : Builder) (method : MethodId) : List String → Builder × List VarId
  | [] => (b, [])
  | name :: names =>
    let (b, first) := b.var method name
    let (b, others) := b.varList method names
    (b, first :: others)

/-- The variable of a method with a name, if there is a name. -/
def varOption (b : Builder) (method : MethodId) : Option String → Builder × Option VarId
  | none => (b, none)
  | some name =>
    let (b, id) := b.var method name
    (b, some id)

def modifyMethod (b : Builder) (id : MethodId) (change : Method → Method) : Builder :=
  { b with program := { b.program with methods := b.program.methods.modify id.index change } }

def modifyVar (b : Builder) (id : VarId) (change : Variable → Variable) : Builder :=
  { b with program := { b.program with vars := b.program.vars.modify id.index change } }

/-- A method without statements (`declare_method`). Its parameters come first among its variables, then
`this`. -/
def addMethod (b : Builder) (owner : TypeId) (name : String) (params : List String)
    (form : MethodForm) : Builder × MethodId :=
  let id : MethodId := ⟨b.program.methods.size⟩
  let blank : Method :=
    { name, owner, isStatic := form = .static, isAbstract := form = .abstract
      params := [], this := none, returns := [], body := #[] }
  let b := { b with program := { b.program with methods := b.program.methods.push blank } }
  let (b, paramVars) := b.varList id params
  let (b, this) := b.varOption id (if form = .static then none else some "this")
  let b := b.modifyMethod id ({ · with params := paramVars, this })
  let types := b.program.types.modify owner.index (·.declare ⟨name, params.length⟩ id)
  ({ b with program := { b.program with types } }, id)

def addStatement (b : Builder) (method : MethodId) (s : Statement) : Builder :=
  b.modifyMethod method fun m => { m with body := m.body.push s }

/-- An allocation under the next free site (`new_obj`). Sites are counted without bound, where a number of
32 bits would start again behind the last one; below `2 ^ 32` allocations there is no difference. -/
def alloc (b : Builder) (method : MethodId) (target : VarId) (type : TypeId) :
    Builder × AllocSiteId :=
  let site : AllocSiteId := ⟨b.program.allocSites⟩
  let b := { b with program := { b.program with allocSites := b.program.allocSites + 1 } }
  (b.addStatement method (.alloc target site type), site)

def assign (b : Builder) (method : MethodId) (target source : VarId) : Builder :=
  b.addStatement method (.assign target source)

def load (b : Builder) (method : MethodId) (target base : VarId) (field : FieldId) : Builder :=
  let b := b.modifyVar base fun v => { v with loads := v.loads.push (field, target) }
  b.addStatement method (.load target base field)

def store (b : Builder) (method : MethodId) (base : VarId) (field : FieldId) (source : VarId) :
    Builder :=
  let b := b.modifyVar base fun v => { v with stores := v.stores.push (field, source) }
  b.addStatement method (.store base field source)

/-- A call, also entered under its receiver. -/
def call (b : Builder) (site : CallSite) : Builder × CallSiteId :=
  let id : CallSiteId := ⟨b.program.callSites.size⟩
  let b := { b with program := { b.program with callSites := b.program.callSites.push site } }
  let b := match site.receiver with
    | none => b
    | some receiver => b.modifyVar receiver fun v => { v with calls := v.calls.push id }
  (b.addStatement site.container (.call id), id)

/-- A variable whose value a method returns, listed once (`ret`). -/
def addReturn (b : Builder) (method : MethodId) (var : VarId) : Builder :=
  b.modifyMethod method fun m =>
    { m with returns := if var ∈ m.returns then m.returns else m.returns ++ [var] }

def addEntry (b : Builder) (method : MethodId) : Builder :=
  { b with program := { b.program with entries := b.program.entries.push method } }

end Builder

end PointerAnalysis
