import PointerAnalysis.Program.Basic

/-! Programs as they are described: everything is referred to by name, a type by its own, a method
with its class and a dot before it, and a variable by its name inside the method. -/
namespace PointerAnalysis.Described

inductive Statement where
  | new (var type : String)
  | assign (target source : String)
  | load (target base field : String)
  | store (base field source : String)
  | call (kind : CallKind) (target : String) (receiver : Option String) (args : List String)
      (result : Option String)
  | return (var : String)
  deriving DecidableEq

structure Method where
  name : String
  isStatic : Bool
  isAbstract : Bool
  params : List String
  body : List Statement
  deriving DecidableEq

structure Class where
  name : String
  super : Option String
  methods : List Method
  deriving DecidableEq

/-- The classes of a program and the methods at which it is entered. -/
structure Program where
  types : List Class
  entries : List String
  deriving DecidableEq

end PointerAnalysis.Described
