import PointerAnalysis.Id

/-! Sets of ids as the solver uses them. Operations that change a set also say whether they did;
the order in which a set lists its members is its own affair. -/
namespace PointerAnalysis

/-- A representation `S` of finite sets of ids (`PointsToSet`). -/
class IdSet (S : Type) (kind : outParam Entity) where
  empty : S
  /-- Adds a member; true if it is new. -/
  insert : S → Id kind → S × Bool
  /-- Adds the members of the second set; true if one is new. -/
  union : S → S → S × Bool
  /-- Removes the members of the second set; true if one was there. -/
  subtract : S → S → S × Bool
  contains : S → Id kind → Bool
  /-- Whether the first set holds all members of the second. -/
  superset : S → S → Bool
  isEmpty : S → Bool
  count : S → Nat
  /-- All members, each once. -/
  toList : S → List (Id kind)

namespace IdSet

variable {S : Type} {kind : Entity} [IdSet S kind]

def singleton (e : Id kind) : S := (insert empty e).1

/-- The members of a list, inserted in order. -/
def ofList (l : List (Id kind)) : S := l.foldl (fun s e => (insert s e).1) empty

/-- The members between braces, in the order of the set. -/
def text (s : S) : String :=
  "\x7b" ++ ", ".intercalate ((toList s).map Id.text) ++ "\x7d"

end IdSet

end PointerAnalysis
