import PointerAnalysis.ObjectSet.Basic
import Std.Data.TreeSet

/-! Search trees as sets of ids: the plain representation, with members in increasing order and no
change of form. -/
namespace PointerAnalysis

abbrev TreeSet (kind : Entity) := Std.TreeSet (Id kind)

namespace TreeSet

variable {kind : Entity}

def union (s t : TreeSet kind) : TreeSet kind × Bool :=
  let all := t.toList.foldl (·.insert ·) s
  (all, all.size != s.size)

def subtract (s t : TreeSet kind) : TreeSet kind × Bool :=
  let left := t.toList.foldl (·.erase ·) s
  (left, left.size != s.size)

instance : IdSet (TreeSet kind) kind where
  empty := ∅
  insert s e := (s.insert e, !s.contains e)
  union := union
  subtract := subtract
  contains s e := s.contains e
  superset s t := t.toList.all s.contains
  isEmpty s := s.isEmpty
  count s := s.size
  toList s := s.toList

end TreeSet

end PointerAnalysis
