import PointerAnalysis.ObjectSet.Basic
import PointerAnalysis.ObjectSet.Words

/-! Sets that are a short list while they are small and a list of words from then on. The list
keeps the order of insertion, the words list their members in increasing order, and a set that
has grown stays in its large form however few members are left. -/
namespace PointerAnalysis

/-- The most members that a small set holds. -/
def smallCapacity : Nat := 32

/-- A set in its small or in its large form (`HybridPointsToSet`). -/
inductive HybridSet (kind : Entity) where
  | small (members : List (Id kind)) (nodup : members.Nodup)
      (fits : members.length ≤ smallCapacity)
  | large (words : WordSet)

namespace HybridSet

variable {kind : Entity}

def empty : HybridSet kind := .small [] List.nodup_nil (Nat.zero_le _)

/-- The members of a list as words. -/
def wordsOf (l : List (Id kind)) : WordSet := WordSet.ofList (l.map (·.index))

def contains : HybridSet kind → Id kind → Bool
  | small members _ _, e => e ∈ members
  | large words, e => words.contains e.index

def insert : HybridSet kind → Id kind → HybridSet kind × Bool
  | small members nodup fits, e =>
    if known : e ∈ members then (small members nodup fits, false)
    else if room : members.length < smallCapacity then
      (small (members ++ [e])
        (List.nodup_append.mpr ⟨nodup, List.nodup_cons.mpr ⟨List.not_mem_nil, List.nodup_nil⟩, by
          intro a there b last same
          rw [List.mem_singleton.mp last] at same
          exact known (same ▸ there)⟩)
        (by simp only [List.length_append, List.length_singleton]; exact room), true)
    else (large ((wordsOf members).insert e.index).1, true)
  | large words, e =>
    let (words, fresh) := words.insert e.index
    (large words, fresh)

/-- Inserts all members of a list; true if one is new. -/
def insertAll (s : HybridSet kind) : List (Id kind) → HybridSet kind × Bool
  | [] => (s, false)
  | e :: others =>
    let (s, first) := s.insert e
    let (s, later) := s.insertAll others
    (s, first || later)

/-- A union with a large set is large. -/
def union : HybridSet kind → HybridSet kind → HybridSet kind × Bool
  | large ours, large theirs =>
    let (words, changed) := ours.union theirs
    (large words, changed)
  | small members _ _, large theirs =>
    let (words, changed) := (wordsOf members).union theirs
    (large words, changed)
  | s, small members _ _ => s.insertAll members

/-- Erases all members of a list from a set of words; true if one was there. -/
def eraseAll (words : WordSet) : List (Id kind) → WordSet × Bool
  | [] => (words, false)
  | e :: others =>
    let (words, first) := words.erase e.index
    let (words, later) := eraseAll words others
    (words, first || later)

/-- What is left of a list keeps its order. -/
def subtract : HybridSet kind → HybridSet kind → HybridSet kind × Bool
  | large ours, large theirs =>
    let (words, changed) := ours.subtract theirs
    (large words, changed)
  | large ours, small members _ _ =>
    let (words, changed) := eraseAll ours members
    (large words, changed)
  | small members nodup fits, t =>
    let left := members.filter fun e => !t.contains e
    (small left (nodup.filter _) (Nat.le_trans (List.length_filter_le ..) fits),
     left.length != members.length)

def toList : HybridSet kind → List (Id kind)
  | small members _ _ => members
  | large words => words.toList.map (⟨·⟩)

def superset : HybridSet kind → HybridSet kind → Bool
  | large ours, large theirs => ours.superset theirs
  | s, t => t.toList.all s.contains

def isEmpty : HybridSet kind → Bool
  | small members _ _ => members.isEmpty
  | large words => words.isEmpty

def count : HybridSet kind → Nat
  | small members _ _ => members.length
  | large words => words.count

instance : IdSet (HybridSet kind) kind where
  empty := empty
  insert := insert
  union := union
  subtract := subtract
  contains := contains
  superset := superset
  isEmpty := isEmpty
  count := count
  toList := toList

end HybridSet

end PointerAnalysis
