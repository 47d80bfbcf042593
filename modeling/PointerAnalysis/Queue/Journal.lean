/-! Journals are queues that only grow. Entries never move, so a reader needs to remember only how
many of them it has passed, and any number of readers can follow one journal. What a reader has
not passed yet is a queue in the plain sense: pushing appends to it and reading takes its head. -/
namespace PointerAnalysis

structure Journal (α : Type) where
  entries : Array α

/-- How far a reader has come. -/
structure Bookmark where
  passed : Nat
  deriving DecidableEq

namespace Journal

variable {α : Type}

def empty : Journal α := ⟨#[]⟩

/-- How many entries have ever been pushed. -/
def length (j : Journal α) : Nat := j.entries.size

def isEmpty (j : Journal α) : Bool := j.entries.isEmpty

def push (j : Journal α) (a : α) : Journal α := ⟨j.entries.push a⟩

/-- All entries in the order in which they were pushed. -/
def toList (j : Journal α) : List α := j.entries.toList

/-- All entries between brackets. -/
def text (j : Journal α) (label : α → String) : String :=
  "[" ++ ", ".intercalate (j.toList.map label) ++ "]"

@[simp] theorem toList_push (j : Journal α) (a : α) : (j.push a).toList = j.toList ++ [a] := by
  simp [push, toList]

theorem length_toList (j : Journal α) : j.toList.length = j.length := Array.length_toList

end Journal

namespace Bookmark

variable {α : Type}

/-- Before the first entry. -/
def start : Bookmark := ⟨0⟩

/-- The entries that lie ahead of a reader. -/
def ahead (b : Bookmark) (j : Journal α) : List α := j.toList.drop b.passed

def hasNext (b : Bookmark) (j : Journal α) : Bool := b.passed < j.length

/-- The next entry, if there is one yet, and the place behind it. -/
def next (b : Bookmark) (j : Journal α) : Option α × Bookmark :=
  match j.entries[b.passed]? with
  | some a => (some a, ⟨b.passed + 1⟩)
  | none => (none, b)

/-- Up to `n` entries and the place behind them. -/
def take (b : Bookmark) (j : Journal α) : Nat → List α × Bookmark
  | 0 => ([], b)
  | n + 1 =>
    match b.next j with
    | (some a, b) =>
      let (others, b) := b.take j n
      (a :: others, b)
    | (none, b) => ([], b)

@[simp] theorem ahead_start (j : Journal α) : start.ahead j = j.toList := List.drop_zero

/-- A new entry comes last for every reader that has not run ahead. -/
theorem ahead_push {b : Bookmark} {j : Journal α} (behind : b.passed ≤ j.length) (a : α) :
    b.ahead (j.push a) = b.ahead j ++ [a] := by
  rw [ahead, Journal.toList_push, List.drop_append_of_le_length (by rwa [Journal.length_toList])]
  rfl

/-- Reading takes the head of what lies ahead. -/
theorem next_of_ahead_eq_cons {b : Bookmark} {j : Journal α} {a : α} {others : List α}
    (waiting : b.ahead j = a :: others) :
    b.next j = (some a, ⟨b.passed + 1⟩) ∧ (Bookmark.mk (b.passed + 1)).ahead j = others := by
  have head : j.toList[b.passed]? = some a := by
    rw [← List.head?_drop, ← ahead, waiting, List.head?_cons]
  constructor
  · rw [next, ← Array.getElem?_toList]
    show (match j.toList[b.passed]? with
      | some a => (some a, (⟨b.passed + 1⟩ : Bookmark))
      | none => (none, b)) = _
    rw [head]
  · rw [ahead, ← List.tail_drop, ← ahead, waiting, List.tail_cons]

theorem next_of_ahead_eq_nil {b : Bookmark} {j : Journal α} (done : b.ahead j = []) :
    b.next j = (none, b) := by
  have past : j.entries[b.passed]? = none := by
    rw [← Array.getElem?_toList, ← List.head?_drop]
    have nothing : j.entries.toList.drop b.passed = [] := done
    rw [nothing, List.head?_nil]
  rw [next, past]

theorem take_fst (b : Bookmark) (j : Journal α) (n : Nat) : (b.take j n).1 = (b.ahead j).take n := by
  induction n generalizing b with
  | zero => rfl
  | succ n ih =>
    rw [take]
    cases waiting : b.ahead j with
    | nil => rw [next_of_ahead_eq_nil waiting, List.take_nil]
    | cons a others =>
      obtain ⟨read, rest⟩ := next_of_ahead_eq_cons waiting
      rw [read, List.take_succ_cons, ← rest, ← ih]

/-- A reader never runs ahead of the journal. -/
theorem passed_next_le {b : Bookmark} {j : Journal α} (behind : b.passed ≤ j.length) :
    (b.next j).2.passed ≤ j.length := by
  unfold next
  split
  · next found => exact (Array.getElem?_eq_some_iff.mp found).1
  · exact behind

theorem passed_take_le {b : Bookmark} {j : Journal α} (behind : b.passed ≤ j.length) (n : Nat) :
    (b.take j n).2.passed ≤ j.length := by
  induction n generalizing b with
  | zero => exact behind
  | succ n ih =>
    have step := passed_next_le behind
    unfold take
    split
    · next read => exact ih (by rwa [read] at step)
    · next read => rwa [read] at step

end Bookmark

end PointerAnalysis
