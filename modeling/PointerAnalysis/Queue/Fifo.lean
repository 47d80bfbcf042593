/-! First-in, first-out queues as two lists: what was pushed lately waits in reverse order. -/
namespace PointerAnalysis

structure Fifo (α : Type) where
  front : List α
  back : List α

namespace Fifo

variable {α : Type}

def empty : Fifo α := ⟨[], []⟩

/-- The waiting elements, the next one first. -/
def toList (q : Fifo α) : List α := q.front ++ q.back.reverse

def push (q : Fifo α) (a : α) : Fifo α := { q with back := a :: q.back }

/-- The next element and what waits behind it. -/
def pop? (q : Fifo α) : Option (α × Fifo α) :=
  match q.front with
  | a :: front => some (a, { q with front })
  | [] =>
    match q.back.reverse with
    | [] => none
    | a :: front => some (a, ⟨front, []⟩)

@[simp] theorem toList_empty : (empty : Fifo α).toList = [] := rfl

@[simp] theorem toList_push (q : Fifo α) (a : α) : (q.push a).toList = q.toList ++ [a] := by
  simp [push, toList]

/-- Popping takes the first of the waiting elements. -/
theorem pop?_eq (q : Fifo α) :
    q.pop?.map (fun popped => popped.1 :: popped.2.toList) =
      if q.toList = [] then none else some q.toList := by
  unfold pop? toList
  cases q.front with
  | cons a front => simp
  | nil => cases waiting : q.back.reverse <;> simp

theorem pop?_eq_none_iff {q : Fifo α} : q.pop? = none ↔ q.toList = [] := by
  have view := pop?_eq q
  cases popped : q.pop? <;> by_cases none : q.toList = [] <;> simp_all

theorem toList_of_pop? {q rest : Fifo α} {a : α} (popped : q.pop? = some (a, rest)) :
    q.toList = a :: rest.toList := by
  have view := pop?_eq q
  rw [popped] at view
  split at view
  · simp at view
  · simpa using view.symm

end Fifo

end PointerAnalysis
