import PointerAnalysis.Graph.Calls
import PointerAnalysis.Queue.Fifo
import PointerAnalysis.Queue.Journal
import Std.Data.TreeSet

/-! The two queues of the solver: pointers with objects to pass on, each at most once, and call
edges to be looked at, which may repeat. Both are first in, first out. -/
namespace PointerAnalysis

/-- A resolved call between methods under contexts. -/
abbrev ContextCallEdge := CallEdge .contextMethod .contextCallSite

/-- The pointers that wait are kept twice, as a queue and as a set, which always agree. -/
structure WorkList where
  pointers : Fifo PointerId
  waiting : Std.TreeSet PointerId
  callEdges : Journal ContextCallEdge
  /-- Behind the last call edge that was popped. -/
  bookmark : Bookmark
  mem_waiting : ∀ p, p ∈ waiting ↔ p ∈ pointers.toList
  nodup : pointers.toList.Nodup
  behind : bookmark.passed ≤ callEdges.length

namespace WorkList

def empty : WorkList where
  pointers := .empty
  waiting := ∅
  callEdges := .empty
  bookmark := .start
  mem_waiting := by simp
  nodup := List.nodup_nil
  behind := Nat.le_refl _

/-- Lets a pointer wait (`push_pointer`); false if it does so already. -/
def pushPointer (w : WorkList) (p : PointerId) : WorkList × Bool :=
  if known : p ∈ w.waiting then (w, false)
  else
    ({ w with
        pointers := w.pointers.push p
        waiting := w.waiting.insert p
        mem_waiting := by
          intro q
          rw [Std.TreeSet.mem_insert, Std.LawfulEqCmp.compare_eq_iff_eq, w.mem_waiting q,
            Fifo.toList_push, List.mem_append, List.mem_singleton, or_comm, eq_comm]
        nodup := by
          rw [Fifo.toList_push]
          refine List.nodup_append.mpr
            ⟨w.nodup, List.nodup_cons.mpr ⟨List.not_mem_nil, List.nodup_nil⟩, ?_⟩
          intro a there b last same
          rw [List.mem_singleton.mp last] at same
          exact known ((w.mem_waiting p).mpr (same ▸ there)) },
     true)

/-- The pointer that has waited longest (`pop_pointer`). -/
def popPointer? (w : WorkList) : Option (PointerId × WorkList) :=
  match popped : w.pointers.pop? with
  | none => none
  | some (p, pointers) =>
    some (p,
      { w with
        pointers
        waiting := w.waiting.erase p
        mem_waiting := by
          intro q
          have view := Fifo.toList_of_pop? popped
          have nodup := w.nodup
          rw [view, List.nodup_cons] at nodup
          have before := w.mem_waiting q
          rw [view, List.mem_cons] at before
          rw [Std.TreeSet.mem_erase, before]
          by_cases same : q = p
          · subst same
            simp [nodup.1]
          · simp [same, Ne.symm same]
        nodup := by
          have nodup := w.nodup
          rw [Fifo.toList_of_pop? popped, List.nodup_cons] at nodup
          exact nodup.2 })

def pushCallEdge (w : WorkList) (e : ContextCallEdge) : WorkList :=
  { w with
    callEdges := w.callEdges.push e
    behind := by
      have behind := w.behind
      simp only [Journal.length, Journal.push, Array.size_push] at behind ⊢
      omega }

/-- The call edge that was pushed longest ago and has not been popped (`pop_call_edge`). -/
def popCallEdge? (w : WorkList) : Option ContextCallEdge × WorkList :=
  let read := w.bookmark.next w.callEdges
  (read.1, { w with bookmark := read.2, behind := Bookmark.passed_next_le w.behind })

/-- Pops up to `n` call edges. -/
def popCallEdges (w : WorkList) (n : Nat) : List ContextCallEdge × WorkList :=
  let read := w.bookmark.take w.callEdges n
  (read.1, { w with bookmark := read.2, behind := Bookmark.passed_take_le w.behind n })

/-- The call edges that have not been popped, the next one first. -/
def queuedCalls (w : WorkList) : List ContextCallEdge := w.bookmark.ahead w.callEdges

def hasPointers (w : WorkList) : Bool := !w.pointers.toList.isEmpty

def hasCallEdges (w : WorkList) : Bool := w.bookmark.hasNext w.callEdges

def isEmpty (w : WorkList) : Bool := !w.hasPointers && !w.hasCallEdges

/-- How many call edges have ever been pushed. -/
def pushedCallEdges (w : WorkList) : Nat := w.callEdges.length

@[simp] theorem queuedCalls_pushCallEdge (w : WorkList) (e : ContextCallEdge) :
    (w.pushCallEdge e).queuedCalls = w.queuedCalls ++ [e] :=
  Bookmark.ahead_push w.behind e

theorem popCallEdge?_of_queuedCalls_eq_nil {w : WorkList} (done : w.queuedCalls = []) :
    w.popCallEdge? = (none, w) := by
  have read : w.bookmark.next w.callEdges = (none, w.bookmark) := Bookmark.next_of_ahead_eq_nil done
  simp [popCallEdge?, read]

/-- Popping takes the head of the queue of call edges. -/
theorem popCallEdge?_of_queuedCalls_eq_cons {w : WorkList} {e : ContextCallEdge}
    {others : List ContextCallEdge} (queued : w.queuedCalls = e :: others) :
    w.popCallEdge?.1 = some e ∧ w.popCallEdge?.2.queuedCalls = others := by
  have read := Bookmark.next_of_ahead_eq_cons queued
  simp only [popCallEdge?, queuedCalls, read.1, true_and]
  exact read.2

end WorkList

end PointerAnalysis
