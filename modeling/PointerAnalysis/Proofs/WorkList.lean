import PointerAnalysis.Queue.WorkList

/-! What pushing and popping do to the two queues of a work list. Neither queue is touched by what
is done to the other, and what is popped and what is left of a queue depends on that queue alone. -/
namespace PointerAnalysis

namespace WorkList

theorem mem_pointers_pushPointer {w : WorkList} {p q : PointerId} :
    q ∈ (w.pushPointer p).1.pointers.toList ↔ q ∈ w.pointers.toList ∨ q = p := by
  unfold pushPointer
  split
  · next known =>
    rw [w.mem_waiting] at known
    exact ⟨.inl, fun h => h.elim id (· ▸ known)⟩
  · simp

@[simp] theorem callEdges_pushPointer (w : WorkList) (p : PointerId) :
    (w.pushPointer p).1.callEdges = w.callEdges := by
  unfold pushPointer
  split <;> rfl

@[simp] theorem bookmark_pushPointer (w : WorkList) (p : PointerId) :
    (w.pushPointer p).1.bookmark = w.bookmark := by
  unfold pushPointer
  split <;> rfl

theorem popPointer?_eq_none {w : WorkList} (none : w.popPointer? = none) :
    w.pointers.toList = [] := by
  unfold popPointer? at none
  split at none
  · next popped => exact Fifo.pop?_eq_none_iff.mp popped
  · cases none

/-- Popping takes the head of the queue of pointers and leaves the call edges alone. -/
theorem popPointer?_eq_some {w w' : WorkList} {p : PointerId}
    (popped : w.popPointer? = some (p, w')) :
    w.pointers.toList = p :: w'.pointers.toList ∧ w'.callEdges = w.callEdges ∧
      w'.bookmark = w.bookmark := by
  unfold popPointer? at popped
  split at popped
  · cases popped
  · next q pointers taken =>
    cases popped
    exact ⟨Fifo.toList_of_pop? taken, rfl, rfl⟩

/-! ### Answers -/

/-- A pointer that waits already is not let wait once more. -/
theorem pushPointer_of_waiting {w : WorkList} {p : PointerId} (known : p ∈ w.waiting) :
    w.pushPointer p = (w, false) := dif_pos known

theorem pushPointer_of_not_waiting {w : WorkList} {p : PointerId} (new : p ∉ w.waiting) :
    (w.pushPointer p).2 = true ∧ (w.pushPointer p).1.pointers = w.pointers.push p ∧
      (w.pushPointer p).1.waiting = w.waiting.insert p := by
  rw [pushPointer, dif_neg new]
  exact ⟨rfl, rfl, rfl⟩

theorem pushPointer_snd_iff {w : WorkList} {p : PointerId} :
    (w.pushPointer p).2 = true ↔ p ∉ w.waiting := by
  by_cases known : p ∈ w.waiting
  · simp [pushPointer_of_waiting known, known]
  · simp [(pushPointer_of_not_waiting known).1, known]

theorem popPointer?_of_none {w : WorkList} (nothing : w.pointers.pop? = none) :
    w.popPointer? = none := by
  unfold popPointer?
  split
  · rfl
  · next popped => cases nothing.symm.trans popped

/-- What is popped and what is left of the pointers depends on nothing but the pointers. -/
theorem popPointer?_of_some {w : WorkList} {p : PointerId} {pointers : Fifo PointerId}
    (taken : w.pointers.pop? = some (p, pointers)) : ∃ w', w.popPointer? = some (p, w') ∧
      w'.pointers = pointers ∧ w'.waiting = w.waiting.erase p := by
  unfold popPointer?
  split
  · next nothing => cases nothing.symm.trans taken
  · next popped =>
    cases popped.symm.trans taken
    exact ⟨_, rfl, rfl, rfl⟩

/-- The pointer that is popped is the first of those that wait. -/
theorem popPointer?_fst (w : WorkList) : w.popPointer?.map Prod.fst = w.pointers.toList.head? := by
  cases popped : w.popPointer? with
  | none => rw [popPointer?_eq_none popped, Option.map_none, List.head?_nil]
  | some next => rw [(popPointer?_eq_some popped).1, Option.map_some, List.head?_cons]

theorem popCallEdge?_fst (w : WorkList) : w.popCallEdge?.1 = w.queuedCalls.head? := by
  cases queued : w.queuedCalls with
  | nil => rw [popCallEdge?_of_queuedCalls_eq_nil queued, List.head?_nil]
  | cons e others => rw [(popCallEdge?_of_queuedCalls_eq_cons queued).1, List.head?_cons]

theorem queuedCalls_popCallEdge? (w : WorkList) :
    w.popCallEdge?.2.queuedCalls = w.queuedCalls.tail := by
  cases queued : w.queuedCalls with
  | nil => rw [popCallEdge?_of_queuedCalls_eq_nil queued, queued, List.tail_nil]
  | cons e others => rw [(popCallEdge?_of_queuedCalls_eq_cons queued).2, List.tail_cons]

theorem hasPointers_eq (w : WorkList) : w.hasPointers = w.popPointer?.isSome := by
  rw [← Option.isSome_map, popPointer?_fst, hasPointers]
  cases w.pointers.toList <;> rfl

theorem hasCallEdges_eq (w : WorkList) : w.hasCallEdges = w.popCallEdge?.1.isSome := by
  rw [Bool.eq_iff_iff, popCallEdge?_fst, queuedCalls, Bookmark.ahead, List.head?_drop, isSome_getElem?,
    Journal.length_toList]
  exact decide_eq_true_iff

/-- Popping several call edges takes that many off the front of those that wait. -/
theorem popCallEdges_fst (w : WorkList) (n : Nat) : (w.popCallEdges n).1 = w.queuedCalls.take n :=
  Bookmark.take_fst w.bookmark w.callEdges n

theorem isEmpty_iff {w : WorkList} :
    w.isEmpty = true ↔ w.popPointer? = none ∧ w.popCallEdge?.1 = none := by
  rw [isEmpty, hasPointers_eq, hasCallEdges_eq]
  simp

/-! ### Frames -/

@[simp] theorem pointers_pushCallEdge (w : WorkList) (e : ContextCallEdge) :
    (w.pushCallEdge e).pointers = w.pointers := rfl

@[simp] theorem pointers_popCallEdge? (w : WorkList) : w.popCallEdge?.2.pointers = w.pointers := rfl

@[simp] theorem callEdges_popCallEdge? (w : WorkList) :
    w.popCallEdge?.2.callEdges = w.callEdges := rfl

/-- A call edge that is taken is passed by the reader of the queue. -/
theorem passed_popCallEdge? {w : WorkList} {e : ContextCallEdge} {others : List ContextCallEdge}
    (queued : w.queuedCalls = e :: others) :
    w.popCallEdge?.2.bookmark.passed = w.bookmark.passed + 1 := by
  simp only [popCallEdge?, (Bookmark.next_of_ahead_eq_cons queued).1]

@[simp] theorem queuedCalls_pushPointer (w : WorkList) (p : PointerId) :
    (w.pushPointer p).1.queuedCalls = w.queuedCalls := by
  simp [queuedCalls]

/-- Call edges pushed meanwhile come behind those that were queued already. -/
theorem queuedCalls_prefix {w w' : WorkList} (place : w'.bookmark = w.bookmark)
    (pushed : w.callEdges.toList <+: w'.callEdges.toList) : w.queuedCalls <+: w'.queuedCalls := by
  rw [queuedCalls, queuedCalls, Bookmark.ahead, Bookmark.ahead, place]
  obtain ⟨added, same⟩ := pushed
  rw [← same]
  by_cases behind : w.bookmark.passed ≤ w.callEdges.toList.length
  · rw [List.drop_append_of_le_length behind]
    exact List.prefix_append _ _
  · rw [Journal.length_toList] at behind
    exact absurd w.behind behind

end WorkList

/-- The two queues of a work list. -/
inductive WorkQueue where
  | pointers
  | callEdges
  deriving DecidableEq

namespace WorkList

/-- Work lists hold the same in one of their queues. -/
def AgreesOn (w : WorkList) (queue : WorkQueue) (w' : WorkList) : Prop :=
  match queue with
  | .pointers => w.pointers = w'.pointers ∧ w.waiting = w'.waiting
  | .callEdges => w.callEdges = w'.callEdges ∧ w.bookmark = w'.bookmark

namespace AgreesOn

variable {w w' w'' : WorkList} {queue : WorkQueue}

theorem refl (w : WorkList) : w.AgreesOn queue w := by
  cases queue <;> exact ⟨rfl, rfl⟩

theorem trans (first : w.AgreesOn queue w') (second : w'.AgreesOn queue w'') : w.AgreesOn queue w'' := by
  cases queue <;> exact ⟨first.1.trans second.1, first.2.trans second.2⟩

theorem pushPointer (same : w.AgreesOn .pointers w') (p : PointerId) :
    (w.pushPointer p).2 = (w'.pushPointer p).2 ∧
      (w.pushPointer p).1.AgreesOn .pointers (w'.pushPointer p).1 := by
  obtain ⟨pointers, waiting⟩ := same
  by_cases known : p ∈ w.waiting
  · rw [pushPointer_of_waiting known, pushPointer_of_waiting (waiting ▸ known)]
    exact ⟨rfl, pointers, waiting⟩
  · obtain ⟨new, pushed, waits⟩ := pushPointer_of_not_waiting known
    obtain ⟨new', pushed', waits'⟩ := pushPointer_of_not_waiting (w := w') (waiting ▸ known)
    rw [← pointers] at pushed'
    rw [← waiting] at waits'
    exact ⟨new.trans new'.symm, pushed.trans pushed'.symm, waits.trans waits'.symm⟩

theorem popPointer? (same : w.AgreesOn .pointers w') :
    w.popPointer?.map Prod.fst = w'.popPointer?.map Prod.fst ∧
      ((w.popPointer?.map Prod.snd).getD w).AgreesOn .pointers ((w'.popPointer?.map Prod.snd).getD w') := by
  obtain ⟨pointers, waiting⟩ := same
  cases taken : w.pointers.pop? with
  | none =>
    rw [popPointer?_of_none taken, popPointer?_of_none (pointers ▸ taken)]
    exact ⟨rfl, pointers, waiting⟩
  | some next =>
    obtain ⟨v, popped, left, waits⟩ := popPointer?_of_some taken
    obtain ⟨v', popped', left', waits'⟩ := popPointer?_of_some (pointers ▸ taken)
    rw [← waiting] at waits'
    rw [popped, popped']
    exact ⟨rfl, left.trans left'.symm, waits.trans waits'.symm⟩

theorem pushCallEdge (same : w.AgreesOn .callEdges w') (e : ContextCallEdge) :
    (w.pushCallEdge e).AgreesOn .callEdges (w'.pushCallEdge e) :=
  ⟨congrArg (·.push e) same.1, same.2⟩

theorem popCallEdge? (same : w.AgreesOn .callEdges w') : w.popCallEdge?.1 = w'.popCallEdge?.1 ∧
    w.popCallEdge?.2.AgreesOn .callEdges w'.popCallEdge?.2 := by
  have read : w.bookmark.next w.callEdges = w'.bookmark.next w'.callEdges := by
    rw [same.1, same.2]
  have found := congrArg Prod.fst read
  exact ⟨found, same.1, congrArg Prod.snd read⟩

end AgreesOn

end WorkList

end PointerAnalysis
