import PointerAnalysis.Proofs.QueueReaders
import PointerAnalysis.Proofs.WorkList

/-! Work lists under any history of pushes and pops. What is asked of a work list and what it answers is
written down, and from that alone follows what it holds: the pointers that were accepted and have not been
handed out, and the call edges that were pushed and have not been popped. Neither queue takes notice of
the other, and what is said about call edges is what a queue in chunks tells a reader with a cursor. -/
namespace PointerAnalysis

/-- What can be asked of a work list. -/
inductive WorkRequest where
  | pushPointer (p : PointerId)
  | popPointer
  | pushCallEdge (e : ContextCallEdge)
  | popCallEdge

inductive WorkAnswer where
  /-- Whether a pointer was let wait. -/
  | accepted (new : Bool)
  | pointer (found : Option PointerId)
  | done
  | callEdge (found : Option ContextCallEdge)
  deriving DecidableEq

namespace WorkRequest

/-- The queue that a request is about. -/
def queue : WorkRequest → WorkQueue
  | pushPointer _ | popPointer => .pointers
  | pushCallEdge _ | popCallEdge => .callEdges

def answer (w : WorkList) : WorkRequest → WorkAnswer
  | pushPointer p => .accepted (w.pushPointer p).2
  | popPointer => .pointer (w.popPointer?.map Prod.fst)
  | pushCallEdge _ => .done
  | popCallEdge => .callEdge w.popCallEdge?.1

def perform (w : WorkList) : WorkRequest → WorkList
  | pushPointer p => (w.pushPointer p).1
  | popPointer => (w.popPointer?.map Prod.snd).getD w
  | pushCallEdge e => w.pushCallEdge e
  | popCallEdge => w.popCallEdge?.2

/-- The call edge that a request pushes. -/
def pushed? : WorkRequest → Option ContextCallEdge
  | pushCallEdge e => some e
  | pushPointer _ | popPointer | popCallEdge => none

/-- The request as it is made of a queue of call edges with one reader. -/
def reading? : WorkRequest → Option (QueueRequest Unit ContextCallEdge)
  | pushCallEdge e => some (.push e)
  | popCallEdge => some (.next ())
  | pushPointer _ | popPointer => none

end WorkRequest

/-- A work list, and what it has been asked and has answered. -/
structure WorkDesk where
  work : WorkList
  log : List (WorkRequest × WorkAnswer)

namespace WorkDesk

/-! ### What the log says -/

section Log

/-- The pointer that was let wait. -/
def accepted? : WorkRequest × WorkAnswer → Option PointerId
  | (.pushPointer p, .accepted true) => some p
  | _ => none

/-- The pointer that was popped. -/
def handedOut? : WorkRequest × WorkAnswer → Option PointerId
  | (.popPointer, .pointer found) => found
  | _ => none

/-- The call edge that was popped. -/
def popped? : WorkRequest × WorkAnswer → Option ContextCallEdge
  | (.popCallEdge, .callEdge found) => found
  | _ => none

/-- The request and the answer as they are noted for a queue of call edges with one reader. -/
def told? : WorkRequest × WorkAnswer → Option (QueueRequest Unit ContextCallEdge × QueueAnswer ContextCallEdge)
  | (.pushCallEdge e, _) => some (.push e, .done)
  | (.popCallEdge, .callEdge found) => some (.next (), .entry found)
  | _ => none

variable (log : List (WorkRequest × WorkAnswer))

/-- The pointers that were let wait, in order. -/
def accepted : List PointerId := log.filterMap accepted?

/-- The pointers that were popped, in order. -/
def handedOut : List PointerId := log.filterMap handedOut?

/-- The call edges that were popped, in order. -/
def popped : List ContextCallEdge := log.filterMap popped?

end Log

/-- The call edges that a history of requests pushes, in order. -/
def pushed (requests : List WorkRequest) : List ContextCallEdge := requests.filterMap WorkRequest.pushed?

/-! ### Requests -/

def opening : WorkDesk := ⟨.empty, []⟩

def serve (desk : WorkDesk) (request : WorkRequest) : WorkDesk where
  work := request.perform desk.work
  log := desk.log ++ [(request, request.answer desk.work)]

/-- A desk at which these requests are served in turn. -/
def serveAll (desk : WorkDesk) (requests : List WorkRequest) : WorkDesk := requests.foldl serve desk

theorem serveAll_concat (desk : WorkDesk) (requests : List WorkRequest) (request : WorkRequest) :
    desk.serveAll (requests ++ [request]) = (desk.serveAll requests).serve request := List.foldl_append

variable (requests : List WorkRequest) (desk : WorkDesk)

/-- A work list answers every question out of what it was asked and answered. -/
structure Reflects : Prop where
  asked : desk.log.map Prod.fst = requests
  /-- The set of waiting pointers and the queue of them agree. -/
  mem_waiting : ∀ p, p ∈ desk.work.waiting ↔ p ∈ desk.work.pointers.toList
  once : desk.work.pointers.toList.Nodup
  /-- Pointers are handed out in the order in which they were accepted, and the others wait. -/
  pointers : handedOut desk.log ++ desk.work.pointers.toList = accepted desk.log
  /-- A pointer was handed out as often as it was accepted, but for the one time for which it still waits. -/
  count_accepted : ∀ p, (accepted desk.log).count p =
    (handedOut desk.log).count p + if p ∈ desk.work.waiting then 1 else 0
  /-- A pointer is accepted unless it waits. -/
  pushPointer : ∀ p, (desk.work.pushPointer p).2 = true ↔ p ∉ desk.work.pointers.toList
  popPointer? : desk.work.popPointer?.map Prod.fst = desk.work.pointers.toList.head?
  /-- Who goes on popping gets all pointers that wait. -/
  popPointers : ∀ n, handedOut (desk.serveAll (List.replicate n .popPointer)).log =
    handedOut desk.log ++ desk.work.pointers.toList.take n
  /-- Call edges are popped in the order in which they were pushed, each as often as it was pushed. -/
  callEdges : popped desk.log ++ desk.work.queuedCalls = pushed requests
  popCallEdge? : desk.work.popCallEdge?.1 = desk.work.queuedCalls.head?
  /-- So it is with call edges, and those that are popped at once are the ones that wait longest. -/
  popCallEdges : ∀ n, (desk.work.popCallEdges n).1 = desk.work.queuedCalls.take n ∧
    popped (desk.serveAll (List.replicate n .popCallEdge)).log =
      popped desk.log ++ desk.work.queuedCalls.take n
  hasPointers : desk.work.hasPointers = desk.work.popPointer?.isSome
  hasCallEdges : desk.work.hasCallEdges = desk.work.popCallEdge?.1.isSome
  isEmpty : desk.work.isEmpty = true ↔ desk.work.popPointer? = none ∧ desk.work.popCallEdge?.1 = none
  /-- Call edges are counted when they are pushed, and popping them does not matter. -/
  pushedCallEdges : desk.work.pushedCallEdges = (pushed requests).length

/-- The queues of a work list take no notice of each other. -/
structure Parted : Prop where
  /-- A request leaves the queue alone that it is not about. -/
  untouched : ∀ (request : WorkRequest) (queue : WorkQueue), request.queue ≠ queue →
    (request.perform desk.work).AgreesOn queue desk.work
  /-- Each queue stands as if nothing had been asked of the other one. -/
  state : ∀ queue, desk.work.AgreesOn queue (opening.serveAll (requests.filter (·.queue = queue))).work
  log : ∀ queue, desk.log.filter (·.1.queue = queue) =
    (opening.serveAll (requests.filter (·.queue = queue))).log

/-- A queue of some kind that is pushed the same call edges and has one reader, who reads on whenever one is
popped. -/
def callRoom (Q : Type) {C : Type} [ReadableQueue Q C ContextCallEdge] :
    ReadingRoom Q C Unit ContextCallEdge :=
  ReadingRoom.opening.serveAll (requests.filterMap WorkRequest.reading?)

/-- A queue in chunks, read through a cursor, gives the same answers about call edges. -/
structure InChunks : Prop where
  log : (callRoom requests (ChunkedQueue ContextCallEdge)).log = desk.log.filterMap told?
  next : let room := callRoom requests (ChunkedQueue ContextCallEdge)
    ((room.places ()).next room.queue).1 = desk.work.popCallEdge?.1
  hasNext : let room := callRoom requests (ChunkedQueue ContextCallEdge)
    (room.places ()).hasNext room.queue = desk.work.hasCallEdges
  length : (callRoom requests (ChunkedQueue ContextCallEdge)).queue.length = desk.work.pushedCallEdges

variable {requests desk}

/-! ### One request -/

section Step

variable {w w' : WorkList} {request : WorkRequest}

theorem perform_spares_callEdges (about : request.queue = .pointers) :
    (request.perform w).callEdges = w.callEdges ∧ (request.perform w).bookmark = w.bookmark := by
  cases request with
  | pushPointer p => exact ⟨w.callEdges_pushPointer p, w.bookmark_pushPointer p⟩
  | popPointer =>
    rw [WorkRequest.perform]
    cases next : w.popPointer? with
    | none => exact ⟨rfl, rfl⟩
    | some next' => exact (WorkList.popPointer?_eq_some next).2
  | pushCallEdge _ | popCallEdge => cases about

theorem perform_spares_pointers (about : request.queue = .callEdges) :
    (request.perform w).pointers = w.pointers ∧ (request.perform w).waiting = w.waiting := by
  cases request with
  | pushPointer _ | popPointer => cases about
  | pushCallEdge _ | popCallEdge => exact ⟨rfl, rfl⟩

theorem perform_untouched {queue : WorkQueue} (other : request.queue ≠ queue) :
    (request.perform w).AgreesOn queue w := by
  cases queue with
  | pointers =>
    cases about : request.queue with
    | pointers => exact absurd about other
    | callEdges => exact perform_spares_pointers about
  | callEdges =>
    cases about : request.queue with
    | pointers => exact perform_spares_callEdges about
    | callEdges => exact absurd about other

/-- What is answered and what becomes of a queue depends on nothing but that queue. -/
theorem perform_congr (same : w.AgreesOn request.queue w') : request.answer w = request.answer w' ∧
    (request.perform w).AgreesOn request.queue (request.perform w') := by
  cases request with
  | pushPointer p => exact (same.pushPointer p).imp_left (congrArg WorkAnswer.accepted)
  | popPointer => exact same.popPointer?.imp_left (congrArg WorkAnswer.pointer)
  | pushCallEdge e => exact ⟨rfl, same.pushCallEdge e⟩
  | popCallEdge => exact same.popCallEdge?.imp_left (congrArg WorkAnswer.callEdge)

variable (w)

/-- Popping takes the first pointer off those that wait. -/
theorem pop_pointers : (handedOut? (.popPointer, WorkRequest.popPointer.answer w)).toList =
      w.pointers.toList.take 1 ∧
    (WorkRequest.popPointer.perform w).pointers.toList = w.pointers.toList.drop 1 := by
  refine ⟨?_, ?_⟩
  · rw [List.take_one, ← w.popPointer?_fst]
    rfl
  · rw [WorkRequest.perform]
    cases next : w.popPointer? with
    | none =>
      rw [WorkList.popPointer?_eq_none next, List.drop_nil]
      exact WorkList.popPointer?_eq_none next
    | some next' =>
      rw [(WorkList.popPointer?_eq_some next).1]
      rfl

theorem pop_callEdges : (popped? (.popCallEdge, WorkRequest.popCallEdge.answer w)).toList =
      w.queuedCalls.take 1 ∧
    (WorkRequest.popCallEdge.perform w).queuedCalls = w.queuedCalls.drop 1 := by
  refine ⟨?_, ?_⟩
  · rw [List.take_one, ← w.popCallEdge?_fst]
    rfl
  · rw [List.drop_one]
    exact w.queuedCalls_popCallEdge?

variable (request)

/-- What is handed out comes off the front of the pointers that wait, what is accepted goes to their end. -/
theorem pointers_perform :
    (handedOut? (request, request.answer w)).toList ++ (request.perform w).pointers.toList =
      w.pointers.toList ++ (accepted? (request, request.answer w)).toList := by
  cases request with
  | pushPointer p =>
    by_cases known : p ∈ w.waiting
    · rw [WorkRequest.answer, WorkRequest.perform, WorkList.pushPointer_of_waiting known]
      exact (List.append_nil _).symm
    · obtain ⟨new, pointers, _⟩ := WorkList.pushPointer_of_not_waiting known
      rw [WorkRequest.answer, WorkRequest.perform, new, pointers, Fifo.toList_push]
      rfl
  | popPointer =>
    obtain ⟨out, left⟩ := pop_pointers w
    rw [out, left, List.take_append_drop]
    exact (List.append_nil _).symm
  | pushCallEdge _ | popCallEdge => exact (List.append_nil _).symm

theorem queuedCalls_perform :
    (popped? (request, request.answer w)).toList ++ (request.perform w).queuedCalls =
      w.queuedCalls ++ request.pushed?.toList := by
  have spared (about : request.queue = .pointers) := perform_spares_callEdges (w := w) about
  cases request with
  | pushPointer _ | popPointer =>
    rw [WorkList.queuedCalls, (spared rfl).1, (spared rfl).2]
    exact (List.append_nil _).symm
  | pushCallEdge e => exact w.queuedCalls_pushCallEdge e
  | popCallEdge =>
    obtain ⟨out, left⟩ := pop_callEdges w
    rw [out, left, List.take_append_drop]
    exact (List.append_nil _).symm

theorem callEdges_perform :
    (request.perform w).callEdges.toList = w.callEdges.toList ++ request.pushed?.toList := by
  have spared (about : request.queue = .pointers) := perform_spares_callEdges (w := w) about
  cases request with
  | pushPointer _ | popPointer =>
    rw [(spared rfl).1]
    exact (List.append_nil _).symm
  | pushCallEdge e => exact w.callEdges.toList_push e
  | popCallEdge => exact (List.append_nil _).symm

end Step

/-! ### Histories -/

/-- What a history leaves in the queues of a work list. -/
structure Holds (requests : List WorkRequest) (desk : WorkDesk) : Prop where
  asked : desk.log.map Prod.fst = requests
  pointers : handedOut desk.log ++ desk.work.pointers.toList = accepted desk.log
  callEdges : popped desk.log ++ desk.work.queuedCalls = pushed requests
  listed : desk.work.callEdges.toList = pushed requests

/-- A queue out of which all has come that went in, but for what is left, stays so. -/
private theorem carry_on {α : Type} {went waits came out left added : List α} (all : went ++ waits = came)
    (step : out ++ left = waits ++ added) : (went ++ out) ++ left = came ++ added := by
  rw [List.append_assoc, step, ← List.append_assoc, all]

theorem Holds.serve (holds : Holds requests desk) (request : WorkRequest) :
    Holds (requests ++ [request]) (desk.serve request) where
  asked := by
    rw [WorkDesk.serve, List.map_append, holds.asked]
    rfl
  pointers := by
    rw [handedOut, accepted, WorkDesk.serve, filterMap_concat, filterMap_concat]
    exact carry_on holds.pointers (pointers_perform desk.work request)
  callEdges := by
    rw [popped, pushed, WorkDesk.serve, filterMap_concat, filterMap_concat]
    exact carry_on holds.callEdges (queuedCalls_perform desk.work request)
  listed := by
    rw [pushed, filterMap_concat, ← pushed, ← holds.listed]
    exact callEdges_perform desk.work request

theorem holds_serveAll (requests : List WorkRequest) : Holds requests (opening.serveAll requests) := by
  induction requests using List.reverseRecOn with
  | nil => exact ⟨rfl, rfl, rfl, rfl⟩
  | append_singleton requests request ih =>
    rw [serveAll_concat]
    exact ih.serve request

/-- Who goes on making a request that takes the first of what waits gets all of that in turn. -/
theorem filterMap_log_replicate {α : Type} {request : WorkRequest} {pick : WorkRequest × WorkAnswer → Option α}
    {waits : WorkList → List α} (pops : ∀ w, (pick (request, request.answer w)).toList = (waits w).take 1 ∧
      waits (request.perform w) = (waits w).drop 1) (desk : WorkDesk) (n : Nat) :
    (desk.serveAll (List.replicate n request)).log.filterMap pick =
      desk.log.filterMap pick ++ (waits desk.work).take n := by
  induction n generalizing desk with
  | zero => exact (List.append_nil _).symm
  | succ n ih =>
    obtain ⟨out, left⟩ := pops desk.work
    have first : (desk.serve request).log.filterMap pick =
        desk.log.filterMap pick ++ (waits desk.work).take 1 := by
      rw [serve, filterMap_concat, out]
    rw [List.replicate_succ, serveAll, List.foldl_cons, Nat.add_comm n, List.take_add, ← left,
      ← List.append_assoc, ← first]
    exact ih (desk.serve request)

/-- A history leaves in a queue what its requests to that queue leave there, and they are answered the same. -/
theorem alone (requests : List WorkRequest) (queue : WorkQueue) :
    (opening.serveAll requests).work.AgreesOn queue
        (opening.serveAll (requests.filter (·.queue = queue))).work ∧
      (opening.serveAll requests).log.filter (·.1.queue = queue) =
        (opening.serveAll (requests.filter (·.queue = queue))).log := by
  induction requests using List.reverseRecOn with
  | nil => exact ⟨.refl _, rfl⟩
  | append_singleton requests request ih =>
    obtain ⟨same, told⟩ := ih
    rw [List.filter_append, serveAll_concat, serve, List.filter_append, told, List.filter_singleton,
      List.filter_singleton]
    by_cases about : request.queue = queue
    · -- The request is made of both work lists, which hold the same in the queue that it is about.
      subst about
      obtain ⟨answer, after⟩ := perform_congr same
      simp only [decide_true, cond_true, serveAll_concat, answer]
      exact ⟨after, rfl⟩
    · -- The request is about the other queue, so it is left out and nothing happens here.
      simp only [about, decide_false, cond_false, List.append_nil]
      exact ⟨(perform_untouched about).trans same, trivial⟩

/-! ### Chunks -/

/-- A journal with one reader is the queue of call edges of a work list. -/
structure Mirrors (desk : WorkDesk)
    (room : ReadingRoom (Journal ContextCallEdge) Bookmark Unit ContextCallEdge) : Prop where
  queue : room.queue = desk.work.callEdges
  place : room.places () = desk.work.bookmark
  log : room.log = desk.log.filterMap told?

theorem Mirrors.serve {room : ReadingRoom (Journal ContextCallEdge) Bookmark Unit ContextCallEdge}
    (mirrors : Mirrors desk room) (request : WorkRequest) :
    Mirrors (desk.serve request) (room.serveAll request.reading?.toList) := by
  have told : (desk.serve request).log.filterMap told? =
      room.log ++ (told? (request, request.answer desk.work)).toList := by
    rw [WorkDesk.serve, filterMap_concat, mirrors.log]
  have spared (about : request.queue = .pointers) := perform_spares_callEdges (w := desk.work) about
  cases request with
  | pushPointer _ | popPointer =>
    refine ⟨mirrors.queue.trans (spared rfl).1.symm, mirrors.place.trans (spared rfl).2.symm, ?_⟩
    exact (told.trans (List.append_nil _)).symm
  | pushCallEdge e => exact ⟨congrArg (·.push e) mirrors.queue, mirrors.place, told.symm⟩
  | popCallEdge =>
    have read : (room.places ()).next room.queue = desk.work.bookmark.next desk.work.callEdges := by
      rw [mirrors.queue, mirrors.place]
    have found := congrArg Prod.fst read
    refine ⟨mirrors.queue, congrArg Prod.snd read, Eq.trans ?_ told.symm⟩
    exact congrArg (fun found => room.log ++ [(.next (), .entry found)]) found

theorem mirrors_callRoom (requests : List WorkRequest) :
    Mirrors (opening.serveAll requests) (callRoom requests (Journal ContextCallEdge)) := by
  induction requests using List.reverseRecOn with
  | nil => exact ⟨rfl, rfl, rfl⟩
  | append_singleton requests request ih =>
    rw [callRoom, filterMap_concat, serveAll_concat, ReadingRoom.serveAll, List.foldl_append]
    exact ih.serve request

/-- Readers who have been told the same are given the same answers, however their queues are stored. -/
theorem inChunks (requests : List WorkRequest) : InChunks requests (opening.serveAll requests) := by
  have mirrors := mirrors_callRoom requests
  have chunks : ReadingRoom.Keeps _ (callRoom requests (ChunkedQueue ContextCallEdge)) :=
    ReadingRoom.keeps_serveAll _
  have journal : ReadingRoom.Keeps _ (callRoom requests (Journal ContextCallEdge)) :=
    ReadingRoom.keeps_serveAll _
  have log := ReadingRoom.log_eq (ChunkedQueue ContextCallEdge) (Journal ContextCallEdge)
    (requests.filterMap WorkRequest.reading?)
  have next := QueueAnswer.entry.inj (ReadingRoom.answer_eq chunks journal log (.next ()))
  have hasNext := QueueAnswer.more.inj (ReadingRoom.answer_eq chunks journal log (.hasNext ()))
  have length := chunks.delivers.length.trans journal.delivers.length.symm
  rw [mirrors.queue, mirrors.place] at next hasNext
  rw [mirrors.queue] at length
  exact ⟨log.trans mirrors.log, next, hasNext, length⟩

/-! ### Answers -/

theorem Holds.reflects (holds : Holds requests desk) : Reflects requests desk where
  asked := holds.asked
  mem_waiting := desk.work.mem_waiting
  once := desk.work.nodup
  pointers := holds.pointers
  count_accepted p := by
    rw [← holds.pointers, List.count_append, desk.work.nodup.count]
    simp only [desk.work.mem_waiting]
  pushPointer p := by rw [WorkList.pushPointer_snd_iff, desk.work.mem_waiting]
  popPointer? := desk.work.popPointer?_fst
  popPointers := filterMap_log_replicate pop_pointers desk
  callEdges := holds.callEdges
  popCallEdge? := desk.work.popCallEdge?_fst
  popCallEdges n := ⟨desk.work.popCallEdges_fst n, filterMap_log_replicate pop_callEdges desk n⟩
  hasPointers := desk.work.hasPointers_eq
  hasCallEdges := desk.work.hasCallEdges_eq
  isEmpty := WorkList.isEmpty_iff
  pushedCallEdges := by
    rw [← holds.listed, Journal.length_toList]
    rfl

theorem parted (requests : List WorkRequest) : Parted requests (opening.serveAll requests) where
  untouched _ _ := perform_untouched
  state queue := (alone requests queue).1
  log queue := (alone requests queue).2

/-- A work list under any history of pushes and pops lets each pointer wait once at most, hands pointers out in the
order in which it accepted them and call edges, repeated ones too, in the order in which they were pushed, and
knows what it could hand out. The two queues know nothing of each other, and the call edges might as well lie
in chunks that are read through a cursor. -/
theorem work_lists_reflect_histories (requests : List WorkRequest) :
    Reflects requests (opening.serveAll requests) ∧ Parted requests (opening.serveAll requests) ∧
      InChunks requests (opening.serveAll requests) :=
  ⟨(holds_serveAll requests).reflects, parted requests, inChunks requests⟩

/-- A pointer waits once, and once more when it has been handed out. -/
example :
    let requests : List WorkRequest := [.pushPointer ⟨0⟩, .pushPointer ⟨1⟩, .pushPointer ⟨0⟩, .popPointer,
      .pushPointer ⟨0⟩, .popPointer, .popPointer, .popPointer]
    (opening.serveAll requests).log.map Prod.snd = [.accepted true, .accepted true, .accepted false,
      .pointer (some ⟨0⟩), .accepted true, .pointer (some ⟨1⟩), .pointer (some ⟨0⟩), .pointer none] := by
  decide

end WorkDesk

end PointerAnalysis
