import Mathlib.Data.List.Induction
import PointerAnalysis.Proofs.Families
import PointerAnalysis.Proofs.Lists
import PointerAnalysis.Queue.Chunked
import PointerAnalysis.Queue.Journal

/-! Readers of a queue that only grows. Any number of them come and go, begin at the first entry or where
another one stands, and read while entries are pushed. What a reader is told is written down, and from
that alone its account follows: how many entries it left out when it began and which it was given since.
A queue in chunks tells its readers the same as a journal does, at the ends of chunks too. -/
namespace PointerAnalysis

/-- Queues that only grow, with places to read on from. -/
class ReadableQueue (Q : Type) (C α : outParam Type) where
  empty : Q
  push : Q → α → Q
  toList : Q → List α
  length : Q → Nat
  isEmpty : Q → Bool
  start : C
  /-- The next entry, if there is one yet, and the place to go on from. -/
  next : C → Q → Option α × C
  hasNext : C → Q → Bool
  /-- How many entries lie before a place. -/
  passed : C → Nat

open ReadableQueue (empty push toList start next hasNext passed)

class LawfulReadableQueue (Q : Type) {C α : outParam Type} [ReadableQueue Q C α] : Prop where
  toList_empty : toList (empty : Q) = []
  toList_push : ∀ (q : Q) (a : α), toList (push q a) = toList q ++ [a]
  length_eq : ∀ q : Q, ReadableQueue.length q = (toList q).length
  isEmpty_iff : ∀ q : Q, ReadableQueue.isEmpty q = true ↔ toList q = []
  passed_start : passed Q (start Q) = 0
  next_fst : ∀ (c : C) (q : Q), (next c q).1 = (toList q)[passed Q c]?
  passed_next : ∀ (c : C) (q : Q), passed Q (next c q).2 = passed Q c + (next c q).1.toList.length
  hasNext_iff : ∀ (c : C) (q : Q), hasNext c q = true ↔ passed Q c < (toList q).length

variable {Q C R α : Type}

instance : ReadableQueue (ChunkedQueue α) Cursor α where
  empty := ChunkedQueue.empty
  push := ChunkedQueue.push
  toList := ChunkedQueue.toList
  length := ChunkedQueue.length
  isEmpty := ChunkedQueue.isEmpty
  start := Cursor.start
  next := Cursor.next
  hasNext := Cursor.hasNext
  passed := Cursor.passed

instance : ReadableQueue (Journal α) Bookmark α where
  empty := Journal.empty
  push := Journal.push
  toList := Journal.toList
  length := Journal.length
  isEmpty := Journal.isEmpty
  start := Bookmark.start
  next := Bookmark.next
  hasNext := Bookmark.hasNext
  passed := Bookmark.passed

instance : LawfulReadableQueue (ChunkedQueue α) where
  toList_empty := rfl
  toList_push := ChunkedQueue.toList_push
  length_eq q := q.length_eq
  isEmpty_iff q := by
    show decide (q.length = 0) = true ↔ q.toList = []
    rw [decide_eq_true_iff, ← List.length_eq_zero_iff, q.length_toList]
  passed_start := rfl
  next_fst := Cursor.next_fst
  passed_next := Cursor.passed_next
  hasNext_iff c q := by
    show decide (c.passed < q.length) = true ↔ c.passed < q.toList.length
    rw [decide_eq_true_iff, q.length_toList]

instance : LawfulReadableQueue (Journal α) where
  toList_empty := rfl
  toList_push := Journal.toList_push
  length_eq j := j.length_toList.symm
  isEmpty_iff j := by
    show j.entries.isEmpty = true ↔ j.entries.toList = []
    rw [Array.isEmpty_iff, Array.toList_eq_nil_iff]
  passed_start := rfl
  next_fst b j := by
    show (b.next j).1 = j.entries.toList[b.passed]?
    rw [Array.getElem?_toList, Bookmark.next]
    split
    · next found => exact found.symm
    · next nothing => exact nothing.symm
  passed_next b j := by
    show (b.next j).2.passed = b.passed + (b.next j).1.toList.length
    unfold Bookmark.next
    split <;> rfl
  hasNext_iff b j := by
    show decide (b.passed < j.length) = true ↔ b.passed < j.toList.length
    rw [decide_eq_true_iff, j.length_toList]

/-- What can be asked of a queue with readers. -/
inductive QueueRequest (R α : Type) where
  | push (a : α)
  /-- A reader begins before the first entry. -/
  | start (r : R)
  /-- A reader begins where another one is, and leaves its own place. -/
  | copy (r s : R)
  | next (r : R)
  | hasNext (r : R)

inductive QueueAnswer (α : Type) where
  | done
  | entry (found : Option α)
  | more (there : Bool)

/-- The entry that a request pushes. -/
def QueueRequest.pushed? : QueueRequest R α → Option α
  | push a => some a
  | start _ | copy .. | next _ | hasNext _ => none

/-- The entries that a history of requests pushes. -/
def pushedBy (requests : List (QueueRequest R α)) : List α := requests.filterMap QueueRequest.pushed?

theorem pushedBy_concat (requests : List (QueueRequest R α)) (request : QueueRequest R α) :
    pushedBy (requests ++ [request]) = pushedBy requests ++ request.pushed?.toList :=
  filterMap_concat QueueRequest.pushed? requests request

/-- What pushes nothing leaves nothing more to read. -/
theorem pushedBy_concat_of_none {requests : List (QueueRequest R α)} {request : QueueRequest R α}
    (nothing : request.pushed? = none) : pushedBy (requests ++ [request]) = pushedBy requests := by
  rw [pushedBy_concat, nothing, Option.toList_none, List.append_nil]

/-! ### Accounts -/

/-- How many entries a reader left out when it began, and which it has been given since. -/
structure Account (α : Type) where
  skipped : Nat
  returned : List α

namespace Account

/-- How many entries a reader has been given or has left out. -/
def position (account : Account α) : Nat := account.skipped + account.returned.length

/-- The account with one entry more that was given. -/
def give (account : Account α) (a : α) : Account α := { account with returned := account.returned ++ [a] }

theorem position_give (account : Account α) (a : α) : (account.give a).position = account.position + 1 := by
  rw [position, position, give, List.length_append, List.length_singleton, Nat.add_assoc]

/-- What one more request and its answer say about the accounts. -/
def note [DecidableEq R] (accounts : R → Account α) : QueueRequest R α × QueueAnswer α → R → Account α
  | (.start r, _) => Function.update accounts r ⟨0, []⟩
  | (.copy r s, _) => Function.update accounts r ⟨(accounts s).position, []⟩
  | (.next r, .entry (some a)) => Function.update accounts r ((accounts r).give a)
  | _ => accounts

/-- The accounts of all readers, out of what they have been told. -/
def ofLog [DecidableEq R] (log : List (QueueRequest R α × QueueAnswer α)) : R → Account α :=
  log.foldl note fun _ => ⟨0, []⟩

/-- An account is right about a reader that has passed so many of these entries: it has been given what comes
after those that it left out, without gap or repetition. -/
structure Tallies (pushed : List α) (account : Account α) (passed : Nat) : Prop where
  position : passed = account.position
  behind : account.position ≤ pushed.length
  returned : account.returned <+: pushed.drop account.skipped

namespace Tallies

variable {pushed : List α} {account : Account α} {n : Nat}

/-- A reader that begins has been given nothing yet. -/
theorem fresh (behind : n ≤ pushed.length) : Tallies pushed ⟨n, []⟩ n :=
  ⟨rfl, behind, List.nil_prefix⟩

theorem push (tallies : Tallies pushed account n) (a : α) : Tallies (pushed ++ [a]) account n where
  position := tallies.position
  behind := by
    rw [List.length_append]
    exact Nat.le_add_right_of_le tallies.behind
  returned := by
    rw [List.drop_append_of_le_length (Nat.le_of_add_right_le tallies.behind)]
    exact tallies.returned.trans (List.prefix_append _ _)

/-- The entry behind those that a reader has passed goes on the account. -/
theorem give (tallies : Tallies pushed account n) {a : α} (here : pushed[n]? = some a) :
    Tallies pushed (account.give a) (n + 1) := by
  rw [tallies.position] at here ⊢
  refine ⟨(position_give account a).symm, ?_, ?_⟩
  · rw [position_give]
    exact (List.getElem?_eq_some_iff.mp here).1
  · have ahead : (pushed.drop account.skipped)[account.returned.length]? = some a := by
      rwa [List.getElem?_drop]
    have begun := List.prefix_iff_eq_take.mp tallies.returned
    rw [Account.give, List.prefix_iff_eq_take, List.length_append, List.length_singleton, List.take_add_one,
      ahead, ← begun]
    rfl

end Tallies

end Account

open Account (Tallies)

/-! ### Requests -/

/-- A queue with its readers, and what they have asked and have been told. -/
structure ReadingRoom (Q C R α : Type) where
  queue : Q
  places : R → C
  log : List (QueueRequest R α × QueueAnswer α)

namespace ReadingRoom

variable [ReadableQueue Q C α] [DecidableEq R] (room : ReadingRoom Q C R α)

def opening : ReadingRoom Q C R α := ⟨empty, fun _ => start Q, []⟩

def answer : QueueRequest R α → QueueAnswer α
  | .push _ | .start _ | .copy .. => .done
  | .next r => .entry (next (room.places r) room.queue).1
  | .hasNext r => .more (hasNext (room.places r) room.queue)

def queueAfter : QueueRequest R α → Q
  | .push a => push room.queue a
  | .start _ | .copy .. | .next _ | .hasNext _ => room.queue

def placesAfter : QueueRequest R α → R → C
  | .push _ | .hasNext _ => room.places
  | .start r => Function.update room.places r (start Q)
  | .copy r s => Function.update room.places r (room.places s)
  | .next r => Function.update room.places r (next (room.places r) room.queue).2

def serve (request : QueueRequest R α) : ReadingRoom Q C R α where
  queue := room.queueAfter request
  places := room.placesAfter request
  log := room.log ++ [(request, room.answer request)]

/-- A room in which these requests are served in turn. -/
def serveAll (requests : List (QueueRequest R α)) : ReadingRoom Q C R α := requests.foldl serve room

def account (r : R) : Account α := Account.ofLog room.log r

variable {requests : List (QueueRequest R α)}

/-- The readers of a queue are given what these requests push, in order. -/
structure Delivers (requests : List (QueueRequest R α)) (room : ReadingRoom Q C R α) : Prop where
  asked : room.log.map Prod.fst = requests
  listed : toList room.queue = pushedBy requests
  length : ReadableQueue.length room.queue = (pushedBy requests).length
  isEmpty : ReadableQueue.isEmpty room.queue = true ↔ pushedBy requests = []
  /-- A reader has been given what was pushed from its beginning on, without gap or repetition. -/
  returned : ∀ r, (room.account r).returned <+: (pushedBy requests).drop (room.account r).skipped
  /-- A reader is given nothing only if it has been given or has left out all that was pushed so far. -/
  next_eq_none : ∀ r, (next (room.places r) room.queue).1 = none ↔
    (room.account r).position = (pushedBy requests).length
  hasNext : ∀ r, hasNext (room.places r) room.queue = (next (room.places r) room.queue).1.isSome
  /-- A reader that goes on reading is given all that lies ahead. -/
  reads_on : ∀ r n, ((room.serveAll (List.replicate n (.next r))).account r).returned =
    (room.account r).returned ++ ((pushedBy requests).drop (room.account r).position).take n

/-- The accounts say where the readers of a queue are. -/
structure Keeps (requests : List (QueueRequest R α)) (room : ReadingRoom Q C R α) : Prop where
  asked : room.log.map Prod.fst = requests
  listed : toList room.queue = pushedBy requests
  tallies : ∀ r, Tallies (pushedBy requests) (room.account r) (passed Q (room.places r))

theorem account_serve (request : QueueRequest R α) :
    (room.serve request).account = Account.note room.account (request, room.answer request) := by
  unfold account serve Account.ofLog
  rw [List.foldl_append]
  rfl

variable {room} [LawfulReadableQueue Q]

namespace Keeps

theorem opening : Keeps [] (ReadingRoom.opening : ReadingRoom Q C R α) where
  asked := rfl
  listed := LawfulReadableQueue.toList_empty
  tallies _ := by
    show Tallies _ _ (passed Q (start Q))
    rw [LawfulReadableQueue.passed_start]
    exact .fresh (Nat.zero_le _)

variable (keeps : Keeps requests room)
include keeps

theorem next_fst (r : R) : (next (room.places r) room.queue).1 =
    (pushedBy requests)[passed Q (room.places r)]? := by
  rw [LawfulReadableQueue.next_fst, keeps.listed]

omit [LawfulReadableQueue Q] in
/-- Where one reader gets a new place and a new account, the accounts of the others stay right. -/
private theorem tallies_update {s : R} {account : Account α} {c : C}
    (new : Tallies (pushedBy requests) account (passed Q c)) (r : R) :
    Tallies (pushedBy requests) (Function.update room.account s account r)
      (passed Q (Function.update room.places s c r)) :=
  let Tallied (account : Account α) (c : C) := Tallies (pushedBy requests) account (passed Q c)
  have tallied (r : R) : Tallied (room.account r) (room.places r) := keeps.tallies r
  Family.update_related tallied new r

theorem tallies_serve (request : QueueRequest R α) (r : R) :
    Tallies (pushedBy (requests ++ [request])) ((room.serve request).account r)
      (passed Q (room.placesAfter request r)) := by
  have here (s : R) := keeps.tallies s
  rw [account_serve]
  cases request with
  | push a =>
    rw [pushedBy_concat]
    exact (here r).push a
  | hasNext s =>
    rw [pushedBy_concat_of_none rfl]
    exact here r
  | start s =>
    rw [pushedBy_concat_of_none rfl]
    refine keeps.tallies_update ?_ r
    rw [LawfulReadableQueue.passed_start]
    exact .fresh (Nat.zero_le _)
  | copy s t =>
    rw [pushedBy_concat_of_none rfl]
    refine keeps.tallies_update ?_ r
    rw [(here t).position]
    exact .fresh (here t).behind
  | next s =>
    rw [pushedBy_concat_of_none rfl, answer, placesAfter]
    have step := LawfulReadableQueue.passed_next (room.places s) room.queue
    cases found : (next (room.places s) room.queue).1 with
    | none =>
      rw [found] at step
      have same : Account.note room.account (.next s, .entry none) =
          Function.update room.account s (room.account s) := (Function.update_eq_self s _).symm
      rw [same]
      refine keeps.tallies_update ?_ r
      rw [step]
      exact here s
    | some a =>
      rw [found] at step
      refine keeps.tallies_update ?_ r
      rw [step]
      exact (here s).give (keeps.next_fst s ▸ found)

theorem serve (request : QueueRequest R α) : Keeps (requests ++ [request]) (room.serve request) where
  asked := by
    rw [ReadingRoom.serve, List.map_append, keeps.asked]
    rfl
  listed := by
    rw [pushedBy_concat, ← keeps.listed]
    cases request with
    | push a => exact LawfulReadableQueue.toList_push room.queue a
    | start _ | copy _ _ | next _ | hasNext _ => exact (List.append_nil _).symm
  tallies := keeps.tallies_serve request

theorem serveAll (more : List (QueueRequest R α)) : Keeps (requests ++ more) (room.serveAll more) := by
  induction more using List.reverseRecOn with
  | nil => rwa [List.append_nil]
  | append_singleton more request ih =>
    rw [← List.append_assoc, ReadingRoom.serveAll, List.foldl_append]
    exact ih.serve request

/-- What is returned next is the first of the entries that a reader has not passed. -/
private theorem next_ahead (r : R) : (next (room.places r) room.queue).1 =
    ((pushedBy requests).drop (room.account r).position).head? := by
  rw [keeps.next_fst, List.head?_drop, (keeps.tallies r).position]

/-- Reading puts the entry ahead on the account, if there is one. -/
theorem account_next (r : R) : (room.serve (.next r)).account r =
    (((pushedBy requests).drop (room.account r).position).head?.elim (room.account r)
      (room.account r).give) := by
  rw [account_serve, answer, keeps.next_ahead]
  cases ((pushedBy requests).drop (room.account r).position).head? with
  | none => rfl
  | some a => exact Function.update_self ..

/-- Reading on puts all that is ahead on the account. -/
theorem returned_reads (r : R) (n : Nat) :
    ((room.serveAll (List.replicate n (.next r))).account r).returned =
      (room.account r).returned ++ ((pushedBy requests).drop (room.account r).position).take n := by
  induction n generalizing room requests with
  | zero => exact (List.append_nil _).symm
  | succ n ih =>
    have first := keeps.account_next r
    have rest := ih (keeps.serve (.next r))
    rw [pushedBy_concat_of_none rfl] at rest
    rw [List.replicate_succ]
    refine rest.trans ?_
    cases ahead : (pushedBy requests).drop (room.account r).position with
    | nil =>
      rw [first, ahead, List.head?_nil, Option.elim_none, ahead, List.take_nil, List.take_nil]
    | cons a others =>
      rw [first, ahead, List.head?_cons, Option.elim_some, Account.position_give, ← List.tail_drop, ahead,
        List.tail_cons, List.take_succ_cons, Account.give, List.append_assoc, List.singleton_append]

theorem delivers : Delivers requests room where
  asked := keeps.asked
  listed := keeps.listed
  length := by rw [LawfulReadableQueue.length_eq, keeps.listed]
  isEmpty := by rw [LawfulReadableQueue.isEmpty_iff, keeps.listed]
  returned r := (keeps.tallies r).returned
  next_eq_none r := by
    rw [keeps.next_fst, List.getElem?_eq_none_iff, (keeps.tallies r).position]
    exact ⟨fun all => Nat.le_antisymm (keeps.tallies r).behind all, fun all => Nat.le_of_eq all.symm⟩
  hasNext r := by
    rw [Bool.eq_iff_iff, LawfulReadableQueue.hasNext_iff, LawfulReadableQueue.next_fst, isSome_getElem?]
  reads_on := keeps.returned_reads

end Keeps

theorem keeps_serveAll (requests : List (QueueRequest R α)) :
    Keeps requests ((opening : ReadingRoom Q C R α).serveAll requests) :=
  Keeps.opening.serveAll requests

/-- Rooms in which the same was asked and told answer alike. -/
theorem answer_eq {Q' C' : Type} [ReadableQueue Q' C' α] [LawfulReadableQueue Q']
    {room' : ReadingRoom Q' C' R α} (keeps : Keeps requests room) (keeps' : Keeps requests room')
    (same : room.log = room'.log) (request : QueueRequest R α) :
    room.answer request = room'.answer request := by
  have places (r : R) : passed Q (room.places r) = passed Q' (room'.places r) := by
    rw [(keeps.tallies r).position, (keeps'.tallies r).position, account, account, same]
  cases request with
  | push _ | start _ | copy _ _ => rfl
  | next r => rw [answer, answer, keeps.next_fst, keeps'.next_fst, places]
  | hasNext r =>
    have told : hasNext (room.places r) room.queue = hasNext (room'.places r) room'.queue := by
      rw [Bool.eq_iff_iff, LawfulReadableQueue.hasNext_iff, LawfulReadableQueue.hasNext_iff,
        keeps.listed, keeps'.listed, places]
    rw [answer, answer, told]

/-- However a queue is stored, its readers are told the same. -/
theorem log_eq (Q Q' : Type) {C C' : Type} [ReadableQueue Q C α] [LawfulReadableQueue Q]
    [ReadableQueue Q' C' α] [LawfulReadableQueue Q'] (requests : List (QueueRequest R α)) :
    ((opening : ReadingRoom Q C R α).serveAll requests).log =
      ((opening : ReadingRoom Q' C' R α).serveAll requests).log := by
  induction requests using List.reverseRecOn with
  | nil => rfl
  | append_singleton requests request ih =>
    have answers := answer_eq (keeps_serveAll requests) (keeps_serveAll requests) ih request
    simp only [serveAll, List.foldl_append, List.foldl_cons, List.foldl_nil, serve] at ih answers ⊢
    rw [ih, answers]

/-- A queue in chunks delivers what is pushed to any number of readers that come, go and read in between, each
entry once and in order from where a reader began, and so does a journal, with the same answers. -/
theorem readers_get_all_in_order (requests : List (QueueRequest R α)) :
    Delivers requests ((opening : ReadingRoom (ChunkedQueue α) Cursor R α).serveAll requests) ∧
      Delivers requests ((opening : ReadingRoom (Journal α) Bookmark R α).serveAll requests) ∧
      ((opening : ReadingRoom (ChunkedQueue α) Cursor R α).serveAll requests).log =
        ((opening : ReadingRoom (Journal α) Bookmark R α).serveAll requests).log :=
  ⟨(keeps_serveAll requests).delivers, (keeps_serveAll requests).delivers, log_eq _ _ requests⟩

/-- A reader that has been given a full chunk and then nothing waits in a chunk that does not exist yet, and is
given the first entry of it. -/
example :
    let requests : List (QueueRequest Nat Nat) :=
      (List.range 60).map .push ++ List.replicate 61 (.next 0) ++ [.push 60]
    let room : ReadingRoom (ChunkedQueue Nat) Cursor Nat Nat := opening.serveAll requests
    (room.places 0).chunk = 1 ∧ ((room.places 0).next room.queue).1 = some 60 := by
  decide +kernel

end ReadingRoom

end PointerAnalysis
