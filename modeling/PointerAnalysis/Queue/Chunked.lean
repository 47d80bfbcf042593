/-! Queues that only grow, kept in chunks of one size, so that an entry never moves once it is there. A
cursor is a place between entries: a chunk and a position in it. Behind the last entry of a chunk it
stays where it is until it is read from again, and turns to the next chunk then, even if there is
nothing yet. In whatever form, a place is known by the number of entries before it. -/
namespace PointerAnalysis

/-- How many entries a chunk can hold. -/
def chunkCapacity : Nat := 60

namespace Chunks

variable {α : Type}

/-- The entries of all chunks in turn. -/
def entries (chunks : Array (Array α)) : List α := chunks.toList.flatMap Array.toList

/-- Puts an entry into the last chunk, or into one more if there is no chunk with room. -/
def push (chunks : Array (Array α)) (a : α) : Array (Array α) :=
  match chunks.back? with
  | some last =>
    if last.size < chunkCapacity then chunks.pop.push (last.push a) else chunks.push #[a]
  | none => chunks.push #[a]

/-- Chunks without gaps: only the last one can have room. -/
structure Packed (chunks : Array (Array α)) : Prop where
  full : ∀ chunk ∈ chunks.toList.dropLast, chunk.size = chunkCapacity
  fits : ∀ chunk ∈ chunks.toList, chunk.size ≤ chunkCapacity

theorem packed_empty : Packed (#[] : Array (Array α)) where
  full := by simp
  fits := by simp

/-- There are no chunks, or there is a last one. -/
private theorem eq_empty_or_push (chunks : Array (Array α)) :
    chunks = #[] ∨ ∃ front last, chunks = Array.push front last :=
  (Classical.em _).imp_right Array.exists_push_of_ne_empty

private theorem push_push (front : Array (Array α)) (last : Array α) (a : α) :
    push (front.push last) a = if last.size < chunkCapacity then front.push (last.push a)
      else (front.push last).push #[a] := by
  simp [push]

theorem entries_push (chunks : Array (Array α)) (a : α) :
    entries (push chunks a) = entries chunks ++ [a] := by
  rcases eq_empty_or_push chunks with rfl | ⟨front, last, rfl⟩
  · simp [push, entries]
  · rw [push_push]
    split <;> simp [entries, List.flatMap_append]

theorem Packed.push {chunks : Array (Array α)} (packed : Packed chunks) (a : α) :
    Packed (push chunks a) := by
  rcases eq_empty_or_push chunks with rfl | ⟨front, last, rfl⟩
  · exact ⟨by simp [Chunks.push], by simp [Chunks.push, chunkCapacity]⟩
  · have fits := packed.fits
    have full := packed.full
    simp only [Array.toList_push, List.dropLast_concat, List.mem_append, List.mem_singleton] at fits full
    rw [push_push]
    split
    · next room =>
      refine ⟨by simpa using full, fun chunk there => ?_⟩
      rw [Array.toList_push, List.mem_append, List.mem_singleton] at there
      rcases there with old | rfl
      · exact fits chunk (.inl old)
      · rw [Array.size_push]
        exact room
    · next filled =>
      -- The chunk that was the last one is full, so it may have another one behind it.
      have size : last.size = chunkCapacity :=
        Nat.le_antisymm (fits last (.inr rfl)) (Nat.le_of_not_lt filled)
      refine ⟨fun chunk there => ?_, fun chunk there => ?_⟩
      · rw [Array.toList_push, List.dropLast_concat, Array.toList_push, List.mem_append,
          List.mem_singleton] at there
        rcases there with old | rfl
        · exact full chunk old
        · exact size
      · simp only [Array.toList_push, List.mem_append, List.mem_singleton] at there
        rcases there with old | rfl
        · exact fits chunk old
        · simp [chunkCapacity]

/-- In a list of chunks without gaps an entry is where division by the capacity says. -/
private theorem getElem?_flatMap {chunks : List (Array α)}
    (full : ∀ chunk ∈ chunks.dropLast, chunk.size = chunkCapacity)
    (fits : ∀ chunk ∈ chunks, chunk.size ≤ chunkCapacity) {i j : Nat} (inside : j < chunkCapacity) :
    (chunks.flatMap Array.toList)[i * chunkCapacity + j]? = chunks[i]?.bind (·[j]?) := by
  induction chunks generalizing i with
  | nil => simp
  | cons chunk more ih =>
    have short := fits chunk List.mem_cons_self
    have whole (another : more ≠ []) : chunk.toList.length = chunkCapacity := by
      obtain ⟨next, others, rfl⟩ := List.exists_cons_of_ne_nil another
      exact full chunk (by simp)
    rw [List.flatMap_cons]
    cases i with
    | zero =>
      rw [Nat.zero_mul, Nat.zero_add, List.getElem?_cons_zero, Option.bind_some,
        ← Array.getElem?_toList]
      by_cases last : more = []
      · rw [last, List.flatMap_nil, List.append_nil]
      · exact List.getElem?_append_left (whole last ▸ inside)
    | succ i =>
      rw [List.getElem?_cons_succ]
      by_cases last : more = []
      · have beyond : chunk.toList.length ≤ (i + 1) * chunkCapacity + j := by
          rw [Array.length_toList, Nat.succ_mul]
          omega
        subst last
        simpa using beyond
      · have place : (i + 1) * chunkCapacity + j - chunk.toList.length = i * chunkCapacity + j := by
          rw [whole last, Nat.succ_mul]
          omega
        rw [List.getElem?_append_right (by rw [whole last, Nat.succ_mul]; omega), place]
        refine ih (fun c there => full c ?_) fun c there => fits c (.tail _ there)
        rw [List.dropLast_cons_of_ne_nil last]
        exact .tail _ there

theorem Packed.getElem?_entries {chunks : Array (Array α)} (packed : Packed chunks) {i j : Nat}
    (inside : j < chunkCapacity) :
    (entries chunks)[i * chunkCapacity + j]? = chunks[i]?.bind (·[j]?) := by
  rw [entries, getElem?_flatMap packed.full packed.fits inside, Array.getElem?_toList]

end Chunks

structure ChunkedQueue (α : Type) where
  chunks : Array (Array α)
  /-- How many entries have ever been pushed. -/
  length : Nat
  packed : Chunks.Packed chunks
  length_eq : length = (Chunks.entries chunks).length

namespace ChunkedQueue

variable {α : Type}

def empty : ChunkedQueue α := ⟨#[], 0, Chunks.packed_empty, rfl⟩

def isEmpty (q : ChunkedQueue α) : Bool := q.length = 0

def push (q : ChunkedQueue α) (a : α) : ChunkedQueue α where
  chunks := Chunks.push q.chunks a
  length := q.length + 1
  packed := q.packed.push a
  length_eq := by rw [Chunks.entries_push, List.length_append, q.length_eq, List.length_singleton]

/-- All entries in the order in which they were pushed. -/
def toList (q : ChunkedQueue α) : List α := Chunks.entries q.chunks

/-- The entry at a position in a chunk. -/
def entry? (q : ChunkedQueue α) (chunk index : Nat) : Option α := q.chunks[chunk]?.bind (·[index]?)

/-- All entries between brackets. -/
def text (q : ChunkedQueue α) (label : α → String) : String :=
  "[" ++ ", ".intercalate (q.toList.map label) ++ "]"

@[simp] theorem toList_empty : (empty : ChunkedQueue α).toList = [] := rfl

@[simp] theorem toList_push (q : ChunkedQueue α) (a : α) : (q.push a).toList = q.toList ++ [a] :=
  Chunks.entries_push q.chunks a

theorem length_toList (q : ChunkedQueue α) : q.toList.length = q.length := q.length_eq.symm

theorem entry?_eq (q : ChunkedQueue α) {chunk index : Nat} (inside : index < chunkCapacity) :
    q.entry? chunk index = q.toList[chunk * chunkCapacity + index]? :=
  (q.packed.getElem?_entries inside).symm

end ChunkedQueue

/-- A place between the entries of a queue. -/
structure Cursor where
  /-- The chunk of the next entry, or the one before it if the position is behind the last entry of that. -/
  chunk : Nat
  index : Nat
  index_le : index ≤ chunkCapacity
  deriving DecidableEq

namespace Cursor

variable {α : Type}

/-- Before the first entry. -/
def start : Cursor := ⟨0, 0, Nat.zero_le _⟩

/-- How many entries lie before a place. -/
def passed (c : Cursor) : Nat := c.chunk * chunkCapacity + c.index

def hasNext (c : Cursor) (q : ChunkedQueue α) : Bool := c.passed < q.length

/-- The same place, but never behind the last entry of a chunk. -/
def turned (c : Cursor) : Cursor :=
  if c.index = chunkCapacity then ⟨c.chunk + 1, 0, Nat.zero_le _⟩ else c

theorem index_turned_lt (c : Cursor) : c.turned.index < chunkCapacity := by
  unfold turned
  split
  · exact (by decide : 0 < chunkCapacity)
  · next inside => exact Nat.lt_of_le_of_ne c.index_le inside

/-- The next entry, if there is one yet, and the place behind it. -/
def next (c : Cursor) (q : ChunkedQueue α) : Option α × Cursor :=
  match q.entry? c.turned.chunk c.turned.index with
  | some a => (some a, ⟨c.turned.chunk, c.turned.index + 1, c.index_turned_lt⟩)
  | none => (none, c.turned)

theorem passed_turned (c : Cursor) : c.turned.passed = c.passed := by
  unfold turned
  split
  · next behind => rw [passed, passed, behind, Nat.succ_mul, Nat.add_zero]
  · rfl

/-- What is returned next depends on nothing but how many entries have been passed. -/
theorem next_fst (c : Cursor) (q : ChunkedQueue α) : (c.next q).1 = q.toList[c.passed]? := by
  have found : (c.next q).1 = q.entry? c.turned.chunk c.turned.index := by
    unfold next
    split
    · next here => exact here.symm
    · next nothing => exact nothing.symm
  rw [found, q.entry?_eq c.index_turned_lt, ← passed_turned, passed]

theorem passed_next (c : Cursor) (q : ChunkedQueue α) :
    (c.next q).2.passed = c.passed + (c.next q).1.toList.length := by
  unfold next
  split
  · rw [← passed_turned c]
    rfl
  · exact passed_turned c

end Cursor

end PointerAnalysis
