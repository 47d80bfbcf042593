import PointerAnalysis.Id

/-! Sets of numbers as bits of 64-bit words. The list of words grows to reach the largest number
ever put in and is shortened by nothing but clearing, so equal sets may differ in length. -/
namespace PointerAnalysis

/-- A set of numbers (`BitVec`); the number `64 * i + b` is in it when bit `b` of word `i` is set. -/
structure WordSet where
  words : Array UInt64
  deriving DecidableEq

namespace WordSet

def empty : WordSet := ⟨#[]⟩

/-- The word that decides about `n`. -/
def wordIndex (n : Nat) : Nat := n / 64

/-- The word in which only the bit of `n` is set. -/
def mask (n : Nat) : UInt64 := 1 <<< (n % 64).toUInt64

/-- A word of the set; behind the end all bits are clear. -/
def word (s : WordSet) (i : Nat) : UInt64 := s.words[i]?.getD 0

/-- Appends clear words up to a length. -/
def grow (s : WordSet) (length : Nat) : WordSet :=
  ⟨s.words ++ Array.replicate (length - s.words.size) 0⟩

def contains (s : WordSet) (n : Nat) : Bool := s.word (wordIndex n) &&& mask n != 0

/-- Adds a number; true if it is new. -/
def insert (s : WordSet) (n : Nat) : WordSet × Bool :=
  let fresh := !s.contains n
  (⟨(s.grow (wordIndex n + 1)).words.modify (wordIndex n) (· ||| mask n)⟩, fresh)

/-- Removes a number; true if it was there. -/
def erase (s : WordSet) (n : Nat) : WordSet × Bool :=
  if s.contains n then (⟨s.words.modify (wordIndex n) (· &&& ~~~mask n)⟩, true) else (s, false)

/-- Whether every bit of `t` is also set in `s`. -/
def superset (s t : WordSet) : Bool :=
  t.words.toList.zipIdx.all fun entry => entry.1 &&& ~~~s.word entry.2 == 0

/-- Adds the members of `t`; true if one is new. -/
def union (s t : WordSet) : WordSet × Bool :=
  let grown := s.grow t.words.size
  (⟨grown.words.mapIdx fun i w => w ||| t.word i⟩, !s.superset t)

/-- Removes the members of `t`; true if one was there. -/
def subtract (s t : WordSet) : WordSet × Bool :=
  (⟨s.words.mapIdx fun i w => w &&& ~~~t.word i⟩,
   s.words.toList.zipIdx.any fun entry => entry.1 &&& t.word entry.2 != 0)

def isEmpty (s : WordSet) : Bool := s.words.all (· == 0)

/-- The bits that are set in a word, in increasing order. -/
def bits (w : UInt64) : List Nat := (List.range 64).filter fun b => w.toBitVec.getLsbD b

/-- The members in increasing order. -/
def toList (s : WordSet) : List Nat :=
  s.words.toList.zipIdx.flatMap fun entry => (bits entry.1).map (64 * entry.2 + ·)

def count (s : WordSet) : Nat := (s.words.toList.flatMap bits).length

/-- The members of a list. -/
def ofList (l : List Nat) : WordSet := l.foldl (fun s n => (s.insert n).1) empty

/-- The place of the lowest bit that is set in a word. -/
def lowestBit (w : UInt64) : Nat := w.toBitVec.ctz.toNat

/-- A walk along the members of a set, from the least on (`BitIter`). -/
structure Walk where
  words : Array UInt64
  /-- The word that the walk has come to. -/
  position : Nat
  /-- The bits of that word that are still to come. -/
  pending : UInt64

def walk (s : WordSet) : Walk := ⟨s.words, 0, s.word 0⟩

namespace Walk

/-- The next member. Clear words are passed over, and behind the last word there is none. -/
def next (w : Walk) : Option Nat × Walk :=
  if w.pending = 0 then
    if inside : w.position + 1 < w.words.size then
      next { w with position := w.position + 1, pending := w.words[w.position + 1] }
    else (none, { w with position := w.position + 1 })
  else
    (some (64 * w.position + lowestBit w.pending),
      { w with pending := w.pending &&& (w.pending - 1) })
termination_by w.words.size - w.position

/-- A member uses up a bit of the word, or the walk has left the word behind. -/
theorem next_decreases {w w' : Walk} {n : Nat} (taken : w.next = (some n, w')) :
    Prod.Lex (· < ·) (· < ·) (w'.words.size - w'.position, w'.pending.toNat)
      (w.words.size - w.position, w.pending.toNat) := by
  fun_induction next w with
  | case1 w clear inside ih =>
    have fewer : w.words.size - (w.position + 1) < w.words.size - w.position := by omega
    have later : w'.words.size - w'.position ≤ w.words.size - (w.position + 1) := by
      rcases Prod.lex_def.mp (ih taken) with less | ⟨same, _⟩
      · exact Nat.le_of_lt less
      · exact Nat.le_of_eq same
    exact .left _ _ (Nat.lt_of_le_of_lt later fewer)
  | case2 w clear outside => cases taken
  | case3 w set =>
    cases taken
    have positive : 0 < w.pending.toNat := Nat.pos_of_ne_zero fun zero => set (UInt64.toNat_inj.mp zero)
    have one : (1 : UInt64) ≤ w.pending := UInt64.le_iff_toNat_le.mpr positive
    refine .right _ ?_
    rw [UInt64.toNat_and, UInt64.toNat_sub_of_le _ _ one]
    exact Nat.lt_of_le_of_lt Nat.and_le_right (Nat.sub_lt positive (by decide))

/-- The members that are still to come. -/
def rest (w : Walk) : List Nat :=
  match _ : w.next with
  | (none, _) => []
  | (some n, w') => n :: rest w'
termination_by (w.words.size - w.position, w.pending.toNat)
decreasing_by exact next_decreases ‹_›

end Walk

/-- The members between braces, printed as ids of a kind. -/
def text (s : WordSet) (kind : Entity) : String :=
  "\x7b" ++ ", ".intercalate (s.walk.rest.map fun n => (⟨n⟩ : Id kind).text) ++ "\x7d"

end WordSet

end PointerAnalysis
