/-! Numbers of JSON text. Whole numbers of 64 bits are kept exactly; any other number becomes a
double, computed from as many leading digits as fit into 64 bits and a power of ten. -/
namespace PointerAnalysis.Json

/-- What makes a text no JSON: a character that cannot stand where it does, or a missing end. -/
inductive Fault where
  | malformed
  | cutShort
  deriving DecidableEq

inductive Number where
  | natural (n : Nat)
  /-- The number `-n`. -/
  | negative (n : Nat)
  | double (x : Float)

namespace Number

def digit? (c : Char) : Option Nat :=
  if c.isDigit then some (c.toNat - 48) else none

/-- The most that 64 bits hold. -/
def limit : Nat := UInt64.size - 1

/-- The leading digits of a number. Digits that no longer fit into 64 bits are only counted, and
from the first of them on all are. -/
structure Digits where
  value : Nat
  kept : Nat
  dropped : Nat

def Digits.push (d : Digits) (next : Nat) : Digits :=
  if 0 < d.dropped || limit < d.value * 10 + next then { d with dropped := d.dropped + 1 }
  else { d with value := d.value * 10 + next, kept := d.kept + 1 }

/-- Appends the digits at the front of a text and leaves the rest of it. -/
def Digits.extend (d : Digits) : List Char → Digits × List Char
  | [] => (d, [])
  | c :: rest =>
    match digit? c with
    | some next => (d.push next).extend rest
    | none => (d, c :: rest)

/-- A double times a power of ten, in double arithmetic; too large a result is refused. Powers
beyond the range of doubles divide in rounds, three of which bring every number to zero. -/
def scale (x : Float) (exponent : Int) : Nat → Option Float
  | 0 => some 0
  | rounds + 1 =>
    if exponent.natAbs ≤ 308 then
      let power := Float.ofScientific 1 false exponent.natAbs
      let scaled := if 0 ≤ exponent then x * power else x / power
      if scaled.isInf then none else some scaled
    else if x == 0 then some x
    else if 0 ≤ exponent then none
    else scale (x / Float.ofScientific 1 false 308) (exponent + 308) rounds

/-- The double with these leading digits and exponent. -/
def ofParts (negative : Bool) (digits : Nat) (exponent : Int) : Except Fault Number :=
  match scale digits.toUInt64.toFloat exponent 4 with
  | none => .error .malformed
  | some x => .ok (.double (if negative then -x else x))

/-- The part of a number from its exponent mark on. -/
def readExponent (negative : Bool) (digits : Nat) (places : Int) (text : List Char) :
    Except Fault (Number × List Char) :=
  let (down, text) := match text with
    | '+' :: rest => (false, rest)
    | '-' :: rest => (true, rest)
    | _ => (false, text)
  match text with
  | [] => .error .cutShort
  | c :: _ =>
    if c.isDigit then
      let (exponent, rest) := Digits.extend ⟨0, 0, 0⟩ text
      let size : Int := if 0 < exponent.dropped then limit else exponent.value
      return (← ofParts negative digits (if down then places - size else places + size), rest)
    else .error .malformed

/-- The part of a number behind its decimal point. -/
def readFraction (negative : Bool) (whole : Digits) (text : List Char) :
    Except Fault (Number × List Char) :=
  match text with
  | [] => .error .cutShort
  | c :: _ =>
    if c.isDigit then
      let (digits, rest) := Digits.extend ⟨whole.value, 0, 0⟩ text
      let places : Int := whole.dropped - digits.kept
      match rest with
      | 'e' :: rest | 'E' :: rest => readExponent negative digits.value places rest
      | _ => return (← ofParts negative digits.value places, rest)
    else .error .malformed

/-- A whole number, exact if 64 bits with a sign hold it; zero has no negative. -/
def ofWhole (negative : Bool) (digits : Digits) : Except Fault Number :=
  if 0 < digits.dropped then ofParts negative digits.value digits.dropped
  else if !negative then .ok (.natural digits.value)
  else if 0 < digits.value && digits.value ≤ UInt64.size / 2 then .ok (.negative digits.value)
  else ofParts negative digits.value 0

/-- A number without its sign; a zero in front stands alone. -/
def readUnsigned (negative : Bool) (text : List Char) : Except Fault (Number × List Char) :=
  match text with
  | [] => .error .cutShort
  | c :: tail =>
    if c.isDigit then
      let (whole, rest) := Digits.extend ⟨0, 0, 0⟩ text
      if c = '0' && tail.head?.any Char.isDigit then .error .malformed
      else match rest with
        | '.' :: rest => readFraction negative whole rest
        | 'e' :: rest | 'E' :: rest => readExponent negative whole.value whole.dropped rest
        | _ => return (← ofWhole negative whole, rest)
    else .error .malformed

/-- Reads a number at the front of a text. -/
def read : List Char → Except Fault (Number × List Char)
  | '-' :: rest => readUnsigned true rest
  | text => readUnsigned false text

end Number

end PointerAnalysis.Json
