/-! Decimal text of binary numbers, worked out in exact arithmetic: the fewest digits that read
back as the same number, and a fixed number of decimal places. -/
namespace PointerAnalysis.Decimal

/-- The value `mantissa * 2 ^ exponent`, with a flag for the negative sign (also of zero). -/
structure Binary where
  negative : Bool
  mantissa : Nat
  exponent : Int

/-- The bit in front of the fraction, which is not stored. -/
def hidden : Nat := Nat.pow 2 52

/-- The parts of a finite double; the least exponent is shared with the subnormal numbers. -/
def Binary.ofFloat (x : Float) : Binary :=
  let bits := x.toBits.toNat
  let fraction := bits % hidden
  let biased := bits / hidden % 2048
  { negative := UInt64.size / 2 ≤ bits
    mantissa := if biased = 0 then fraction else hidden + fraction
    exponent := (max biased 1 : Nat) - 1075 }

/-- A ratio of natural numbers. -/
structure Ratio where
  num : Nat
  den : Nat

def Ratio.lt (a b : Ratio) : Bool := a.num * b.den < b.num * a.den

def Ratio.le (a b : Ratio) : Bool := a.num * b.den ≤ b.num * a.den

/-- `n * base ^ exponent` as a ratio. -/
def Ratio.scaled (n base : Nat) (exponent : Int) : Ratio :=
  ⟨n * base.pow exponent.toNat, base.pow (-exponent).toNat⟩

/-- Whether the number with these parts is the one nearest to `x`. The gap to the next lower
number is halved where the exponent changes; a mantissa that is even also takes the end points. -/
def readsBack (b : Binary) (x : Ratio) : Bool :=
  let halved := b.mantissa = hidden && -1074 < b.exponent
  let low := Ratio.scaled (4 * b.mantissa - if halved then 1 else 2) 2 (b.exponent - 2)
  let high := Ratio.scaled (4 * b.mantissa + 2) 2 (b.exponent - 2)
  if b.mantissa % 2 = 0 then low.le x && x.le high else low.lt x && x.lt high

/-- How many digits stand before the point of a ratio from 1 on, or how many zeros follow it,
counted downwards, in a smaller one: the least `p` with value below `10 ^ p`. -/
def magnitude (x : Ratio) : Int :=
  let rec search : Nat → Int → Int
    | 0, p => p
    | steps + 1, p => if x.lt (Ratio.scaled 1 10 p) then p else search steps (p + 1)
  search 640 (-324)

/-- The nearer of the two multiples of `10 ^ place` beside the value that reads back, if any; of
two equally near ones the even one. -/
def onGrid (b : Binary) (place : Int) : Option Nat :=
  let value := Ratio.scaled b.mantissa 2 b.exponent
  let unit := Ratio.scaled 1 10 place
  let below := value.num * unit.den / (value.den * unit.num)
  let fits (n : Nat) : Bool := readsBack b (Ratio.scaled n 10 place)
  match fits below, fits (below + 1) with
  | true, true =>
    let half := Ratio.scaled (2 * below + 1) 10 place
    let twice : Ratio := ⟨2 * value.num, value.den⟩
    some (if twice.lt half then below else if half.lt twice then below + 1 else below + below % 2)
  | true, false => some below
  | false, true => some (below + 1)
  | false, false => none

/-- The fewest decimal digits that read back, with the place of the last one. The first place
tried lies above all digits, where nothing but a rounded up one can stand. -/
def shortest (b : Binary) : Nat × Int :=
  let top := magnitude (Ratio.scaled b.mantissa 2 b.exponent)
  let rec search : Nat → Int → Nat × Int
    | 0, place => ((onGrid b place).getD 0, place)
    | more + 1, place =>
      match onGrid b place with
      | some digits => (digits, place)
      | none => search more (place - 1)
  search 18 top

/-- Digits with a point: `places` of them after it. -/
def withPoint (digits places : Nat) : String :=
  let text := toString digits
  let padded := String.ofList (List.replicate (places + 1 - text.length) '0') ++ text
  let split := padded.length - places
  String.ofList (padded.toList.take split) ++ "." ++ String.ofList (padded.toList.drop split)

/-- Digits with a point behind the first of them and a power of ten, whose sign is always shown. -/
def withExponent (digits : Nat) (exponent : Int) : String :=
  let text := toString digits
  let lead := String.ofList (text.toList.take 1)
  let tail := String.ofList (text.toList.drop 1)
  lead ++ (if tail.isEmpty then "" else "." ++ tail) ++ "e"
    ++ (if exponent < 0 then "-" else "+") ++ toString exponent.natAbs

/-- A double with the fewest digits that read back: positional from `10 ^ -5` up to below
`10 ^ 16`, with at least one digit after the point, and with an exponent otherwise. -/
def text (x : Float) : String :=
  let b := Binary.ofFloat x
  let (digits, place) := if b.mantissa = 0 then (0, 0) else shortest b
  let point := place + (toString digits).length
  let body :=
    if point ≤ -5 || 16 < point then withExponent digits (point - 1)
    else if place < 0 then withPoint digits place.natAbs
    else toString (digits * Nat.pow 10 place.toNat) ++ ".0"
  if b.negative then "-" ++ body else body

/-- The quotient rounded to the nearest natural number, a half to the even neighbour. -/
def roundDiv (num den : Nat) : Nat :=
  let below := num / den
  let twice := 2 * (num % den)
  if twice < den then below
  else if den < twice then below + 1
  else below + below % 2

/-- A non-negative double with a fixed number of decimal places. -/
def fixed (places : Nat) (x : Float) : String :=
  let b := Binary.ofFloat x
  let value := Ratio.scaled b.mantissa 2 b.exponent
  withPoint (roundDiv (value.num * Nat.pow 10 places) value.den) places

end PointerAnalysis.Decimal
