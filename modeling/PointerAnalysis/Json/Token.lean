import PointerAnalysis.Json.Number

/-! The tokens of a JSON text. A text that goes wrong inside a token ends in a broken token, so a
reader meets the mistake only when it comes to that place and reports earlier ones first. -/
namespace PointerAnalysis.Json

inductive Token where
  | beginArray
  | endArray
  | beginObject
  | endObject
  | comma
  | colon
  | null
  | bool (b : Bool)
  | number (n : Number)
  | string (s : String)
  /-- A string that goes wrong before its closing quote. -/
  | brokenString (fault : Fault)
  /-- Anything else that is no token. -/
  | broken (fault : Fault)

namespace Token

def hexDigit? (c : Char) : Option Nat :=
  if c.isDigit then some (c.toNat - 48)
  else if 'a' ≤ c ∧ c ≤ 'f' then some (c.toNat - 87)
  else if 'A' ≤ c ∧ c ≤ 'F' then some (c.toNat - 55)
  else none

/-- The number that four hexadecimal digits write. The text is cut short if it holds fewer than
four more bytes, whatever they are. -/
def readHex (text : List Char) : Except Fault (Nat × List Char) :=
  match text with
  | a :: b :: c :: d :: rest =>
    match hexDigit? a, hexDigit? b, hexDigit? c, hexDigit? d with
    | some a, some b, some c, some d => .ok (((a * 16 + b) * 16 + c) * 16 + d, rest)
    | _, _, _, _ => .error .malformed
  | _ => .error (if (String.ofList text).utf8ByteSize < 4 then .cutShort else .malformed)

def isHighSurrogate (n : Nat) : Bool := 0xD800 ≤ n && n < 0xDC00

def isLowSurrogate (n : Nat) : Bool := 0xDC00 ≤ n && n < 0xE000

/-- The character written by an escape, from behind its `u` on. Characters beyond 16 bits are
written as a pair of surrogates, which may not stand alone. -/
def readUnicode (text : List Char) : Except Fault (Char × List Char) := do
  let (first, rest) ← readHex text
  if isLowSurrogate first then throw .malformed
  else if isHighSurrogate first then
    match rest with
    | [] => throw .cutShort
    | '\\' :: [] => throw .cutShort
    | '\\' :: 'u' :: rest =>
      let (second, rest) ← readHex rest
      if isLowSurrogate second then
        return (Char.ofNat (0x10000 + (first - 0xD800) * 0x400 + (second - 0xDC00)), rest)
      else throw .malformed
    | _ => throw .malformed
  else return (Char.ofNat first, rest)

/-- The character written by an escape, from behind its backslash on. -/
def readEscape : List Char → Except Fault (Char × List Char)
  | [] => .error .cutShort
  | c :: rest =>
    match c with
    | '"' => .ok ('"', rest)
    | '\\' => .ok ('\\', rest)
    | '/' => .ok ('/', rest)
    | 'b' => .ok ('\x08', rest)
    | 'f' => .ok ('\x0c', rest)
    | 'n' => .ok ('\n', rest)
    | 'r' => .ok ('\r', rest)
    | 't' => .ok ('\t', rest)
    | 'u' => readUnicode rest
    | _ => .error .malformed

/-- The characters up to the closing quote, last one first in `done`. Each round takes at least
one character, so as many rounds as characters are enough. -/
def readString (done : List Char) (text : List Char) : Nat → Except Fault (String × List Char)
  | 0 => .error .cutShort
  | rounds + 1 =>
    match text with
    | [] => .error .cutShort
    | '"' :: rest => .ok (String.ofList done.reverse, rest)
    | '\\' :: rest => do
      let (c, rest) ← readEscape rest
      readString (c :: done) rest rounds
    | c :: rest =>
      if c.toNat < 32 then .error .malformed else readString (c :: done) rest rounds

/-- The rest of a text that must go on with these characters. -/
def expect : List Char → List Char → Except Fault (List Char)
  | [], text => .ok text
  | _ :: _, [] => .error .cutShort
  | c :: cs, d :: text => if c = d then expect cs text else .error .malformed

def isBlank (c : Char) : Bool := c = ' ' || c = '\n' || c = '\t' || c = '\r'

/-- A token that stands for the word whose tail a text must go on with. -/
def word (token : Token) (tail : String) (text : List Char) : Token × List Char :=
  match expect tail.toList text with
  | .ok rest => (token, rest)
  | .error fault => (.broken fault, [])

/-- The token that starts with the character `c`, and what follows it. There are to be at least as
many rounds as characters. -/
def read (c : Char) (rest : List Char) (rounds : Nat) : Token × List Char :=
  match c with
  | '[' => (.beginArray, rest)
  | ']' => (.endArray, rest)
  | '\x7b' => (.beginObject, rest)
  | '\x7d' => (.endObject, rest)
  | ',' => (.comma, rest)
  | ':' => (.colon, rest)
  | 'n' => word .null "ull" rest
  | 't' => word (.bool true) "rue" rest
  | 'f' => word (.bool false) "alse" rest
  | '"' =>
    match readString [] rest rounds with
    | .ok (s, rest) => (.string s, rest)
    | .error fault => (.brokenString fault, [])
  | _ =>
    if c = '-' || c.isDigit then
      match Number.read (c :: rest) with
      | .ok (n, rest) => (.number n, rest)
      | .error fault => (.broken fault, [])
    else (.broken .malformed, [])

/-- Reads one token a round; each takes at least one character. -/
def readAll (text : List Char) : Nat → List Token
  | 0 => []
  | rounds + 1 =>
    match text.dropWhile isBlank with
    | [] => []
    | c :: rest =>
      let (token, rest) := read c rest rounds
      token :: readAll rest rounds

end Token

/-- The tokens of a text. A broken one is always the last. -/
def tokens (text : String) : List Token :=
  Token.readAll text.toList text.length

end PointerAnalysis.Json
