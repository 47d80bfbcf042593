import PointerAnalysis.Json.Token
import PointerAnalysis.Text.Decimal
import PointerAnalysis.Text.Quoted

/-! Reading values of a known shape from JSON text. Readers go through the text once and from the
left, so of several mistakes the first one is reported. Each takes at least one token, which is
why reading ends. A record may be written as an object or as the array of its fields. -/
namespace PointerAnalysis.Json

/-- What stood where something else was expected. -/
inductive Found where
  | null
  | bool (b : Bool)
  | number (n : Number)
  | string (s : String)
  | sequence
  | map

def Found.text : Found → String
  | .null => "null"
  | .bool b => "boolean `" ++ (if b then "true" else "false") ++ "`"
  | .number (.natural n) => "integer `" ++ toString n ++ "`"
  | .number (.negative n) => "integer `-" ++ toString n ++ "`"
  | .number (.double x) => "floating point `" ++ Decimal.text x ++ "`"
  | .string s => "string " ++ Text.quoted s
  | .sequence => "sequence"
  | .map => "map"

/-- Why a JSON value is not of the shape that was asked for. -/
inductive ShapeError where
  | wrongType (found : Found) (expected : String)
  | wrongValue (found : Found) (expected : String)
  | wrongLength (length : Nat) (expected : String)
  | missingField (name : String)
  | duplicateField (name : String)
  | unknownField (name : String) (known : List String)
  | unknownVariant (name : String) (known : List String)

/-- The names that would have been right. -/
def alternatives (names : List String) : String :=
  match names.map fun name => "`" ++ name ++ "`" with
  | [] => "there are none"
  | [one] => "expected " ++ one
  | [one, other] => "expected " ++ one ++ " or " ++ other
  | many => "expected one of " ++ ", ".intercalate many

def ShapeError.message : ShapeError → String
  | .wrongType found expected => "invalid type: " ++ found.text ++ ", expected " ++ expected
  | .wrongValue found expected => "invalid value: " ++ found.text ++ ", expected " ++ expected
  | .wrongLength length expected =>
    "invalid length " ++ toString length ++ ", expected " ++ expected
  | .missingField name => "missing field `" ++ name ++ "`"
  | .duplicateField name => "duplicate field `" ++ name ++ "`"
  | .unknownField name known => "unknown field `" ++ name ++ "`, " ++ alternatives known
  | .unknownVariant name known => "unknown variant `" ++ name ++ "`, " ++ alternatives known

/-- Why a text could not be read: it is no JSON, or its value has another shape. -/
inductive ReadError where
  | fault (fault : Fault)
  | shape (error : ShapeError)

/-- What follows a value; always shorter than the text that began with the value. -/
abbrev Rest (ts : List Token) := { rest : List Token // rest.length < ts.length }

/-- What follows the first token. -/
def Rest.tail (token : Token) (rest : List Token) : Rest (token :: rest) :=
  ⟨rest, Nat.lt_succ_self _⟩

/-- What follows a value that stands behind a token. -/
def Rest.behind (token : Token) {ts : List Token} (rest : Rest ts) : Rest (token :: ts) :=
  ⟨rest.1, Nat.lt_succ_of_lt rest.2⟩

abbrev Read (α : Type) (ts : List Token) := Except ReadError (α × Rest ts)

abbrev Reader (α : Type) := (ts : List Token) → Read α ts

/-- The error of a token that starts no value of the expected type. -/
def mismatch (expected : String) : Token → ReadError
  | .null => .shape (.wrongType .null expected)
  | .bool b => .shape (.wrongType (.bool b) expected)
  | .number n => .shape (.wrongType (.number n) expected)
  | .string s => .shape (.wrongType (.string s) expected)
  | .beginArray => .shape (.wrongType .sequence expected)
  | .beginObject => .shape (.wrongType .map expected)
  | .broken fault | .brokenString fault => .fault fault
  | .endArray | .endObject | .comma | .colon => .fault .malformed

/-- The error of a text that ends, or goes on wrongly, where a mark was due. -/
def noMark : List Token → ReadError
  | [] => .fault .cutShort
  | _ :: _ => .fault .malformed

namespace Reader

variable {α β : Type}

def map (f : α → β) (reader : Reader α) : Reader β := fun ts => do
  let (a, rest) ← reader ts
  return (f a, rest)

/-- A value of one token. -/
def scalar (expected : String) (accept : Token → Option α) : Reader α
  | [] => .error (.fault .cutShort)
  | token :: rest =>
    match accept token with
    | some a => .ok (a, Rest.tail _ rest)
    | none => .error (mismatch expected token)

def string : Reader String :=
  scalar "a string" fun
    | .string s => some s
    | _ => none

def bool : Reader Bool :=
  scalar "a boolean" fun
    | .bool b => some b
    | _ => none

/-- A value that may be null. -/
def nullable (reader : Reader α) : Reader (Option α)
  | .null :: rest => .ok (none, Rest.tail _ rest)
  | ts => reader.map some ts

/-- The place where the next element of an array starts, if it has one. Between elements stands a
comma, which nothing but an element may follow. -/
def nextElement (first : Bool) (ts : List Token) :
    Except ReadError (Rest ts ⊕ { rest : List Token // rest.length ≤ ts.length }) :=
  match ts, first with
  | .endArray :: rest, _ => .ok (.inl (Rest.tail _ rest))
  | [], _ => .error (.fault .cutShort)
  | token :: rest, true => .ok (.inr ⟨token :: rest, Nat.le_refl _⟩)
  | .comma :: [], false => .error (.fault .cutShort)
  | .comma :: .endArray :: _, false => .error (.fault .malformed)
  | .comma :: rest, false => .ok (.inr ⟨rest, Nat.le_succ _⟩)
  | _ :: _, false => .error (.fault .malformed)

/-- The elements of an array up to its end. -/
def elements (item : Reader α) (first : Bool) (ts : List Token) : Read (List α) ts := do
  match ← nextElement first ts with
  | .inl rest => return ([], rest)
  | .inr start =>
    let (a, rest) ← item start.1
    let (others, last) ← elements item false rest.1
    return (a :: others, ⟨last.1, by have := start.2; have := rest.2; have := last.2; omega⟩)
termination_by ts.length
decreasing_by
  have := start.2
  have := rest.2
  omega

def list (item : Reader α) : Reader (List α)
  | .beginArray :: ts => do
    let (all, rest) ← elements item true ts
    return (all, Rest.behind _ rest)
  | [] => .error (.fault .cutShort)
  | token :: _ => .error (mismatch "a sequence" token)

/-- The next key of an object, if it has one. -/
def nextKey (first : Bool) (ts : List Token) : Read (Option String) ts :=
  match ts, first with
  | .endObject :: rest, _ => .ok (none, Rest.tail _ rest)
  | .string name :: rest, true => .ok (some name, Rest.tail _ rest)
  | .brokenString fault :: _, true => .error (.fault fault)
  | .comma :: .string name :: rest, false =>
    .ok (some name, Rest.behind _ (Rest.tail _ rest))
  | .comma :: .brokenString fault :: _, false => .error (.fault fault)
  | .comma :: rest, false => .error (noMark rest)
  | ts, _ => .error (noMark ts)

/-- The colon between a key and its value. -/
def colon : (ts : List Token) → Except ReadError (Rest ts)
  | .colon :: rest => .ok (Rest.tail _ rest)
  | ts => .error (noMark ts)

end Reader

end PointerAnalysis.Json
