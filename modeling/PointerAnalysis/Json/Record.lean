import PointerAnalysis.Json.Reader

/-! Records in JSON text, given as objects or as arrays of their fields in order, and raw values,
which are checked for being JSON and kept for a later reading. -/
namespace PointerAnalysis.Json

/-- One field of a record: reading it gives the change that it makes to the record. -/
structure Member (α : Type) where
  name : String
  required : Bool
  read : Reader (α → α)

namespace Member

variable {α β : Type}

/-- A field that must be given. -/
def mandatory (name : String) (reader : Reader β) (set : β → α → α) : Member α :=
  ⟨name, true, reader.map set⟩

/-- A field that keeps its blank value when it is left out. -/
def optional (name : String) (reader : Reader β) (set : β → α → α) : Member α :=
  ⟨name, false, reader.map set⟩

/-- The first required field that was not given. -/
def missing? (fields : List (Member α)) (given : List String) : Option String :=
  (fields.find? fun field => field.required && !given.contains field.name).map (·.name)

/-- Refuses a record in which a required field was not given. -/
def complete (fields : List (Member α)) (given : List String) : Except ReadError Unit :=
  match missing? fields given with
  | some name => .error (.shape (.missingField name))
  | none => .ok ()

/-- A number of elements, in words. -/
def countText (n : Nat) : String :=
  toString n ++ (if n = 1 then " element" else " elements")

end Member

namespace Reader

variable {α : Type}

/-- The fields of an object up to its end, each at most once and no others. -/
def fields (known : List (Member α)) (first : Bool) (given : List String) (record : α)
    (ts : List Token) : Read α ts := do
  match ← nextKey first ts with
  | (none, rest) =>
    Member.complete known given
    return (record, rest)
  | (some name, afterKey) =>
    let some field := known.find? (·.name = name)
      | throw (.shape (.unknownField name (known.map (·.name))))
    if given.contains name then throw (.shape (.duplicateField name))
    let value ← colon afterKey.1
    let (change, rest) ← field.read value.1
    let (result, last) ← fields known false (name :: given) (change record) rest.1
    return (result,
      ⟨last.1, by have := afterKey.2; have := value.2; have := rest.2; have := last.2; omega⟩)
termination_by ts.length
decreasing_by
  have := afterKey.2
  have := value.2
  have := rest.2
  omega

/-- The fields of an array in order; those behind its end are left out. `place` counts the fields
before, and `whole` says what was expected if a required field is left out. -/
def positions (whole : String) (place : Nat) (record : α) (ts : List Token) :
    List (Member α) → Read α ts
  | [] =>
    match ts with
    | .endArray :: rest => .ok (record, Rest.tail _ rest)
    | ts => .error (noMark ts)
  | field :: others => do
    match ← nextElement (place = 0) ts with
    | .inl rest =>
      match (field :: others).findIdx? (·.required) with
      | some more => throw (.shape (.wrongLength (place + more) whole))
      | none => return (record, rest)
    | .inr start =>
      let (change, rest) ← field.read start.1
      let (result, last) ← positions whole (place + 1) (change record) rest.1 others
      return (result, ⟨last.1, by have := start.2; have := rest.2; have := last.2; omega⟩)

/-- A record of known fields on top of its blank value. -/
def record (title : String) (known : List (Member α)) (blank : α) : Reader α
  | .beginObject :: ts => do
    let (result, rest) ← fields known true [] blank ts
    return (result, Rest.behind _ rest)
  | .beginArray :: ts => do
    let whole := title ++ " with " ++ Member.countText known.length
    let (result, rest) ← positions whole 0 blank ts known
    return (result, Rest.behind _ rest)
  | [] => .error (.fault .cutShort)
  | token :: _ => .error (mismatch title token)

mutual

/-- Passes over a value of any shape that nests at most `depth` deep. -/
def skip (depth : Nat) (ts : List Token) : Except ReadError (Rest ts) :=
  match ts with
  | [] => .error (.fault .cutShort)
  | token :: rest =>
    match token with
    | .null | .bool _ | .number _ | .string _ => .ok (Rest.tail _ rest)
    | .broken fault | .brokenString fault => .error (.fault fault)
    | .endArray | .endObject | .comma | .colon => .error (.fault .malformed)
    | .beginArray =>
      match depth with
      | 0 => .error (.fault .malformed)
      | depth + 1 => do
        let last ← skipElements depth true rest
        return Rest.behind _ last
    | .beginObject =>
      match depth with
      | 0 => .error (.fault .malformed)
      | depth + 1 => do
        let last ← skipFields depth true rest
        return Rest.behind _ last
termination_by 2 * ts.length
decreasing_by all_goals simp only [List.length_cons]; omega

def skipElements (depth : Nat) (first : Bool) (ts : List Token) : Except ReadError (Rest ts) := do
  match ← nextElement first ts with
  | .inl rest => return rest
  | .inr start =>
    let rest ← skip depth start.1
    let last ← skipElements depth false rest.1
    return ⟨last.1, by have := start.2; have := rest.2; have := last.2; omega⟩
termination_by 2 * ts.length + 1
decreasing_by
  · have := start.2
    omega
  · have := start.2
    have := rest.2
    omega

def skipFields (depth : Nat) (first : Bool) (ts : List Token) : Except ReadError (Rest ts) := do
  match ← nextKey first ts with
  | (none, rest) => return rest
  | (some _, afterKey) =>
    let value ← colon afterKey.1
    let rest ← skip depth value.1
    let last ← skipFields depth false rest.1
    return ⟨last.1, by have := afterKey.2; have := value.2; have := rest.2; have := last.2; omega⟩
termination_by 2 * ts.length + 1
decreasing_by
  · have := afterKey.2
    have := value.2
    omega
  · have := afterKey.2
    have := value.2
    have := rest.2
    omega

end

/-- The place where a value of any shape starts, kept for a later reading. -/
def raw (depth : Nat) : Reader (List Token) := fun ts => do
  let rest ← skip depth ts
  return (ts, rest)

/-- The value that makes up a whole text. -/
def readAll (reader : Reader α) (text : String) : Except ReadError α := do
  match ← reader (tokens text) with
  | (result, ⟨[], _⟩) => return result
  | (_, ⟨_ :: _, _⟩) => throw (.fault .malformed)

/-- The value that starts at a place kept by `raw`. -/
def readRaw (reader : Reader α) (kept : List Token) : Except ReadError α := do
  let (result, _) ← reader kept
  return result

end Reader

end PointerAnalysis.Json
