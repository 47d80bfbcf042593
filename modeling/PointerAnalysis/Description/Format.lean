import PointerAnalysis.Description.Basic
import PointerAnalysis.Json.Record

/-! The JSON form of program descriptions. A statement is tagged with its kind, under a key of its
own or as the first element; other keys that its kind does not know are passed over, while
classes, methods and whole programs know all of theirs. -/
namespace PointerAnalysis.Described

open Json Json.Reader

/-- How deep a value inside a statement may nest. Seven levels lead to it, and a text that nests
128 levels deep is refused. -/
def operandDepth : Nat := 120

/-- The operands of all kinds of statements, as far as they have been read. -/
structure Operands where
  var : String := ""
  type : String := ""
  assigned : String := ""
  source : String := ""
  base : String := ""
  field : String := ""
  kind : CallKind := .static
  target : String := ""
  receiver : Option String := none
  args : List String := []
  result : Option String := none

def callKinds : List (String × CallKind) :=
  [("static", .static), ("special", .special), ("virtual", .virtual)]

/-- The kind of a call by its name. -/
def namedCallKind (name : String) : Except ReadError CallKind :=
  match callKinds.lookup name with
  | some kind => .ok kind
  | none => .error (.shape (.unknownVariant name (callKinds.map (·.1))))

/-- The keys of an object with their values, which are kept raw. -/
def rawFields (depth : Nat) (first : Bool) (ts : List Token) :
    Read (List (String × List Token)) ts := do
  match ← nextKey first ts with
  | (none, rest) => return ([], rest)
  | (some name, afterKey) =>
    let value ← colon afterKey.1
    let (kept, rest) ← raw depth value.1
    let (others, last) ← rawFields depth false rest.1
    return ((name, kept) :: others,
      ⟨last.1, by have := afterKey.2; have := value.2; have := rest.2; have := last.2; omega⟩)
termination_by ts.length
decreasing_by
  have := afterKey.2
  have := value.2
  have := rest.2
  omega

/-- Null, or an object without fields. -/
def unit : Reader Unit
  | .null :: rest => .ok ((), Rest.tail _ rest)
  | .beginObject :: .endObject :: rest =>
    .ok ((), Rest.behind _ (Rest.tail _ rest))
  | [] => .error (.fault .cutShort)
  | token :: _ => .error (mismatch "unit" token)

/-- A call kind: its name, or an object with the name as its only key and nothing under it. -/
def callKind : Reader CallKind
  | .string name :: rest => do
    return (← namedCallKind name, Rest.tail _ rest)
  | .beginObject :: ts => do
    match ← rawFields operandDepth true ts with
    | ([(name, kept)], rest) =>
      let kind ← namedCallKind name
      readRaw unit kept
      return (kind, Rest.behind _ rest)
    | _ => throw (.shape (.wrongValue .map "map with a single key"))
  | [] => .error (.fault .cutShort)
  | token :: _ => .error (mismatch "string or map" token)

/-- A kind of statement: its tag, the word for it in messages, its operands in order and the
statement that they make. -/
structure StatementForm where
  tag : String
  title : String
  operands : List (Member Operands)
  make : Operands → Statement

def varOperand : Member Operands := .mandatory "var" string fun s o => { o with var := s }
def toOperand : Member Operands := .mandatory "to" string fun s o => { o with assigned := s }
def fromOperand : Member Operands := .mandatory "from" string fun s o => { o with source := s }
def baseOperand : Member Operands := .mandatory "base" string fun s o => { o with base := s }
def fieldOperand : Member Operands := .mandatory "field" string fun s o => { o with field := s }

def statementForms : List StatementForm := [
  { tag := "new", title := "New"
    operands := [varOperand, .mandatory "type" string fun s o => { o with type := s }]
    make := fun o => .new o.var o.type },
  { tag := "assign", title := "Assign"
    operands := [toOperand, fromOperand]
    make := fun o => .assign o.assigned o.source },
  { tag := "load", title := "Load"
    operands := [toOperand, baseOperand, fieldOperand]
    make := fun o => .load o.assigned o.base o.field },
  { tag := "store", title := "Store"
    operands := [baseOperand, fieldOperand, fromOperand]
    make := fun o => .store o.base o.field o.source },
  { tag := "call", title := "Call"
    operands := [
      .mandatory "call" callKind fun k o => { o with kind := k },
      .mandatory "target" string fun s o => { o with target := s },
      .optional "receiver" (nullable string) fun s o => { o with receiver := s },
      .optional "args" (list string) fun l o => { o with args := l },
      .optional "result" (nullable string) fun s o => { o with result := s }]
    make := fun o => .call o.kind o.target o.receiver o.args o.result },
  { tag := "return", title := "Return"
    operands := [varOperand]
    make := fun o => .return o.var }]

namespace StatementForm

/-- The statement with operands under keys; keys it does not know are passed over. -/
def ofFields (form : StatementForm) (given : List String) (read : Operands) :
    List (String × List Token) → Except ReadError Statement
  | [] => do
    Member.complete form.operands given
    return form.make read
  | (name, kept) :: others =>
    match form.operands.find? (·.name = name) with
    | none => form.ofFields given read others
    | some operand => do
      if given.contains name then throw (.shape (.duplicateField name))
      let change ← readRaw operand.read kept
      form.ofFields (name :: given) (change read) others

/-- The statement with operands in order. Those left out at the end keep their blank values, and
none may be too many. -/
def ofElements (form : StatementForm) (place : Nat) (read : Operands) :
    List (Member Operands) → List (List Token) → Except ReadError Statement
  | [], [] => .ok (form.make read)
  | [], more@(_ :: _) =>
    .error (.shape (.wrongLength (place + more.length) (Member.countText place ++ " in sequence")))
  | operands@(_ :: _), [] =>
    match operands.findIdx? (·.required) with
    | none => .ok (form.make read)
    | some more =>
      .error (.shape (.wrongLength (place + more)
        ("struct variant StmtDesc::" ++ form.title ++ " with "
          ++ Member.countText form.operands.length)))
  | operand :: operands, kept :: more => do
    let change ← readRaw operand.read kept
    form.ofElements (place + 1) (change read) operands more

end StatementForm

/-- The tag of a statement. -/
def statementForm : Reader StatementForm
  | .string tag :: rest =>
    match statementForms.find? (·.tag = tag) with
    | some form => .ok (form, Rest.tail _ rest)
    | none => .error (.shape (.unknownVariant tag (statementForms.map (·.tag))))
  | [] => .error (.fault .cutShort)
  | token :: _ => .error (mismatch "variant identifier" token)

/-- The tag and the raw operands of a statement written as an object. -/
def taggedFields (first : Bool) (tag : Option StatementForm) (ts : List Token) :
    Read (Option StatementForm × List (String × List Token)) ts := do
  match ← nextKey first ts with
  | (none, rest) => return ((tag, []), rest)
  | (some name, afterKey) =>
    if name = "kind" then
      if tag.isSome then throw (.shape (.duplicateField name))
      let value ← colon afterKey.1
      let (form, rest) ← statementForm value.1
      let (result, last) ← taggedFields false (some form) rest.1
      return (result,
        ⟨last.1, by have := afterKey.2; have := value.2; have := rest.2; have := last.2; omega⟩)
    else
      let value ← colon afterKey.1
      let (kept, rest) ← raw operandDepth value.1
      let ((tag, others), last) ← taggedFields false tag rest.1
      return ((tag, (name, kept) :: others),
        ⟨last.1, by have := afterKey.2; have := value.2; have := rest.2; have := last.2; omega⟩)
termination_by ts.length
decreasing_by
  all_goals
    have := afterKey.2
    have := value.2
    have := rest.2
    omega

def statement : Reader Statement
  | .beginObject :: ts => do
    match ← taggedFields true none ts with
    | ((none, _), _) => throw (.shape (.missingField "kind"))
    | ((some form, operands), rest) =>
      let result ← form.ofFields [] {} operands
      return (result, Rest.behind _ rest)
  | .beginArray :: ts => do
    match ← nextElement true ts with
    | .inl _ => throw (.shape (.missingField "kind"))
    | .inr start =>
      let (form, afterTag) ← statementForm start.1
      let (operands, rest) ← elements (raw operandDepth) false afterTag.1
      let result ← form.ofElements 0 {} form.operands operands
      return (result, ⟨rest.1, by
        have := start.2; have := afterTag.2; have := rest.2; simp only [List.length_cons]; omega⟩)
  | [] => .error (.fault .cutShort)
  | token :: _ => .error (mismatch "internally tagged enum StmtDesc" token)

def method : Reader Method :=
  record "struct MethodDesc"
    [.mandatory "name" string fun s m => { m with name := s },
     .optional "static" bool fun b m => { m with isStatic := b },
     .optional "abstract" bool fun b m => { m with isAbstract := b },
     .optional "params" (list string) fun l m => { m with params := l },
     .optional "body" (list statement) fun l m => { m with body := l }]
    ⟨"", false, false, [], []⟩

def type : Reader Class :=
  record "struct TypeDesc"
    [.mandatory "name" string fun s t => { t with name := s },
     .optional "super" (nullable string) fun s t => { t with super := s },
     .optional "methods" (list method) fun l t => { t with methods := l }]
    ⟨"", none, []⟩

def program : Reader Program :=
  record "struct ProgramDesc"
    [.mandatory "types" (list type) fun l p => { p with types := l },
     .optional "entries" (list string) fun l p => { p with entries := l }]
    ⟨[], []⟩

/-- The description that makes up a whole text. -/
def Program.parse (text : String) : Except ReadError Program := readAll program text

end PointerAnalysis.Described
