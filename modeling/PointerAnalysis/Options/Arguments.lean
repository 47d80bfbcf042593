import PointerAnalysis.Options.Basic

/-! Argument lists. An option takes the value after an equals sign or the next argument, unless
that looks like an option itself; two dashes end the options. The value of an option is checked
when the next option or positional argument that is understood begins, and whether options are
given once and have values is checked at the very end. -/
namespace PointerAnalysis

/-- Why an argument list is refused, or that it asks for help or the version only. -/
inductive UsageError where
  | unknownArgument
  /-- The value is none of those listed. -/
  | invalidValue
  | emptyValue
  /-- The value is not of the right form. -/
  | valueValidation
  | unexpectedMultipleUsage
  | tooManyValues
  /-- Help is asked for, in full or in brief. -/
  | displayHelp (full : Bool)
  | displayVersion
  deriving DecidableEq

/-- The options by name, and the positional argument. -/
inductive Parameter where
  | entry
  | analysis
  | depth
  | heap
  | showStatistics
  | callGraphOutput
  | pointsToOutput
  | flowGraphOutput
  | input
  deriving DecidableEq

namespace Parameter

/-- The parameter with a long name. -/
def ofName? : String → Option Parameter
  | "entry-func" => some .entry
  | "pta-type" => some .analysis
  | "context-depth" => some .depth
  | "heap-model" => some .heap
  | "dump-stats" => some .showStatistics
  | "dump-call-graph" => some .callGraphOutput
  | "dump-pts" => some .pointsToOutput
  | "dump-pfg" => some .flowGraphOutput
  | _ => none

/-- All parameters but flags take a value. -/
def takesValue (p : Parameter) : Bool := p ≠ .showStatistics

end Parameter

def AnalysisKind.ofName? (name : String) : Option AnalysisKind :=
  if name ∈ ["andersen", "ander", "ci"] then some .insensitive
  else if name ∈ ["callsite-sensitive", "cs"] then some .callSiteSensitive
  else if name ∈ ["object-sensitive", "obj"] then some .objectSensitive
  else none

def HeapKind.ofName? (name : String) : Option HeapKind :=
  if name = "alloc-site" then some .perSite
  else if name = "type" then some .perType
  else none

/-- The greatest context depth. -/
def maxDepth : Nat := UInt32.size - 1

/-- The number written by a non-empty list of digits. -/
def digitsValue? (digits : List Char) : Option Nat :=
  if !digits.isEmpty && digits.all Char.isDigit then
    some (digits.foldl (fun n c => 10 * n + (c.toNat - 48)) 0)
  else none

/-- A context depth: digits with an optional sign, where only zero may be negative. -/
def depth? (text : String) : Option Nat :=
  let value := match text.toList with
    | '+' :: digits => digitsValue? digits
    | '-' :: digits => (digitsValue? digits).filter (· = 0)
    | digits => digitsValue? digits
  value.filter (· ≤ maxDepth)

namespace Parameter

/-- The setting that a parameter with a value makes. -/
def setting (p : Parameter) (value : String) : Except UsageError Setting :=
  match p with
  | .entry => .ok (.entry value)
  | .analysis =>
    match AnalysisKind.ofName? value with
    | some kind => .ok (.analysis kind)
    | none => .error .invalidValue
  | .depth =>
    match depth? value with
    | some k => .ok (.depth k)
    | none => .error .valueValidation
  | .heap =>
    match HeapKind.ofName? value with
    | some kind => .ok (.heap kind)
    | none => .error .invalidValue
  | .showStatistics => .error .tooManyValues
  | .callGraphOutput => .ok (.callGraphOutput value)
  | .pointsToOutput => .ok (.pointsToOutput value)
  | .flowGraphOutput => .ok (.flowGraphOutput value)
  | .input => .ok (.input value)

end Parameter

/-- What an argument looks like before it is known what it stands for. -/
inductive ArgumentForm where
  | endOfOptions
  | long (name : String) (value : Option String)
  /-- Letters behind a single dash. -/
  | short (first : Char)
  | plain

/-- Splits at the first equals sign. -/
def splitAtEquals (text : List Char) : String × Option String :=
  let name := String.ofList (text.takeWhile (· ≠ '='))
  match text.dropWhile (· ≠ '=') with
  | [] => (name, none)
  | _ :: value => (name, some (String.ofList value))

def ArgumentForm.of (argument : String) : ArgumentForm :=
  match argument.toList with
  | ['-', '-'] => .endOfOptions
  | '-' :: '-' :: text => let (name, value) := splitAtEquals text; .long name value
  | '-' :: first :: _ => .short first
  | _ => .plain

/-- The arguments that have been looked at. -/
structure Arguments where
  /-- The parameters that were given, in order, with the setting each makes. One that was given
  without a value makes none. -/
  given : List (Parameter × Option Setting)
  /-- The last parameter, with its value if it has come, as long as that is not checked. -/
  pending : Option (Parameter × Option String)
  /-- Whether the positional argument has come. -/
  inputGiven : Bool
  /-- Whether only positional arguments may follow. -/
  optionsEnded : Bool

namespace Arguments

def empty : Arguments := ⟨[], none, false, false⟩

def give (a : Arguments) (p : Parameter) (setting : Option Setting) : Arguments :=
  { a with given := a.given ++ [(p, setting)] }

/-- Checks the value of the pending parameter. -/
def settle (a : Arguments) : Except UsageError Arguments :=
  match a.pending with
  | none => .ok a
  | some (p, none) => .ok { a.give p none with pending := none }
  | some (p, some value) => do
    let setting ← p.setting value
    return { a.give p (some setting) with pending := none }

/-- An option by its long name. -/
def addLong (a : Arguments) (name : String) (value : Option String) :
    Except UsageError Arguments :=
  match Parameter.ofName? name, value with
  | some p, some value => do
    if !p.takesValue then throw .tooManyValues
    let a ← a.settle
    let setting ← p.setting value
    return a.give p (some setting)
  | some p, none => do
    let a ← a.settle
    if p.takesValue then return { a with pending := some (p, none) }
    else return a.give p (some .showStatistics)
  | none, value => do
    if name ≠ "help" && name ≠ "version" then throw .unknownArgument
    if value.isSome then throw .tooManyValues
    discard a.settle
    throw (if name = "help" then .displayHelp true else .displayVersion)

def addShort (a : Arguments) (letter : Char) : Except UsageError Arguments := do
  if letter ≠ 'h' && letter ≠ 'V' then throw .unknownArgument
  discard a.settle
  throw (if letter = 'h' then .displayHelp false else .displayVersion)

def addPositional (a : Arguments) (argument : String) : Except UsageError Arguments := do
  if a.inputGiven then throw .unknownArgument
  let a ← a.settle
  return { a with pending := some (.input, some argument), inputGiven := true }

def add (a : Arguments) (argument : String) : Except UsageError Arguments :=
  if a.optionsEnded then a.addPositional argument
  else match ArgumentForm.of argument with
    | .endOfOptions => .ok { a with optionsEnded := true }
    | .long name value => a.addLong name value
    | .short letter => a.addShort letter
    | .plain =>
      match a.pending with
      | some (p, none) => .ok { a with pending := some (p, some argument) }
      | _ => a.addPositional argument

/-- Whether a parameter has been given a value, or needs none. -/
def hasValue (a : Arguments) (p : Parameter) : Bool :=
  a.given.any fun entry => entry.1 = p && entry.2.isSome

/-- What is wrong with a parameter as a whole. -/
def fault? (a : Arguments) (p : Parameter) : Option UsageError :=
  if !a.hasValue p then some .emptyValue
  else if 1 < a.given.countP (·.1 = p) then some .unexpectedMultipleUsage
  else none

/-- The settings of a complete list. An option that still waits for its value at the end is the
first to be complained about. -/
def finish (a : Arguments) : Except UsageError (List Setting) := do
  let complete ← a.settle
  if let some (p, none) := a.pending then
    if !complete.hasValue p then throw .emptyValue
  match complete.given.findSome? fun entry => complete.fault? entry.1 with
  | some fault => throw fault
  | none => return complete.given.filterMap (·.2)

end Arguments

/-- The settings that an argument list makes. -/
def settingsOf (arguments : List String) : Except UsageError (List Setting) := do
  let a ← arguments.foldlM Arguments.add .empty
  a.finish

/-- Overrides the options that an argument list mentions, one after another; the others stay as they were
(`parse_from_args`). The whole list is read before the first option is touched. -/
def Options.parse (arguments : List String) : ExceptT UsageError (StateM Options) Unit := do
  let settings ← settingsOf arguments
  settings.forM fun setting => modify (·.set setting)

end PointerAnalysis
