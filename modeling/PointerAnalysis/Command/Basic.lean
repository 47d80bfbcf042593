import PointerAnalysis.Description.Link
import PointerAnalysis.ObjectSet.Hybrid
import PointerAnalysis.Options.Arguments
import PointerAnalysis.Options.Help
import PointerAnalysis.Report.Listing
import PointerAnalysis.Report.Statistics

/-! The command line tool. It reads options from a preset and from its arguments, loads a program,
analyses it and writes the results that the options ask for, one after another; the first failure
ends it, and what was written before stays. Files are reached through an interface, so the same
command runs on a real file system and on one that is only thought of. -/
namespace PointerAnalysis

/-- Why a file could not be read or written. -/
inductive FileError where
  | notFound
  | permissionDenied
  | notDirectory
  | isDirectory
  | nameTooLong
  /-- The path holds a character of code zero, which would end it on its way to the system. -/
  | zeroInName
  | other (message : String)

def FileError.message : FileError → String
  | .notFound => "No such file or directory (os error 2)"
  | .permissionDenied => "Permission denied (os error 13)"
  | .notDirectory => "Not a directory (os error 20)"
  | .isDirectory => "Is a directory (os error 21)"
  | .nameTooLong => "File name too long (os error 36)"
  | .zeroInName => "file name contained an unexpected NUL byte"
  | .other message => message

/-- Why a command fails. -/
inductive CommandError where
  | preset (error : Json.ReadError)
  | usage (error : UsageError)
  | noInput
  | unreadable (path : String) (error : FileError)
  | unloadable (path : String) (error : LoadError)
  | noEntry (name : String)
  | analysis (error : AnalysisError)
  | unwritable (error : FileError)

namespace CommandError

/-- The message of an error, followed by those of its causes. -/
def message : CommandError → String
  | .preset (.fault .malformed) => "PTA_FLAGS must be a JSON array of strings: it is no JSON"
  | .preset (.fault .cutShort) => "PTA_FLAGS must be a JSON array of strings: it ends too early"
  | .preset (.shape error) => "PTA_FLAGS must be a JSON array of strings: " ++ error.message
  | .usage (.displayHelp full) => helpText full
  | .usage .displayVersion => versionText
  | .usage .unknownArgument => "Found an argument which wasn't expected"
  | .usage .invalidValue => "A value is not one of the possible values"
  | .usage .emptyValue => "An option requires a value but none was supplied"
  | .usage .valueValidation => "Invalid value"
  | .usage .unexpectedMultipleUsage => "An option was provided more than once"
  | .usage .tooManyValues => "A value was provided to a flag that takes none"
  | .noInput => "No input program given"
  | .unreadable path error =>
    "Failed to load program from " ++ path ++ ": IO error: " ++ error.message ++ ": "
      ++ error.message
  | .unloadable path error => "Failed to load program from " ++ path ++ ": " ++ error.message
  | .noEntry name => "Entry method " ++ name ++ " not found"
  | .analysis error => error.message
  | .unwritable error => error.message

/-- Asking for help or the version is no failure, and a mistake in the arguments is told apart
from all other failures. -/
def exitCode : CommandError → Nat
  | .usage (.displayHelp _) | .usage .displayVersion => 0
  | .usage _ => 2
  | _ => 1

/-- What is written to the error output. -/
def diagnosis : CommandError → String
  | .usage (.displayHelp _) | .usage .displayVersion => ""
  | error => "error: " ++ error.message ++ "\n"

/-- What is written to the standard output. -/
def answer : CommandError → String
  | .usage (.displayHelp full) => helpText full
  | .usage .displayVersion => versionText
  | _ => ""

end CommandError

/-- Where a result goes. -/
inductive Output where
  | print (text : String)
  | write (path text : String)

/-- A result for a path; one name stands for the standard output. -/
def Output.toPath (path text : String) : Output :=
  if path = "stdout" then .print text else .write path text

/-- Overrides options by a preset, a JSON array of arguments, and that by the arguments. -/
def Options.gather (preset : Option String) (arguments : List String) :
    ExceptT CommandError (StateM Options) Unit := do
  match preset with
  | none | some "" => pure ()
  | some text =>
    match Json.Reader.readAll (Json.Reader.list Json.Reader.string) text with
    | .error error => throw (.preset error)
    | .ok given => (Options.parse given).adapt .usage
  (Options.parse arguments).adapt .usage

section

variable {E : Type} [Coded E]

/-- The results of an analysis that the options ask for, in the order in which they are written. -/
def Options.outputs (o : Options) (r : Solution E (HybridSet .contextObject)) :
    Except UnknownId (List Output) := do
  let listing ← match o.pointsToOutput with
    | none => pure []
    | some path => pure [Output.toPath path (← r.fullListing)]
  let callGraph ← match o.callGraphOutput with
    | none => pure []
    | some path => pure [Output.toPath path (← r.callGraphText)]
  let flowGraph ← match o.flowGraphOutput with
    | none => pure []
    | some path => pure [Output.toPath path (← r.flowGraphText)]
  let statistics ← if o.showStatistics then pure [Output.print (← r.statistics)] else pure []
  return listing ++ callGraph ++ flowGraph ++ statistics

/-- Analyses a program with a choice of contexts. -/
def Options.analyseWith (o : Options) (program : Program)
    (policy : ContextPolicy AbstractObject E) : Except AnalysisError (List Output) := do
  let heap : HeapModel := match o.heap with
    | .perSite => .perSite
    | .perType => .perType
  let r ← ({ program, policy, heap } : Analysis E).solve (HybridSet .contextObject)
  match o.outputs r with
  | .ok outputs => return outputs
  | .error id => throw (.unknownId id)

end

/-- Analyses a program as the options say. -/
def Options.analyse (o : Options) (program : Program) : Except AnalysisError (List Output) :=
  match o.analysis with
  | .insensitive => o.analyseWith program .insensitive
  | .callSiteSensitive => o.analyseWith program (.callSite o.depth)
  | .objectSensitive => o.analyseWith program (.object o.depth)

/-- The program that a file describes, with the entry that the options ask for. -/
def Options.load (o : Options) (path text : String) : Except CommandError Program := do
  let program ← (Program.load text).mapError (.unloadable path)
  match o.entry with
  | none => return program
  | some name =>
    match program.findMethod name with
    | none => throw (.noEntry name)
    | some entry => return { program with entries := #[entry] }

/-- How a command reaches files and the standard output. -/
structure FileAccess (m : Type → Type) where
  read : String → m (Except FileError String)
  write : String → String → m (Except FileError Unit)
  print : String → m Unit

section

variable {m : Type → Type} [Monad m]

/-- Carries out an access to the file at a path, unless the path cannot be passed on whole. -/
def FileAccess.guarded {α : Type} (path : String) (body : m (Except FileError α)) :
    m (Except FileError α) :=
  if path.toList.any (fun c => c.toNat = 0) then return .error .zeroInName else body

/-- Writes results until one cannot be written. -/
def FileAccess.deliver (access : FileAccess m) : List Output → m (Except CommandError Unit)
  | [] => return .ok ()
  | .print text :: others => do
    access.print text
    access.deliver others
  | .write path text :: others => do
    match ← guarded path (access.write path text) with
    | .ok () => access.deliver others
    | .error error => return .error (.unwritable error)

/-- Runs the command. -/
def FileAccess.run (access : FileAccess m) (preset : Option String) (arguments : List String) :
    m (Except CommandError Unit) := do
  match (Options.gather preset arguments).run {} with
  | (.error error, _) => return .error error
  | (.ok (), options) =>
    match options.input with
    | none => return .error .noInput
    | some path =>
      match ← guarded path (access.read path) with
      | .error error => return .error (.unreadable path error)
      | .ok text =>
        match options.load path text with
        | .error error => return .error error
        | .ok program =>
          match options.analyse program with
          | .error error => return .error (.analysis error)
          | .ok outputs => access.deliver outputs

end

end PointerAnalysis
