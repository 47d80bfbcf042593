import PointerAnalysis.Command.Basic

/-! The command line tool on the real file system. -/
namespace PointerAnalysis

/-- The number of an error, which some calls report with a minus sign. -/
def errorNumber (code : UInt32) : UInt32 := min code (0 - code)

def FileError.ofIO : IO.Error → FileError
  | .noFileOrDirectory .. => .notFound
  | .permissionDenied .. => .permissionDenied
  | .inappropriateType _ code _ =>
    if errorNumber code = 21 then .isDirectory else .notDirectory
  | .invalidArgument name code details =>
    if errorNumber code = 36 then .nameTooLong
    else .other (IO.Error.invalidArgument name code details).toString
  | error => .other error.toString

/-- Files as they are. -/
def realFiles : FileAccess IO where
  read path := do
    match ← (IO.FS.readFile path).toBaseIO with
    | .ok text => return .ok text
    | .error error => return .error (.ofIO error)
  write path text := do
    match ← (IO.FS.writeFile path text).toBaseIO with
    | .ok () => return .ok ()
    | .error error => return .error (.ofIO error)
  print := IO.print

end PointerAnalysis

open PointerAnalysis in
def main (arguments : List String) : IO UInt32 := do
  match ← realFiles.run (← IO.getEnv "PTA_FLAGS") arguments with
  | .ok () => return 0
  | .error error =>
    IO.print error.answer
    IO.eprint error.diagnosis
    return error.exitCode.toUInt32
