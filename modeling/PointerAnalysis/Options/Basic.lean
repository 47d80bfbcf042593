/-! The options of the command line tool: which analysis is run and what is written where. -/
namespace PointerAnalysis

inductive AnalysisKind where
  | insensitive
  | callSiteSensitive
  | objectSensitive
  deriving DecidableEq

inductive HeapKind where
  | perSite
  | perType
  deriving DecidableEq

/-- What an analysis is asked for (`AnalysisOptions`). -/
structure Options where
  /-- The entry method that replaces those of the program. -/
  entry : Option String := none
  analysis : AnalysisKind := .callSiteSensitive
  depth : Nat := 1
  heap : HeapKind := .perSite
  showStatistics : Bool := false
  callGraphOutput : Option String := none
  pointsToOutput : Option String := none
  flowGraphOutput : Option String := none
  /-- The file that describes the program. -/
  input : Option String := none
  deriving DecidableEq

/-- A value for one of the options. -/
inductive Setting where
  | entry (method : String)
  | analysis (kind : AnalysisKind)
  | depth (k : Nat)
  | heap (kind : HeapKind)
  | showStatistics
  | callGraphOutput (path : String)
  | pointsToOutput (path : String)
  | flowGraphOutput (path : String)
  | input (path : String)
  deriving DecidableEq

/-- Gives one option a value and leaves the others alone. -/
def Options.set (o : Options) : Setting → Options
  | .entry method => { o with entry := some method }
  | .analysis kind => { o with analysis := kind }
  | .depth k => { o with depth := k }
  | .heap kind => { o with heap := kind }
  | .showStatistics => { o with showStatistics := true }
  | .callGraphOutput path => { o with callGraphOutput := some path }
  | .pointsToOutput path => { o with pointsToOutput := some path }
  | .flowGraphOutput path => { o with flowGraphOutput := some path }
  | .input path => { o with input := some path }

end PointerAnalysis
