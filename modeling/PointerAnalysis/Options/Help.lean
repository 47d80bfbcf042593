/-! The help text of the command line tool: each argument with its explanation below. Full help
prefers the longer wording and lists values apart, brief help says all in one go. -/
namespace PointerAnalysis

/-- Fills lines of `width` columns with words, as many on each as it holds. -/
def fillLines (width : Nat) : List String → List String
  | [] => []
  | word :: words => extend word words
where
  /-- Goes on with a line that holds something. -/
  extend (line : String) : List String → List String
    | [] => [line]
    | word :: words =>
      if line.length + 1 + word.length ≤ width then extend (line ++ " " ++ word) words
      else line :: extend word words

/-- How an argument is explained. -/
structure Explanation where
  /-- The argument as it is written, indented. -/
  heading : String
  summary : String
  /-- What full help says in place of the summary. -/
  details : Option String
  /-- The values it may have, if they are listed. -/
  choices : List String

namespace Explanation

def choicesText (e : Explanation) : String :=
  if e.choices.isEmpty then ""
  else "[possible values: " ++ ", ".intercalate e.choices ++ "]"

/-- The heading with a text below it, in lines that leave a margin. -/
def withLines (e : Explanation) (lines : List String) : String :=
  "\n".intercalate (e.heading :: lines.map ("            " ++ ·))

/-- The lines that a text fills beside the margin. -/
def filled (text : String) : List String :=
  fillLines 88 ((text.splitOn " ").filter (· ≠ ""))

/-- The details, with the values on a line of their own. -/
def full (e : Explanation) : String :=
  let choices := if e.choices.isEmpty then [] else "" :: filled e.choicesText
  e.withLines (filled (e.details.getD e.summary) ++ choices)

/-- The summary, followed by the values. -/
def brief (e : Explanation) : String := e.withLines (filled (e.summary ++ " " ++ e.choicesText))

end Explanation

def inputExplanation : Explanation :=
  ⟨"    <INPUT>", "The JSON description of the program to be analyzed.", none, []⟩

/-- The options in the order of their names. -/
def optionExplanations : List Explanation := [
  ⟨"        --context-depth <context-depth>",
    "The context depth limit for a context-sensitive pointer analysis [default: 1].", none, []⟩,
  ⟨"        --dump-call-graph <call-graph-output>",
    "Dump the call graph in DOT format to the output file.", none, []⟩,
  ⟨"        --dump-pfg <pfg-output>",
    "Dump the pointer flow graph in DOT format to the output file.", none, []⟩,
  ⟨"        --dump-pts <pts-output>",
    "Dump points-to results to the output file, or `stdout`.", none, []⟩,
  ⟨"        --dump-stats", "Dump the statistics of the analysis results.", none, []⟩,
  ⟨"        --entry-func <entry-func-name>",
    "The `Type.method` name of the entry method from which the pointer analysis begins.",
    some "Overrides the entry methods declared in the input program.", []⟩,
  ⟨"    -h, --help", "Print help information", none, []⟩,
  ⟨"        --heap-model <heap-model>",
    "How allocation sites are abstracted [default: alloc-site].", none,
    ["alloc-site", "type"]⟩,
  ⟨"        --pta-type <pta-type>",
    "The type of pointer analysis [default: callsite-sensitive].",
    some ("Context-insensitive (andersen), callsite-sensitive and object-sensitive "
      ++ "analyses are supported."),
    ["andersen", "ander", "ci", "callsite-sensitive", "cs", "object-sensitive", "obj"]⟩,
  ⟨"    -V, --version", "Print version information", none, []⟩]

def versionText : String := "pta 0.1.0\n"

/-- The help text, full or brief. -/
def helpText (full : Bool) : String :=
  let input :=
    if full then inputExplanation.full
    else inputExplanation.heading ++ "    " ++ inputExplanation.summary
  let options := optionExplanations.map fun e => if full then e.full else e.brief
  versionText ++ "\nUSAGE:\n    pta [OPTIONS] INPUT\n\nARGS:\n" ++ input ++ "\n\nOPTIONS:\n"
    ++ "\n\n".intercalate options ++ "\n"

end PointerAnalysis
