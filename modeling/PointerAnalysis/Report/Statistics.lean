import PointerAnalysis.Report.Labels
import PointerAnalysis.Text.Decimal

/-! Statistics of an analysis, with contexts and with contexts dropped: first as figures, then as lines of
text. -/
namespace PointerAnalysis

/-- A mean with two decimal places; the mean of nothing is zero. -/
def meanText (total count : Nat) : String :=
  Decimal.fixed 2 (if count = 0 then 0 else Float.ofNat total / Float.ofNat count)

/-- A line of statistics. -/
inductive StatisticsLine where
  | rule (char : Char)
  | heading (title : String)
  | count (name : String) (n : Nat)
  | mean (name : String) (total parts : Nat)
  /-- The calls of a kind and their edges. -/
  | kind (name : String) (calls edges : Nat)

namespace StatisticsLine

def text : StatisticsLine → String
  | rule char => String.ofList (List.replicate 58 char) ++ "\n"
  | heading title => title ++ " Statistics: \n"
  | count name n => "#" ++ name ++ ": " ++ toString n ++ "\n"
  | mean name total parts => "#" ++ name ++ ": " ++ meanText total parts ++ "\n"
  | kind name calls edges => "#" ++ name ++ " calls: " ++ toString calls ++ ", #call graph edges: "
    ++ toString edges ++ "\n"

/-- Lines one after another. -/
def report (lines : List StatisticsLine) : String := String.join (lines.map text)

end StatisticsLine

/-- How many calls there are of each kind, and how many edges. -/
structure KindFigures where
  calls : CallKind → Nat
  edges : CallKind → Nat

/-- The figures of each kind (`write_call_kind_counts`). -/
def KindFigures.lines (f : KindFigures) : List StatisticsLine :=
  [.kind "Static" (f.calls .static) (f.edges .static), .kind "Special" (f.calls .special) (f.edges .special),
    .kind "Virtual" (f.calls .virtual) (f.edges .virtual)]

/-- How many objects, pointers and relations there are, with contexts or with contexts dropped. -/
structure SetFigures where
  objects : Nat
  pointers : Nat
  relations : Nat

/-- The figures that the statistics of an analysis give, with contexts and with contexts dropped. -/
structure Figures where
  contexts : Nat
  reachedInContext : Nat
  reached : Nat
  /-- The statements of all methods that are reached. -/
  statements : Nat
  edgesInContext : Nat
  edges : Nat
  kinds : KindFigures
  setsInContext : SetFigures
  propagations : Nat
  flowEdges : Nat
  sets : SetFigures

namespace Figures

variable (f : Figures)

/-- The part on the call graph (`cs_call_graph_stat`). -/
def callLines : List StatisticsLine :=
  [.heading "Call Graph",
    .count "Contexts" f.contexts,
    .count "Reachable CS methods" f.reachedInContext,
    .count "Reachable CI methods" f.reached,
    .mean "Avg contexts per method" f.reachedInContext f.reached,
    .count "Reachable statements" f.statements,
    .count "CS call graph edges" f.edgesInContext,
    .count "CI call graph edges" f.edges] ++ f.kinds.lines

/-- The part on points-to sets (`write_pts_stat`). -/
def setLines : List StatisticsLine :=
  [.heading "CS Points-to",
    .count "Objects" f.setsInContext.objects,
    .count "Pointers" f.setsInContext.pointers,
    .count "Points-to relations" f.setsInContext.relations,
    .mean "Avg points-to size" f.setsInContext.relations f.setsInContext.pointers,
    .count "Propagations" f.propagations,
    .count "PFG edges" f.flowEdges,
    .heading "CI Points-to",
    .count "Objects" f.sets.objects,
    .count "Pointers" f.sets.pointers,
    .count "Points-to relations" f.sets.relations,
    .mean "Avg points-to size" f.sets.relations f.sets.pointers]

/-- All lines, between rules (`write_stats`). -/
def lines : List StatisticsLine :=
  .rule '#' :: f.callLines ++ .rule '-' :: f.setLines ++ [.rule '#']

end Figures

namespace CallGraph

variable {function site : Entity}

/-- The first edge of each call site. -/
def firstEdges (seen : List (Id site)) :
    List (CallEdge function site) → List (CallEdge function site)
  | [] => []
  | e :: others =>
    if e.site ∈ seen then firstEdges seen others
    else e :: firstEdges (e.site :: seen) others

/-- How many call sites there are whose first edge is of a kind. -/
def callsOfKind (g : CallGraph function site) (kind : CallKind) : Nat :=
  (firstEdges [] g.edges.toList).countP (·.kind = kind)

def edgesOfKind (g : CallGraph function site) (kind : CallKind) : Nat :=
  g.edges.toList.countP (·.kind = kind)

/-- The first edge of a call site counts it as a call of its kind (`count_call_kinds`). -/
def kinds (g : CallGraph function site) : KindFigures := ⟨g.callsOfKind, g.edgesOfKind⟩

/-- The statistics of a call graph by itself (`ci_call_graph_stat`). -/
def statistics (g : CallGraph function site) : String :=
  StatisticsLine.report ([.heading "Call Graph", .count "Reachable methods" g.reached.size,
    .count "Call graph edges" g.edges.size] ++ g.kinds.lines)

end CallGraph

/-- A pointer with the context dropped. -/
inductive MergedPointer where
  | var (var : VarId)
  | field (object : ObjectId) (field : FieldId)
  deriving DecidableEq

instance : Coded MergedPointer where
  code
    | .var var => [0, var.index]
    | .field object field => [1, object.index, field.index]
  code_injective {a b} same := by
    cases a <;> cases b <;> simp_all [Id.ext_iff]

namespace Solution

variable {E S : Type} [Coded E] [IdSet S .contextObject] (r : Solution E S)

def mergedObject (id : ContextObjectId) : Except UnknownId ObjectId := do
  let entry ← r.state.canon.contextObject id
  return entry.object

def mergedPointer (p : Pointer) : Except UnknownId MergedPointer := do
  match p with
  | .var _ var => return .var var
  | .field object field => return .field (← r.mergedObject object) field

/-- The pairs of a pointer and one of its objects. -/
def relations : List (PointerId × ContextObjectId) :=
  r.state.canon.pointerList.flatMap fun entry => (r.objectsOf entry.1).map fun o => (entry.1, o)

/-- The distinct pointers with contexts dropped. -/
def mergedPointers : Except UnknownId (Registry MergedPointer) := do
  let all ← r.state.canon.pointerList.mapM fun entry => r.mergedPointer entry.2
  return .ofList all

/-- The distinct pairs of a pointer and one of its objects, with contexts dropped. -/
def mergedRelations : Except UnknownId (Registry (MergedPointer × ObjectId)) := do
  let all ← r.state.canon.pointerList.mapM fun entry => do
    let pointer ← r.mergedPointer entry.2
    let objects ← (r.objectsOf entry.1).mapM r.mergedObject
    return objects.map fun o => (pointer, o)
  return .ofList all.flatten

/-- How many statements the reachable methods have. -/
def reachableStatements (methods : List MethodId) : Except UnknownId Nat := do
  let sizes ← methods.mapM fun id => do
    let method ← r.analysis.program.method id
    return method.body.size
  return sizes.foldl (· + ·) 0

/-- The figures of the results. -/
def figures : Except UnknownId Figures := do
  let canon := r.state.canon
  let calls := r.state.calls
  let merged ← r.mergedCalls
  let statements ← r.reachableStatements merged.reached.toList
  let pointers ← r.mergedPointers
  let relations ← r.mergedRelations
  return {
    contexts := canon.contexts.size
    reachedInContext := calls.reached.size
    reached := merged.reached.size
    statements
    edgesInContext := calls.edges.size
    edges := merged.edges.size
    kinds := merged.kinds
    setsInContext := ⟨canon.contextObjects.size, canon.pointers.size, r.relations.length⟩
    propagations := r.state.propagations
    flowEdges := r.state.flow.edges.size
    sets := ⟨canon.objects.size, pointers.size, relations.size⟩ }

def statistics : Except UnknownId String := do
  let f ← r.figures
  return StatisticsLine.report f.lines

end Solution

end PointerAnalysis
