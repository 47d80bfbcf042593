import PointerAnalysis.Proofs.CallGraphHistories
import PointerAnalysis.Proofs.Except
import PointerAnalysis.Proofs.FlowGraphHistories
import PointerAnalysis.Proofs.Lines
import PointerAnalysis.Report.Listing

/-! Drawings can be read back. A row says by itself which node or which edge it is for, whatever stands in its
label, and no label breaks a line; so the rows between the first line and the last one give back all labels
and the places of all ends. Graphs whose drawings have one text are the same as far as their labels say. -/
namespace PointerAnalysis

/-! ### Rows -/

/-- A line of a drawing between the first one and the last one. -/
inductive DrawingRow where
  | node (index : Nat) (label : String)
  | edge (source target : Nat) (label : String)
  deriving DecidableEq

namespace DrawingRow

/-- A quoted label as it stands at the end of a row. -/
def labelText (label : String) : String := " [ label = " ++ Text.quoted label ++ "]"

def text : DrawingRow → String
  | node index label => "    " ++ toString index ++ labelText label
  | edge source target label => "    " ++ toString source ++ " -> " ++ toString target ++ labelText label

def asNode : DrawingRow → Option String
  | node _ label => some label
  | edge .. => none

def asEdge : DrawingRow → Option (Nat × Nat × String)
  | node .. => none
  | edge source target label => some (source, target, label)

/-- Reads a label with nothing behind it. -/
def readLabel? (row : List Char) : Option String := do
  let (label, rest) ← Text.readQuoted (← row.dropPrefix? " [ label = ".toList)
  if rest = [']'] then some label else none

def read? (row : List Char) : Option DrawingRow := do
  let (first, rest) := Text.readNumber (← row.dropPrefix? "    ".toList)
  match rest.dropPrefix? " -> ".toList with
  | none => return node first (← readLabel? rest)
  | some rest =>
    let (second, rest) := Text.readNumber rest
    return edge first second (← readLabel? rest)

theorem toList_labelText (label : String) :
    (labelText label).toList = " [ label = ".toList ++ ((Text.quoted label).toList ++ [']']) := by
  rw [labelText, String.toList_append, String.toList_append, List.append_assoc]
  rfl

private theorem labelText_begins (label : String) : ∃ more, (labelText label).toList = ' ' :: '[' :: more := by
  obtain ⟨more, begins⟩ : ∃ more, " [ label = ".toList = ' ' :: '[' :: more := ⟨_, rfl⟩
  rw [toList_labelText, begins]
  exact ⟨_, rfl⟩

theorem readLabel?_labelText (label : String) : readLabel? (labelText label).toList = some label := by
  rw [readLabel?, toList_labelText, Text.dropPrefix?_append]
  simp [Text.readQuoted_quoted]

/-- What a row says is read back from it. -/
theorem read?_text (row : DrawingRow) : read? row.text.toList = some row := by
  cases row with
  | node index label =>
    have chars : (node index label).text.toList =
        "    ".toList ++ ((toString index).toList ++ (labelText label).toList) := by
      rw [text, String.toList_append, String.toList_append, List.append_assoc]
    have last := readLabel?_labelText label
    obtain ⟨more, begins⟩ := labelText_begins label
    rw [begins] at chars last
    have noArrow : (' ' :: '[' :: more).dropPrefix? " -> ".toList = none := by simp [List.dropPrefix?]
    have number := Text.readNumber_toString index (' ' :: '[' :: more) (by simp)
    simp only [read?, chars, Text.dropPrefix?_append, number, noArrow, last, Option.bind_eq_bind,
      Option.bind_some, Option.pure_def]
  | edge source target label =>
    have chars : (edge source target label).text.toList = "    ".toList ++ ((toString source).toList ++
        (" -> ".toList ++ ((toString target).toList ++ (labelText label).toList))) := by
      simp only [text, String.toList_append, List.append_assoc]
    have last := readLabel?_labelText label
    obtain ⟨more, begins⟩ := labelText_begins label
    rw [begins] at chars last
    have first := Text.readNumber_toString source
      (" -> ".toList ++ ((toString target).toList ++ ' ' :: '[' :: more)) (by simp)
    have second := Text.readNumber_toString target (' ' :: '[' :: more) (by simp)
    simp only [read?, chars, Text.dropPrefix?_append, first, second, last, Option.bind_eq_bind,
      Option.bind_some, Option.pure_def]

/-- A row is one line, whatever its label holds. -/
theorem newline_not_mem_text (row : DrawingRow) : '\n' ∉ row.text.toList := by
  have label (l : String) : '\n' ∉ (labelText l).toList := by
    have quoted : '\n' ∉ (Text.quoted l).toList := fun there =>
      absurd (Text.visible_quoted there) (by decide)
    rw [toList_labelText, List.mem_append, List.mem_append]
    rintro (mark | inside | bracket)
    · exact absurd mark (by decide)
    · exact quoted inside
    · exact absurd bracket (by decide)
  have indent : '\n' ∉ "    ".toList := by decide
  have arrow : '\n' ∉ " -> ".toList := by decide
  cases row <;> simp only [text, String.toList_append, List.mem_append, Text.newline_not_mem_toString, label,
    indent, arrow, or_self, not_false_eq_true]

end DrawingRow

namespace Drawing

/-- A row for each node, numbered in order, and one for each edge. -/
def rows (d : Drawing) : List DrawingRow :=
  d.nodes.zipIdx.map (fun node => .node node.2 node.1) ++ d.edges.map fun edge => .edge edge.1 edge.2.1 edge.2.2

def firstLine : List Char := "digraph \x7b".toList

def lastLine : List Char := "\x7d".toList

/-- Reads a drawing line by line. -/
def read? (text : String) : Option Drawing :=
  match text.toList.splitOn '\n' with
  | [] => none
  | first :: others => do
    let between := others.dropLast.dropLast
    if first = firstLine ∧ others = between ++ [lastLine, []] then
      let rows ← between.mapM DrawingRow.read?
      return ⟨rows.filterMap DrawingRow.asNode, rows.filterMap DrawingRow.asEdge⟩
    else none

def lines (d : Drawing) : List (List Char) := firstLine :: d.rows.map (·.text.toList) ++ [lastLine]

private theorem toList_label (text : String) :
    (label text).toList = (DrawingRow.labelText text).toList ++ ['\n'] := by
  have bracket : "]\n".toList = "]".toList ++ ['\n'] := rfl
  simp only [label, DrawingRow.labelText, String.toList_append, bracket, List.append_assoc]

theorem toList_nodeLine (node : String × Nat) :
    (nodeLine node).toList = (DrawingRow.node node.2 node.1).text.toList ++ ['\n'] := by
  simp only [nodeLine, DrawingRow.text, String.toList_append, toList_label, List.append_assoc]

theorem toList_edgeLine (edge : Nat × Nat × String) :
    (edgeLine edge).toList = (DrawingRow.edge edge.1 edge.2.1 edge.2.2).text.toList ++ ['\n'] := by
  simp only [edgeLine, DrawingRow.text, String.toList_append, toList_label, List.append_assoc]

theorem toList_dot (d : Drawing) : d.dot.toList = d.lines.flatMap (· ++ ['\n']) := by
  have opening : "digraph \x7b\n".toList = firstLine ++ ['\n'] := rfl
  have closing : "\x7d\n".toList = lastLine ++ ['\n'] := rfl
  simp only [dot, lines, rows, String.toList_append, String.toList_join, opening, closing, List.flatMap_cons,
    List.flatMap_append, List.flatMap_map, List.map_append, List.cons_append, List.flatMap_nil, List.append_nil,
    List.append_assoc, toList_nodeLine, toList_edgeLine]

theorem newline_not_mem_lines (d : Drawing) : ∀ line ∈ d.lines, '\n' ∉ line := by
  intro line there
  rw [lines, List.mem_append, List.mem_cons, List.mem_singleton, List.mem_map] at there
  rcases there with (rfl | ⟨row, _, rfl⟩) | rfl
  · decide
  · exact row.newline_not_mem_text
  · decide

theorem splitOn_dot (d : Drawing) : d.dot.toList.splitOn '\n' = d.lines ++ [[]] := by
  rw [toList_dot, Text.splitOn_lines d.newline_not_mem_lines]

private theorem mapM_read?_text (rows : List DrawingRow) :
    (rows.map (·.text.toList)).mapM DrawingRow.read? = some rows := by
  induction rows with
  | nil => rfl
  | cons row rows ih =>
    rw [List.map_cons, List.mapM_cons, row.read?_text, ih]
    rfl

theorem asNode_rows (d : Drawing) : d.rows.filterMap DrawingRow.asNode = d.nodes := by
  simp [rows, Function.comp_def, DrawingRow.asNode]

theorem asEdge_rows (d : Drawing) : d.rows.filterMap DrawingRow.asEdge = d.edges := by
  simp [rows, Function.comp_def, DrawingRow.asEdge]

/-- The text of a drawing is read as the drawing. -/
theorem read?_dot (d : Drawing) : read? d.dot = some d := by
  have between : (d.rows.map (·.text.toList) ++ [lastLine, []]).dropLast.dropLast = d.rows.map (·.text.toList) := by
    simp
  have split : d.dot.toList.splitOn '\n' = firstLine :: (d.rows.map (·.text.toList) ++ [lastLine, []]) := by
    rw [splitOn_dot, lines, List.cons_append, List.cons_append, List.append_assoc]
    rfl
  simp only [read?, split, between, and_self, if_true, mapM_read?_text, asNode_rows, asEdge_rows,
    Option.bind_eq_bind, Option.bind_some, Option.pure_def]

example : (Drawing.mk ["a\"b", "\n"] [(0, 1, "c")]).dot =
    "digraph \x7b\n    0 [ label = \"a\\\"b\"]\n    1 [ label = \"\\n\"]\n    0 -> 1 [ label = \"c\"]\n\x7d\n" := by
  decide

/-- The text of a drawing says all that is in it. -/
structure Legible (d : Drawing) : Prop where
  /-- A line for each node and one for each edge stand between the first line and the last one. -/
  lines : d.dot.toList.splitOn '\n' = firstLine :: d.rows.map (·.text.toList) ++ [lastLine, []]
  length_rows : d.rows.length = d.nodes.length + d.edges.length
  /-- Each of these lines says what it says without the others. -/
  read?_row : ∀ row ∈ d.rows, DrawingRow.read? row.text.toList = some row
  read? : read? d.dot = some d
  /-- No other drawing has the same text. -/
  unique : ∀ d' : Drawing, d'.dot = d.dot → d' = d

theorem legible (d : Drawing) : d.Legible where
  lines := by
    rw [splitOn_dot, Drawing.lines, List.append_assoc]
    rfl
  length_rows := by rw [rows, List.length_append, List.length_map, List.length_map, List.length_zipIdx]
  read?_row row _ := row.read?_text
  read? := d.read?_dot
  unique d' same := by
    have read := d'.read?_dot
    rw [same, d.read?_dot] at read
    exact (Option.some.inj read).symm

/-! ### Graphs -/

section Graphs

variable {α β : Type}

/-- Edges with their labels and those of their ends. -/
def labelledEdges (nodeLabel : α → String) (edges : List β) (source target : β → α)
    (edgeLabel : β → String) : List (String × String × String) :=
  edges.map fun e => (nodeLabel (source e), nodeLabel (target e), edgeLabel e)

/-- A drawing has the labels of these nodes and edges, and its edges join the places of their ends. -/
structure Shows (d : Drawing) (nodes : List α) (nodeLabel : α → String) (edges : List β)
    (source target : β → α) (edgeLabel : β → String) : Prop where
  nodeLabels : d.nodes = nodes.map nodeLabel
  places : List.Forall₂ (fun e drawn => nodes[drawn.1]? = some (source e) ∧
    nodes[drawn.2.1]? = some (target e) ∧ drawn.2.2 = edgeLabel e) edges d.edges

variable {d : Drawing} {nodes : List α} {nodeLabel : α → String} {edges : List β} {source target : β → α}
  {edgeLabel : β → String}

/-- The edges with their labels and those of their ends can be told from a drawing. -/
theorem Shows.labelled (shows : d.Shows nodes nodeLabel edges source target edgeLabel) :
    (labelledEdges nodeLabel edges source target edgeLabel).map (fun e => (some e.1, some e.2.1, e.2.2)) =
      d.edges.map fun drawn => (d.nodes[drawn.1]?, d.nodes[drawn.2.1]?, drawn.2.2) := by
  rw [labelledEdges, List.map_map, ← List.forall₂_eq_eq_eq, List.forall₂_map_left_iff,
    List.forall₂_map_right_iff]
  refine shows.places.imp fun e drawn ⟨source, target, label⟩ => ?_
  simp [shows.nodeLabels, source, target, label]

/-- The text of a drawing can be read back, and only what has the same nodes and edges, as far as labels and
places say, has the same text. -/
structure ReadsBack (d : Drawing) (nodes : List α) (nodeLabel : α → String) (edges : List β)
    (source target : β → α) (edgeLabel : β → String) : Prop where
  legible : d.Legible
  shows : d.Shows nodes nodeLabel edges source target edgeLabel
  same_text : ∀ {α' β' : Type} {d' : Drawing} {nodes' : List α'} {nodeLabel' : α' → String}
    {edges' : List β'} {source' target' : β' → α'} {edgeLabel' : β' → String},
    d'.Shows nodes' nodeLabel' edges' source' target' edgeLabel' → d'.dot = d.dot →
      d'.edges = d.edges ∧ nodes'.map nodeLabel' = nodes.map nodeLabel ∧
        labelledEdges nodeLabel' edges' source' target' edgeLabel' =
          labelledEdges nodeLabel edges source target edgeLabel

theorem Shows.readsBack (shows : d.Shows nodes nodeLabel edges source target edgeLabel) :
    d.ReadsBack nodes nodeLabel edges source target edgeLabel where
  legible := d.legible
  shows := shows
  same_text {_ _ d' _ _ _ _ _ _} shows' same := by
    obtain rfl := d.legible.unique d' same
    refine ⟨rfl, shows'.nodeLabels.symm.trans shows.nodeLabels, ?_⟩
    have injective : Function.Injective fun e : String × String × String => (some e.1, some e.2.1, e.2.2) := by
      rintro ⟨_, _, _⟩ ⟨_, _, _⟩ equal
      simpa using equal
    exact injective.list_map (shows'.labelled.trans shows.labelled.symm)

/-- Edges are drawn between the places of their ends. -/
theorem shows_of_registry [Coded α] {nodes : Registry α}
    (ends : ∀ e ∈ edges, source e ∈ nodes.toList ∧ target e ∈ nodes.toList) :
    Shows ⟨nodes.toList.map nodeLabel,
        edges.map fun e => (nodes.idxOf (source e), nodes.idxOf (target e), edgeLabel e)⟩
      nodes.toList nodeLabel edges source target edgeLabel where
  nodeLabels := rfl
  places := by
    rw [List.forall₂_map_right_iff, List.forall₂_same]
    intro e there
    exact ⟨Registry.getElem?_idxOf (ends e there).1, Registry.getElem?_idxOf (ends e there).2, rfl⟩

end Graphs

end Drawing

/-- The kinds of flow edges have nothing to escape in their names. -/
theorem FlowKind.quoted_text (kind : FlowKind) : Text.quoted kind.text = "\"" ++ kind.text ++ "\"" := by
  cases kind <;> decide

/-- The text of a call graph with these names of functions and call sites can be read back. -/
def CallGraph.ReadsBack {function site : Entity} (g : CallGraph function site) (name : Id function → String)
    (siteName : Id site → String) : Prop :=
  (g.drawing (g.nodes.toList.map name) siteName).ReadsBack g.nodes.toList name g.edges.toList
    (·.caller) (·.callee) fun e => siteName e.site ++ " (" ++ e.kind.text ++ ")"

/-- The text of a flow graph with these names of pointers can be read back. -/
def FlowGraph.ReadsBack (g : FlowGraph) (name : PointerId → String) : Prop :=
  (g.drawing (g.nodes.toList.map name)).ReadsBack g.nodes.toList name g.edges.toList
    (·.source) (·.target) (·.kind.text)

theorem CallGraph.readsBack_after {function site : Entity} (edits : List (CallGraphEdit function site))
    (name : Id function → String) (siteName : Id site → String) : (after edits).ReadsBack name siteName := by
  refine (Drawing.shows_of_registry fun e there => ?_).readsBack
  have spanned := (holds_after edits).spanned
  exact ⟨(spanned _).mpr (.inr (.inr ⟨e, there, .inl rfl⟩)), (spanned _).mpr (.inr (.inr ⟨e, there, .inr rfl⟩))⟩

theorem FlowGraph.readsBack_after (requests : List FlowEdge) (name : PointerId → String) :
    (after requests).ReadsBack name := by
  refine (Drawing.shows_of_registry fun e there => ?_).readsBack
  have spanned := spanned_after requests
  exact ⟨(spanned _).mpr ⟨e, there, .inl rfl⟩, (spanned _).mpr ⟨e, there, .inr rfl⟩⟩

/-- The text of a call graph, and that of a flow graph, can be read back, whatever the labels are. A label ends
at its closing quote and stays on its line; that of a call edge is quoted as a whole, and that of a flow
edge stands as it is. -/
theorem drawings_read_back {function site : Entity} (edits : List (CallGraphEdit function site))
    (functionName : Id function → String) (siteName : Id site → String) (requests : List FlowEdge)
    (pointerName : PointerId → String) :
    (CallGraph.after edits).ReadsBack functionName siteName ∧
      (FlowGraph.after requests).ReadsBack pointerName ∧
      (∀ s rest, Text.readQuoted ((Text.quoted s).toList ++ rest) = some (s, rest)) ∧
      (∀ s, ∀ c ∈ (Text.quoted s).toList, Text.isUnprintable c = false) ∧
      ∀ kind : FlowKind, Text.quoted kind.text = "\"" ++ kind.text ++ "\"" :=
  ⟨CallGraph.readsBack_after edits functionName siteName, FlowGraph.readsBack_after requests pointerName,
    Text.readQuoted_quoted, fun _ _ => Text.visible_quoted, FlowKind.quoted_text⟩

/-! ### Reports -/

namespace Solution

variable {E S : Type} [Coded E] {r : Solution E S} {text : String}

/-- The drawing that is written of a call graph gives back the names of its methods and call sites. -/
theorem read?_callGraphText (written : r.callGraphText = .ok text) :
    ∃ calls names, r.mergedCalls = .ok calls ∧
      calls.nodes.toList.mapM r.analysis.program.methodName = .ok names ∧
      Drawing.read? text = some (calls.drawing names Id.text) := by
  obtain ⟨calls, merged, written⟩ := bind_eq_ok_iff.mp written
  obtain ⟨names, named, same⟩ := bind_eq_ok_iff.mp written
  cases same
  exact ⟨calls, names, merged, named, Drawing.read?_dot _⟩

theorem read?_flowGraphText (written : r.flowGraphText = .ok text) :
    ∃ names, r.state.flow.nodes.toList.mapM r.pointerLabel = .ok names ∧
      Drawing.read? text = some (r.state.flow.drawing names) := by
  obtain ⟨names, named, same⟩ := bind_eq_ok_iff.mp written
  cases same
  exact ⟨names, named, Drawing.read?_dot _⟩

end Solution

end PointerAnalysis
