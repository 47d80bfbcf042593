import PointerAnalysis.Proofs.Lines
import PointerAnalysis.Proofs.Lists
import PointerAnalysis.Report.Statistics

/-! Figures read back from printed statistics. Such a text is read by its headings and by the names that stand
in front of the numbers, with no regard to how the lines were put together; all figures come out as they went
in. -/
namespace PointerAnalysis

/-! ### Reading statistics -/

namespace Figures

/-- What a line says, and the name under which it says it: the name stands between a sharp and a colon. -/
def readLine? : List Char → Option (String × List Char)
  | '#' :: rest =>
    match rest.dropWhile (· ≠ ':') with
    | ':' :: ' ' :: value => some (.ofList (rest.takeWhile (· ≠ ':')), value)
    | _ => none
  | _ => none

/-- What the lines below the heading of this title say. -/
def readBelow (title text : String) : List (String × List Char) :=
  ((text.toList.splitOn '\n').dropWhile (· ≠ (title ++ " Statistics: ").toList)).filterMap readLine?

/-- A number with nothing behind it. -/
def readCount? (value : List Char) : Option Nat :=
  match Text.readNumber value with
  | (n, []) => if value = [] then none else some n
  | _ => none

/-- The number of calls of a kind, and of their edges. -/
def readKind? (value : List Char) : Option (Nat × Nat) := do
  let calls ← readCount? (value.takeWhile (· ≠ ','))
  let edges ← (value.dropWhile (· ≠ ',')).dropPrefix? ", #call graph edges: ".toList
  return (calls, ← readCount? edges)

/-- The number that comes first under a name below a heading. -/
def readCountBelow? (title name text : String) : Option Nat :=
  ((readBelow title text).lookup name).bind readCount?

def readKindBelow? (title name text : String) : Option (Nat × Nat) :=
  ((readBelow title text).lookup name).bind readKind?

def readKinds? (title text : String) : Option KindFigures := do
  let onStatic ← readKindBelow? title "Static calls" text
  let onSpecial ← readKindBelow? title "Special calls" text
  let onVirtual ← readKindBelow? title "Virtual calls" text
  let ofKind : CallKind → Nat × Nat
    | .static => onStatic
    | .special => onSpecial
    | .virtual => onVirtual
  return ⟨fun kind => (ofKind kind).1, fun kind => (ofKind kind).2⟩

def readSets? (title text : String) : Option SetFigures := do
  let objects ← readCountBelow? title "Objects" text
  let pointers ← readCountBelow? title "Pointers" text
  let relations ← readCountBelow? title "Points-to relations" text
  return ⟨objects, pointers, relations⟩

/-- The figures that a text of statistics gives. -/
def read? (text : String) : Option Figures := do
  let contexts ← readCountBelow? "Call Graph" "Contexts" text
  let reachedInContext ← readCountBelow? "Call Graph" "Reachable CS methods" text
  let reached ← readCountBelow? "Call Graph" "Reachable CI methods" text
  let statements ← readCountBelow? "Call Graph" "Reachable statements" text
  let edgesInContext ← readCountBelow? "Call Graph" "CS call graph edges" text
  let edges ← readCountBelow? "Call Graph" "CI call graph edges" text
  let kinds ← readKinds? "Call Graph" text
  let setsInContext ← readSets? "CS Points-to" text
  let propagations ← readCountBelow? "CS Points-to" "Propagations" text
  let flowEdges ← readCountBelow? "CS Points-to" "PFG edges" text
  let sets ← readSets? "CI Points-to" text
  return { contexts, reachedInContext, reached, statements, edgesInContext, edges, kinds, setsInContext,
           propagations, flowEdges, sets }

end Figures

/-! ### Lines -/

namespace StatisticsLine

open Figures

/-- What a line says under its name. -/
def entry? : StatisticsLine → Option (String × List Char)
  | rule _ | heading _ => none
  | count name n => some (name, (toString n).toList)
  | mean name total parts => some (name, (meanText total parts).toList)
  | kind name calls edges => some (name ++ " calls",
    (toString calls).toList ++ (", #call graph edges: ".toList ++ (toString edges).toList))

def isHeading (title : String) : StatisticsLine → Bool
  | heading title' => title' = title
  | _ => false

/-- A line without its end. -/
def row : StatisticsLine → List Char
  | rule char => List.replicate 58 char
  | heading title => title.toList ++ " Statistics: ".toList
  | count name n => '#' :: name.toList ++ ':' :: ' ' :: (toString n).toList
  | mean name total parts => '#' :: name.toList ++ ':' :: ' ' :: (meanText total parts).toList
  | kind name calls edges => '#' :: (name ++ " calls").toList ++ ':' :: ' ' ::
    ((toString calls).toList ++ (", #call graph edges: ".toList ++ (toString edges).toList))

/-- The names in a line can be told from the signs around them. -/
def Plain : StatisticsLine → Prop
  | rule char => char ∉ [':', '\n']
  | heading title => '\n' ∉ title.toList ∧ title.toList.head? ≠ some '#'
  | count name _ | mean name .. | kind name .. => ':' ∉ name.toList ∧ '\n' ∉ name.toList

instance : DecidablePred Plain
  | rule _ => inferInstanceAs (Decidable (_ ∉ _))
  | heading _ => inferInstanceAs (Decidable (_ ∧ _))
  | count .. | mean .. | kind .. => inferInstanceAs (Decidable (_ ∧ _))

theorem toList_text (line : StatisticsLine) : line.text.toList = line.row ++ ['\n'] := by
  cases line <;> simp [text, row]

/-- A mean is made of digits and a point. -/
theorem newline_not_mem_meanText (total parts : Nat) : '\n' ∉ (meanText total parts).toList := by
  have padded (digits k : Nat) : '\n' ∉ List.replicate k '0' ++ (toString digits).toList := fun there =>
    (List.mem_append.mp there).elim (fun zero => absurd (List.eq_of_mem_replicate zero) (by decide))
      (Text.newline_not_mem_toString digits)
  have withPoint (digits places : Nat) : '\n' ∉ (Decimal.withPoint digits places).toList := by
    simp only [Decimal.withPoint, String.toList_append, String.toList_ofList, List.mem_append]
    rintro ((front | point) | back)
    · exact padded _ _ (List.mem_of_mem_take front)
    · exact absurd point (by decide)
    · exact padded _ _ (List.mem_of_mem_drop back)
  exact withPoint _ _

private theorem newline_not_mem_named {name : String} {value : List Char} (inName : '\n' ∉ name.toList)
    (inValue : '\n' ∉ value) : '\n' ∉ '#' :: name.toList ++ ':' :: ' ' :: value := by
  simp [inName, inValue]

theorem newline_not_mem_row {line : StatisticsLine} (plain : line.Plain) : '\n' ∉ line.row := by
  cases line with
  | rule char =>
    intro there
    obtain rfl : '\n' = char := List.eq_of_mem_replicate (n := 58) there
    exact plain (by decide)
  | heading title => exact fun there => (List.mem_append.mp there).elim plain.1 (by decide)
  | count name n => exact newline_not_mem_named plain.2 (Text.newline_not_mem_toString n)
  | mean name total parts => exact newline_not_mem_named plain.2 (newline_not_mem_meanText total parts)
  | kind name calls edges =>
    refine newline_not_mem_named (by simp [plain.2]) ?_
    have between : '\n' ∉ ", #call graph edges: ".toList := by decide
    simp only [List.mem_append, Text.newline_not_mem_toString, between, or_self, not_false_eq_true]

theorem readLine?_named {name : String} (free : ':' ∉ name.toList) (value : List Char) :
    readLine? ('#' :: name.toList ++ ':' :: ' ' :: value) = some (name, value) := by
  obtain ⟨taken, dropped⟩ := parted_iff.mpr ⟨rfl, free, (rfl : name.toList ++ ':' :: ' ' :: value = _)⟩
  simp only [List.cons_append, readLine?, dropped, taken, String.ofList_toList]

theorem readLine?_row {line : StatisticsLine} (plain : line.Plain) : readLine? line.row = line.entry? := by
  cases line with
  | rule char =>
    have unnamed : (List.replicate 57 char).dropWhile (· ≠ ':') = [] :=
      List.dropWhile_eq_nil_iff.mpr fun c there => by
        rw [List.eq_of_mem_replicate there]
        exact decide_eq_true fun same => plain (by simp [same])
    show readLine? (char :: List.replicate 57 char) = none
    unfold readLine?
    split
    · next same =>
      obtain ⟨rfl, rfl⟩ := List.cons.inj same
      rw [unnamed]
    · rfl
  | heading title =>
    obtain ⟨_, unmarked⟩ := plain
    show readLine? (title.toList ++ " Statistics: ".toList) = none
    cases chars : title.toList with
    | nil => rfl
    | cons c rest =>
      have other : c ≠ '#' := fun same => unmarked (by rw [chars, same]; rfl)
      simp [readLine?, other]
  | count name n => exact readLine?_named plain.1 _
  | mean name total parts => exact readLine?_named plain.1 _
  | kind name calls edges =>
    have free : ':' ∉ (name ++ " calls").toList := by simp [plain.1]
    exact readLine?_named free _

/-- A heading is not taken for another line. -/
theorem row_eq_heading_iff (line : StatisticsLine) {title : String} (plain : (heading title).Plain) :
    line.row = (title ++ " Statistics: ").toList ↔ line.isHeading title := by
  have unmarked (rest : List Char) : '#' :: rest ≠ title.toList ++ " Statistics: ".toList := fun same => by
    cases chars : title.toList with
    | nil => rw [chars] at same; cases same
    | cons c others =>
      rw [chars] at same
      exact plain.2 (by rw [chars, ← (List.cons.inj same).1]; rfl)
  rw [String.toList_append]
  cases line with
  | rule char =>
    -- A rule repeats one character, and a heading has two different ones at least.
    refine iff_of_false (fun same => ?_) nofun
    have each {c : Char} (there : c ∈ " Statistics: ".toList) : c = char := by
      have inside := List.mem_append_right title.toList there
      rw [← same] at inside
      exact List.eq_of_mem_replicate (n := 58) inside
    exact absurd ((each (c := ' ') (by decide)).trans (each (c := 'S') (by decide)).symm) (by decide)
  | heading title' => simp [row, isHeading, String.toList_inj]
  | count name n => exact iff_of_false (unmarked _) nofun
  | mean name total parts => exact iff_of_false (unmarked _) nofun
  | kind name calls edges => exact iff_of_false (unmarked _) nofun

theorem splitOn_report {lines : List StatisticsLine} (plain : ∀ line ∈ lines, line.Plain) :
    (report lines).toList.splitOn '\n' = lines.map row ++ [[]] := by
  have chars : (report lines).toList = (lines.map row).flatMap (· ++ ['\n']) := by
    simp only [report, String.toList_join, List.flatMap_map, toList_text]
  have single : ∀ chars ∈ lines.map row, '\n' ∉ chars :=
    List.forall_mem_map.mpr fun line there => newline_not_mem_row (plain line there)
  rw [chars, Text.splitOn_lines single]

/-- A report is read line by line. -/
theorem readBelow_report {lines : List StatisticsLine} (plain : ∀ line ∈ lines, line.Plain) {title : String}
    (plain' : (heading title).Plain) : readBelow title (report lines) =
      (lines.dropWhile fun line => !line.isHeading title).filterMap entry? := by
  have all {lines : List StatisticsLine} (plain : ∀ line ∈ lines, line.Plain) :
      (lines.map row ++ [[]]).filterMap readLine? = lines.filterMap entry? := by
    rw [List.filterMap_append, List.filterMap_map]
    exact (List.append_nil _).trans (List.filterMap_congr fun line there => readLine?_row (plain line there))
  rw [readBelow, splitOn_report plain]
  induction lines with
  | nil =>
    rw [List.map_nil, List.nil_append, List.dropWhile_cons]
    split <;> rfl
  | cons line lines ih =>
    rw [List.map_cons, List.cons_append, List.dropWhile_cons, List.dropWhile_cons]
    by_cases here : line.isHeading title
    · have same := (row_eq_heading_iff line plain').mpr here
      rw [if_neg (by rwa [decide_eq_true_iff, not_not]), if_neg (by simp [here])]
      exact all plain
    · have other := mt (row_eq_heading_iff line plain').mp here
      rw [if_pos (decide_eq_true other), if_pos (by simp [here])]
      exact ih (List.forall_mem_cons.mp plain).2

end StatisticsLine

/-! ### All figures -/

namespace Figures

theorem readCount?_toString (n : Nat) : readCount? (toString n).toList = some n := by
  have number := Text.readNumber_toString n [] (by simp)
  rw [List.append_nil] at number
  have written : (toString n).toList ≠ [] := by
    rw [Nat.toString_eq_repr, Nat.toList_repr]
    exact Nat.toDigits_ne_nil
  simp only [readCount?, number, written, if_false]

theorem readKind?_eq (calls edges : Nat) :
    readKind? ((toString calls).toList ++ (", #call graph edges: ".toList ++ (toString edges).toList)) =
      some (calls, edges) := by
  have free : ',' ∉ (toString calls).toList := fun there =>
    absurd (Text.isDigit_of_mem_toString there) (by decide)
  obtain ⟨more, comma⟩ : ∃ more, ", #call graph edges: ".toList = ',' :: more := ⟨_, rfl⟩
  obtain ⟨taken, dropped⟩ := parted_iff.mpr
    ⟨rfl, free, (rfl : (toString calls).toList ++ ',' :: (more ++ (toString edges).toList) = _)⟩
  rw [← List.cons_append, ← comma] at taken dropped
  simp only [readKind?, taken, dropped, Text.dropPrefix?_append, readCount?_toString, Option.bind_eq_bind,
    Option.bind_some, Option.pure_def]

variable (f : Figures)

theorem plain_lines : ∀ line ∈ f.lines, line.Plain := by
  simp only [lines, callLines, setLines, KindFigures.lines, List.forall_mem_cons, List.cons_append,
    List.nil_append, List.not_mem_nil, false_imp_iff, implies_true, and_true]
  simp only [StatisticsLine.Plain]
  and_intros <;> decide

private theorem readCountBelow?_report (title name : String) (n : Nat)
    (plain : (StatisticsLine.heading title).Plain)
    (found : ((f.lines.dropWhile fun line => !line.isHeading title).filterMap StatisticsLine.entry?).lookup name =
      some (toString n).toList) : readCountBelow? title name (StatisticsLine.report f.lines) = some n := by
  rw [readCountBelow?, StatisticsLine.readBelow_report f.plain_lines plain, found, Option.bind_some,
    readCount?_toString]

private theorem readKindBelow?_report (name : String) (calls edges : Nat)
    (found : ((f.lines.dropWhile fun line => !line.isHeading "Call Graph").filterMap
      StatisticsLine.entry?).lookup name =
      some ((toString calls).toList ++ (", #call graph edges: ".toList ++ (toString edges).toList))) :
    readKindBelow? "Call Graph" name (StatisticsLine.report f.lines) = some (calls, edges) := by
  rw [readKindBelow?, StatisticsLine.readBelow_report f.plain_lines (by decide), found, Option.bind_some,
    readKind?_eq]

private theorem readKinds?_report :
    readKinds? "Call Graph" (StatisticsLine.report f.lines) = some f.kinds := by
  have onStatic := f.readKindBelow?_report "Static calls" _ _ rfl
  have onSpecial := f.readKindBelow?_report "Special calls" _ _ rfl
  have onVirtual := f.readKindBelow?_report "Virtual calls" _ _ rfl
  simp only [readKinds?, onStatic, onSpecial, onVirtual, Option.bind_eq_bind, Option.bind_some, Option.pure_def,
    Option.some.injEq]
  refine congrArg₂ KindFigures.mk (funext fun kind => ?_) (funext fun kind => ?_) <;> cases kind <;> rfl

/-- All figures are read back from their printed form. -/
theorem read?_report : read? (StatisticsLine.report f.lines) = some f := by
  have onCalls (name : String) (n : Nat) := f.readCountBelow?_report "Call Graph" name n (by decide)
  have onSets (name : String) (n : Nat) := f.readCountBelow?_report "CS Points-to" name n (by decide)
  have onMerged (name : String) (n : Nat) := f.readCountBelow?_report "CI Points-to" name n (by decide)
  have setsInContext : readSets? "CS Points-to" (StatisticsLine.report f.lines) = some f.setsInContext := by
    rw [readSets?, onSets "Objects" _ rfl, onSets "Pointers" _ rfl, onSets "Points-to relations" _ rfl]
    rfl
  have sets : readSets? "CI Points-to" (StatisticsLine.report f.lines) = some f.sets := by
    rw [readSets?, onMerged "Objects" _ rfl, onMerged "Pointers" _ rfl, onMerged "Points-to relations" _ rfl]
    rfl
  rw [read?, onCalls "Contexts" _ rfl, onCalls "Reachable CS methods" _ rfl,
    onCalls "Reachable CI methods" _ rfl, onCalls "Reachable statements" _ rfl,
    onCalls "CS call graph edges" _ rfl, onCalls "CI call graph edges" _ rfl, f.readKinds?_report, setsInContext,
    onSets "Propagations" _ rfl, onSets "PFG edges" _ rfl, sets]
  rfl

end Figures

end PointerAnalysis
