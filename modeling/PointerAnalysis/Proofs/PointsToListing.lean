import PointerAnalysis.Proofs.ContextNames
import PointerAnalysis.Proofs.Lines
import PointerAnalysis.Proofs.MergedListing
import PointerAnalysis.Proofs.OrderIndependence

/-! The listing of points-to sets under contexts. Every pointer that holds something has a record of its own,
whatever it is called, and the record has one name for each of the objects. Names are printed as they are, so a
record is one line unless a name holds a line break. Records come in an order that depends on nothing but what
they say, so where contexts are not printed by numbers of objects, all representations of sets lead to the same
text. -/
namespace PointerAnalysis

/-! ### Records -/

/-- What a listing has to say of a pointer: its name, and those of its objects. -/
structure ListedPointer where
  pointer : PointerId
  name : String
  objects : List String

/-- The words of a record, with a blank between any two of them. -/
def ListedPointer.record (e : ListedPointer) : String :=
  " ".intercalate (e.name :: "==>" :: "\x7b" :: e.objects ++ ["\x7d"])

/-- All that a record says, in the order in which records are compared. -/
def ListedPointer.content (e : ListedPointer) : List String := e.name :: e.objects

theorem ListedPointer.newline_not_mem_record {e : ListedPointer} (name : '\n' ∉ e.name.toList)
    (objects : ∀ label ∈ e.objects, '\n' ∉ label.toList) : '\n' ∉ e.record.toList := by
  intro there
  rcases mem_intercalate there with between | ⟨word, listed, here⟩
  · exact absurd between (by decide)
  · simp only [List.mem_cons, List.mem_append, List.not_mem_nil, or_false] at listed
    rcases listed with (rfl | rfl | rfl | listed) | rfl
    · exact name here
    · exact absurd here (by decide)
    · exact absurd here (by decide)
    · exact objects word listed here
    · exact absurd here (by decide)

theorem intercalate_words (first last : String) (words : List String) :
    " ".intercalate (first :: words ++ [last]) =
      first ++ " " ++ String.join (words.map (· ++ " ")) ++ last := by
  induction words generalizing first with
  | nil => simp [String.intercalate_cons_cons]
  | cons word words ih =>
    rw [List.cons_append, List.cons_append, String.intercalate_cons_cons, ← List.cons_append, ih, List.map_cons,
      String.join_cons]
    simp only [String.append_assoc]

/-! ### Lines in order -/

namespace PointsToLine

/-- What a line says of a pointer. -/
def listed (q : PointerId) (line : PointsToLine) : ListedPointer := ⟨q, line.pointer, line.objects.toList⟩

/-- All that a line says, in the order in which lines are compared. -/
def content (line : PointsToLine) : List String := line.pointer :: line.objects.toList

theorem text_eq (q : PointerId) (line : PointsToLine) : line.text = (line.listed q).record ++ "\n" := by
  have words := intercalate_words line.pointer "\x7d" ("==>" :: "\x7b" :: line.objects.toList)
  rw [ListedPointer.record]
  refine .trans ?_ (congrArg (· ++ "\n") words.symm)
  have arrow : " ==> \x7b " = " " ++ ("==>" ++ " ") ++ ("\x7b" ++ " ") := rfl
  have closing : "\x7d\n" = "\x7d" ++ "\n" := rfl
  simp only [text, List.map_cons, String.join_cons, arrow, closing, String.append_assoc]

theorem text_eq_of_content {a b : PointsToLine} (same : a.content = b.content) : a.text = b.text := by
  obtain ⟨pointer, objects⟩ := List.cons.inj same
  rw [text, text, pointer, objects]

theorem le_total (a b : PointsToLine) : (le a b || le b a) = true := by
  have forth : le a b = (compare a.content b.content).isLE := rfl
  have back : le b a = (compare a.content b.content).isGE :=
    Bool.eq_iff_iff.mpr Std.OrientedCmp.isGE_iff_isLE.symm
  rw [forth, back]
  cases compare a.content b.content <;> rfl

theorem pairwise_mergeSort (lines : List PointsToLine) :
    (lines.mergeSort le).Pairwise fun a b => le a b :=
  List.pairwise_mergeSort (fun _ _ _ => Std.TransCmp.isLE_trans) le_total lines

/-- Lines that say the same are printed alike, whatever order they had. -/
theorem texts_mergeSort_congr {lines lines' : List PointsToLine}
    (same : (lines.map content).Perm (lines'.map content)) :
    (lines.mergeSort le).map text = (lines'.mergeSort le).map text := by
  have sorted (lines : List PointsToLine) : ((lines.mergeSort le).map content).Pairwise fun a b =>
      (compare a b).isLE := List.pairwise_map.mpr (pairwise_mergeSort lines)
  have reordered (lines : List PointsToLine) : ((lines.mergeSort le).map content).Perm (lines.map content) :=
    (List.mergeSort_perm lines le).map content
  have antisymm (a b : List String) (le : (compare a b).isLE) (ge : (compare b a).isLE) : a = b := by
    have same : compare a b = .eq := Std.OrientedCmp.isLE_antisymm le ge
    exact Std.LawfulEqCmp.eq_of_compare same
  have contents : (lines.mergeSort le).map content = (lines'.mergeSort le).map content :=
    ((reordered lines).trans (same.trans (reordered lines').symm)).eq_of_pairwise
      (fun a b _ _ => antisymm a b) (sorted lines) (sorted lines')
  have texts : List.Forall₂ Eq ((lines.mergeSort le).map text) ((lines'.mergeSort le).map text) := by
    rw [← List.forall₂_eq_eq_eq, List.forall₂_map_left_iff, List.forall₂_map_right_iff] at contents
    rw [List.forall₂_map_left_iff, List.forall₂_map_right_iff]
    exact contents.imp fun _ _ => text_eq_of_content
  rwa [List.forall₂_eq_eq_eq] at texts

end PointsToLine

namespace Solution

/-! ### Lines of pointers -/

section Lines

variable {E S : Type} [Coded E] [IdSet S .contextObject]

/-- What is listed of a pointer is its name, and of its objects as many names as there are in its set, each
the name of one of them. -/
structure Lists (r : Solution E S) (e : ListedPointer) : Prop where
  named : r.pointerLabel e.pointer = .ok e.name
  mem_objects : ∀ label, label ∈ e.objects ↔
    ∃ id ∈ r.objectsOf e.pointer, r.contextObjectLabel id = .ok label
  as_many : e.objects.length = IdSet.count (r.state.objectsOf e.pointer)
  ascending : e.objects.Pairwise (· < ·)

/-- Each pointer that holds something is listed once, in the order of the names. -/
structure ListsPointers (r : Solution E S) (entries : List ListedPointer) : Prop where
  own : ∀ e ∈ entries, r.Lists e
  once : (entries.map (·.pointer)).Nodup
  all : ∀ q, q ∈ entries.map (·.pointer) ↔
    (∃ pointer, r.state.canon.pointer q = .ok pointer) ∧ ∃ id, id ∈ r.objectsOf q
  ordered : entries.Pairwise fun a b => (compare a.content b.content).isLE

/-- Where the lines are found to say what lines in order say, these are printed as they stand. -/
theorem pointsToListing_of_contents {r : Solution E S} {contents : List (List String)}
    (lines : List PointsToLine) (found : r.pointsToLines.map (·.map PointsToLine.content) = .ok contents)
    (same : contents.Perm (lines.map PointsToLine.content))
    (ordered : lines.Pairwise fun a b => PointsToLine.le a b) :
    r.pointsToListing = .ok (String.join (lines.map PointsToLine.text)) := by
  cases ran : r.pointsToLines with
  | error e => simp [ran, Except.map] at found
  | ok found' =>
    rw [ran] at found
    cases found
    have texts := PointsToLine.texts_mergeSort_congr same
    rw [List.mergeSort_of_pairwise ordered] at texts
    simp [pointsToListing, ran, texts]

/-- A line is that of a pointer. -/
def LineOfPointer (r : Solution E S) (q : PointerId) (line : PointsToLine) : Prop := r.Lists (line.listed q)

/-- Lines of pointers list these. -/
theorem exists_listed {r : Solution E S} {pointers : List PointerId} {lines : List PointsToLine}
    (own : List.Forall₂ r.LineOfPointer pointers lines) : ∃ entries : List ListedPointer,
      (∀ e ∈ entries, r.Lists e) ∧ entries.map (·.pointer) = pointers ∧
      entries.map ListedPointer.content = lines.map PointsToLine.content ∧
      entries.map (fun e => e.record ++ "\n") = lines.map PointsToLine.text := by
  induction own with
  | nil => exact ⟨[], by simp⟩
  | @cons q line pointers lines first _ ih =>
    obtain ⟨entries, own, same, contents, texts⟩ := ih
    refine ⟨line.listed q :: entries, List.forall_mem_cons.mpr ⟨first, own⟩, congrArg (q :: ·) same,
      congrArg (line.content :: ·) contents, ?_⟩
    rw [List.map_cons, List.map_cons, texts, line.text_eq q]

variable [LawfulIdSet S] {r : Solution E S} (apart : r.ContextObjectsApart)
include apart

theorem lineOfPointer {q : PointerId} {pointer : String} {labels : List String}
    (named : r.pointerLabel q = .ok pointer)
    (labelled : (r.objectsOf q).mapM r.contextObjectLabel = .ok labels) :
    r.LineOfPointer q ⟨pointer, .ofList labels⟩ := by
  show r.Lists (PointsToLine.listed q _)
  have each := forall₂_of_mapM labelled
  have biunique : Relator.BiUnique fun id label => r.contextObjectLabel id = .ok label :=
    ⟨fun _ _ _ first second => apart first second,
      fun _ _ _ first second => Except.ok.inj (first.symm.trans second)⟩
  have nodup : labels.Nodup := (List.rel_nodup biunique each).mp (LawfulIdSet.nodup_toList _)
  refine ⟨named, fun label => ?_, ?_, ?_⟩
  · rw [PointsToLine.listed, Std.TreeSet.mem_toList, Std.TreeSet.mem_ofList, List.contains_iff_mem]
    constructor
    · exact exists_left_of_forall₂ each
    · rintro ⟨id, there, named⟩
      obtain ⟨label', there', named'⟩ := exists_right_of_forall₂ each there
      cases named.symm.trans named'
      exact there'
  · rw [PointsToLine.listed, Std.TreeSet.length_toList, Std.TreeSet.size_ofList, length_of_mapM labelled]
    · exact (LawfulIdSet.count_eq _).symm
    · exact nodup.imp fun other same => other (Std.LawfulEqCmp.eq_of_compare same)
  · have ordered : (Std.TreeSet.ofList labels).toList.Pairwise fun a b => compare a b = .lt :=
      Std.TreeSet.ordered_toList
    exact ordered.imp fun less => compareOfLessAndEq_eq_lt.mp less

end Lines

section Listing

variable {kind : AnalysisKind} {S : Type} [IdSet S .contextObject] [LawfulIdSet S]
  {r : Solution kind.Element S} (coherent : r.analysis.program.Coherent)
  (inRange : r.state.InRange r.analysis.program) (apart : r.ContextObjectsApart)
include coherent inRange apart

theorem pointsToLines_spec : ∃ lines, r.pointsToLines = .ok lines ∧
    List.Forall₂ r.LineOfPointer (r.holding.map Prod.fst) lines := by
  obtain ⟨_, listed⟩ := pointsToListing_succeeds coherent inRange
  obtain ⟨lines, ran, _⟩ := bind_eq_ok_iff.mp listed
  refine ⟨lines, ran, List.forall₂_map_left_iff.mpr ?_⟩
  refine (forall₂_of_mapM ran).imp fun entry line made => ?_
  obtain ⟨labels, labelled, made⟩ := bind_eq_ok_iff.mp made
  obtain ⟨pointer, named, same⟩ := bind_eq_ok_iff.mp made
  cases same
  exact lineOfPointer apart named labelled

omit coherent inRange apart [LawfulIdSet S] in
theorem mem_pointers_holding {q : PointerId} : q ∈ r.holding.map Prod.fst ↔
    (∃ pointer, r.state.canon.pointer q = .ok pointer) ∧ ∃ id, id ∈ r.objectsOf q := by
  simp only [List.mem_map, Prod.exists, exists_and_right, exists_eq_right, mem_holding]

omit coherent inRange apart [LawfulIdSet S] in
theorem nodup_pointers_holding : (r.holding.map Prod.fst).Nodup :=
  Canon.nodup_pointerList.sublist (List.filter_sublist.map _)

/-- What is printed are the records of the pointers that hold something, in order. -/
theorem pointsToListing_spec : ∃ entries, r.ListsPointers entries ∧
    r.pointsToListing = .ok (String.join (entries.map fun e => e.record ++ "\n")) := by
  obtain ⟨lines, ran, own⟩ := pointsToLines_spec coherent inRange apart
  obtain ⟨pointers, own, reordered⟩ :=
    List.perm_comp_forall₂ (List.mergeSort_perm lines PointsToLine.le) (List.Forall₂.flip own)
  obtain ⟨entries, own, same, contents, texts⟩ := exists_listed (List.Forall₂.flip own)
  refine ⟨entries, ⟨own, ?_, fun q => ?_, ?_⟩, ?_⟩
  · rw [same]
    exact reordered.nodup_iff.mpr nodup_pointers_holding
  · rw [same, reordered.mem_iff, mem_pointers_holding]
  · rw [← List.pairwise_map (f := ListedPointer.content) (R := fun a b => (compare a b).isLE), contents,
      List.pairwise_map]
    exact PointsToLine.pairwise_mergeSort lines
  · rw [texts]
    simp [pointsToListing, ran]

end Listing

/-! ### Lines of locations -/

section Locations

variable {E S : Type} [Coded E] [IdSet S .contextObject]

/-- A line is that of a location: it has its name and lists the names of what it is recorded to hold. -/
structure LineOfLocation (r : Solution E S) (l : Location E) (line : PointsToLine) : Prop where
  named : r.fullLabel l = .ok line.pointer
  mem_objects : ∀ label, label ∈ line.objects ↔
    ∃ o, r.state.Records (.holds l o) ∧ r.heapObjectLabel o = .ok label

/-- What the line of a location says. -/
def ContentOf (r : Solution E S) (l : Location E) (content : List String) : Prop :=
  ∃ line, r.LineOfLocation l line ∧ line.content = content

/-- A location leaves no choice of what its line says. -/
theorem contentOf_rightUnique {r : Solution E S} : Relator.RightUnique r.ContentOf := by
  rintro l _ _ ⟨line, first, rfl⟩ ⟨line', second, rfl⟩
  have pointers : line.pointer = line'.pointer := Except.ok.inj (first.named.symm.trans second.named)
  have objects : line.objects.Equiv line'.objects :=
    .of_forall_mem_iff fun label => (first.mem_objects label).trans (second.mem_objects label).symm
  rw [PointsToLine.content, PointsToLine.content, pointers, objects.toList_eq]

end Locations

section Located

variable {kind : AnalysisKind} {S : Type} [IdSet S .contextObject] {r : Solution kind.Element S}
  {lines : List PointsToLine} (inRange : r.state.InRange r.analysis.program)
include inRange

/-- The line of a pointer is that of the location behind it. -/
theorem LineOfPointer.lineOfLocation {q : PointerId} {l : Location kind.Element} {line : PointsToLine}
    (located : r.state.canon.Locates q l) (own : r.LineOfPointer q line) : r.LineOfLocation l line where
  named := pointerLabel_eq located ▸ own.named
  mem_objects label := by
    rw [← Std.TreeSet.mem_toList]
    refine (own.mem_objects label).trans ⟨?_, ?_⟩
    · rintro ⟨id, held, labelled⟩
      obtain ⟨_, o, named⟩ := inRange.holds (.inr held)
      exact ⟨o, .holds held located named, contextObjectLabel_eq named ▸ labelled⟩
    · rintro ⟨o, held, labelled⟩
      cases held with
      | @holds q' id _ _ held located' named =>
        cases located.injective located'
        exact ⟨id, held, contextObjectLabel_eq named ▸ labelled⟩

/-- The lines are those of the locations that hold something, each of which has one. -/
theorem linesOfLocations (own : List.Forall₂ r.LineOfPointer (r.holding.map Prod.fst) lines) :
    ∃ locations : List (Location kind.Element), locations.Nodup ∧
      (∀ l, l ∈ locations ↔ ∃ o, r.state.Records (.holds l o)) ∧
      List.Forall₂ r.LineOfLocation locations lines := by
  have located : ∀ q ∈ r.holding.map Prod.fst, ∃ l, r.state.canon.Locates q l := by
    intro q there
    obtain ⟨_, id, held⟩ := mem_pointers_holding.mp there
    exact (inRange.holds (.inr held)).1
  obtain ⟨locations, behind⟩ := exists_forall₂_of_forall located
  have biunique : Relator.BiUnique fun l q => r.state.canon.Locates q l :=
    ⟨fun _ _ _ first second => first.unique second, fun _ _ _ first second => first.injective second⟩
  refine ⟨locations, (List.rel_nodup biunique behind).mpr nodup_pointers_holding, fun l => ⟨?_, ?_⟩, ?_⟩
  · intro there
    obtain ⟨q, there, located⟩ := exists_right_of_forall₂ behind there
    obtain ⟨_, id, held⟩ := mem_pointers_holding.mp there
    obtain ⟨_, o, named⟩ := inRange.holds (.inr held)
    exact ⟨o, .holds held located named⟩
  · rintro ⟨o, held⟩
    cases held with
    | @holds q id _ _ held located named =>
      have there := mem_pointers_holding.mpr ⟨pointer_of_locates located, id, held⟩
      obtain ⟨l', there, located'⟩ := exists_left_of_forall₂ behind there
      cases located.unique located'
      exact there
  · refine (forall₂_comp behind own).imp fun l line => ?_
    rintro ⟨q, located, own⟩
    exact own.lineOfLocation inRange located

end Located

/-! ### Two solutions -/

section Solutions

variable {E S S' : Type} [Coded E] [IdSet S .contextObject] [IdSet S' .contextObject]
  {r : Solution E S} {r' : Solution E S'} (program : r.analysis.program = r'.analysis.program)
  (contexts : r.contextText = r'.contextText)
include program contexts

omit [IdSet S .contextObject] [IdSet S' .contextObject] in
/-- Names are those of another solution if contexts are printed alike. -/
theorem heapObjectLabel_congr : r.heapObjectLabel = r'.heapObjectLabel := by
  funext o
  simp only [heapObjectLabel, objectLabel, program, contexts]

omit [IdSet S .contextObject] [IdSet S' .contextObject] in
theorem fullLabel_congr : r.fullLabel = r'.fullLabel := by
  funext l
  cases l with
  | var c v => simp only [fullLabel, program, contexts]
  | field o f => simp only [fullLabel, program, heapObjectLabel_congr program contexts]

variable (facts : ∀ f, r.state.Records f ↔ r'.state.Records f)
include facts

theorem LineOfLocation.congr {l : Location E} {line : PointsToLine} (own : r'.LineOfLocation l line) :
    r.LineOfLocation l line where
  named := fullLabel_congr program contexts ▸ own.named
  mem_objects label := by
    simp only [own.mem_objects, facts, heapObjectLabel_congr program contexts]

end Solutions

section Canonical

variable {kind : AnalysisKind} {S S' : Type} [IdSet S .contextObject] [IdSet S' .contextObject]
  {r : Solution kind.Element S} {r' : Solution kind.Element S'} {lines lines' : List PointsToLine}

/-- Solutions that record the same facts say the same in their lines if they print contexts alike. -/
theorem contents_perm (inRange : r.state.InRange r.analysis.program)
    (inRange' : r'.state.InRange r'.analysis.program)
    (program : r.analysis.program = r'.analysis.program) (contexts : r.contextText = r'.contextText)
    (facts : ∀ f, r.state.Records f ↔ r'.state.Records f)
    (own : List.Forall₂ r.LineOfPointer (r.holding.map Prod.fst) lines)
    (own' : List.Forall₂ r'.LineOfPointer (r'.holding.map Prod.fst) lines') :
    (lines.map PointsToLine.content).Perm (lines'.map PointsToLine.content) := by
  obtain ⟨locations, nodup, mem_locations, lined⟩ := linesOfLocations inRange own
  obtain ⟨locations', nodup', mem_locations', lined'⟩ := linesOfLocations inRange' own'
  have same : locations.Perm locations' := by
    refine (List.perm_ext_iff_of_nodup nodup nodup').mpr fun l => ?_
    simp only [mem_locations, mem_locations', facts]
  have contents : List.Forall₂ r.ContentOf locations (lines.map PointsToLine.content) :=
    List.forall₂_map_right_iff.mpr (lined.imp fun _ line own => ⟨line, own, rfl⟩)
  have contents' : List.Forall₂ r.ContentOf locations' (lines'.map PointsToLine.content) :=
    List.forall₂_map_right_iff.mpr
      (lined'.imp fun _ line own => ⟨line, own.congr program contexts facts, rfl⟩)
  obtain ⟨_, again, reordered⟩ := List.perm_comp_forall₂ same contents'
  exact List.right_unique_forall₂' contentOf_rightUnique contents again ▸ reordered

end Canonical

end Solution

/-! ### Listings of loaded programs -/

section Described

variable {described : Described.Program} {p : Program} (loaded : described.link = .ok p)
  (kind : AnalysisKind) (depth : Nat) (heap : HeapKind) {S : Type} [IdSet S .contextObject]
  [LawfulIdSet S]
include loaded

omit loaded in
/-- In a solution all numbers are in range. -/
private theorem inRange_of_solve (coherent : p.Coherent) {r : Solution kind.Element S}
    (solved : (p.analysis kind depth heap).solve S = .ok r) :
    r.analysis = p.analysis kind depth heap ∧ r.state.Reachable (p.analysis kind depth heap) ∧
      r.state.InRange r.analysis.program := by
  obtain ⟨same, reachable, _⟩ := Analysis.solve_reachable (coherent.analysis kind depth heap) solved
  exact ⟨same, reachable, same ▸ reachable.inRange coherent⟩

/-- Where contexts do not show numbers of objects, no representation of sets changes the listing. -/
theorem listing_eq_of_solve (unnumbered : kind ≠ .objectSensitive) {S' : Type} [IdSet S' .contextObject]
    [LawfulIdSet S'] {r : Solution kind.Element S} {r' : Solution kind.Element S'}
    (solved : (p.analysis kind depth heap).solve S = .ok r)
    (solved' : (p.analysis kind depth heap).solve S' = .ok r')
    (facts : ∀ f, r.state.Records f ↔ r'.state.Records f) : r'.pointsToListing = r.pointsToListing := by
  have coherent := Described.Program.link_coherent loaded
  obtain ⟨analysis, reachable, inRange⟩ := inRange_of_solve kind depth heap coherent solved
  obtain ⟨analysis', reachable', inRange'⟩ := inRange_of_solve kind depth heap coherent solved'
  obtain ⟨_, s⟩ := r
  obtain ⟨_, s'⟩ := r'
  cases analysis
  cases analysis'
  obtain ⟨lines, ran, own⟩ := Solution.pointsToLines_spec coherent inRange
    (Solution.contextObjectsApart_of_reachable loaded reachable)
  obtain ⟨lines', ran', own'⟩ := Solution.pointsToLines_spec coherent inRange'
    (Solution.contextObjectsApart_of_reachable loaded reachable')
  have contexts : Solution.contextText ⟨p.analysis kind depth heap, s⟩ =
      Solution.contextText ⟨p.analysis kind depth heap, s'⟩ := by
    funext c
    exact congrArg c.text (kind.label_eq_of_unnumbered unnumbered _ _)
  have same := Solution.contents_perm inRange inRange' rfl contexts facts own own'
  simp [Solution.pointsToListing, ran, ran', PointsToLine.texts_mergeSort_congr same]

omit [LawfulIdSet S] in
/-- Where no name of the description holds a line break, the lines are the records. -/
theorem splitOn_listing (unbroken : described.UnbrokenNames) {s : Solver.State kind.Element S}
    {entries : List ListedPointer}
    (lists : Solution.ListsPointers ⟨p.analysis kind depth heap, s⟩ entries) :
    (String.join (entries.map fun e => e.record ++ "\n")).toList.splitOn '\n' =
      entries.map (·.record.toList) ++ [[]] := by
  have single : ∀ line ∈ entries.map (·.record.toList), '\n' ∉ line := by
    intro line there
    obtain ⟨e, listed, rfl⟩ := List.mem_map.mp there
    have own := lists.own e listed
    refine ListedPointer.newline_not_mem_record
      (Solution.newline_not_mem_pointerLabel loaded unbroken own.named) fun label listed => ?_
    obtain ⟨_, _, labelled⟩ := (own.mem_objects label).mp listed
    exact Solution.newline_not_mem_contextObjectLabel loaded unbroken labelled
  rw [← Text.splitOn_lines single]
  simp [String.toList_join, List.flatMap_map]

/-- A successful analysis of a loaded program prints one record for each pointer that holds something, and
the records are the lines where no name holds a line break. The names on a record are those of the objects of
the pointer, each under a name of its own. The text does not depend on the representation of sets unless it
shows numbers of objects in contexts. -/
theorem listing_is_complete_and_canonical {r : Solution kind.Element S}
    (solved : (p.analysis kind depth heap).solve S = .ok r) :
    (∃ entries text, r.ListsPointers entries ∧ r.pointsToListing = .ok text ∧
      text = String.join (entries.map fun e => e.record ++ "\n") ∧
      (described.UnbrokenNames → text.toList.splitOn '\n' = entries.map (·.record.toList) ++ [[]])) ∧
    r.ContextObjectsApart ∧
    (kind ≠ .objectSensitive → ∀ (S' : Type) [IdSet S' .contextObject] [LawfulIdSet S'],
      ∃ r', (p.analysis kind depth heap).solve S' = .ok r' ∧ r'.pointsToListing = r.pointsToListing) := by
  have coherent := Described.Program.link_coherent loaded
  obtain ⟨analysis, reachable, inRange⟩ := inRange_of_solve kind depth heap coherent solved
  obtain ⟨_, s⟩ := r
  cases analysis
  have apart : Solution.ContextObjectsApart ⟨p.analysis kind depth heap, s⟩ :=
    Solution.contextObjectsApart_of_reachable loaded reachable
  obtain ⟨entries, lists, printed⟩ := Solution.pointsToListing_spec coherent inRange apart
  refine ⟨⟨entries, _, lists, printed, rfl, fun unbroken => ?_⟩, apart, ?_⟩
  · exact splitOn_listing loaded kind depth heap unbroken lists
  · intro unnumbered S' _ _
    have sameResults := (Renaming.exchanges_refl p).sameResults coherent coherent kind depth heap S S'
    rw [Renaming.facts_refl] at sameResults
    obtain ⟨r', solved'⟩ := sameResults.1.mp ⟨_, solved⟩
    exact ⟨r', solved', listing_eq_of_solve loaded kind depth heap unnumbered solved solved'
      (sameResults.2 _ r' solved solved').1⟩

end Described

/-- The parameters of the two methods that have one name have a line each. -/
def overloadsLines : List PointsToLine := [
  ⟨"[]:Main.keep/x", .ofList ["[]:NewObj#0<Main>@Main.main"]⟩,
  ⟨"[]:Main.keep/x", .ofList ["[]:NewObj#1<Main>@Main.main"]⟩,
  ⟨"[]:Main.keep/y", .ofList ["[]:NewObj#1<Main>@Main.main"]⟩,
  ⟨"[]:Main.main/a", .ofList ["[]:NewObj#0<Main>@Main.main"]⟩,
  ⟨"[]:Main.main/b", .ofList ["[]:NewObj#1<Main>@Main.main"]⟩]

theorem listing_is_complete_and_canonical_overloads : ∃ p r r' entries text, overloads.link = .ok p ∧
    (p.analysis .insensitive 1 .perSite).solve (HybridSet .contextObject) = .ok r ∧
    (p.analysis .insensitive 1 .perSite).solve (TreeSet .contextObject) = .ok r' ∧
    r.ListsPointers entries ∧ r.ContextObjectsApart ∧
    r.pointsToListing = .ok text ∧ r'.pointsToListing = .ok text ∧
    text =
      "[]:Main.keep/x ==> \x7b []:NewObj#0<Main>@Main.main \x7d\n" ++
      "[]:Main.keep/x ==> \x7b []:NewObj#1<Main>@Main.main \x7d\n" ++
      "[]:Main.keep/y ==> \x7b []:NewObj#1<Main>@Main.main \x7d\n" ++
      "[]:Main.main/a ==> \x7b []:NewObj#0<Main>@Main.main \x7d\n" ++
      "[]:Main.main/b ==> \x7b []:NewObj#1<Main>@Main.main \x7d\n" ∧
    text.toList.splitOn '\n' = entries.map (·.record.toList) ++ [[]] := by
  have evaluated : overloads.solvesTo .insensitive 1 .perSite fun _ r =>
      decide (r.pointsToLines.map (·.map PointsToLine.content) = .ok [
        ["[]:Main.main/a", "[]:NewObj#0<Main>@Main.main"],
        ["[]:Main.main/b", "[]:NewObj#1<Main>@Main.main"],
        ["[]:Main.keep/x", "[]:NewObj#0<Main>@Main.main"],
        ["[]:Main.keep/x", "[]:NewObj#1<Main>@Main.main"],
        ["[]:Main.keep/y", "[]:NewObj#1<Main>@Main.main"]]) := by decide +kernel
  obtain ⟨p, r, loaded, solved, found⟩ := Described.Program.exists_of_solvesTo evaluated
  have printed := Solution.pointsToListing_of_contents overloadsLines (of_decide_eq_true found)
    (by decide +kernel) (by decide +kernel)
  obtain ⟨⟨entries, text, lists, listed, _, records⟩, apart, canonical⟩ :=
    listing_is_complete_and_canonical loaded .insensitive 1 .perSite solved
  obtain ⟨r', solved', same⟩ := canonical nofun (TreeSet .contextObject)
  refine ⟨p, r, r', entries, text, loaded, solved, solved', lists, apart, listed, same.trans listed, ?_,
    records (by decide +kernel)⟩
  rw [Except.ok.inj (listed.symm.trans printed)]
  decide +kernel

/-! ### Names with line breaks -/

/-- A variable has a line break in its name, and one of two methods of one name gets two objects. -/
def brokenNames : Described.Program where
  types := [
    { name := "Main", super := none, methods := [
        { name := "keep", isStatic := true, isAbstract := false, params := ["x"], body := [] },
        { name := "keep", isStatic := true, isAbstract := false, params := ["x", "y"], body := [] },
        { name := "main", isStatic := true, isAbstract := false, params := []
          body := [.new "a\nb" "Main", .new "c" "Main", .assign "c" "a\nb",
            .call .static "Main.keep" none ["a\nb"] none,
            .call .static "Main.keep" none ["c", "c"] none] }] }]
  entries := ["Main.main"]

/-- What there is to say of the variables of the three methods. -/
def brokenNamesLines : List PointsToLine := [
  ⟨"[]:Main.keep/x", .ofList ["[]:NewObj#0<Main>@Main.main"]⟩,
  ⟨"[]:Main.keep/x", .ofList ["[]:NewObj#0<Main>@Main.main", "[]:NewObj#1<Main>@Main.main"]⟩,
  ⟨"[]:Main.keep/y", .ofList ["[]:NewObj#0<Main>@Main.main", "[]:NewObj#1<Main>@Main.main"]⟩,
  ⟨"[]:Main.main/a\nb", .ofList ["[]:NewObj#0<Main>@Main.main"]⟩,
  ⟨"[]:Main.main/c", .ofList ["[]:NewObj#0<Main>@Main.main", "[]:NewObj#1<Main>@Main.main"]⟩]

/-- How it looks in the listing. -/
def brokenNamesText : List String := [
  "[]:Main.keep/x ==> \x7b []:NewObj#0<Main>@Main.main \x7d",
  "[]:Main.keep/x ==> \x7b []:NewObj#0<Main>@Main.main []:NewObj#1<Main>@Main.main \x7d",
  "[]:Main.keep/y ==> \x7b []:NewObj#0<Main>@Main.main []:NewObj#1<Main>@Main.main \x7d",
  "[]:Main.main/a",
  "b ==> \x7b []:NewObj#0<Main>@Main.main \x7d",
  "[]:Main.main/c ==> \x7b []:NewObj#0<Main>@Main.main []:NewObj#1<Main>@Main.main \x7d"]

/-- Five pointers hold something, but what is printed of them takes six lines. The first two of these, which
have one name of a pointer, are not in the order of texts. -/
theorem broken_names_break_records : ∃ p r, brokenNames.link = .ok p ∧
    (p.analysis .insensitive 1 .perSite).solve (HybridSet .contextObject) = .ok r ∧
    r.holding.length = 5 ∧
    r.pointsToListing = .ok (String.join (brokenNamesText.map (· ++ "\n"))) ∧
    (∀ line ∈ brokenNamesText, '\n' ∉ line.toList) ∧ brokenNamesText.length = 6 ∧
    ¬ brokenNamesText.Pairwise fun a b => (compare a b).isLE := by
  have evaluated : brokenNames.solvesTo .insensitive 1 .perSite fun _ r =>
      decide (r.holding.length = 5 ∧ r.pointsToLines.map (·.map PointsToLine.content) = .ok [
        ["[]:Main.main/a\nb", "[]:NewObj#0<Main>@Main.main"],
        ["[]:Main.main/c", "[]:NewObj#0<Main>@Main.main", "[]:NewObj#1<Main>@Main.main"],
        ["[]:Main.keep/x", "[]:NewObj#0<Main>@Main.main"],
        ["[]:Main.keep/x", "[]:NewObj#0<Main>@Main.main", "[]:NewObj#1<Main>@Main.main"],
        ["[]:Main.keep/y", "[]:NewObj#0<Main>@Main.main", "[]:NewObj#1<Main>@Main.main"]]) := by
    decide +kernel
  obtain ⟨p, r, loaded, solved, evaluated⟩ := Described.Program.exists_of_solvesTo evaluated
  obtain ⟨many, found⟩ := of_decide_eq_true evaluated
  have printed := Solution.pointsToListing_of_contents brokenNamesLines found
    (by decide +kernel) (by decide +kernel)
  have texts : String.join (brokenNamesLines.map PointsToLine.text) =
      String.join (brokenNamesText.map (· ++ "\n")) := by decide +kernel
  exact ⟨p, r, loaded, solved, many, texts ▸ printed, by decide +kernel, rfl, by decide +kernel⟩

end PointerAnalysis
