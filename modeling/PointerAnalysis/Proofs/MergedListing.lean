import PointerAnalysis.Proofs.LeastSolution
import PointerAnalysis.Proofs.Names
import PointerAnalysis.Proofs.Options.Bounds
import PointerAnalysis.Proofs.Reports

/-! The listing of points-to sets with contexts dropped. It is put together by name: all pointers of one
name share a line, which lists what any of them holds. So it has a line for every variable and every
field of an abstract object just if their names are distinct, and plain names are. -/
namespace PointerAnalysis

/-! ### Tables of names -/

/-- Names put under a name. -/
def enterNames (table : Std.TreeMap String (Std.TreeSet String)) (name : String)
    (objects : List String) : Std.TreeMap String (Std.TreeSet String) :=
  table.insert name (objects.foldl (·.insert ·) (table.getD name ∅))

section Tables

variable {table table' : Std.TreeMap String (Std.TreeSet String)} {name n object : String}
  {objects : List String}

theorem mem_enterNames : n ∈ enterNames table name objects ↔ n = name ∨ n ∈ table := by
  rw [enterNames, Std.TreeMap.mem_insert, Std.LawfulEqCmp.compare_eq_iff_eq, eq_comm]

theorem mem_getD_enterNames : object ∈ (enterNames table name objects).getD n ∅ ↔
    object ∈ table.getD n ∅ ∨ n = name ∧ object ∈ objects := by
  simp only [enterNames, Std.TreeMap.getD_insert, Std.LawfulEqCmp.compare_eq_iff_eq]
  split
  · next same => simp [same, TreeSet.mem_foldl_insert]
  · next other => simp [Ne.symm other]

variable {α ε : Type} {named : α → Except ε String} {held : α → Except ε (List String)} {l : List α}

/-- What a table holds after names have been put into it one after the other. -/
theorem mem_of_foldlM_enterNames (table : Std.TreeMap String (Std.TreeSet String))
    (ran : l.foldlM (fun table x => do
      let name ← named x
      let objects ← held x
      return enterNames table name objects) table = .ok table') :
    (∀ n, n ∈ table' ↔ n ∈ table ∨ ∃ x ∈ l, named x = .ok n) ∧
      ∀ n object, object ∈ table'.getD n ∅ ↔ object ∈ table.getD n ∅ ∨
        ∃ x ∈ l, named x = .ok n ∧ ∃ objects, held x = .ok objects ∧ object ∈ objects := by
  induction l generalizing table with
  | nil =>
    cases ran
    simp
  | cons x l ih =>
    obtain ⟨table₁, entered, rest⟩ := bind_eq_ok_iff.mp ran
    obtain ⟨name, isNamed, entered⟩ := bind_eq_ok_iff.mp entered
    obtain ⟨objects, holds, same⟩ := bind_eq_ok_iff.mp entered
    cases same
    obtain ⟨names, sets⟩ := ih _ rest
    refine ⟨fun n => ?_, fun n object => ?_⟩
    · simp only [names, mem_enterNames, List.exists_mem_cons_iff, isNamed, Except.ok.injEq]
      grind
    · simp only [sets, mem_getD_enterNames, List.exists_mem_cons_iff, isNamed, holds, Except.ok.injEq,
        exists_eq_left']
      grind

end Tables

namespace PointsToLine

/-- The lines of a table of names. -/
def ofTable (table : Std.TreeMap String (Std.TreeSet String)) : List PointsToLine :=
  table.toList.map fun entry => ⟨entry.1, entry.2⟩

variable {table : Std.TreeMap String (Std.TreeSet String)}

theorem map_pointer_ofTable : (ofTable table).map (·.pointer) = table.keys := by
  rw [← Std.TreeMap.map_fst_toList_eq_keys, ofTable, List.map_map]
  rfl

theorem ordered_ofTable : ((ofTable table).map (·.pointer)).Pairwise (· < ·) := by
  have ordered : table.keys.Pairwise fun a b => compare a b = .lt := Std.TreeMap.ordered_keys
  rw [map_pointer_ofTable]
  exact ordered.imp fun less => compareOfLessAndEq_eq_lt.mp less

theorem objects_of_mem {line : PointsToLine} (there : line ∈ ofTable table) :
    table.getD line.pointer ∅ = line.objects := by
  obtain ⟨⟨name, objects⟩, listed, rfl⟩ := List.mem_map.mp there
  have entered := Std.TreeMap.mem_toList_iff_getElem?_eq_some.mp listed
  simp [Std.TreeMap.getD_eq_getD_getElem?, entered]

end PointsToLine

/-! ### Lines -/

/-- What can hold objects once contexts are dropped. -/
inductive MergedLocation where
  | var (var : VarId)
  | field (object : AbstractObject) (field : FieldId)
  deriving DecidableEq

/-- A location without its contexts. -/
def Location.merged {E : Type} : Location E → MergedLocation
  | .var _ v => .var v
  | .field o f => .field o.object f

namespace Solution

section Lines

variable {E S : Type} [Coded E]

/-- The name of a location with the contexts dropped. -/
def locationLabel (r : Solution E S) : MergedLocation → Except UnknownId String
  | .var v => r.analysis.program.varName v
  | .field o f => do return (← r.objectLabel o) ++ "." ++ (← r.analysis.program.field f)

variable [IdSet S .contextObject]

/-- What a location holds with contexts dropped: a variable the objects that are reported for it, a field
of an abstract object what it holds under any heap context of the object. -/
def Merges (r : Solution E S) : MergedLocation → AbstractObject → Prop
  | .var v, x => ∃ ids, r.objectsOfVar v = .ok ids ∧ ∃ id ∈ ids, r.state.canon.object id = .ok x
  | .field o f, x => ∃ c c', r.state.Records (.holds (.field ⟨c, o⟩ f) ⟨c', x⟩)

/-- The lines in the order of names, one for each name of what holds something. A line lists the names of
all that is held under its name. -/
structure ListsByName (r : Solution E S) (lines : List PointsToLine) : Prop where
  named : ∀ {q x}, r.Merges q x → Succeeds (r.locationLabel q) ∧ Succeeds (r.objectLabel x)
  ordered : (lines.map (·.pointer)).Pairwise (· < ·)
  mem_names : ∀ name, name ∈ lines.map (·.pointer) ↔
    ∃ q x, r.Merges q x ∧ r.locationLabel q = .ok name
  mem_objects : ∀ line ∈ lines, ∀ label, label ∈ line.objects ↔
    ∃ q x, r.Merges q x ∧ r.locationLabel q = .ok line.pointer ∧ r.objectLabel x = .ok label

/-- A line is that of a location: it has its name and lists the names of just what it holds. -/
structure LineOf (r : Solution E S) (q : MergedLocation) (line : PointsToLine) : Prop where
  named : r.locationLabel q = .ok line.pointer
  mem_objects : ∀ label, label ∈ line.objects ↔ ∃ x, r.Merges q x ∧ r.objectLabel x = .ok label

/-- Every location that holds something has one line of its own, and there are no other lines. -/
def KeepsApart (r : Solution E S) (lines : List PointsToLine) : Prop :=
  ∃ locations : List MergedLocation, locations.Nodup ∧
    (∀ q, q ∈ locations ↔ ∃ x, r.Merges q x) ∧ List.Forall₂ r.LineOf locations lines

/-- Different locations that hold something have different names. -/
def NamesApart (r : Solution E S) : Prop :=
  ∀ {q q' x x' name}, r.Merges q x → r.Merges q' x' → r.locationLabel q = .ok name →
    r.locationLabel q' = .ok name → q = q'

/-- Different objects that are held somewhere have different names. -/
def ObjectsApart (r : Solution E S) : Prop :=
  ∀ {q q' x x' label}, r.Merges q x → r.Merges q' x' → r.objectLabel x = .ok label →
    r.objectLabel x' = .ok label → x = x'

variable {r : Solution E S} {lines : List PointsToLine}

omit [IdSet S .contextObject] in
private theorem map_locationLabel {locations : List MergedLocation}
    (named : List.Forall₂ (fun q line => r.locationLabel q = .ok line.pointer) locations lines) :
    locations.map r.locationLabel = (lines.map (·.pointer)).map .ok := by
  induction named with
  | nil => rfl
  | cons first _ ih => simp [first, ih]

/-- The lines have different names, so they can be told apart by what they are the lines of. -/
private theorem ListsByName.nodup_labels (lists : r.ListsByName lines) {locations : List MergedLocation}
    (named : List.Forall₂ (fun q line => r.locationLabel q = .ok line.pointer) locations lines) :
    (locations.map r.locationLabel).Nodup := by
  rw [map_locationLabel named]
  have names : (lines.map (·.pointer)).Nodup := by
    refine lists.ordered.imp ?_
    rintro name _ less rfl
    exact String.lt_irrefl name less
  exact names.map fun _ _ same => Except.ok.inj same

/-- Where names tell locations apart, the line of a location's name is its own. -/
private theorem ListsByName.lineOf (lists : r.ListsByName lines) (apart : r.NamesApart)
    {q : MergedLocation} {x : AbstractObject} {line : PointsToLine} (there : line ∈ lines)
    (merged : r.Merges q x) (named : r.locationLabel q = .ok line.pointer) : r.LineOf q line where
  named := named
  mem_objects label := by
    rw [lists.mem_objects line there]
    constructor
    · rintro ⟨q', x', merged', named', labelled⟩
      cases apart merged merged' named named'
      exact ⟨x', merged', labelled⟩
    · rintro ⟨x', merged', labelled⟩
      exact ⟨q, x', merged', named, labelled⟩

/-- A listing by names keeps locations apart just if their names do. -/
theorem ListsByName.keepsApart_iff (lists : r.ListsByName lines) :
    r.KeepsApart lines ↔ r.NamesApart := by
  constructor
  · rintro ⟨locations, _, mem_locations, own⟩ q q' x x' name merged merged' named named'
    have labels := lists.nodup_labels (own.imp fun _ _ line => line.named)
    exact List.inj_on_of_nodup_map labels ((mem_locations q).mpr ⟨x, merged⟩)
      ((mem_locations q').mpr ⟨x', merged'⟩) (named.trans named'.symm)
  · intro apart
    have each : ∀ line ∈ lines, ∃ q, (∃ x, r.Merges q x) ∧ r.LineOf q line := by
      intro line there
      obtain ⟨q, x, merged, named⟩ := (lists.mem_names _).mp (List.mem_map_of_mem there)
      exact ⟨q, ⟨x, merged⟩, lists.lineOf apart there merged named⟩
    obtain ⟨locations, own⟩ := exists_forall₂_of_forall each
    refine ⟨locations, ?_, fun q => ⟨fun there => ?_, fun ⟨x, merged⟩ => ?_⟩,
      own.imp fun _ _ => And.right⟩
    · exact (lists.nodup_labels (own.imp fun _ _ line => line.2.named)).of_map _
    · obtain ⟨_, _, merged, _⟩ := exists_right_of_forall₂ own there
      exact merged
    · obtain ⟨⟨name, named⟩, _⟩ := lists.named merged
      obtain ⟨line, there, same⟩ := List.mem_map.mp ((lists.mem_names name).mpr ⟨q, x, merged, named⟩)
      obtain ⟨q', there', ⟨x', merged'⟩, line'⟩ := exists_left_of_forall₂ own there
      cases apart merged merged' named (same ▸ line'.named)
      exact there'

end Lines

/-! ### The listing of a solution -/

section Listing

variable {kind : AnalysisKind} {S : Type} [IdSet S .contextObject] {r : Solution kind.Element S}

omit [IdSet S .contextObject] in
theorem mergedObjectLabel_eq {id : ContextObjectId} {o : HeapObject kind.Element}
    (named : r.state.canon.Names id o) : r.mergedObjectLabel id = r.objectLabel o.object := by
  obtain ⟨entry, found, _, known⟩ := named
  simp [mergedObjectLabel, found, known]

omit [IdSet S .contextObject] in
theorem pointer_of_locates {p : PointerId} {l : Location kind.Element}
    (located : r.state.canon.Locates p l) : ∃ pointer, r.state.canon.pointer p = .ok pointer := by
  cases located with
  | var found => exact ⟨_, found⟩
  | field found => exact ⟨_, found⟩

omit [IdSet S .contextObject] in
theorem mergedPointerLabel_eq {id : PointerId} {pointer : Pointer} {l : Location kind.Element}
    (found : r.state.canon.pointer id = .ok pointer) (located : r.state.canon.Locates id l) :
    r.mergedPointerLabel pointer = r.locationLabel l.merged := by
  cases located with
  | var found' =>
    cases found.symm.trans found'
    rfl
  | field found' named =>
    cases found.symm.trans found'
    simp only [mergedPointerLabel, mergedObjectLabel_eq named]
    rfl

/-- What a location holds with contexts dropped is what its pointers hold. -/
theorem merges_iff {a : Analysis kind.Element} (grounded : r.state.Grounded a) {q : MergedLocation}
    {x : AbstractObject} : r.Merges q x ↔ ∃ p l id o, id ∈ r.objectsOf p ∧
      r.state.canon.Locates p l ∧ r.state.canon.Names id o ∧ l.merged = q ∧ o.object = x := by
  have recorded : r.Merges q x ↔ ∃ l c, l.merged = q ∧ r.state.Records (.holds l ⟨c, x⟩) := by
    cases q with
    | var v =>
      obtain ⟨ids, listed, mem_ids⟩ := objectsOfVar_spec grounded v
      simp only [Merges, listed, Except.ok.injEq, exists_eq_left', mem_ids]
      constructor
      · rintro ⟨c, c', held⟩
        exact ⟨.var c v, c', rfl, held⟩
      · rintro ⟨l, c', same, held⟩
        cases l <;> cases same
        exact ⟨_, c', held⟩
    | field o f =>
      constructor
      · rintro ⟨c, c', held⟩
        exact ⟨.field ⟨c, o⟩ f, c', rfl, held⟩
      · rintro ⟨l, c', same, held⟩
        cases l <;> cases same
        exact ⟨_, c', held⟩
  rw [recorded]
  constructor
  · rintro ⟨l, c, same, held⟩
    cases held with
    | holds passed located named => exact ⟨_, l, _, _, passed, located, named, same, rfl⟩
  · rintro ⟨p, l, id, o, passed, located, named, same, rfl⟩
    exact ⟨l, o.context, same, .holds passed located named⟩

/-- The pointers that have a part in the listing. -/
def holding (r : Solution kind.Element S) : List (PointerId × Pointer) :=
  r.state.canon.pointerList.filter fun entry => !(r.objectsOf entry.1).isEmpty

theorem mem_holding {p : PointerId} {pointer : Pointer} : (p, pointer) ∈ r.holding ↔
    r.state.canon.pointer p = .ok pointer ∧ ∃ id, id ∈ r.objectsOf p := by
  rw [holding, List.mem_filter, Canon.mem_pointerList]
  refine and_congr_right fun _ => ?_
  cases r.objectsOf p <;> simp

variable (coherent : r.analysis.program.Coherent) (inRange : r.state.InRange r.analysis.program)
  (grounded : r.state.Grounded r.analysis)
include coherent inRange

/-- The names that the listing finds for what a pointer holds. -/
private theorem mem_labels_iff {p : PointerId} {label : String} :
    (∃ labels, (r.objectsOf p).mapM r.mergedObjectLabel = .ok labels ∧ label ∈ labels) ↔
      ∃ id o, id ∈ r.objectsOf p ∧ r.state.canon.Names id o ∧ r.objectLabel o.object = .ok label := by
  have named (id : ContextObjectId) (passed : id ∈ r.objectsOf p) :
      ∃ o, r.state.canon.Names id o := (inRange.holds (.inr passed)).2
  obtain ⟨labels, mapped, mem_labels⟩ := mapM_ok fun id passed => by
    obtain ⟨o, named⟩ := named id passed
    exact mergedObjectLabel_succeeds coherent inRange named
  simp only [mapped, Except.ok.injEq, exists_eq_left', mem_labels]
  constructor
  · rintro ⟨id, passed, labelled⟩
    obtain ⟨o, named⟩ := named id passed
    exact ⟨id, o, passed, named, mergedObjectLabel_eq named ▸ labelled⟩
  · rintro ⟨id, o, passed, named, labelled⟩
    exact ⟨id, passed, (mergedObjectLabel_eq named).trans labelled⟩

include grounded

theorem named_of_merges {q : MergedLocation} {x : AbstractObject} (merged : r.Merges q x) :
    Succeeds (r.locationLabel q) ∧ Succeeds (r.objectLabel x) := by
  obtain ⟨p, l, id, o, passed, located, named, rfl, rfl⟩ := (merges_iff grounded).mp merged
  obtain ⟨pointer, found⟩ := pointer_of_locates located
  rw [← mergedPointerLabel_eq found located, ← mergedObjectLabel_eq named]
  exact ⟨mergedPointerLabel_succeeds coherent inRange found,
    mergedObjectLabel_succeeds coherent inRange named⟩

omit coherent in
/-- Pointers that hold something have the names of locations that do. -/
private theorem exists_named_iff (name : String) :
    (∃ entry ∈ r.holding, r.mergedPointerLabel entry.2 = .ok name) ↔
      ∃ q x, r.Merges q x ∧ r.locationLabel q = .ok name := by
  constructor
  · rintro ⟨⟨p, pointer⟩, there, named⟩
    obtain ⟨found, id, passed⟩ := mem_holding.mp there
    obtain ⟨⟨l, located⟩, o, stands⟩ := inRange.holds (.inr passed)
    rw [mergedPointerLabel_eq found located] at named
    have merged := (merges_iff grounded).mpr ⟨p, l, id, o, passed, located, stands, rfl, rfl⟩
    exact ⟨l.merged, o.object, merged, named⟩
  · rintro ⟨q, x, merged, named⟩
    obtain ⟨p, l, id, o, passed, located, _, rfl, _⟩ := (merges_iff grounded).mp merged
    obtain ⟨pointer, found⟩ := pointer_of_locates located
    rw [← mergedPointerLabel_eq found located] at named
    exact ⟨(p, pointer), mem_holding.mpr ⟨found, id, passed⟩, named⟩

/-- Under a name the listing finds the names of what is held by locations of that name. -/
private theorem exists_labelled_iff (name label : String) :
    (∃ entry ∈ r.holding, r.mergedPointerLabel entry.2 = .ok name ∧
      ∃ labels, (r.objectsOf entry.1).mapM r.mergedObjectLabel = .ok labels ∧ label ∈ labels) ↔
      ∃ q x, r.Merges q x ∧ r.locationLabel q = .ok name ∧ r.objectLabel x = .ok label := by
  simp only [mem_labels_iff coherent inRange]
  constructor
  · rintro ⟨⟨p, pointer⟩, there, named, id, o, passed, stands, labelled⟩
    obtain ⟨found, _⟩ := mem_holding.mp there
    obtain ⟨⟨l, located⟩, _⟩ := inRange.holds (.inr passed)
    rw [mergedPointerLabel_eq found located] at named
    have merged := (merges_iff grounded).mpr ⟨p, l, id, o, passed, located, stands, rfl, rfl⟩
    exact ⟨l.merged, o.object, merged, named, labelled⟩
  · rintro ⟨q, x, merged, named, labelled⟩
    obtain ⟨p, l, id, o, passed, located, stands, rfl, rfl⟩ := (merges_iff grounded).mp merged
    obtain ⟨pointer, found⟩ := pointer_of_locates located
    rw [← mergedPointerLabel_eq found located] at named
    exact ⟨(p, pointer), mem_holding.mpr ⟨found, id, passed⟩, named, id, o, passed, stands, labelled⟩

/-- The merged points-to sets are listed by name. -/
theorem mergedPointsTo_spec :
    ∃ table, r.mergedPointsTo = .ok table ∧ r.ListsByName (PointsToLine.ofTable table) := by
  obtain ⟨_, listed⟩ := mergedPointsToListing_succeeds coherent inRange
  obtain ⟨table, ran, _⟩ := bind_eq_ok_iff.mp listed
  obtain ⟨names, sets⟩ := mem_of_foldlM_enterNames ∅ ran
  refine ⟨table, ran, named_of_merges coherent inRange grounded, PointsToLine.ordered_ofTable,
    fun name => ?_, fun line there label => ?_⟩
  · rw [PointsToLine.map_pointer_ofTable, Std.TreeMap.mem_keys, names,
      ← exists_named_iff inRange grounded]
    simp [holding]
  · rw [← PointsToLine.objects_of_mem there, sets, ← exists_labelled_iff coherent inRange grounded]
    simp [holding]

end Listing

end Solution

/-! ### Names of described programs -/

open Classical in
/-- The objects that an analysis is confined to can be narrowed down to such as its heap model makes. -/
theorem Analysis.Confined.narrow {E : Type} {a : Analysis E} {contexts : List (Context E)}
    {objects : List AbstractObject} (confined : a.Confined contexts objects) (good : AbstractObject → Prop)
    (makes : ∀ {m target site type o}, a.program.Has m (.alloc target site type) →
      a.heap site type m = .ok o → good o) : a.Confined contexts (objects.filter good) :=
  { confined with
    receiverCall := fun here there found listed =>
      confined.receiverCall here there found (List.mem_of_mem_filter listed)
    object := fun has made =>
      List.mem_filter.mpr ⟨confined.object has made, decide_eq_true (makes has made)⟩ }

/-- Whatever is held, and whatever holds it in a field, has been made by some statement. -/
theorem Program.Coherent.makes_of_derives {p : Program} (coherent : p.Coherent) {kind : AnalysisKind}
    {depth : Nat} {heap : HeapKind} {l : Location kind.Element} {o : HeapObject kind.Element}
    (derived : (p.analysis kind depth heap).Derives (.holds l o)) :
    p.Makes heap o.object ∧ ∀ x f, l = .field x f → p.Makes heap x.object := by
  classical
  have confined := (coherent.analysis_confined kind depth heap).narrow (p.Makes heap)
    fun has made => ⟨_, _, _, _, has, made⟩
  have made {x : AbstractObject} (listed : x ∈ (heap.objects p).filter (p.Makes heap)) :
      p.Makes heap x := of_decide_eq_true (List.mem_filter.mp listed).2
  obtain ⟨within, held⟩ : (Fact.holds l o).Among _ _ := derived.among confined
  refine ⟨made (mem_heapObjects.mp held).2, ?_⟩
  rintro x f rfl
  exact made (mem_heapObjects.mp within).2

namespace Solution

section Described

variable {d : Described.Program} {kind : AnalysisKind} {S : Type} [IdSet S .contextObject]
  {r : Solution kind.Element S} {heap : HeapKind}

/-- What is held with contexts dropped has been made, and so has what holds it in a field. -/
theorem makes_of_merges {p : Program} (coherent : p.Coherent) {depth : Nat}
    (grounded : r.state.Grounded (p.analysis kind depth heap)) {q : MergedLocation} {x : AbstractObject}
    (merged : r.Merges q x) : p.Makes heap x ∧ ∀ o f, q = .field o f → p.Makes heap o := by
  obtain ⟨pointer, l, id, o, passed, located, named, rfl, rfl⟩ := (merges_iff grounded).mp merged
  obtain ⟨made, within⟩ := coherent.makes_of_derives
    (grounded.derives_of_records (.holds passed located named))
  refine ⟨made, fun o f same => ?_⟩
  cases l <;> cases same
  exact within _ _ rfl

variable (stands : d.StandsFor r.analysis.program) (distinct : (d.types.map (·.name)).Nodup)
  (made : ∀ {q x}, r.Merges q x → r.analysis.program.Makes heap x ∧
    ∀ o f, q = .field o f → r.analysis.program.Makes heap o)
include stands distinct made

theorem objectsApart : r.ObjectsApart :=
  fun merged merged' named named' =>
    objectLabel_injective stands distinct (made merged).1 (made merged').1 named named'

/-- Plain names are apart. -/
theorem namesApart_of_plain (plain : d.PlainNames) : r.NamesApart := by
  have fieldLabel {q : MergedLocation} {x o : AbstractObject} {f : FieldId} {name : String}
      (merged : r.Merges q x) (same : q = .field o f) (named : r.locationLabel q = .ok name) :
      ∃ label fieldName, r.objectLabel o = .ok label ∧ r.analysis.program.field f = .ok fieldName ∧
        label ++ "." ++ fieldName = name ∧ '/' ∉ name.toList := by
    subst same
    obtain ⟨label, labelled, rest⟩ := bind_eq_ok_iff.mp named
    obtain ⟨fieldName, found, same⟩ := bind_eq_ok_iff.mp rest
    cases same
    have unslashed := not_slash_mem_objectLabel stands plain ((made merged).2 o f rfl) labelled
    have field := (stands.plainName_field plain found).1
    exact ⟨label, fieldName, labelled, found, rfl, by simp [String.toList_append, unslashed, field]⟩
  intro q q' x x' name merged merged' named named'
  cases q with
  | var v =>
    cases q' with
    | var v' => rw [stands.varName_injective distinct plain named named']
    | field o f =>
      obtain ⟨_, _, _, _, _, unslashed⟩ := fieldLabel merged' rfl named'
      exact absurd (Described.Program.StandsFor.slash_mem_varName named) unslashed
  | field o f =>
    obtain ⟨label, fieldName, labelled, found, rfl, unslashed⟩ := fieldLabel merged rfl named
    cases q' with
    | var v => exact absurd (Described.Program.StandsFor.slash_mem_varName named') unslashed
    | field o' f' =>
      obtain ⟨label', fieldName', labelled', found', same, _⟩ := fieldLabel merged' rfl named'
      obtain ⟨rfl, rfl⟩ := append_inj_of_last rfl (stands.plainName_field plain found').2
        (stands.plainName_field plain found).2 same
      cases objectLabel_injective stands distinct ((made merged).2 o f rfl)
        ((made merged').2 o' f' rfl) labelled labelled'
      rw [(stands.fields found found').mpr rfl]

end Described

end Solution

section Described

variable {described : Described.Program} {p : Program} (loaded : described.link = .ok p)
  (kind : AnalysisKind) (depth : Nat) (heap : HeapKind) {S : Type} [IdSet S .contextObject]
  [LawfulIdSet S]
include loaded

/-- A successful analysis lists its merged points-to sets by name. -/
theorem listsByName_of_solve {r : Solution kind.Element S}
    (solved : (p.analysis kind depth heap).solve S = .ok r) :
    ∃ table, r.mergedPointsTo = .ok table ∧ r.ListsByName (PointsToLine.ofTable table) := by
  have coherent := Described.Program.link_coherent loaded
  have grounded := Analysis.solve_grounded (p.analysis_coherent loaded kind depth heap) solved
  obtain ⟨same, reachable, _⟩ :=
    Analysis.solve_reachable (p.analysis_coherent loaded kind depth heap) solved
  have inRange := reachable.inRange coherent
  obtain ⟨analysis, state⟩ := r
  cases same
  exact Solution.mergedPointsTo_spec (r := ⟨_, state⟩) coherent inRange grounded

/-- The listing of merged points-to sets of a successful analysis has a line for each name of what holds
something, with the names of all that is held under it, and names of objects are all different. So it
keeps variables and fields apart just if their names are different, and they are if the description has
plain names and no overloads. -/
theorem merged_listing_goes_by_names {r : Solution kind.Element S}
    (solved : (p.analysis kind depth heap).solve S = .ok r) :
    ∃ table, r.mergedPointsTo = .ok table ∧
      r.mergedPointsToListing =
        .ok (String.join ((PointsToLine.ofTable table).map PointsToLine.text)) ∧
      r.ListsByName (PointsToLine.ofTable table) ∧ r.ObjectsApart ∧
      (r.KeepsApart (PointsToLine.ofTable table) ↔ r.NamesApart) ∧
      (described.PlainNames → r.KeepsApart (PointsToLine.ofTable table)) := by
  obtain ⟨table, ran, lists⟩ := listsByName_of_solve loaded kind depth heap solved
  have coherent := p.analysis_coherent loaded kind depth heap
  have stands := Described.Program.standsFor_of_link loaded
  have distinct := (Described.Program.wellFormed_of_link loaded).types_distinct
  have program : r.analysis.program = p :=
    congrArg Analysis.program (Analysis.solve_reachable coherent solved).1
  rw [← program] at stands
  have made {q x} (merged : r.Merges q x) : r.analysis.program.Makes heap x ∧
      ∀ o f, q = .field o f → r.analysis.program.Makes heap o := by
    rw [program]
    exact Solution.makes_of_merges coherent.program (Analysis.solve_grounded coherent solved) merged
  refine ⟨table, ran, ?_, lists, Solution.objectsApart stands distinct made, lists.keepsApart_iff,
    fun plain => lists.keepsApart_iff.mpr (Solution.namesApart_of_plain stands distinct made plain)⟩
  simp [Solution.mergedPointsToListing, ran, PointsToLine.ofTable, Function.comp_def]

end Described

theorem merged_listing_goes_by_names_boxes : ∃ p r table, boxes.link = .ok p ∧
    (p.analysis .objectSensitive 1 .perSite).solve (HybridSet .contextObject) = .ok r ∧
    r.mergedPointsTo = .ok table ∧ boxes.PlainNames ∧ r.KeepsApart (PointsToLine.ofTable table) := by
  obtain ⟨p, r, loaded, solved⟩ := boxes_solved
  have plain : boxes.PlainNames := by decide +kernel
  obtain ⟨table, ran, _, _, _, _, apart⟩ :=
    merged_listing_goes_by_names loaded .objectSensitive 1 .perSite solved
  exact ⟨p, r, table, loaded, solved, ran, plain, apart plain⟩

/-- Two methods of one name, called with different objects. -/
def overloads : Described.Program where
  types := [
    { name := "Main", super := none, methods := [
        { name := "keep", isStatic := true, isAbstract := false, params := ["x"], body := [] },
        { name := "keep", isStatic := true, isAbstract := false, params := ["x", "y"], body := [] },
        { name := "main", isStatic := true, isAbstract := false, params := []
          body := [.new "a" "Main", .new "b" "Main",
            .call .static "Main.keep" none ["a"] none,
            .call .static "Main.keep" none ["b", "b"] none] }] }]
  entries := ["Main.main"]

/-- The parameters of the two methods that have one name share a line. -/
def overloadsListing : String :=
  "Main.keep/x ==> \x7b NewObj#0<Main>@Main.main NewObj#1<Main>@Main.main \x7d\n" ++
  "Main.keep/y ==> \x7b NewObj#1<Main>@Main.main \x7d\n" ++
  "Main.main/a ==> \x7b NewObj#0<Main>@Main.main \x7d\n" ++
  "Main.main/b ==> \x7b NewObj#1<Main>@Main.main \x7d\n"

/-- Overloads are not kept apart: each of the two parameters holds one object, and their line lists both. -/
theorem merged_listing_joins_overloads : ∃ p r table, overloads.link = .ok p ∧
    (p.analysis .insensitive 1 .perSite).solve (HybridSet .contextObject) = .ok r ∧
    r.mergedPointsTo = .ok table ∧
    r.objectsOfVar ⟨0⟩ = .ok [⟨0⟩] ∧ r.objectsOfVar ⟨1⟩ = .ok [⟨1⟩] ∧
    r.mergedPointsToListing = .ok overloadsListing ∧
    ¬ r.KeepsApart (PointsToLine.ofTable table) := by
  have evaluated : overloads.solvesTo .insensitive 1 .perSite fun _ r =>
      decide (r.objectsOfVar ⟨0⟩ = .ok [⟨0⟩] ∧ r.objectsOfVar ⟨1⟩ = .ok [⟨1⟩] ∧
        r.state.canon.object ⟨0⟩ = .ok ⟨some ⟨0⟩, ⟨0⟩, some ⟨2⟩⟩ ∧
        r.state.canon.object ⟨1⟩ = .ok ⟨some ⟨1⟩, ⟨0⟩, some ⟨2⟩⟩ ∧
        r.locationLabel (.var ⟨0⟩) = .ok "Main.keep/x" ∧
        r.locationLabel (.var ⟨1⟩) = .ok "Main.keep/x" ∧
        r.mergedPointsToListing = .ok overloadsListing) := by decide +kernel
  obtain ⟨p, r, loaded, solved, evaluated⟩ := Described.Program.exists_of_solvesTo evaluated
  obtain ⟨first, second, object, object', named, named', text⟩ := of_decide_eq_true evaluated
  obtain ⟨table, ran, lists⟩ := listsByName_of_solve loaded .insensitive 1 .perSite solved
  refine ⟨p, r, table, loaded, solved, ran, first, second, text, fun apart => ?_⟩
  have merged : r.Merges (.var ⟨0⟩) _ := ⟨_, first, ⟨0⟩, List.mem_singleton.mpr rfl, object⟩
  have merged' : r.Merges (.var ⟨1⟩) _ := ⟨_, second, ⟨1⟩, List.mem_singleton.mpr rfl, object'⟩
  cases lists.keepsApart_iff.mp apart merged merged' named named'

end PointerAnalysis
