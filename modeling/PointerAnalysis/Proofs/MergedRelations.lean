import Mathlib.Data.Set.Card
import PointerAnalysis.Proofs.Reports

/-! Points-to relations with contexts dropped. Several pointers become one, and several objects; each pair
that is left is counted once, so the relations are the objects of all variables together with those
of all fields. -/
namespace PointerAnalysis

/-! ### Counting -/

section Counting

variable {α β : Type}

theorem ncard_eq_length {l : List α} (nodup : l.Nodup) {p : α → Prop} (mem_iff : ∀ x, x ∈ l ↔ p x) :
    {x | p x}.ncard = l.length := by
  classical
  have same : {x | p x} = l.toFinset := Set.ext fun x => by simp [mem_iff]
  rw [same, Set.ncard_coe_finset, List.toFinset_card_of_nodup nodup]

/-- Different pairs are counted by counting those of each key. -/
theorem length_eq_sum_ncard {keys : List α} (distinct : keys.Nodup) {l : List (α × β)} (nodup : l.Nodup)
    (known : ∀ pair ∈ l, pair.1 ∈ keys) :
    l.length = (keys.map fun k => {y | (k, y) ∈ l}.ncard).sum := by
  classical
  induction keys generalizing l with
  | nil =>
    have none : l = [] := List.eq_nil_iff_forall_not_mem.mpr fun pair there => by cases known pair there
    simp [none]
  | cons k keys ih =>
    obtain ⟨new, distinct⟩ := List.nodup_cons.mp distinct
    let here := l.filter (·.1 = k)
    let others := l.filter fun pair => !decide (pair.1 = k)
    have ofKey : {y | (k, y) ∈ l}.ncard = here.length := by
      rw [← List.length_map (f := Prod.snd)]
      refine ncard_eq_length (List.pairwise_map.mpr ?_) fun y => ?_
      · refine (nodup.filter _).imp_of_mem fun there there' apart same => apart ?_
        have first := of_decide_eq_true (List.mem_filter.mp there).2
        have second := of_decide_eq_true (List.mem_filter.mp there').2
        exact Prod.ext (first.trans second.symm) same
      · simp [here]
    have ofOthers (k' : α) (there : k' ∈ keys) : {y | (k', y) ∈ others}.ncard = {y | (k', y) ∈ l}.ncard := by
      have apart : k' ≠ k := fun same => new (same ▸ there)
      simp [others, apart]
    have rest : others.length = (keys.map fun k' => {y | (k', y) ∈ others}.ncard).sum := by
      refine ih distinct (nodup.filter _) fun pair there => ?_
      obtain ⟨there, apart⟩ := List.mem_filter.mp there
      exact (List.mem_cons.mp (known pair there)).resolve_left (by simpa using apart)
    rw [List.map_cons, List.sum_cons, ofKey, ← List.map_congr_left ofOthers, ← rest]
    exact List.length_eq_length_filter_add _

end Counting

/-! ### Pointers without contexts -/

/-- The pointers of so many variables, and of so many fields of so many objects. -/
def pointersBelow (vars objects fields : Nat) : List MergedPointer :=
  (Id.below .var vars).map .var ++
    (Id.below .object objects).flatMap fun o => (Id.below .field fields).map (.field o)

theorem nodup_pointersBelow (vars objects fields : Nat) : (pointersBelow vars objects fields).Nodup := by
  refine List.nodup_append.mpr ⟨(Id.nodup_below _ _).map fun _ _ => MergedPointer.var.inj, ?_, ?_⟩
  · refine List.nodup_flatMap.mpr ⟨fun o _ => ?_, (Id.nodup_below _ _).imp fun apart m there there' => ?_⟩
    · exact (Id.nodup_below _ _).map fun _ _ same => (MergedPointer.field.inj same).2
    · obtain ⟨_, _, rfl⟩ := List.mem_map.mp there
      obtain ⟨_, _, same⟩ := List.mem_map.mp there'
      exact apart (MergedPointer.field.inj same).1.symm
  · rintro _ there _ there' rfl
    obtain ⟨_, _, rfl⟩ := List.mem_map.mp there
    simp at there'

/-! ### Dropping contexts -/

namespace Canon

variable {E : Type} [Coded E] (c : Canon E)

/-- The abstract object behind an object under a context; a number without meaning stands for itself. -/
def bareObject (id : ContextObjectId) : ObjectId :=
  ((c.contextObject id).toOption.map (·.object)).getD ⟨id.index⟩

def barePointer : Pointer → MergedPointer
  | .var _ v => .var v
  | .field object f => .field (c.bareObject object) f

variable {c}

theorem bareObject_eq {id : ContextObjectId} {entry : ContextObject}
    (found : c.contextObject id = .ok entry) : c.bareObject id = entry.object := by
  simp [bareObject, found, Except.toOption]

end Canon

namespace Solution

variable {E S : Type} [Coded E] [IdSet S .contextObject] (r : Solution E S)

/-- All pairs of a pointer and one of its objects, with contexts dropped and with repetitions. -/
def bareRelations : List (MergedPointer × ObjectId) :=
  r.state.canon.pointerList.flatMap fun entry =>
    (r.objectsOf entry.1).map fun o => (r.state.canon.barePointer entry.2, r.state.canon.bareObject o)

/-- Under some heap contexts, a field of the first object holds the second one. -/
def FieldHolds (o : ObjectId) (f : FieldId) (o' : ObjectId) : Prop :=
  ∃ p id id' context context', r.state.canon.pointer p = .ok (.field id f) ∧
    r.state.canon.contextObject id = .ok ⟨context, o⟩ ∧ id' ∈ r.objectsOf p ∧
    r.state.canon.contextObject id' = .ok ⟨context', o'⟩

variable {r}

theorem mem_relations {p : PointerId} {o : ContextObjectId} :
    (p, o) ∈ r.relations ↔ (∃ pointer, r.state.canon.pointer p = .ok pointer) ∧ o ∈ r.objectsOf p := by
  simp only [relations, List.mem_flatMap, List.mem_map, Prod.exists, Prod.mk.injEq, Canon.mem_pointerList]
  constructor
  · rintro ⟨p', pointer, found, o', held, rfl, rfl⟩
    exact ⟨⟨pointer, found⟩, held⟩
  · rintro ⟨⟨pointer, found⟩, held⟩
    exact ⟨p, pointer, found, o, held, rfl, rfl⟩

theorem mem_bareRelations {m : MergedPointer} {o : ObjectId} : (m, o) ∈ r.bareRelations ↔
    ∃ p pointer id, r.state.canon.pointer p = .ok pointer ∧ id ∈ r.objectsOf p ∧
      r.state.canon.barePointer pointer = m ∧ r.state.canon.bareObject id = o := by
  simp only [bareRelations, List.mem_flatMap, List.mem_map, Prod.exists, Prod.mk.injEq,
    Canon.mem_pointerList]
  constructor
  · rintro ⟨p, pointer, found, id, held, same, same'⟩
    exact ⟨p, pointer, id, found, held, same, same'⟩
  · rintro ⟨p, pointer, id, found, held, same, same'⟩
    exact ⟨p, pointer, found, id, held, same, same'⟩

theorem length_bareRelations : r.bareRelations.length = r.relations.length := by
  simp [bareRelations, relations, List.length_flatMap]

theorem nodup_relations [LawfulIdSet S] : r.relations.Nodup := by
  refine List.pairwise_flatMap.mpr ⟨fun entry _ => ?_, ?_⟩
  · exact (LawfulIdSet.nodup_toList _).map fun _ _ same => congrArg Prod.snd same
  · refine (List.pairwise_map.mp Canon.nodup_pointerList).imp fun apart x there y there' same => ?_
    obtain ⟨_, _, rfl⟩ := List.mem_map.mp there
    obtain ⟨_, _, rfl⟩ := List.mem_map.mp there'
    exact apart (Prod.mk.inj same).1

variable {kind : AnalysisKind} {r : Solution kind.Element S}
  (inRange : r.state.InRange r.analysis.program)
include inRange

theorem contextObject_of_held {p : PointerId} {id : ContextObjectId} (held : id ∈ r.objectsOf p) :
    ∃ context, r.state.canon.contextObject id = .ok ⟨context, r.state.canon.bareObject id⟩ := by
  obtain ⟨_, _, entry, found, _⟩ := inRange.holds (.inr held)
  exact ⟨entry.context, Canon.bareObject_eq found ▸ found⟩

theorem mergedObject_eq {p : PointerId} {id : ContextObjectId} (held : id ∈ r.objectsOf p) :
    r.mergedObject id = .ok (r.state.canon.bareObject id) := by
  obtain ⟨context, found⟩ := contextObject_of_held inRange held
  simp [mergedObject, found]

/-- The object of a field has a number, and so has the field. -/
theorem field_located {p : PointerId} {id : ContextObjectId} {f : FieldId}
    (found : r.state.canon.pointer p = .ok (.field id f)) :
    (∃ context, r.state.canon.contextObject id = .ok ⟨context, r.state.canon.bareObject id⟩) ∧
      (∃ object, r.state.canon.object (r.state.canon.bareObject id) = .ok object) ∧
      ∃ name, r.analysis.program.field f = .ok name := by
  refine and_assoc.mp ⟨?_, inRange.declared.fields found⟩
  obtain ⟨l, located⟩ := inRange.sound.pointers found
  cases located with
  | var found' => cases found.symm.trans found'
  | field found' named =>
    cases found.symm.trans found'
    obtain ⟨entry, known, _, object⟩ := named
    rw [Canon.bareObject_eq known]
    exact ⟨⟨entry.context, known⟩, _, object⟩

theorem mergedPointer_eq {p : PointerId} {pointer : Pointer}
    (found : r.state.canon.pointer p = .ok pointer) :
    r.mergedPointer pointer = .ok (r.state.canon.barePointer pointer) := by
  cases pointer with
  | var context v => rfl
  | field id f =>
    obtain ⟨⟨context, known⟩, _⟩ := field_located inRange found
    simp [mergedPointer, mergedObject, known, Canon.barePointer]

theorem mergedPointers_eq : r.mergedPointers =
    .ok (.ofList (r.state.canon.pointerList.map fun entry => r.state.canon.barePointer entry.2)) := by
  have mapped := mapM_eq_map (l := r.state.canon.pointerList)
    (f := fun entry => r.mergedPointer entry.2) fun entry listed =>
      mergedPointer_eq inRange (Canon.mem_pointerList.mp listed)
  simp [mergedPointers, mapped]

theorem mergedRelations_eq : r.mergedRelations = .ok (.ofList r.bareRelations) := by
  have objects (p : PointerId) :
      (r.objectsOf p).mapM r.mergedObject = .ok ((r.objectsOf p).map r.state.canon.bareObject) :=
    mapM_eq_map fun _ held => mergedObject_eq inRange held
  have mapped := mapM_eq_map (l := r.state.canon.pointerList)
    (f := fun entry => do
      let pointer ← r.mergedPointer entry.2
      let objects ← (r.objectsOf entry.1).mapM r.mergedObject
      return objects.map fun o => (pointer, o))
    (g := fun entry => (r.objectsOf entry.1).map fun o =>
      (r.state.canon.barePointer entry.2, r.state.canon.bareObject o)) fun entry listed => by
    rw [mergedPointer_eq inRange (Canon.mem_pointerList.mp listed), ok_bind, objects, ok_bind, pure_eq_ok,
      List.map_map]
    rfl
  rw [mergedRelations, mapped, ok_bind, pure_eq_ok, bareRelations, List.flatMap_def]

/-- The objects that are reported for a variable are those of its bare pointer, each of them once. -/
theorem objectsOfVar_bare (v : VarId) : ∃ objects, r.objectsOfVar v = .ok objects ∧ objects.Nodup ∧
    ∀ o, o ∈ objects ↔ (.var v, o) ∈ r.bareRelations := by
  let pointers := r.state.canon.varPointers.filter fun entry => entry.2.2 = v
  let ids := pointers.flatMap fun entry => r.objectsOf entry.1
  have mapped : ids.mapM (fun id => do
      let entry ← r.state.canon.contextObject id
      return entry.object) = .ok (ids.map r.state.canon.bareObject) := by
    refine mapM_eq_map fun id there => ?_
    obtain ⟨entry, _, held⟩ := List.mem_flatMap.mp there
    exact mergedObject_eq inRange held
  refine ⟨(Std.TreeSet.ofList (ids.map r.state.canon.bareObject)).toList, ?_, ?_, fun o => ?_⟩
  · simp only [objectsOfVar, ids, pointers] at mapped ⊢
    rw [mapped]
    rfl
  · exact Std.TreeSet.distinct_toList.imp fun apart same => apart (Std.LawfulEqCmp.compare_eq_iff_eq.mpr same)
  · simp only [Std.TreeSet.mem_toList, Std.TreeSet.mem_ofList, List.contains_iff_mem, List.mem_map,
      mem_bareRelations, ids, pointers, List.mem_flatMap, List.mem_filter, decide_eq_true_eq, Prod.exists]
    constructor
    · rintro ⟨id, ⟨p, context, _, ⟨there, rfl⟩, held⟩, same⟩
      exact ⟨p, _, id, Canon.mem_varPointers.mp there, held, rfl, same⟩
    · rintro ⟨p, pointer, id, found, held, bare, same⟩
      cases pointer with
      | var context v' =>
        cases bare
        exact ⟨id, ⟨p, context, _, ⟨Canon.mem_varPointers.mpr found, rfl⟩, held⟩, same⟩
      | field object f => cases bare

theorem fieldHolds_iff {o o' : ObjectId} {f : FieldId} :
    r.FieldHolds o f o' ↔ (.field o f, o') ∈ r.bareRelations := by
  rw [mem_bareRelations]
  constructor
  · rintro ⟨p, id, id', _, _, found, known, held, known'⟩
    refine ⟨p, _, id', found, held, ?_, Canon.bareObject_eq known'⟩
    rw [Canon.barePointer, Canon.bareObject_eq known]
  · rintro ⟨p, pointer, id', found, held, bare, rfl⟩
    cases pointer with
    | var context v => cases bare
    | field id f' =>
      cases bare
      obtain ⟨⟨context, known⟩, _⟩ := field_located inRange found
      obtain ⟨context', known'⟩ := contextObject_of_held inRange held
      exact ⟨p, id, id', context, context', found, known, held, known'⟩

/-- Only pointers of the program have relations. -/
theorem mem_pointersBelow {m : MergedPointer} {o : ObjectId} (there : (m, o) ∈ r.bareRelations) :
    m ∈ pointersBelow r.analysis.program.vars.size r.state.canon.objects.size
      r.analysis.program.fields.size := by
  obtain ⟨p, pointer, _, found, _, rfl, _⟩ := mem_bareRelations.mp there
  cases pointer with
  | var context v =>
    obtain ⟨_, _, _, _, declared, _⟩ := inRange.declared.vars found
    simpa [pointersBelow, Canon.barePointer] using Id.index_lt_of_lookup declared
  | field id f =>
    obtain ⟨_, ⟨_, object⟩, _, name⟩ := field_located inRange found
    simpa [pointersBelow, Canon.barePointer] using
      ⟨Id.index_lt_of_lookup object, Id.index_lt_of_lookup name⟩

/-- The relations without contexts are the objects of the variables and those of the fields. -/
theorem length_mergedRelations {l : List (MergedPointer × ObjectId)} (nodup : l.Nodup)
    (mem_iff : ∀ pair, pair ∈ l ↔ pair ∈ r.bareRelations) {held : VarId → List ObjectId}
    (reported : ∀ v, r.objectsOfVar v = .ok (held v)) : l.length =
      ((Id.below .var r.analysis.program.vars.size).map fun v => (held v).length).sum +
      ((Id.below .object r.state.canon.objects.size).map fun o =>
        ((Id.below .field r.analysis.program.fields.size).map fun f =>
          {o' | r.FieldHolds o f o'}.ncard).sum).sum := by
  have ofVar (v : VarId) : {o | (.var v, o) ∈ l}.ncard = (held v).length := by
    obtain ⟨objects, reported', once, mem_objects⟩ := objectsOfVar_bare inRange v
    cases reported'.symm.trans (reported v)
    exact ncard_eq_length once fun o => (mem_objects o).trans (mem_iff _).symm
  have ofField (o : ObjectId) (f : FieldId) :
      {o' | (.field o f, o') ∈ l}.ncard = {o' | r.FieldHolds o f o'}.ncard := by
    simp only [mem_iff, fieldHolds_iff inRange]
  rw [length_eq_sum_ncard (nodup_pointersBelow ..) nodup fun pair there =>
      mem_pointersBelow inRange ((mem_iff pair).mp there),
    pointersBelow, List.map_append, List.sum_append]
  simp only [List.map_map, Function.comp_def, ofVar, List.map_flatMap, ofField]
  rw [List.flatMap_def, List.sum_flatten, List.map_map]
  rfl

end Solution

end PointerAnalysis
