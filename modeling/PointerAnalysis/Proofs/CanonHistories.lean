import PointerAnalysis.Proofs.Canon

/-! Canonical numbers under any history of numbering. Each kind of things has a table of its own, and what is
in it is read off the history alone: whatever was numbered of that kind, each thing once, in the order of
its first time. The number of a thing is its place there for ever, so things of one kind are the same if
and only if their numbers are, no matter when they got them. Variables and fields are things of one kind. -/
namespace PointerAnalysis

variable {E : Type}

/-- A thing that gets a canonical number. -/
inductive Numbered (E : Type) where
  | context (elements : Context E)
  | object (o : AbstractObject)
  | contextObject (o : ContextObject)
  | pointer (p : Pointer)
  | method (m : ContextMethod)
  | callSite (s : ContextCallSite)
  deriving DecidableEq

/-- The kind of number that a thing gets. -/
def Numbered.kind : Numbered E → Entity
  | context _ => .context
  | object _ => .object
  | contextObject _ => .contextObject
  | pointer _ => .pointer
  | method _ => .contextMethod
  | callSite _ => .contextCallSite

/-- The things of one kind in a history, each once and in the order of their first times. -/
def distinctOf [DecidableEq E] (kind : Entity) (history : List (Numbered E)) : List (Numbered E) :=
  (history.filter (·.kind = kind)).eraseDups

theorem mem_distinctOf [DecidableEq E] {history : List (Numbered E)} {kind : Entity} {x : Numbered E} :
    x ∈ distinctOf kind history ↔ x ∈ history ∧ x.kind = kind := by
  rw [distinctOf, List.mem_eraseDups, List.mem_filter, decide_eq_true_iff]

theorem distinctOf_concat [DecidableEq E] (kind : Entity) (history : List (Numbered E)) (x : Numbered E) :
    distinctOf kind (history ++ [x]) =
      if x.kind = kind then addOnce (distinctOf kind history) x else distinctOf kind history := by
  rw [distinctOf, List.filter_append]
  split
  · next here => simp [here, eraseDups_concat, distinctOf]
  · next other => simp [other, distinctOf]

def Pointer.isVar : Pointer → Bool
  | var .. => true
  | field .. => false

/-- An entry of the list of variables as an entry of the list of all pointers. -/
def varEntry (entry : PointerId × ContextId × VarId) : PointerId × Pointer :=
  (entry.1, .var entry.2.1 entry.2.2)

/-- An entry of the list of fields as an entry of the list of all pointers. -/
def fieldEntry (entry : PointerId × ContextObjectId × FieldId) : PointerId × Pointer :=
  (entry.1, .field entry.2.1 entry.2.2)

/-! ### Tables of things of one kind -/

section Table

variable {α : Type} [Coded α] (r : Registry α) (a : α) (f : α → Numbered E)

private theorem toOption_lookup {kind : Entity} (id : Id kind) :
    (id.lookup r.values).toOption.map f = (r.toList.map f)[id.index]? := by
  rw [List.getElem?_map, ← Registry.value?_eq, Registry.value?, Id.lookup]
  cases r.values[id.index]? <;> rfl

private theorem getElem?_register : ((r.register a).1.toList.map f)[(r.register a).2]? = some (f a) := by
  rw [List.getElem?_map, ← Registry.value?_eq, r.value?_register, Option.map_some]

variable {f} (injective : Function.Injective f)
include injective

private theorem getElem?_map_iff {a : α} {i : Nat} :
    (r.toList.map f)[i]? = some (f a) ↔ r.value? i = some a := by
  rw [List.getElem?_map, ← Registry.value?_eq]
  exact (Option.map_injective injective).eq_iff (b := some a)

private theorem map_toList_register [DecidableEq α] [DecidableEq E] :
    (r.register a).1.toList.map f = addOnce (r.toList.map f) (f a) := by
  rw [Registry.toList_register_eq_addOnce, addOnce, addOnce, apply_ite (List.map f), List.map_append]
  simp only [List.mem_map_of_injective injective, List.map_singleton]

private theorem register_of_mem_map {r : Registry α} {a : α} (there : f a ∈ r.toList.map f) :
    (r.register a).1 = r :=
  Registry.register_of_mem ((List.mem_map_of_injective injective).mp there)

end Table

namespace Canon

variable [Coded E]

/-- Numbers a thing in the table of its kind. -/
def number (c : Canon E) : (x : Numbered E) → Canon E × Id x.kind
  | .context elements => c.internContext elements
  | .object o => c.internObject o
  | .contextObject o => c.internContextObject o
  | .pointer p => c.internPointer p
  | .method m => c.internMethod m
  | .callSite s => c.internCallSite s

def numberAll (c : Canon E) (history : List (Numbered E)) : Canon E :=
  history.foldl (fun c x => (c.number x).1) c

/-- The tables after a history of numbering. -/
def after (history : List (Numbered E)) : Canon E := empty.numberAll history

/-- What a number stands for; most kinds of numbers have no table here. -/
def meaning? (c : Canon E) : {kind : Entity} → Id kind → Option (Numbered E)
  | .context, id => (c.context id).toOption.map .context
  | .object, id => (c.object id).toOption.map .object
  | .contextObject, id => (c.contextObject id).toOption.map .contextObject
  | .pointer, id => (c.pointer id).toOption.map .pointer
  | .contextMethod, id => (c.method id).toOption.map .method
  | .contextCallSite, id => (c.callSite id).toOption.map .callSite
  | .type, _ | .field, _ | .method, _ | .var, _ | .callSite, _ | .allocSite, _ => none

/-- All things of a kind in the order of their numbers. -/
def listed (c : Canon E) : Entity → List (Numbered E)
  | .context => c.contexts.toList.map .context
  | .object => c.objects.toList.map .object
  | .contextObject => c.contextObjects.toList.map .contextObject
  | .pointer => c.pointers.toList.map .pointer
  | .contextMethod => c.methods.toList.map .method
  | .contextCallSite => c.callSites.toList.map .callSite
  | .type | .field | .method | .var | .callSite | .allocSite => []

/-- The table of a kind is the same. -/
def SameTable (c c' : Canon E) : Entity → Prop
  | .context => c.contexts = c'.contexts
  | .object => c.objects = c'.objects
  | .contextObject => c.contextObjects = c'.contextObjects
  | .pointer => c.pointers = c'.pointers
  | .contextMethod => c.methods = c'.methods
  | .contextCallSite => c.callSites = c'.callSites
  | .type | .field | .method | .var | .callSite | .allocSite => True

/-! ### One thing -/

section Number

variable (c : Canon E)

theorem meaning?_eq {kind : Entity} (id : Id kind) : c.meaning? id = (c.listed kind)[id.index]? := by
  cases kind with
  | context => exact toOption_lookup c.contexts _ id
  | object => exact toOption_lookup c.objects _ id
  | contextObject => exact toOption_lookup c.contextObjects _ id
  | pointer => exact toOption_lookup c.pointers _ id
  | contextMethod => exact toOption_lookup c.methods _ id
  | contextCallSite => exact toOption_lookup c.callSites _ id
  | type | field | method | var | callSite | allocSite => rfl

/-- A thing is listed at its number. -/
theorem listed_at_number (x : Numbered E) :
    ((c.number x).1.listed x.kind)[(c.number x).2.index]? = some x := by
  cases x with
  | context elements => exact getElem?_register c.contexts elements _
  | object o => exact getElem?_register c.objects o _
  | contextObject o => exact getElem?_register c.contextObjects o _
  | pointer p => exact getElem?_register c.pointers p _
  | method m => exact getElem?_register c.methods m _
  | callSite s => exact getElem?_register c.callSites s _

theorem listed_number [DecidableEq E] (x : Numbered E) :
    (c.number x).1.listed x.kind = addOnce (c.listed x.kind) x := by
  cases x with
  | context elements => exact map_toList_register c.contexts elements fun _ _ => Numbered.context.inj
  | object o => exact map_toList_register c.objects o fun _ _ => Numbered.object.inj
  | contextObject o => exact map_toList_register c.contextObjects o fun _ _ => Numbered.contextObject.inj
  | pointer p => exact map_toList_register c.pointers p fun _ _ => Numbered.pointer.inj
  | method m => exact map_toList_register c.methods m fun _ _ => Numbered.method.inj
  | callSite s => exact map_toList_register c.callSites s fun _ _ => Numbered.callSite.inj

theorem sameTable_number (x : Numbered E) {kind : Entity} (other : kind ≠ x.kind) :
    SameTable (c.number x).1 c kind := by
  cases x <;> cases kind <;> first | rfl | trivial

variable {c}

theorem SameTable.listed {c' : Canon E} {kind : Entity} (same : SameTable c c' kind) :
    c.listed kind = c'.listed kind := by
  cases kind with
  | type | field | method | var | callSite | allocSite => rfl
  | _ =>
    simp only [SameTable] at same
    simp only [Canon.listed, same]

/-- What is listed is numbered already. -/
theorem number_of_listed {x : Numbered E} (known : x ∈ c.listed x.kind) : (c.number x).1 = c := by
  cases x with
  | context elements =>
    exact congrArg (fun contexts => { c with contexts })
      (register_of_mem_map (fun _ _ => Numbered.context.inj) known)
  | object o =>
    exact congrArg (fun objects => { c with objects })
      (register_of_mem_map (fun _ _ => Numbered.object.inj) known)
  | contextObject o =>
    exact congrArg (fun contextObjects => { c with contextObjects })
      (register_of_mem_map (fun _ _ => Numbered.contextObject.inj) known)
  | pointer p =>
    exact congrArg (fun pointers => { c with pointers })
      (register_of_mem_map (fun _ _ => Numbered.pointer.inj) known)
  | method m =>
    exact congrArg (fun methods => { c with methods })
      (register_of_mem_map (fun _ _ => Numbered.method.inj) known)
  | callSite s =>
    exact congrArg (fun callSites => { c with callSites })
      (register_of_mem_map (fun _ _ => Numbered.callSite.inj) known)

end Number

/-! ### Histories -/

variable [DecidableEq E] {history : List (Numbered E)} {c : Canon E}

/-- The tables say what was numbered, and in which order. -/
structure Reflects (history : List (Numbered E)) (c : Canon E) : Prop where
  /-- The numbers in use of a kind are the places of what was numbered, and stand for it. -/
  meaning? : ∀ {kind} (id : Id kind), c.meaning? id = (distinctOf kind history)[id.index]?
  /-- A thing that is numbered again gets its number again, and no table changes. -/
  known : ∀ x ∈ history, (c.number x).1 = c
  /-- A new thing gets the next number of its kind. -/
  new : ∀ x ∉ history, (c.number x).2.index = (distinctOf x.kind history).length
  /-- The number of a thing stands for it, whatever is numbered later. -/
  stands : ∀ x later, ((c.number x).1.numberAll later).meaning? (c.number x).2 = some x
  /-- Things of one kind have one number if and only if they are the same: contexts if their elements are, and
  a variable and a field never, since both are pointers. -/
  apart : ∀ x later y, x.kind = y.kind →
    ((c.number x).2.index = (((c.number x).1.numberAll later).number y).2.index ↔ x = y)
  /-- No other table changes. -/
  others : ∀ x kind, kind ≠ x.kind → SameTable (c.number x).1 c kind
  /-- A pointer is found under its number if it was numbered, and is not numbered by that. -/
  pointerId? : ∀ p id, c.pointerId? p = some id ↔ .pointer p ∈ history ∧ (c.number (.pointer p)).2 = id
  /-- The list of all pointers is in the order of their numbers, which is that of their first times. -/
  pointerList : c.pointerList.map Prod.fst = Id.below .pointer (distinctOf .pointer history).length ∧
    c.pointerList.map (fun entry => .pointer entry.2) = distinctOf .pointer history
  /-- Each pointer is in one of two lists, and once. -/
  parted : (c.varPointers.map varEntry ++ c.fieldPointers.map fieldEntry).Perm c.pointerList
  varPointers : (c.varPointers.map varEntry).Sublist c.pointerList
  fieldPointers : (c.fieldPointers.map fieldEntry).Sublist c.pointerList

/-- What a history leaves in the tables. -/
def Holds (history : List (Numbered E)) (c : Canon E) : Prop :=
  ∀ kind, c.listed kind = distinctOf kind history

theorem Holds.number (holds : Holds history c) (x : Numbered E) : Holds (history ++ [x]) (c.number x).1 := by
  intro kind
  rw [distinctOf_concat]
  split
  · next here => rw [← here, listed_number, holds]
  · next other => rw [(sameTable_number c x (Ne.symm other)).listed, holds]

theorem Holds.numberAll (holds : Holds history c) (later : List (Numbered E)) :
    Holds (history ++ later) (c.numberAll later) := by
  induction later generalizing history c with
  | nil => rwa [List.append_nil]
  | cons x later ih =>
    rw [List.append_cons]
    exact ih (holds.number x)

theorem holds_after (history : List (Numbered E)) : Holds history (after history) := by
  have nothing : Holds ([] : List (Numbered E)) empty := fun kind => by cases kind <;> rfl
  exact nothing.numberAll history

/-- More is listed behind what there is. -/
theorem listed_numberAll (c : Canon E) (later : List (Numbered E)) (kind : Entity) :
    c.listed kind <+: (c.numberAll later).listed kind := by
  induction later generalizing c with
  | nil => exact List.prefix_refl _
  | cons x later ih =>
    refine List.IsPrefix.trans ?_ (ih (c.number x).1)
    by_cases here : kind = x.kind
    · subst here
      rw [listed_number, addOnce]
      split
      · exact List.prefix_refl _
      · exact List.prefix_append _ _
    · have same := (sameTable_number c x here).listed
      exact same ▸ List.prefix_refl _

/-! ### Answers -/

/-- A number stands for its thing for ever. -/
theorem meaning?_numberAll (c : Canon E) (x : Numbered E) (later : List (Numbered E)) :
    ((c.number x).1.numberAll later).meaning? (c.number x).2 = some x := by
  rw [meaning?_eq]
  exact getElem?_of_prefix (listed_numberAll _ later x.kind) (listed_at_number c x)

omit [DecidableEq E] in
theorem pointerId?_eq_some_iff {p : Pointer} {id : PointerId} :
    c.pointerId? p = some id ↔ c.meaning? id = some (.pointer p) := by
  have held : c.pointerId? p = some id ↔ c.pointers.value? id.index = some p := by
    rw [← Registry.position?_eq_some_iff, Canon.pointerId?, Option.map_eq_some_iff]
    constructor
    · rintro ⟨i, found, rfl⟩
      exact found
    · exact fun found => ⟨id.index, found, rfl⟩
  rw [held, Canon.meaning?_eq]
  exact (getElem?_map_iff c.pointers fun _ _ => Numbered.pointer.inj).symm

omit [DecidableEq E] in
theorem map_varPointers (c : Canon E) : c.varPointers.map varEntry = c.pointerList.filter (·.2.isVar) := by
  rw [varPointers, List.map_filterMap, ← List.filterMap_eq_filter]
  congr 1
  funext entry
  rcases entry with ⟨_, _ | _⟩ <;> rfl

omit [DecidableEq E] in
theorem map_fieldPointers (c : Canon E) :
    c.fieldPointers.map fieldEntry = c.pointerList.filter (! ·.2.isVar) := by
  rw [fieldPointers, List.map_filterMap, ← List.filterMap_eq_filter]
  congr 1
  funext entry
  rcases entry with ⟨_, _ | _⟩ <;> rfl

namespace Holds

variable (holds : Holds history c)
include holds

theorem mem_listed {x : Numbered E} : x ∈ c.listed x.kind ↔ x ∈ history := by
  rw [holds, mem_distinctOf, and_iff_left rfl]

theorem meaning?_eq {kind : Entity} (id : Id kind) :
    c.meaning? id = (distinctOf kind history)[id.index]? := by
  rw [Canon.meaning?_eq, holds]

/-- A thing has one place among those of its kind. -/
theorem place_unique {kind : Entity} {i j : Nat} {x : Numbered E} (first : (c.listed kind)[i]? = some x)
    (second : (c.listed kind)[j]? = some x) : i = j := by
  have inside := (List.getElem?_eq_some_iff.mp first).1
  have once : (c.listed kind).Nodup := holds kind ▸ nodup_eraseDups _
  exact (List.getElem?_inj inside once).mp (first.trans second.symm)

theorem number_known {x : Numbered E} (known : x ∈ history) : (c.number x).1 = c :=
  number_of_listed (holds.mem_listed.mpr known)

theorem number_new {x : Numbered E} (new : x ∉ history) :
    (c.number x).2.index = (distinctOf x.kind history).length := by
  have unlisted : x ∉ c.listed x.kind := mt holds.mem_listed.mp new
  have place := listed_at_number c x
  rw [listed_number, addOnce, if_neg unlisted, getElem?_append_singleton, holds] at place
  rcases place with old | ⟨last, _⟩
  · exact absurd (holds _ ▸ List.mem_of_getElem? old) unlisted
  · exact last

theorem number_eq_iff {x y : Numbered E} (later : List (Numbered E)) (same : x.kind = y.kind) :
    (c.number x).2.index = (((c.number x).1.numberAll later).number y).2.index ↔ x = y := by
  -- Both numbers are places in the table that there is when both things are numbered.
  have entered {kind : Entity} (here : x.kind = kind) :
      ((c.number x).1.listed kind)[(c.number x).2.index]? = some x := by
    subst here
    exact listed_at_number c x
  have first := getElem?_of_prefix (listed_numberAll _ (later ++ [y]) y.kind) (entered same)
  have second := listed_at_number ((c.number x).1.numberAll later) y
  have all : (c.number x).1.numberAll (later ++ [y]) = (((c.number x).1.numberAll later).number y).1 :=
    List.foldl_append ..
  rw [all] at first
  constructor
  · intro equal
    rw [equal, second] at first
    exact (Option.some.inj first).symm
  · rintro rfl
    exact (((holds.number x).numberAll later).number x).place_unique first second

theorem pointerId?_eq_some_iff {p : Pointer} {id : PointerId} :
    c.pointerId? p = some id ↔ .pointer p ∈ history ∧ (c.number (.pointer p)).2 = id := by
  rw [Canon.pointerId?_eq_some_iff, Canon.meaning?_eq]
  have known (there : .pointer p ∈ history) :
      (c.listed .pointer)[(c.number (.pointer p)).2.index]? = some (.pointer p) := by
    have place := listed_at_number c (.pointer p)
    rwa [holds.number_known there] at place
  constructor
  · intro place
    have there : .pointer p ∈ history := holds.mem_listed.mp (List.mem_of_getElem? place)
    exact ⟨there, Id.ext (holds.place_unique (known there) place)⟩
  · rintro ⟨there, rfl⟩
    exact known there

theorem pointerList_eq : c.pointerList.map (fun entry => .pointer entry.2) = distinctOf .pointer history := by
  rw [← holds, Canon.listed, ← map_snd_pointerList, List.map_map]
  rfl

theorem pointerList_numbers :
    c.pointerList.map Prod.fst = Id.below .pointer (distinctOf .pointer history).length := by
  rw [map_fst_pointerList, ← holds, Canon.listed, List.length_map]

theorem reflects : Reflects history c where
  meaning? := holds.meaning?_eq
  known _ := holds.number_known
  new _ := holds.number_new
  stands := meaning?_numberAll c
  apart _ later _ same := holds.number_eq_iff later same
  others x _ := sameTable_number c x
  pointerId? _ _ := holds.pointerId?_eq_some_iff
  pointerList := ⟨holds.pointerList_numbers, holds.pointerList_eq⟩
  parted := by
    rw [map_varPointers, map_fieldPointers]
    exact List.filter_append_perm ..
  varPointers := by
    rw [map_varPointers]
    exact List.filter_sublist
  fieldPointers := by
    rw [map_fieldPointers]
    exact List.filter_sublist

end Holds

/-- Numbering under any history gives things of one kind the same number if and only if they are the same,
counts the different things of each kind in the order of their first times, and finds each thing under its
number for ever. -/
theorem numbers_reflect_histories (history : List (Numbered E)) : Reflects history (after history) :=
  (holds_after history).reflects

/-- A context that is made again has its number; a variable and a field share none, with the same numbers in
them. -/
example :
    let history : List (Numbered CallSiteId) := [.context [], .pointer (.var ⟨0⟩ ⟨7⟩), .context [⟨3⟩],
      .pointer (.field ⟨0⟩ ⟨7⟩), .pointer (.var ⟨0⟩ ⟨7⟩)]
    let c := after history
    (c.number (.context [⟨3⟩])).2 = ⟨1⟩ ∧ c.varPointers = [(⟨0⟩, ⟨0⟩, ⟨7⟩)] ∧
      c.fieldPointers = [(⟨1⟩, ⟨0⟩, ⟨7⟩)] := by
  decide

end Canon

end PointerAnalysis
