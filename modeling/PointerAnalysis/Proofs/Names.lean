import Mathlib.Data.Prod.Basic
import PointerAnalysis.Proofs.Correspondence
import PointerAnalysis.Proofs.Loader
import PointerAnalysis.Report.Labels
import Std.Data.String.ToNat

/-! Which names tell apart. A report joins names by dots, slashes and brackets, none of which is kept out
of the names themselves, and it leaves the numbers of parameters out. Names of abstract objects are
distinct in spite of that, since a site stands in one statement; names of variables and fields are if a
description has plain names and no overloads. -/
namespace PointerAnalysis

/-! ### Texts -/

private theorem append_cons_inj {c : Char} {a a' b b' : List Char} (lacks : c ∉ a) (lacks' : c ∉ a')
    (same : a ++ c :: b = a' ++ c :: b') : a = a' ∧ b = b' := by
  have places := congrArg (List.idxOf c) same
  simp only [List.idxOf_append, lacks, lacks', if_false, List.idxOf_cons_self, Nat.zero_add] at places
  obtain ⟨front, rest⟩ := List.append_inj same places
  exact ⟨front, List.tail_eq_of_cons_eq rest⟩

section Texts

variable {c : Char} {separator a a' b b' : String} (single : separator.toList = [c])
include single

/-- Where the first parts lack the separator, it is the first one that splits the text. -/
theorem append_inj_of_first (lacks : c ∉ a.toList) (lacks' : c ∉ a'.toList)
    (same : a ++ separator ++ b = a' ++ separator ++ b') : a = a' ∧ b = b' := by
  have chars := congrArg String.toList same
  simp only [String.toList_append, single, List.append_assoc, List.singleton_append] at chars
  exact (append_cons_inj lacks lacks' chars).imp String.toList_inj.mp String.toList_inj.mp

/-- Where the second parts lack the separator, it is the last one that splits the text. -/
theorem append_inj_of_last (lacks : c ∉ b.toList) (lacks' : c ∉ b'.toList)
    (same : a ++ separator ++ b = a' ++ separator ++ b') : a = a' ∧ b = b' := by
  have chars := congrArg (fun text => text.toList.reverse) same
  simp only [String.toList_append, single, List.reverse_append, List.reverse_cons, List.reverse_nil,
    List.nil_append, List.singleton_append] at chars
  obtain ⟨last, first⟩ := append_cons_inj (by simpa using lacks) (by simpa using lacks') chars
  exact ⟨String.toList_inj.mp (List.reverse_injective first),
    String.toList_inj.mp (List.reverse_injective last)⟩

end Texts

/-- A printed number is made of digits. -/
theorem not_mem_toDigits {c : Char} (other : c.isDigit = false) (n : Nat) : c ∉ Nat.toDigits 10 n := by
  intro there
  simp [Nat.isDigit_of_mem_toDigits (by decide) (by decide) there] at other

/-! ### Names of classes, methods and variables -/

namespace Described

/-- A name without the characters that reports put between names. -/
def PlainName (name : String) : Prop := '/' ∉ name.toList ∧ '.' ∉ name.toList

instance (name : String) : Decidable (PlainName name) :=
  inferInstanceAs (Decidable ('/' ∉ name.toList ∧ '.' ∉ name.toList))

namespace Program

variable {d : Described.Program} {p : PointerAnalysis.Program}

/-- A description with plain names, in which no class has two methods of one name. Names of classes may
hold dots, and names of variables whatever they like. -/
structure PlainNames (d : Described.Program) : Prop where
  types : ∀ c ∈ d.types, '/' ∉ c.name.toList
  methods : ∀ c ∈ d.types, ∀ m ∈ c.methods, PlainName m.name
  fields : ∀ c ∈ d.types, ∀ m ∈ c.methods, ∀ s ∈ m.body, ∀ f ∈ s.fields, PlainName f
  no_overloads : ∀ c ∈ d.types, (c.methods.map (·.name)).Nodup

instance (d : Described.Program) : Decidable d.PlainNames :=
  decidable_of_iff
    ((∀ c ∈ d.types, '/' ∉ c.name.toList) ∧
      (∀ c ∈ d.types, ∀ m ∈ c.methods, PlainName m.name) ∧
      (∀ c ∈ d.types, ∀ m ∈ c.methods, ∀ s ∈ m.body, ∀ f ∈ s.fields, PlainName f) ∧
      ∀ c ∈ d.types, (c.methods.map (·.name)).Nodup)
    ⟨fun ⟨types, methods, fields, overloads⟩ => ⟨types, methods, fields, overloads⟩,
      fun plain => ⟨plain.types, plain.methods, plain.fields, plain.no_overloads⟩⟩

/-- A description in which no name holds a line break. -/
structure UnbrokenNames (d : Described.Program) : Prop where
  types : ∀ c ∈ d.types, '\n' ∉ c.name.toList
  methods : ∀ c ∈ d.types, ∀ m ∈ c.methods, '\n' ∉ m.name.toList
  params : ∀ c ∈ d.types, ∀ m ∈ c.methods, ∀ name ∈ m.params, '\n' ∉ name.toList
  vars : ∀ c ∈ d.types, ∀ m ∈ c.methods, ∀ s ∈ m.body, ∀ name ∈ s.vars, '\n' ∉ name.toList
  fields : ∀ c ∈ d.types, ∀ m ∈ c.methods, ∀ s ∈ m.body, ∀ f ∈ s.fields, '\n' ∉ f.toList

instance (d : Described.Program) : Decidable d.UnbrokenNames :=
  decidable_of_iff
    ((∀ c ∈ d.types, '\n' ∉ c.name.toList) ∧
      (∀ c ∈ d.types, ∀ m ∈ c.methods, '\n' ∉ m.name.toList) ∧
      (∀ c ∈ d.types, ∀ m ∈ c.methods, ∀ name ∈ m.params, '\n' ∉ name.toList) ∧
      (∀ c ∈ d.types, ∀ m ∈ c.methods, ∀ s ∈ m.body, ∀ name ∈ s.vars, '\n' ∉ name.toList) ∧
      ∀ c ∈ d.types, ∀ m ∈ c.methods, ∀ s ∈ m.body, ∀ f ∈ s.fields, '\n' ∉ f.toList)
    ⟨fun ⟨types, methods, params, vars, fields⟩ => ⟨types, methods, params, vars, fields⟩,
      fun unbroken => ⟨unbroken.types, unbroken.methods, unbroken.params, unbroken.vars, unbroken.fields⟩⟩

/-- A method is known by its class and whatever tells the methods of a class apart. -/
theorem declarations_distinct {α : Type} {f : Method → α} (distinct : (d.types.map (·.name)).Nodup)
    (apart : ∀ c ∈ d.types, (c.methods.map f).Nodup) :
    (d.declarations.map fun entry => (entry.1.name, f entry.2)).Nodup := by
  rw [declarations, List.map_flatMap, List.nodup_flatMap]
  constructor
  · intro c there
    have own := (apart c there).map (Prod.mk_right_injective c.name)
    simpa [Class.declarations, Function.comp_def] using own
  · refine (List.pairwise_map.mp distinct).imp fun {c c'} other => ?_
    intro entry there there'
    simp only [Class.declarations, List.map_map, List.mem_map] at there there'
    obtain ⟨m, _, rfl⟩ := there
    obtain ⟨m', _, same⟩ := there'
    exact other (congrArg Prod.fst same).symm

namespace StandsFor

variable (stands : d.StandsFor p)
include stands

/-- A class of the program is one of the description. -/
theorem typeName_described {t : TypeId} {name : String} (named : p.typeName t = .ok name) :
    (d.types.map (·.name))[t.index]? = some name := by
  obtain ⟨type, found, same⟩ := bind_eq_ok_iff.mp named
  have inside := Id.index_lt_of_lookup found
  rw [stands.types_size] at inside
  obtain ⟨type', found', presents⟩ := stands.types (List.getElem?_eq_getElem inside)
  cases found.symm.trans found'
  cases same
  rw [List.getElem?_map, List.getElem?_eq_getElem inside, Option.map_some, presents.name]

/-- A method of the program is one of the description, and is named after its class and itself. -/
theorem methodName_described {m : MethodId} {name : String} (named : p.methodName m = .ok name) :
    ∃ c method, d.declarations[m.index]? = some (c, method) ∧ name = c.name ++ "." ++ method.name := by
  obtain ⟨method, found, named⟩ := bind_eq_ok_iff.mp named
  obtain ⟨owner, owned, same⟩ := bind_eq_ok_iff.mp named
  obtain ⟨c, described, here, realises⟩ := stands.realises found
  obtain ⟨type, known, typed⟩ := realises.owner
  simp only [PointerAnalysis.Program.typeName, known, ok_bind, pure_eq_ok, Except.ok.injEq] at owned
  cases same
  exact ⟨c, described, here, by rw [← owned, typed, realises.name]⟩

section Distinct

variable (distinct : (d.types.map (·.name)).Nodup)
include distinct

theorem typeName_injective {t t' : TypeId} {name : String} (named : p.typeName t = .ok name)
    (named' : p.typeName t' = .ok name) : t = t' := by
  have here := stands.typeName_described named
  have there := stands.typeName_described named'
  exact Id.ext ((List.getElem?_inj (List.getElem?_eq_some_iff.mp here).1 distinct).mp
    (here.trans there.symm))

variable (plain : d.PlainNames)
include plain

theorem methodName_injective {m m' : MethodId} {name : String} (named : p.methodName m = .ok name)
    (named' : p.methodName m' = .ok name) : m = m' := by
  obtain ⟨c, method, here, whole⟩ := stands.methodName_described named
  obtain ⟨c', method', here', whole'⟩ := stands.methodName_described named'
  have undotted {i : Nat} {c : Class} {method : Method} (here : d.declarations[i]? = some (c, method)) :
      '.' ∉ method.name.toList := by
    obtain ⟨known, declared⟩ := d.mem_declarations.mp (List.mem_of_getElem? here)
    exact (plain.methods c known method declared).2
  obtain ⟨types, members⟩ := append_inj_of_last rfl (undotted here) (undotted here')
    (whole.symm.trans whole')
  have names := declarations_distinct distinct plain.no_overloads
  have first : (d.declarations.map fun entry => (entry.1.name, entry.2.name))[m.index]? =
      some (c.name, method.name) := by rw [List.getElem?_map, here, Option.map_some]
  have second : (d.declarations.map fun entry => (entry.1.name, entry.2.name))[m'.index]? =
      some (c.name, method.name) := by rw [List.getElem?_map, here', Option.map_some, types, members]
  exact Id.ext ((List.getElem?_inj (List.getElem?_eq_some_iff.mp first).1 names).mp
    (first.trans second.symm))

omit distinct in
theorem not_slash_mem_methodName {m : MethodId} {name : String} (named : p.methodName m = .ok name) :
    '/' ∉ name.toList := by
  obtain ⟨c, method, here, rfl⟩ := stands.methodName_described named
  obtain ⟨known, declared⟩ := d.mem_declarations.mp (List.mem_of_getElem? here)
  have type := plain.types c known
  have member := (plain.methods c known method declared).1
  simp [String.toList_append, type, member]

theorem varName_injective {v v' : VarId} {name : String} (named : p.varName v = .ok name)
    (named' : p.varName v' = .ok name) : v = v' := by
  obtain ⟨var, found, named⟩ := bind_eq_ok_iff.mp named
  obtain ⟨method, within, whole⟩ := bind_eq_ok_iff.mp named
  obtain ⟨var', found', named'⟩ := bind_eq_ok_iff.mp named'
  obtain ⟨method', within', whole'⟩ := bind_eq_ok_iff.mp named'
  obtain ⟨rfl, names⟩ := append_inj_of_first rfl (stands.not_slash_mem_methodName plain within)
    (stands.not_slash_mem_methodName plain within') (Except.ok.inj (whole.trans whole'.symm))
  have methods := stands.methodName_injective distinct plain within within'
  exact (stands.vars ⟨var, found, rfl, rfl⟩ ⟨var', found', rfl, rfl⟩).mpr ⟨methods, names⟩

end Distinct

omit stands in
theorem slash_mem_varName {v : VarId} {name : String} (named : p.varName v = .ok name) :
    '/' ∈ name.toList := by
  obtain ⟨var, _, named⟩ := bind_eq_ok_iff.mp named
  obtain ⟨method, _, same⟩ := bind_eq_ok_iff.mp named
  cases same
  simp [String.toList_append]

/-- The names of fields are plain as well. -/
theorem plainName_field (plain : d.PlainNames) {f : FieldId} {name : String}
    (named : p.field f = .ok name) : PlainName name := by
  obtain ⟨c, known, method, declared, s, there, mentioned⟩ :=
    (stands.fields_used name).mp ⟨f, named⟩
  exact plain.fields c known method declared s there name mentioned

section Unbroken

variable (unbroken : d.UnbrokenNames) {name : String}
include unbroken

theorem newline_not_mem_typeName {t : TypeId} (named : p.typeName t = .ok name) : '\n' ∉ name.toList := by
  obtain ⟨c, here, rfl⟩ := List.mem_map.mp (List.mem_of_getElem? (stands.typeName_described named))
  exact unbroken.types c here

theorem newline_not_mem_methodName {m : MethodId} (named : p.methodName m = .ok name) :
    '\n' ∉ name.toList := by
  obtain ⟨c, method, here, rfl⟩ := stands.methodName_described named
  obtain ⟨known, declared⟩ := d.mem_declarations.mp (List.mem_of_getElem? here)
  have type := unbroken.types c known
  have member := unbroken.methods c known method declared
  simp [String.toList_append, type, member]

theorem newline_not_mem_varName {v : VarId} (named : p.varName v = .ok name) : '\n' ∉ name.toList := by
  obtain ⟨var, found, named⟩ := bind_eq_ok_iff.mp named
  obtain ⟨method, within, same⟩ := bind_eq_ok_iff.mp named
  cases same
  have own : '\n' ∉ var.name.toList := by
    obtain ⟨c, described, here, used⟩ :=
      (stands.vars_used var.method var.name).mp ⟨v, var, found, rfl, rfl⟩
    obtain ⟨known, declared⟩ := d.mem_declarations.mp (List.mem_of_getElem? here)
    rcases used with declares | ⟨s, there, mentioned⟩
    · rcases List.mem_append.mp declares with param | this
      · exact unbroken.params c known described declared _ param
      · split at this
        · cases this
        · rw [List.mem_singleton.mp this]
          decide
    · exact unbroken.vars c known described declared s there _ mentioned
  have method := stands.newline_not_mem_methodName unbroken within
  simp [String.toList_append, own, method]

theorem newline_not_mem_field {f : FieldId} (named : p.field f = .ok name) : '\n' ∉ name.toList := by
  obtain ⟨c, known, method, declared, s, there, mentioned⟩ := (stands.fields_used name).mp ⟨f, named⟩
  exact unbroken.fields c known method declared s there name mentioned

end Unbroken

end StandsFor

end Program

end Described

/-! ### Names of abstract objects -/

namespace Program

variable {p : Program} {heap : HeapKind} {o o' : AbstractObject}

/-- An abstract object stands for what some statement allocates. -/
def Makes (p : Program) (heap : HeapKind) (o : AbstractObject) : Prop :=
  ∃ m target site type, p.Has m (.alloc target site type) ∧ heap.model site type m = .ok o

/-- A site makes one object. -/
theorem Coherent.eq_of_site (coherent : p.Coherent) (made : p.Makes .perSite o)
    (made' : p.Makes .perSite o') (same : o.site = o'.site) : o = o' := by
  obtain ⟨m, target, site, type, has, makes⟩ := made
  obtain ⟨m', target', site', type', has', makes'⟩ := made'
  cases makes
  cases makes'
  cases same
  cases coherent.allocs_apart has has'
  obtain ⟨method, found, there⟩ := has
  obtain ⟨method', found', there'⟩ := has'
  cases found.symm.trans found'
  cases eq_of_nodup_filterMap (coherent.methods found).allocs_once there there' rfl rfl
  rfl

end Program

namespace Solution

variable {E S : Type} [Coded E] {r : Solution E S} {label : String}

theorem objectLabel_perSite {site : AllocSiteId} {type : TypeId} {m : MethodId} :
    r.objectLabel ⟨some site, type, some m⟩ = .ok label ↔ ∃ typeName methodName,
      r.analysis.program.typeName type = .ok typeName ∧
      r.analysis.program.methodName m = .ok methodName ∧
      "NewObj#" ++ toString site.index ++ "<" ++ typeName ++ ">@" ++ methodName = label := by
  simp [objectLabel, bind_eq_ok_iff]

theorem objectLabel_perType {type : TypeId} {container : Option MethodId} :
    r.objectLabel ⟨none, type, container⟩ = .ok label ↔ ∃ typeName,
      r.analysis.program.typeName type = .ok typeName ∧ "MergedObj<" ++ typeName ++ ">" = label := by
  simp [objectLabel, bind_eq_ok_iff]

variable {d : Described.Program} (stands : d.StandsFor r.analysis.program) {heap : HeapKind}
  {o o' : AbstractObject}
include stands

/-- Abstract objects have different names, whatever the names of the program are: the number of a site
ends at the first bracket, and a class stands between brackets by itself. -/
theorem objectLabel_injective (distinct : (d.types.map (·.name)).Nodup)
    (made : r.analysis.program.Makes heap o) (made' : r.analysis.program.Makes heap o')
    (named : r.objectLabel o = .ok label) (named' : r.objectLabel o' = .ok label) : o = o' := by
  cases heap with
  | perSite =>
    refine stands.coherent.eq_of_site made made' ?_
    obtain ⟨m, target, site, type, has, makes⟩ := made
    obtain ⟨m', target', site', type', has', makes'⟩ := made'
    cases makes
    cases makes'
    obtain ⟨typeName, methodName, _, _, whole⟩ := objectLabel_perSite.mp named
    obtain ⟨typeName', methodName', _, _, whole'⟩ := objectLabel_perSite.mp named'
    have lacks (n : Nat) : '<' ∉ ("NewObj#" ++ toString n).toList := by
      simp [String.toList_append, not_mem_toDigits]
    have split (number type method : String) : number ++ "<" ++ type ++ ">@" ++ method =
        number ++ "<" ++ (type ++ ">@" ++ method) := by simp only [String.append_assoc]
    rw [← whole', split, split] at whole
    obtain ⟨numbers, _⟩ := append_inj_of_first rfl (lacks _) (lacks _) whole
    exact congrArg some (Id.ext (Nat.repr_injective ((String.append_right_inj _).mp numbers)))
  | perType =>
    obtain ⟨m, target, site, type, has, makes⟩ := made
    obtain ⟨m', target', site', type', has', makes'⟩ := made'
    cases makes
    cases makes'
    obtain ⟨typeName, known, whole⟩ := objectLabel_perType.mp named
    obtain ⟨typeName', known', whole'⟩ := objectLabel_perType.mp named'
    have same := whole.trans whole'.symm
    rw [String.append_left_inj, String.append_right_inj] at same
    cases stands.typeName_injective distinct known (same ▸ known')
    rfl

theorem not_slash_mem_objectLabel (plain : d.PlainNames) (made : r.analysis.program.Makes heap o)
    (named : r.objectLabel o = .ok label) : '/' ∉ label.toList := by
  obtain ⟨m, target, site, type, has, makes⟩ := made
  have unslashed {name : String} (known : r.analysis.program.typeName type = .ok name) :
      '/' ∉ name.toList := by
    obtain ⟨c, here, rfl⟩ := List.mem_map.mp (List.mem_of_getElem? (stands.typeName_described known))
    exact plain.types c here
  cases heap with
  | perSite =>
    cases makes
    obtain ⟨typeName, methodName, known, within, rfl⟩ := objectLabel_perSite.mp named
    simp [String.toList_append, not_mem_toDigits, unslashed known,
      stands.not_slash_mem_methodName plain within]
  | perType =>
    cases makes
    obtain ⟨typeName, known, rfl⟩ := objectLabel_perType.mp named
    simp [String.toList_append, unslashed known]

theorem newline_not_mem_objectLabel (unbroken : d.UnbrokenNames) (named : r.objectLabel o = .ok label) :
    '\n' ∉ label.toList := by
  obtain ⟨type, typed, named⟩ := bind_eq_ok_iff.mp named
  have ofClass := stands.newline_not_mem_typeName unbroken typed
  split at named
  · cases named
    simp [String.toList_append, ofClass]
  · cases named
    simp [String.toList_append, ofClass, not_mem_toDigits]
  · obtain ⟨method, within, same⟩ := bind_eq_ok_iff.mp named
    cases same
    have inside := stands.newline_not_mem_methodName unbroken within
    simp [String.toList_append, ofClass, inside, not_mem_toDigits]

end Solution

end PointerAnalysis
