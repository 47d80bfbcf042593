import PointerAnalysis.Proofs.Id
import PointerAnalysis.Proofs.Lists
import PointerAnalysis.Registry

/-! Registries only grow. What a number stands for it stands for in every later registry, and a
value never has two numbers. -/
namespace PointerAnalysis

namespace Registry

variable {α : Type} [Coded α]

/-- The values of the first registry come first in the second. -/
def Extends (r r' : Registry α) : Prop := r.toList <+: r'.toList

theorem Extends.refl (r : Registry α) : r.Extends r := List.prefix_refl _

theorem Extends.trans {r r' r'' : Registry α} (first : r.Extends r') (second : r'.Extends r'') :
    r.Extends r'' := List.IsPrefix.trans first second

theorem value?_eq (r : Registry α) (i : Nat) : r.value? i = r.toList[i]? :=
  Array.getElem?_toList.symm

theorem Extends.value? {r r' : Registry α} (grown : r.Extends r') {i : Nat} {a : α}
    (held : r.value? i = some a) : r'.value? i = some a := by
  obtain ⟨added, same⟩ := grown
  rw [value?_eq] at held ⊢
  rw [← same, List.getElem?_append_left (List.getElem?_eq_some_iff.mp held).1, held]

theorem toList_register (r : Registry α) (a : α) :
    (r.register a).1.toList = if r.contains a then r.toList else r.toList ++ [a] := by
  cases known : r.position? a with
  | some i =>
    rw [register_of_known known, contains, known]
    rfl
  | none =>
    rw [toList, (register_of_fresh known).1, contains, known, Array.toList_push]
    rfl

theorem register_extends (r : Registry α) (a : α) : r.Extends (r.register a).1 := by
  rw [Extends, toList_register]
  split
  · exact List.prefix_refl _
  · exact List.prefix_append _ _

theorem mem_toList {r : Registry α} {a : α} : a ∈ r.toList ↔ ∃ i, r.value? i = some a := by
  rw [List.mem_iff_getElem?]
  simp only [value?_eq]

theorem contains_iff {r : Registry α} {a : α} : r.contains a = true ↔ a ∈ r.toList := by
  simp only [contains, Option.isSome_iff_exists, position?_eq_some_iff, mem_toList]

/-- Registering what is there changes nothing. -/
theorem register_of_mem {r : Registry α} {a : α} (known : a ∈ r.toList) : (r.register a).1 = r := by
  obtain ⟨i, held⟩ := mem_toList.mp known
  rw [register_of_known (position?_eq_some_iff.mpr held)]

theorem mem_toList_register {r : Registry α} {a b : α} :
    b ∈ (r.register a).1.toList ↔ b ∈ r.toList ∨ b = a := by
  rw [toList_register]
  split
  · next known =>
    rw [contains_iff] at known
    exact ⟨.inl, fun h => h.elim id (· ▸ known)⟩
  · simp

/-- A registration enters nothing but its own value. -/
theorem value?_of_register {r : Registry α} {a b : α} {i : Nat}
    (held : (r.register a).1.value? i = some b) : r.value? i = some b ∨ b = a := by
  rw [value?_eq, toList_register] at held
  rw [value?_eq]
  split at held
  · exact .inl held
  · by_cases inside : i < r.toList.length
    · rw [List.getElem?_append_left inside] at held
      exact .inl held
    · rw [List.getElem?_append_right (Nat.le_of_not_lt inside)] at held
      exact .inr (List.mem_singleton.mp (List.mem_of_getElem? held))

/-- One value has one number. -/
theorem value?_injective {r : Registry α} {i j : Nat} {a : α} (first : r.value? i = some a)
    (second : r.value? j = some a) : i = j := by
  rw [← position?_eq_some_iff] at first second
  exact Option.some.inj (first.symm.trans second)

theorem nodup_toList (r : Registry α) : r.toList.Nodup := by
  rw [List.nodup_iff_pairwise_ne, List.pairwise_iff_getElem]
  intro i j hi hj before same
  have first : r.value? i = some r.toList[i] := by rw [value?_eq, List.getElem?_eq_getElem hi]
  have second : r.value? j = some r.toList[i] := by
    rw [value?_eq, List.getElem?_eq_getElem hj, same]
  exact Nat.ne_of_lt before (value?_injective first second)

theorem idxOf_lt_of_mem {r : Registry α} {a : α} (there : a ∈ r.toList) : r.idxOf a < r.size := by
  obtain ⟨i, held⟩ := mem_toList.mp there
  rw [idxOf, position?_eq_some_iff.mpr held]
  exact (Array.getElem?_eq_some_iff.mp held).1

theorem getElem?_idxOf {r : Registry α} {a : α} (there : a ∈ r.toList) : r.toList[r.idxOf a]? = some a := by
  obtain ⟨i, held⟩ := mem_toList.mp there
  rw [idxOf, position?_eq_some_iff.mpr held, Option.getD_some, ← value?_eq, held]

@[simp] theorem toList_empty : (empty : Registry α).toList = [] := rfl

variable [DecidableEq α]

theorem toList_register_eq_addOnce (r : Registry α) (a : α) :
    (r.register a).1.toList = addOnce r.toList a := by
  simp only [toList_register, contains_iff, addOnce]

theorem toList_ofList (l : List α) : (ofList l).toList = l.eraseDups := by
  rw [← foldl_addOnce]
  exact (List.foldl_hom toList fun r a => (toList_register_eq_addOnce r a).symm).symm

theorem mem_toList_ofList {l : List α} {a : α} : a ∈ (ofList l).toList ↔ a ∈ l := by
  rw [toList_ofList, List.mem_eraseDups]

theorem size_ofList_le (l : List α) : (ofList l).size ≤ l.length := by
  have size : (ofList l).size = l.eraseDups.length := by
    rw [← toList_ofList]
    rfl
  exact size ▸ length_eraseDups_le l

end Registry

end PointerAnalysis
