import PointerAnalysis.ObjectSet.Basic

/-! What a representation of sets has to promise. The promises speak of members only, so the order
in which a set lists them stays open, and whatever is proved from the promises holds under any. -/
namespace PointerAnalysis

/-- The operations of a representation are those of finite sets, and what they say about
themselves is true. -/
class LawfulIdSet (S : Type) {kind : Entity} [IdSet S kind] : Prop where
  nodup_toList : ∀ s : S, (IdSet.toList s).Nodup
  toList_empty : IdSet.toList (IdSet.empty : S) = []
  mem_insert : ∀ (s : S) (e x : Id kind),
    x ∈ IdSet.toList (IdSet.insert s e).1 ↔ x = e ∨ x ∈ IdSet.toList s
  insert_fresh : ∀ (s : S) (e : Id kind), (IdSet.insert s e).2 = true ↔ e ∉ IdSet.toList s
  mem_union : ∀ (s t : S) (x : Id kind),
    x ∈ IdSet.toList (IdSet.union s t).1 ↔ x ∈ IdSet.toList s ∨ x ∈ IdSet.toList t
  union_changed : ∀ s t : S,
    (IdSet.union s t).2 = true ↔ ∃ x ∈ IdSet.toList t, x ∉ IdSet.toList s
  mem_subtract : ∀ (s t : S) (x : Id kind),
    x ∈ IdSet.toList (IdSet.subtract s t).1 ↔ x ∈ IdSet.toList s ∧ x ∉ IdSet.toList t
  subtract_changed : ∀ s t : S,
    (IdSet.subtract s t).2 = true ↔ ∃ x ∈ IdSet.toList s, x ∈ IdSet.toList t
  contains_iff : ∀ (s : S) (e : Id kind), IdSet.contains s e = true ↔ e ∈ IdSet.toList s
  superset_iff : ∀ s t : S,
    IdSet.superset s t = true ↔ ∀ x ∈ IdSet.toList t, x ∈ IdSet.toList s
  isEmpty_iff : ∀ s : S, IdSet.isEmpty s = true ↔ IdSet.toList s = []
  count_eq : ∀ s : S, IdSet.count s = (IdSet.toList s).length

namespace IdSet

variable {S : Type} {kind : Entity} [IdSet S kind] [LawfulIdSet S]

@[simp] theorem toList_empty : toList (empty : S) = [] := LawfulIdSet.toList_empty

@[simp] theorem mem_toList_insert {s : S} {e x : Id kind} :
    x ∈ toList (insert s e).1 ↔ x = e ∨ x ∈ toList s := LawfulIdSet.mem_insert s e x

@[simp] theorem mem_toList_union {s t : S} {x : Id kind} :
    x ∈ toList (union s t).1 ↔ x ∈ toList s ∨ x ∈ toList t := LawfulIdSet.mem_union s t x

@[simp] theorem mem_toList_subtract {s t : S} {x : Id kind} :
    x ∈ toList (subtract s t).1 ↔ x ∈ toList s ∧ x ∉ toList t := LawfulIdSet.mem_subtract s t x

theorem isEmpty_eq_false_iff {s : S} : isEmpty s = false ↔ ∃ x, x ∈ toList s := by
  rw [Bool.eq_false_iff, ne_eq, LawfulIdSet.isEmpty_iff]
  exact ⟨List.exists_mem_of_ne_nil _, fun ⟨x, there⟩ none => by simp [none] at there⟩

end IdSet

end PointerAnalysis
