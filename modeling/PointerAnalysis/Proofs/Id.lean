import PointerAnalysis.Id

/-! Lookups in tables that change. A table that gets longer answers every earlier question as
before, and a table with one entry changed answers all but one. Below a bound there are as many ids
as the bound says, each of them once. -/
namespace PointerAnalysis.Id

variable {kind : Entity} {α : Type} {id : Id kind} {table : Array α} {entry : α}

/-- A lookup succeeds just where the table has an entry. -/
theorem lookup_eq_ok_iff : id.lookup table = .ok entry ↔ table[id.index]? = some entry := by
  unfold Id.lookup
  cases table[id.index]? <;> simp

theorem index_lt_of_lookup (found : id.lookup table = .ok entry) : id.index < table.size :=
  (Array.getElem?_eq_some_iff.mp (lookup_eq_ok_iff.mp found)).1

theorem lookup_push {x : α} : id.lookup (table.push x) = .ok entry ↔
    id.lookup table = .ok entry ∨ (id = ⟨table.size⟩ ∧ entry = x) := by
  rw [lookup_eq_ok_iff, lookup_eq_ok_iff, Array.getElem?_push]
  by_cases last : id.index = table.size
  · have same : id = ⟨table.size⟩ := Id.ext last
    simp [same, eq_comm]
  · have other : id ≠ ⟨table.size⟩ := fun same => last (congrArg Id.index same)
    simp [last, other]

theorem lookup_push_self (x : α) : (⟨table.size⟩ : Id kind).lookup (table.push x) = .ok x :=
  lookup_push.mpr (.inr ⟨rfl, rfl⟩)

theorem lookup_modify {changed : Id kind} {change : α → α} :
    id.lookup (table.modify changed.index change) = .ok entry ↔
      ∃ old, id.lookup table = .ok old ∧ entry = if id = changed then change old else old := by
  simp only [lookup_eq_ok_iff, Array.getElem?_modify]
  by_cases same : id = changed
  · subst same
    cases table[id.index]? <;> simp [eq_comm]
  · have other : ¬ changed.index = id.index := fun h => same (Id.ext h.symm)
    simp [same, other, eq_comm]

theorem lookup_modify_other {changed : Id kind} {change : α → α} (other : id ≠ changed) :
    id.lookup (table.modify changed.index change) = id.lookup table := by
  unfold Id.lookup
  rw [Array.getElem?_modify, if_neg fun same => other (Id.ext same.symm)]

/-- All ids below a bound. -/
def below (kind : Entity) (bound : Nat) : List (Id kind) := (List.range bound).map (⟨·⟩)

@[simp] theorem mem_below {bound : Nat} : id ∈ below kind bound ↔ id.index < bound := by
  rw [below, List.mem_map]
  constructor
  · rintro ⟨i, there, rfl⟩
    exact List.mem_range.mp there
  · exact fun inside => ⟨id.index, List.mem_range.mpr inside, rfl⟩

theorem below_succ (kind : Entity) (bound : Nat) :
    below kind (bound + 1) = below kind bound ++ [⟨bound⟩] := by
  rw [below, List.range_succ, List.map_append]
  rfl

@[simp] theorem length_below (kind : Entity) (bound : Nat) : (below kind bound).length = bound := by
  rw [below, List.length_map, List.length_range]

theorem nodup_below (kind : Entity) (bound : Nat) : (below kind bound).Nodup :=
  List.pairwise_map.mpr (List.nodup_range.imp fun other same => other (congrArg index same))

end PointerAnalysis.Id
