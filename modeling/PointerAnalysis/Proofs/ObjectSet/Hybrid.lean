import Mathlib.Data.List.Nodup
import PointerAnalysis.ObjectSet.Hybrid
import PointerAnalysis.Proofs.ObjectSet.Laws
import PointerAnalysis.Proofs.ObjectSet.Words

/-! Hybrid sets keep the promises of a set representation in both of their forms and across the
change from one to the other. -/
namespace PointerAnalysis.HybridSet

variable {kind : Entity}

private theorem mem_map_mk {l : List Nat} {e : Id kind} :
    e ∈ l.map (⟨·⟩) ↔ e.index ∈ l := by
  rw [List.mem_map]
  exact ⟨fun ⟨_, there, same⟩ => same ▸ there, fun there => ⟨_, there, rfl⟩⟩

@[simp] theorem mem_toList_small {members : List (Id kind)} {nodup : members.Nodup}
    {fits : members.length ≤ smallCapacity} {e : Id kind} :
    e ∈ (small members nodup fits).toList ↔ e ∈ members := Iff.rfl

theorem mem_toList_large {words : WordSet} {e : Id kind} :
    e ∈ (large words).toList ↔ words.bit e.index = true := by
  rw [toList, mem_map_mk, WordSet.mem_toList]

private theorem bit_wordsOf (members : List (Id kind)) (n : Nat) :
    (wordsOf members).bit n = true ↔ (⟨n⟩ : Id kind) ∈ members := by
  rw [wordsOf, WordSet.bit_ofList, List.mem_map]
  exact ⟨fun ⟨_, there, same⟩ => same ▸ there, fun there => ⟨_, there, rfl⟩⟩

/-- A small set turned into words keeps its members. -/
private theorem mem_toList_large_wordsOf {members : List (Id kind)} {e : Id kind} :
    e ∈ (large (wordsOf members) : HybridSet kind).toList ↔ e ∈ members := by
  rw [mem_toList_large, bit_wordsOf]

theorem contains_iff (s : HybridSet kind) (e : Id kind) : s.contains e = true ↔ e ∈ s.toList := by
  cases s with
  | small members nodup fits => exact decide_eq_true_iff
  | large words => rw [contains, WordSet.contains_eq_bit, mem_toList_large]

private theorem mem_insert_large {words : WordSet} {e x : Id kind} :
    x ∈ (large (words.insert e.index).1 : HybridSet kind).toList ↔
      x = e ∨ x ∈ (large words : HybridSet kind).toList := by
  simp only [mem_toList_large, WordSet.bit_insert, Bool.or_eq_true, decide_eq_true_eq, Id.ext_iff]

theorem mem_insert (s : HybridSet kind) (e x : Id kind) :
    x ∈ (s.insert e).1.toList ↔ x = e ∨ x ∈ s.toList := by
  cases s with
  | small members nodup fits =>
    by_cases known : e ∈ members
    · simp only [insert, known, ↓reduceDIte, mem_toList_small]
      exact ⟨.inr, fun h => h.elim (· ▸ known) id⟩
    · by_cases room : members.length < smallCapacity
      · simp [insert, known, room, or_comm]
      · simp only [insert, known, room, ↓reduceDIte, mem_insert_large, mem_toList_large_wordsOf,
          mem_toList_small]
  | large words => exact mem_insert_large

theorem insert_fresh (s : HybridSet kind) (e : Id kind) :
    (s.insert e).2 = true ↔ e ∉ s.toList := by
  cases s with
  | small members nodup fits =>
    by_cases known : e ∈ members
    · simp [insert, known]
    · by_cases room : members.length < smallCapacity <;> simp [insert, known, room]
  | large words =>
    rw [mem_toList_large]
    simp [insert, WordSet.insert_fresh]

theorem mem_insertAll (s : HybridSet kind) (l : List (Id kind)) (x : Id kind) :
    x ∈ (s.insertAll l).1.toList ↔ x ∈ s.toList ∨ x ∈ l := by
  induction l generalizing s with
  | nil => simp [insertAll]
  | cons e l ih =>
    simp only [insertAll, ih, mem_insert, List.mem_cons]
    exact ⟨fun h => h.elim (fun h => h.elim (.inr ∘ .inl) .inl) (.inr ∘ .inr),
      fun h => h.elim (.inl ∘ .inr) (fun h => h.elim (.inl ∘ .inl) .inr)⟩

/-- Inserting many members says that it changed the set if one of them was new. A member that
occurs twice is new the first time only, which makes no difference. -/
theorem insertAll_changed (s : HybridSet kind) (l : List (Id kind)) :
    (s.insertAll l).2 = true ↔ ∃ x ∈ l, x ∉ s.toList := by
  induction l generalizing s with
  | nil => simp [insertAll]
  | cons e l ih =>
    simp only [insertAll, Bool.or_eq_true, ih, insert_fresh, mem_insert]
    constructor
    · rintro (first | ⟨x, there, outside⟩)
      · exact ⟨e, List.mem_cons_self, first⟩
      · exact ⟨x, List.mem_cons_of_mem _ there, fun h => outside (.inr h)⟩
    · rintro ⟨x, there, outside⟩
      by_cases known : e ∈ s.toList
      · refine .inr ⟨x, ?_, ?_⟩
        · rcases List.mem_cons.mp there with rfl | there
          · exact absurd known outside
          · exact there
        · rintro (rfl | h)
          · exact outside known
          · exact outside h
      · exact .inl known

theorem mem_union (s t : HybridSet kind) (x : Id kind) :
    x ∈ (s.union t).1.toList ↔ x ∈ s.toList ∨ x ∈ t.toList := by
  have words (ours theirs : WordSet) : x ∈ (large (ours.union theirs).1 : HybridSet kind).toList ↔
      x ∈ (large ours : HybridSet kind).toList ∨ x ∈ (large theirs : HybridSet kind).toList := by
    simp only [mem_toList_large, WordSet.bit_union, Bool.or_eq_true]
  cases t with
  | small members nodup fits =>
    cases s <;> exact mem_insertAll _ _ _
  | large theirs =>
    cases s with
    | small members nodup fits =>
      have turned := words (wordsOf members) theirs
      rw [mem_toList_large_wordsOf] at turned
      exact turned
    | large ours => exact words ours theirs

theorem union_changed (s t : HybridSet kind) :
    (s.union t).2 = true ↔ ∃ x ∈ t.toList, x ∉ s.toList := by
  have words (ours theirs : WordSet) : (ours.union theirs).2 = true ↔
      ∃ x ∈ (large theirs : HybridSet kind).toList, x ∉ (large ours : HybridSet kind).toList := by
    simp only [WordSet.union_changed, mem_toList_large, Bool.not_eq_true]
    exact ⟨fun ⟨n, h⟩ => ⟨⟨n⟩, h⟩, fun ⟨x, h⟩ => ⟨x.index, h⟩⟩
  cases t with
  | small members nodup fits =>
    cases s <;> exact insertAll_changed _ _
  | large theirs =>
    cases s with
    | small members nodup fits =>
      have turned := words (wordsOf members) theirs
      simp only [mem_toList_large_wordsOf] at turned
      exact turned
    | large ours => exact words ours theirs

private theorem bit_eraseAll (words : WordSet) (l : List (Id kind)) (n : Nat) :
    (eraseAll words l).1.bit n = true ↔ words.bit n = true ∧ (⟨n⟩ : Id kind) ∉ l := by
  induction l generalizing words with
  | nil => simp [eraseAll]
  | cons e l ih =>
    simp only [eraseAll, ih, WordSet.bit_erase, Bool.and_eq_true, decide_eq_true_eq,
      List.mem_cons, not_or, Id.ext_iff]
    exact ⟨fun h => ⟨h.1.2, h.1.1, h.2⟩, fun h => ⟨⟨h.2.1, h.1⟩, h.2.2⟩⟩

private theorem eraseAll_changed (words : WordSet) (l : List (Id kind)) :
    (eraseAll words l).2 = true ↔ ∃ x ∈ l, words.bit x.index = true := by
  induction l generalizing words with
  | nil => simp [eraseAll]
  | cons e l ih =>
    simp only [eraseAll, Bool.or_eq_true, ih, WordSet.erase_changed, WordSet.bit_erase,
      Bool.and_eq_true, decide_eq_true_eq]
    constructor
    · rintro (first | ⟨x, there, _, held⟩)
      · exact ⟨e, List.mem_cons_self, first⟩
      · exact ⟨x, List.mem_cons_of_mem _ there, held⟩
    · rintro ⟨x, there, held⟩
      by_cases first : words.bit e.index = true
      · exact .inl first
      · have different : x.index ≠ e.index := fun same => first (same ▸ held)
        rcases List.mem_cons.mp there with rfl | there
        · exact absurd rfl different
        · exact .inr ⟨x, there, different, held⟩

theorem mem_subtract (s t : HybridSet kind) (x : Id kind) :
    x ∈ (s.subtract t).1.toList ↔ x ∈ s.toList ∧ x ∉ t.toList := by
  cases s with
  | small members nodup fits =>
    have outside : (!t.contains x) = true ↔ x ∉ t.toList := by
      rw [Bool.not_eq_true', Bool.eq_false_iff, ne_eq, contains_iff]
    show x ∈ members.filter (fun e => !t.contains e) ↔ x ∈ members ∧ x ∉ t.toList
    rw [List.mem_filter, outside]
  | large ours =>
    cases t with
    | small members nodup fits =>
      simp only [subtract, mem_toList_large, bit_eraseAll]
      rfl
    | large theirs =>
      simp only [subtract, mem_toList_large, WordSet.bit_subtract, Bool.and_eq_true,
        Bool.not_eq_true', Bool.not_eq_true]

theorem subtract_changed (s t : HybridSet kind) :
    (s.subtract t).2 = true ↔ ∃ x ∈ s.toList, x ∈ t.toList := by
  cases s with
  | small members nodup fits =>
    simp only [subtract, bne_iff_ne, ne_eq, toList.eq_1]
    rw [List.length_filter_eq_length_iff]
    simp only [Bool.not_eq_true', Bool.eq_false_iff, ne_eq, contains_iff]
    simp
  | large ours =>
    cases t with
    | small members nodup fits =>
      simp only [subtract, eraseAll_changed, mem_toList_large]
      constructor
      · rintro ⟨x, there, held⟩
        exact ⟨x, held, there⟩
      · rintro ⟨x, held, there⟩
        exact ⟨x, there, held⟩
    | large theirs =>
      simp only [subtract, WordSet.subtract_changed, mem_toList_large]
      constructor
      · rintro ⟨n, held⟩
        exact ⟨⟨n⟩, held⟩
      · rintro ⟨x, held⟩
        exact ⟨x.index, held⟩

theorem superset_iff (s t : HybridSet kind) :
    s.superset t = true ↔ ∀ x ∈ t.toList, x ∈ s.toList := by
  have each (s t : HybridSet kind) : t.toList.all s.contains = true ↔ ∀ x ∈ t.toList, x ∈ s.toList := by
    simp only [List.all_eq_true, contains_iff]
  cases s with
  | small members nodup fits => exact each _ _
  | large ours =>
    cases t with
    | small members nodup fits => exact each _ _
    | large theirs =>
      simp only [superset, WordSet.superset_iff, mem_toList_large]
      exact ⟨fun h x => h x.index, fun h n => h ⟨n⟩⟩

theorem isEmpty_iff (s : HybridSet kind) : s.isEmpty = true ↔ s.toList = [] := by
  cases s with
  | small members nodup fits => exact List.isEmpty_iff
  | large words =>
    rw [isEmpty, WordSet.isEmpty_iff, List.eq_nil_iff_forall_not_mem]
    simp only [mem_toList_large, Bool.not_eq_true]
    exact ⟨fun h x => h x.index, fun h n => h ⟨n⟩⟩

theorem nodup_toList (s : HybridSet kind) : s.toList.Nodup := by
  cases s with
  | small members nodup fits => exact nodup
  | large words =>
    exact List.Nodup.map (fun a b same => congrArg Id.index same) words.nodup_toList

instance : LawfulIdSet (HybridSet kind) where
  nodup_toList := nodup_toList
  toList_empty := rfl
  mem_insert := mem_insert
  insert_fresh := insert_fresh
  mem_union := mem_union
  union_changed := union_changed
  mem_subtract := mem_subtract
  subtract_changed := subtract_changed
  contains_iff := contains_iff
  superset_iff := superset_iff
  isEmpty_iff := isEmpty_iff
  count_eq s := by
    cases s with
    | small members nodup fits => rfl
    | large words =>
      show words.count = _
      rw [WordSet.count_eq_length]
      exact (List.length_map _).symm

end PointerAnalysis.HybridSet
