import PointerAnalysis.ObjectSet.Tree
import PointerAnalysis.Proofs.ObjectSet.Laws

/-! Search trees keep the promises of a set representation. -/
namespace PointerAnalysis.TreeSet

variable {kind : Entity}

theorem mem_foldl_insert {α : Type} {cmp : α → α → Ordering} [Std.TransCmp cmp] [Std.LawfulEqCmp cmp]
    (l : List α) (s : Std.TreeSet α cmp) (x : α) : x ∈ l.foldl (·.insert ·) s ↔ x ∈ s ∨ x ∈ l := by
  induction l generalizing s with
  | nil => simp
  | cons a l ih =>
    rw [List.foldl_cons, ih, Std.TreeSet.mem_insert, Std.LawfulEqCmp.compare_eq_iff_eq,
      List.mem_cons, @eq_comm _ a x]
    exact ⟨fun h => h.elim (fun h => h.elim (.inr ∘ .inl) .inl) (.inr ∘ .inr),
      fun h => h.elim (.inl ∘ .inr) (fun h => h.elim (.inl ∘ .inl) .inr)⟩

private theorem mem_foldl_erase (l : List (Id kind)) (s : TreeSet kind) (x : Id kind) :
    x ∈ l.foldl (·.erase ·) s ↔ x ∈ s ∧ x ∉ l := by
  induction l generalizing s with
  | nil => simp
  | cons a l ih =>
    rw [List.foldl_cons, ih, Std.TreeSet.mem_erase, ne_eq, Std.LawfulEqCmp.compare_eq_iff_eq,
      List.mem_cons, @eq_comm _ a x]
    exact ⟨fun ⟨⟨new, there⟩, others⟩ => ⟨there, fun h => h.elim new others⟩,
      fun ⟨there, outside⟩ => ⟨⟨fun h => outside (.inl h), there⟩, fun h => outside (.inr h)⟩⟩

private theorem size_le_foldl_insert (l : List (Id kind)) (s : TreeSet kind) :
    s.size ≤ (l.foldl (·.insert ·) s).size := by
  induction l generalizing s with
  | nil => exact Nat.le_refl _
  | cons a l ih => exact Nat.le_trans Std.TreeSet.size_le_size_insert (ih _)

private theorem foldl_erase_size_le (l : List (Id kind)) (s : TreeSet kind) :
    (l.foldl (·.erase ·) s).size ≤ s.size := by
  induction l generalizing s with
  | nil => exact Nat.le_refl _
  | cons a l ih => exact Nat.le_trans (ih _) Std.TreeSet.size_erase_le

/-- Inserting keeps the size only if there was nothing new. -/
private theorem size_foldl_insert_eq_iff (l : List (Id kind)) (s : TreeSet kind) :
    (l.foldl (·.insert ·) s).size = s.size ↔ ∀ x ∈ l, x ∈ s := by
  induction l generalizing s with
  | nil => simp
  | cons a l ih =>
    have grown := size_le_foldl_insert l (s.insert a)
    have first : (s.insert a).size = if a ∈ s then s.size else s.size + 1 :=
      Std.TreeSet.size_insert
    have others := ih (s.insert a)
    rw [List.foldl_cons, List.forall_mem_cons]
    by_cases there : a ∈ s
    · rw [if_pos there] at first
      rw [← first, others]
      have same : ∀ x, x ∈ s.insert a ↔ x ∈ s := by
        intro x
        rw [Std.TreeSet.mem_insert, Std.LawfulEqCmp.compare_eq_iff_eq]
        exact ⟨fun h => h.elim (· ▸ there) id, .inr⟩
      simp [same, there]
    · rw [if_neg there] at first
      exact ⟨fun same => by omega, fun known => absurd known.1 there⟩

/-- Erasing keeps the size only if there was nothing to erase. -/
private theorem size_foldl_erase_eq_iff (l : List (Id kind)) (s : TreeSet kind) :
    (l.foldl (·.erase ·) s).size = s.size ↔ ∀ x ∈ l, x ∉ s := by
  induction l generalizing s with
  | nil => simp
  | cons a l ih =>
    have shrunk := foldl_erase_size_le l (s.erase a)
    have first : (s.erase a).size = if a ∈ s then s.size - 1 else s.size := Std.TreeSet.size_erase
    have others := ih (s.erase a)
    rw [List.foldl_cons, List.forall_mem_cons]
    by_cases there : a ∈ s
    · rw [if_pos there] at first
      have some : s.size ≠ 0 := by
        rw [← Std.TreeSet.length_toList]
        exact Nat.ne_of_gt (List.length_pos_of_mem (Std.TreeSet.mem_toList.mpr there))
      exact ⟨fun same => by omega, fun absent => absurd there absent.1⟩
    · rw [if_neg there] at first
      rw [← first, others]
      have same : ∀ x, x ∈ s.erase a ↔ x ∈ s := by
        intro x
        rw [Std.TreeSet.mem_erase, ne_eq, Std.LawfulEqCmp.compare_eq_iff_eq]
        exact ⟨And.right, fun h => ⟨fun same => there (same ▸ h), h⟩⟩
      simp [same, there]

instance : LawfulIdSet (TreeSet kind) where
  nodup_toList s := by
    refine (Std.TreeSet.distinct_toList (t := s)).imp ?_
    intro a b different same
    exact different (Std.LawfulEqCmp.compare_eq_iff_eq.mpr same)
  toList_empty := by
    rw [← List.isEmpty_iff]
    exact Std.TreeSet.isEmpty_toList
  mem_insert s e x := by
    simp only [IdSet.toList, IdSet.insert, Std.TreeSet.mem_toList, Std.TreeSet.mem_insert,
      Std.LawfulEqCmp.compare_eq_iff_eq, @eq_comm _ e x]
  insert_fresh s e := by
    simp only [IdSet.toList, IdSet.insert, Std.TreeSet.mem_toList, Bool.not_eq_true',
      Bool.eq_false_iff, ne_eq, Std.TreeSet.mem_iff_contains]
  mem_union s t x := by
    simp only [IdSet.toList, IdSet.union, union, Std.TreeSet.mem_toList, mem_foldl_insert]
  union_changed s t := by
    have unchanged := size_foldl_insert_eq_iff t.toList s
    simp only [IdSet.toList, IdSet.union, union, bne_iff_ne, ne_eq, unchanged,
      Std.TreeSet.mem_toList]
    simp
  mem_subtract s t x := by
    simp only [IdSet.toList, IdSet.subtract, subtract, Std.TreeSet.mem_toList, mem_foldl_erase]
  subtract_changed s t := by
    have unchanged := size_foldl_erase_eq_iff t.toList s
    simp only [IdSet.toList, IdSet.subtract, subtract, bne_iff_ne, ne_eq, unchanged,
      Std.TreeSet.mem_toList]
    simp [and_comm]
  contains_iff s e := by
    simp [IdSet.toList, IdSet.contains, Std.TreeSet.mem_toList]
  superset_iff s t := by
    simp [IdSet.toList, IdSet.superset, Std.TreeSet.mem_toList]
  isEmpty_iff s := by
    simp only [IdSet.isEmpty, IdSet.toList, ← Std.TreeSet.isEmpty_toList, List.isEmpty_iff]
  count_eq s := Std.TreeSet.length_toList.symm

end PointerAnalysis.TreeSet
