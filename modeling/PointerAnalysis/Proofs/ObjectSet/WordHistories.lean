import Mathlib.Data.Finset.Sort
import PointerAnalysis.Proofs.Families
import PointerAnalysis.Proofs.ObjectSet.Walk

/-! Sets of words under any history of operations. They go along with the finite sets that the same
operations make, whatever the lengths of the lists of words, and each length is known from the history
alone; what a set holds and how long it is are all that there is to it. -/
namespace PointerAnalysis

/-- An operation on a family of sets of words that go by names. -/
inductive WordEdit (R : Type) where
  | insert (r : R) (n : Nat)
  | remove (r : R) (n : Nat)
  | union (r s : R)
  | subtract (r s : R)
  | clear (r : R)
  | clone (r s : R)

namespace WordEdit

variable {R : Type}

/-- The set that gets a new value. -/
def target : WordEdit R → R
  | insert r _ | remove r _ | union r _ | subtract r _ | clear r | clone r _ => r

def result (sets : R → WordSet) : WordEdit R → WordSet
  | insert r n => ((sets r).insert n).1
  | remove r n => ((sets r).erase n).1
  | union r s => ((sets r).union (sets s)).1
  | subtract r s => ((sets r).subtract (sets s)).1
  | clear _ => .empty
  | clone _ s => sets s

/-- What an operation says about whether it changed its target; a replacement says nothing. -/
def report (sets : R → WordSet) : WordEdit R → Option Bool
  | insert r n => some ((sets r).insert n).2
  | remove r n => some ((sets r).erase n).2
  | union r s => some ((sets r).union (sets s)).2
  | subtract r s => some ((sets r).subtract (sets s)).2
  | clear _ | clone .. => none

/-- The operation on finite sets. -/
def meaning (sets : R → Finset Nat) : WordEdit R → Finset Nat
  | insert r n => Insert.insert n (sets r)
  | remove r n => (sets r).erase n
  | union r s => sets r ∪ sets s
  | subtract r s => sets r \ sets s
  | clear _ => ∅
  | clone _ s => sets s

/-- The operation on the numbers of words. -/
def length (lengths : R → Nat) : WordEdit R → Nat
  | insert r n => max (lengths r) (n / 64 + 1)
  | union r s => max (lengths r) (lengths s)
  | remove r _ | subtract r _ => lengths r
  | clear _ => 0
  | clone _ s => lengths s

/-- A family after a history of operations, which starts with nothing. -/
def after [DecidableEq R] {α : Type} (start : α) (apply : (R → α) → WordEdit R → α)
    (edits : List (WordEdit R)) : R → α :=
  Family.after target start apply edits

end WordEdit

namespace WordSet

variable {R : Type}

/-- A family answers every question as a family of finite sets would, and has words of these numbers. -/
structure Mirrors (sets : R → WordSet) (finite : R → Finset Nat) (lengths : R → Nat) : Prop where
  contains : ∀ r n, (sets r).contains n = decide (n ∈ finite r)
  count : ∀ r, (sets r).count = (finite r).card
  isEmpty : ∀ r, (sets r).isEmpty = decide (finite r = ∅)
  superset : ∀ r s, (sets r).superset (sets s) = decide (finite s ⊆ finite r)
  reports : ∀ (edit : WordEdit R) (changed : Bool), edit.report sets = some changed →
    (changed = true ↔ edit.meaning finite ≠ finite edit.target)
  /-- The members are listed in increasing order. -/
  listed : ∀ r, (sets r).toList = (finite r).sort
  /-- A walk meets them in this order and ends behind the last. -/
  walked : ∀ r, (sets r).walk.rest = (finite r).sort ∧
    ∀ k, (sets r).walk.answer k = (finite r).sort[k]?
  sizes : ∀ r, (sets r).words.size = lengths r
  /-- Sets that hold the same may still differ in length. -/
  eq_iff : ∀ r s, sets r = sets s ↔ finite r = finite s ∧ lengths r = lengths s

/-- The members of a set of words are those of a finite set. -/
def Represents (s : WordSet) (f : Finset Nat) : Prop := ∀ n, s.bit n = true ↔ n ∈ f

/-! ### Members -/

section Members

variable {sets : R → WordSet} {finite : R → Finset Nat}

theorem Represents.result (represents : ∀ r, (sets r).Represents (finite r)) (edit : WordEdit R) :
    (edit.result sets).Represents (edit.meaning finite) := by
  intro n
  cases edit with
  | insert r m => simp [WordEdit.result, WordEdit.meaning, bit_insert, represents r n]
  | remove r m => simp [WordEdit.result, WordEdit.meaning, bit_erase, represents r n]
  | union r s => simp [WordEdit.result, WordEdit.meaning, bit_union, represents r n, represents s n]
  | subtract r s =>
    have outside : (sets s).bit n = false ↔ n ∉ finite s := by
      rw [← represents s n, Bool.not_eq_true]
    simp [WordEdit.result, WordEdit.meaning, bit_subtract, represents r n, outside]
  | clear r => simp [WordEdit.result, WordEdit.meaning, bit_empty]
  | clone r s => exact represents s n

theorem Represents.reports (represents : ∀ r, (sets r).Represents (finite r)) {edit : WordEdit R}
    {changed : Bool} (reported : edit.report sets = some changed) :
    changed = true ↔ edit.meaning finite ≠ finite edit.target := by
  cases edit with
  | insert r n =>
    cases reported
    rw [insert_fresh, Bool.not_eq_true', ← Bool.not_eq_true, represents r n]
    exact Finset.insert_ne_self.symm
  | remove r n =>
    cases reported
    rw [erase_changed, represents r n]
    exact Finset.erase_ne_self.symm
  | union r s =>
    cases reported
    rw [union_changed]
    simp only [← Bool.not_eq_true, represents r _, represents s _]
    rw [WordEdit.meaning, WordEdit.target, ne_eq, Finset.union_eq_left, Finset.not_subset]
  | subtract r s =>
    cases reported
    rw [subtract_changed]
    simp only [represents r _, represents s _]
    rw [WordEdit.meaning, WordEdit.target, ne_eq, Finset.sdiff_eq_self_iff_disjoint,
      Finset.not_disjoint_iff]
  | clear r => cases reported
  | clone r s => cases reported

/-- Two increasing lists of the same numbers are one. -/
theorem Represents.toList_eq {s : WordSet} {f : Finset Nat} (represents : s.Represents f) :
    s.toList = f.sort := by
  have perm : s.toList.Perm f.sort := by
    refine (List.perm_ext_iff_of_nodup s.nodup_toList (f.sort_nodup _)).mpr fun n => ?_
    rw [mem_toList, represents n, Finset.mem_sort]
  exact perm.eq_of_pairwise' s.toList_increasing f.sortedLT_sort.pairwise

end Members

/-! ### Lengths -/

@[simp] theorem size_grow (s : WordSet) (length : Nat) :
    (s.grow length).words.size = max s.words.size length := by
  simp only [grow, Array.size_append, Array.size_replicate]
  omega

/-- A set has so many words. -/
def HasLength (s : WordSet) (length : Nat) : Prop := s.words.size = length

theorem HasLength.result {sets : R → WordSet} {lengths : R → Nat}
    (sizes : ∀ r, (sets r).HasLength (lengths r)) (edit : WordEdit R) :
    (edit.result sets).HasLength (edit.length lengths) := by
  obtain rfl : (fun r => (sets r).words.size) = lengths := funext sizes
  unfold HasLength
  cases edit with
  | insert r n => simp [WordEdit.result, WordEdit.length, insert, wordIndex]
  | remove r n =>
    simp only [WordEdit.result, WordEdit.length, erase]
    split <;> simp
  | union r s => simp [WordEdit.result, WordEdit.length, union]
  | subtract r s => simp [WordEdit.result, WordEdit.length, subtract]
  | clear r => rfl
  | clone r s => rfl

/-! ### Histories -/

theorem mirrors_of_represents {sets : R → WordSet} {finite : R → Finset Nat} {lengths : R → Nat}
    (represents : ∀ r, (sets r).Represents (finite r)) (sizes : ∀ r, (sets r).HasLength (lengths r)) :
    Mirrors sets finite lengths where
  contains r n := by
    rw [Bool.eq_iff_iff, contains_eq_bit, represents r n, decide_eq_true_iff]
  count r := by rw [count_eq_length, (represents r).toList_eq, Finset.length_sort]
  isEmpty r := by
    rw [Bool.eq_iff_iff, isEmpty_iff, decide_eq_true_iff, Finset.eq_empty_iff_forall_notMem]
    simp only [← represents r _, Bool.not_eq_true]
  superset r s := by
    rw [Bool.eq_iff_iff, superset_iff, decide_eq_true_iff]
    simp only [represents r _, represents s _]
    rfl
  reports _ _ := Represents.reports represents
  listed r := (represents r).toList_eq
  walked r := by
    rw [Walk.rest_eq, Walk.ahead_walk, (represents r).toList_eq]
    refine ⟨rfl, fun k => ?_⟩
    rw [Walk.answer_eq, Walk.ahead_walk, (represents r).toList_eq]
  sizes := sizes
  eq_iff r s := by
    constructor
    · intro same
      refine ⟨Finset.ext fun n => ?_, (sizes r).symm.trans (same ▸ sizes s)⟩
      rw [← represents r n, ← represents s n, same]
    · rintro ⟨members, length⟩
      refine eq_of_bit (fun n => ?_) ((sizes r).trans (length ▸ (sizes s).symm))
      rw [Bool.eq_iff_iff, represents r n, represents s n, members]

/-- After any history of operations on any number of sets of words, the sets hold, answer and report what
finite sets do, list and walk their members in increasing order, and are as long as the history says;
equal are those that hold the same and have the same length. -/
theorem word_sets_mirror_finite_sets [DecidableEq R] (edits : List (WordEdit R)) :
    Mirrors (WordEdit.after .empty WordEdit.result edits) (WordEdit.after ∅ WordEdit.meaning edits)
      (WordEdit.after 0 WordEdit.length edits) := by
  refine mirrors_of_represents (Family.after_related ?_ ?_ edits) (Family.after_related ?_ ?_ edits)
  · intro n
    simp [bit_empty]
  · exact fun _ _ edit represents => Represents.result represents edit
  · rfl
  · exact fun _ _ edit sizes => HasLength.result sizes edit

/-- Words that come only to be cleared again make a set longer, but no different from a short one. -/
example : let edits : List (WordEdit Bool) :=
      [.insert true 3, .insert false 3, .insert false 200, .remove false 200, .union true false]
    WordEdit.after 0 WordEdit.length edits true = 4 ∧
      WordEdit.after ∅ WordEdit.meaning edits true = {3} := by
  decide +kernel

end WordSet

end PointerAnalysis
