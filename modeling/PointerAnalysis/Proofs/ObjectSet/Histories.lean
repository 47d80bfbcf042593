import Mathlib.Data.Finset.Card
import PointerAnalysis.Proofs.Families
import PointerAnalysis.Proofs.ObjectSet.Hybrid
import PointerAnalysis.Proofs.ObjectSet.Tree

/-! Families of sets under any history of operations. Every representation goes along with the finite
sets that the same operations make, and says truly of an operation whether it changed a set. A hybrid
set lists its members in the order in which they were added as long as it is small, in increasing
order from then on, and nothing makes it small again but a new value. -/
namespace PointerAnalysis

/-- An operation on a family of sets that go by names. -/
inductive SetEdit (R : Type) (kind : Entity) where
  | insert (r : R) (e : Id kind)
  | union (r s : R)
  | subtract (r s : R)
  | clear (r : R)
  | clone (r s : R)
  | singleton (r : R) (e : Id kind)

namespace SetEdit

variable {R : Type} {kind : Entity}

/-- The set that gets a new value. -/
def target : SetEdit R kind → R
  | insert r _ | union r _ | subtract r _ | clear r | clone r _ | singleton r _ => r

/-- The set that is read besides the target. -/
def source? : SetEdit R kind → Option R
  | union _ s | subtract _ s | clone _ s => some s
  | insert .. | clear _ | singleton .. => none

/-- The new value owes nothing to the old one. -/
def Replaces : SetEdit R kind → Prop
  | clear _ | clone .. | singleton .. => True
  | insert .. | union .. | subtract .. => False

section Representation

variable {S : Type} [IdSet S kind] (sets : R → S)

def result : SetEdit R kind → S
  | insert r e => (IdSet.insert (sets r) e).1
  | union r s => (IdSet.union (sets r) (sets s)).1
  | subtract r s => (IdSet.subtract (sets r) (sets s)).1
  | clear _ => IdSet.empty
  | clone _ s => sets s
  | singleton _ e => IdSet.singleton e

/-- What an operation says about whether it changed its target; a replacement says nothing. -/
def report : SetEdit R kind → Option Bool
  | insert r e => some (IdSet.insert (sets r) e).2
  | union r s => some (IdSet.union (sets r) (sets s)).2
  | subtract r s => some (IdSet.subtract (sets r) (sets s)).2
  | clear _ | clone .. | singleton .. => none

end Representation

/-- The operation on finite sets. -/
def meaning (sets : R → Finset (Id kind)) : SetEdit R kind → Finset (Id kind)
  | insert r e => Insert.insert e (sets r)
  | union r s => sets r ∪ sets s
  | subtract r s => sets r \ sets s
  | clear _ => ∅
  | clone _ s => sets s
  | singleton _ e => {e}

/-- The operation on lists of members in the order in which they were added. -/
def arrivals (lists : R → List (Id kind)) : SetEdit R kind → List (Id kind)
  | insert r e => lists r ++ [e].removeAll (lists r)
  | union r s => lists r ++ (lists s).removeAll (lists r)
  | subtract r s => (lists r).removeAll (lists s)
  | clear _ => []
  | clone _ s => lists s
  | singleton _ e => [e]

/-- A family of sets after a history of operations. -/
def after [DecidableEq R] {α : Type} (start : α) (apply : (R → α) → SetEdit R kind → α)
    (edits : List (SetEdit R kind)) : R → α :=
  Family.after target start apply edits

end SetEdit

open SetEdit

variable {R : Type} {kind : Entity}

/-! ### Members -/

namespace IdSet

variable {S : Type} [IdSet S kind]

/-- The members of a set are those of a finite set. -/
def Represents (s : S) (f : Finset (Id kind)) : Prop := ∀ e, e ∈ IdSet.toList s ↔ e ∈ f

/-- A family answers every question as a family of finite sets would. -/
structure Agrees (sets : R → S) (finite : R → Finset (Id kind)) : Prop where
  members : ∀ r, Represents (sets r) (finite r)
  once : ∀ r, (IdSet.toList (sets r)).Nodup
  contains : ∀ r e, IdSet.contains (sets r) e = decide (e ∈ finite r)
  count : ∀ r, IdSet.count (sets r) = (finite r).card
  isEmpty : ∀ r, IdSet.isEmpty (sets r) = decide (finite r = ∅)
  superset : ∀ r s, IdSet.superset (sets r) (sets s) = decide (finite s ⊆ finite r)
  reports : ∀ (edit : SetEdit R kind) (changed : Bool), edit.report sets = some changed →
    (changed = true ↔ edit.meaning finite ≠ finite edit.target)

variable [LawfulIdSet S]

theorem Represents.result {sets : R → S} {finite : R → Finset (Id kind)}
    (represents : ∀ r, Represents (sets r) (finite r)) (edit : SetEdit R kind) :
    Represents (edit.result sets) (edit.meaning finite) := by
  intro e
  cases edit with
  | insert r a => simp [SetEdit.result, meaning, represents r e]
  | union r s => simp [SetEdit.result, meaning, represents r e, represents s e]
  | subtract r s => simp [SetEdit.result, meaning, represents r e, represents s e]
  | clear r => simp [SetEdit.result, meaning]
  | clone r s => exact represents s e
  | singleton r a => simp [SetEdit.result, meaning, IdSet.singleton]

theorem Represents.reports {sets : R → S} {finite : R → Finset (Id kind)}
    (represents : ∀ r, Represents (sets r) (finite r)) (edit : SetEdit R kind) {changed : Bool}
    (reported : edit.report sets = some changed) :
    changed = true ↔ edit.meaning finite ≠ finite edit.target := by
  cases edit with
  | insert r e =>
    cases reported
    rw [LawfulIdSet.insert_fresh, represents r e]
    exact Finset.insert_ne_self.symm
  | union r s =>
    cases reported
    rw [LawfulIdSet.union_changed]
    simp only [represents r _, represents s _]
    rw [meaning, target, ne_eq, Finset.union_eq_left, Finset.not_subset]
  | subtract r s =>
    cases reported
    rw [LawfulIdSet.subtract_changed]
    simp only [represents r _, represents s _]
    rw [meaning, target, ne_eq, Finset.sdiff_eq_self_iff_disjoint, Finset.not_disjoint_iff]
  | clear r => cases reported
  | clone r s => cases reported
  | singleton r e => cases reported

theorem Represents.count_eq {s : S} {f : Finset (Id kind)} (represents : Represents s f) :
    IdSet.count s = f.card := by
  have same : (IdSet.toList s).toFinset = f := by
    ext e
    rw [List.mem_toFinset, represents e]
  rw [LawfulIdSet.count_eq, ← same, List.toFinset_card_of_nodup (LawfulIdSet.nodup_toList s)]

theorem agrees_of_represents {sets : R → S} {finite : R → Finset (Id kind)}
    (represents : ∀ r, Represents (sets r) (finite r)) : Agrees sets finite where
  members := represents
  once r := LawfulIdSet.nodup_toList (sets r)
  contains r e := by
    rw [Bool.eq_iff_iff, LawfulIdSet.contains_iff, represents r e, decide_eq_true_iff]
  count r := (represents r).count_eq
  isEmpty r := by
    rw [Bool.eq_iff_iff, LawfulIdSet.isEmpty_iff, decide_eq_true_iff, List.eq_nil_iff_forall_not_mem,
      Finset.eq_empty_iff_forall_notMem]
    simp only [represents r _]
  superset r s := by
    rw [Bool.eq_iff_iff, LawfulIdSet.superset_iff, decide_eq_true_iff]
    simp only [represents r _, represents s _]
    rfl
  reports edit _ reported := Represents.reports represents edit reported

/-- A history on sets and the same history on finite sets agree. -/
theorem agrees_after [DecidableEq R] (S : Type) [IdSet S kind] [LawfulIdSet S]
    (edits : List (SetEdit R kind)) :
    Agrees (after (IdSet.empty : S) SetEdit.result edits) (after ∅ meaning edits) := by
  refine agrees_of_represents (Family.after_related ?_ ?_ edits)
  · intro e
    simp
  · exact fun _ _ edit represents => Represents.result represents edit

end IdSet

/-! ### Forms of hybrid sets -/

namespace HybridSet

def isLarge : HybridSet kind → Bool
  | small .. => false
  | large _ => true

/-- How a set lists the members that were added to it, which come in the order of their addition. -/
structure InForm (s : HybridSet kind) (added : List (Id kind)) : Prop where
  members : ∀ e, e ∈ s.toList ↔ e ∈ added
  small : s.isLarge = false → s.toList = added ∧ added.length ≤ 32
  large : s.isLarge = true → s.toList.Pairwise (·.index < ·.index)

theorem increasing_of_isLarge {s : HybridSet kind} (form : s.isLarge = true) :
    s.toList.Pairwise (·.index < ·.index) := by
  cases s with
  | small members nodup fits => cases form
  | large words => exact words.toList_increasing.map _ fun _ _ before => before

theorem length_le_of_isSmall {s : HybridSet kind} (form : s.isLarge = false) : s.toList.length ≤ 32 := by
  cases s with
  | small members nodup fits => exact fits
  | large words => cases form

theorem inForm_of {s : HybridSet kind} {added : List (Id kind)}
    (members : ∀ e, e ∈ s.toList ↔ e ∈ added) (listed : s.isLarge = false → s.toList = added) :
    s.InForm added where
  members := members
  small form := ⟨listed form, listed form ▸ length_le_of_isSmall form⟩
  large := increasing_of_isLarge

theorem isLarge_insert {s : HybridSet kind} (form : s.isLarge = true) (e : Id kind) :
    (s.insert e).1.isLarge = true := by
  cases s with
  | small members nodup fits => cases form
  | large words => rfl

theorem insertAll_cons (s : HybridSet kind) (e : Id kind) (l : List (Id kind)) :
    (s.insertAll (e :: l)).1 = ((s.insert e).1.insertAll l).1 := rfl

theorem isLarge_insertAll {s : HybridSet kind} (form : s.isLarge = true) (l : List (Id kind)) :
    (s.insertAll l).1.isLarge = true := by
  induction l generalizing s with
  | nil => exact form
  | cons e l ih => exact ih (isLarge_insert form e)

theorem isLarge_union {s t : HybridSet kind} (form : s.isLarge = true ∨ t.isLarge = true) :
    (s.union t).1.isLarge = true := by
  cases t with
  | large theirs => cases s <;> rfl
  | small members nodup fits =>
    have ours : s.isLarge = true := form.resolve_right Bool.false_ne_true
    cases s <;> exact isLarge_insertAll ours members

theorem isLarge_subtract (s t : HybridSet kind) : (s.subtract t).1.isLarge = s.isLarge := by
  cases s <;> cases t <;> rfl

theorem isSmall_of_insert {s : HybridSet kind} {e : Id kind} (form : (s.insert e).1.isLarge = false) :
    s.isLarge = false :=
  Bool.eq_false_iff.mpr fun grown => Bool.eq_false_iff.mp form (isLarge_insert grown e)

theorem isSmall_of_insertAll {s : HybridSet kind} {l : List (Id kind)}
    (form : (s.insertAll l).1.isLarge = false) : s.isLarge = false :=
  Bool.eq_false_iff.mpr fun grown => Bool.eq_false_iff.mp form (isLarge_insertAll grown l)

theorem isSmall_of_union {s t : HybridSet kind} (form : (s.union t).1.isLarge = false) :
    s.isLarge = false ∧ t.isLarge = false :=
  ⟨Bool.eq_false_iff.mpr fun grown => Bool.eq_false_iff.mp form (isLarge_union (.inl grown)),
    Bool.eq_false_iff.mpr fun grown => Bool.eq_false_iff.mp form (isLarge_union (.inr grown))⟩

theorem removeAll_eq_filter (l l' : List (Id kind)) : l.removeAll l' = l.filter (· ∉ l') := by
  refine List.filter_congr fun e _ => ?_
  simp

/-- A set that stays small puts a new member behind the others. -/
theorem toList_insert {s : HybridSet kind} {e : Id kind} (form : (s.insert e).1.isLarge = false) :
    (s.insert e).1.toList = s.toList ++ [e].filter (· ∉ s.toList) := by
  cases s with
  | large words => cases form
  | small members nodup fits =>
    by_cases known : e ∈ members
    · simp [insert, known, toList]
    · by_cases room : members.length < smallCapacity
      · simp [insert, known, room, toList]
      · simp [insert, known, room, isLarge] at form

theorem toList_insertAll {s : HybridSet kind} {l : List (Id kind)} (once : l.Nodup)
    (form : (s.insertAll l).1.isLarge = false) :
    (s.insertAll l).1.toList = s.toList ++ l.filter (· ∉ s.toList) := by
  induction l generalizing s with
  | nil => simp [insertAll]
  | cons e l ih =>
    rw [insertAll_cons] at form ⊢
    rw [ih (List.nodup_cons.mp once).2 form, toList_insert (isSmall_of_insertAll form)]
    by_cases known : e ∈ s.toList
    · simp [known]
    · -- The others differ from `e`, so they are as new as they were.
      have same : l.filter (· ∉ s.toList ++ [e]) = l.filter (· ∉ s.toList) := by
        refine List.filter_congr fun x there => ?_
        have different : x ≠ e := fun same => (List.nodup_cons.mp once).1 (same ▸ there)
        simp [different]
      have new : [e].filter (· ∉ s.toList) = [e] := by simp [known]
      rw [new, same]
      simp [known]

theorem toList_union {s t : HybridSet kind} (form : (s.union t).1.isLarge = false) :
    (s.union t).1.toList = s.toList ++ t.toList.filter (· ∉ s.toList) := by
  obtain ⟨ours, theirs⟩ := isSmall_of_union form
  cases t with
  | large words => cases theirs
  | small members nodup fits =>
    cases s with
    | large words => cases ours
    | small members' nodup' fits' => exact toList_insertAll nodup form

theorem toList_subtract {s : HybridSet kind} (t : HybridSet kind) (form : s.isLarge = false) :
    (s.subtract t).1.toList = s.toList.filter (· ∉ t.toList) := by
  cases s with
  | large words => cases form
  | small members nodup fits =>
    refine List.filter_congr fun e _ => ?_
    rw [Bool.eq_iff_iff, Bool.not_eq_true', Bool.eq_false_iff, ne_eq, contains_iff,
      decide_eq_true_iff]

/-! What makes a set large. -/

theorem length_le_of_members {s t : HybridSet kind} (more : ∀ e ∈ s.toList, e ∈ t.toList) :
    s.toList.length ≤ t.toList.length :=
  ((nodup_toList s).subperm more).length_le

theorem overfull_insert {s : HybridSet kind} {e : Id kind}
    (overfull : s.isLarge = true → 32 < s.toList.length) (form : (s.insert e).1.isLarge = true) :
    32 < (s.insert e).1.toList.length := by
  have old : s.toList.length ≤ (s.insert e).1.toList.length :=
    length_le_of_members fun x there => (mem_insert s e x).mpr (.inr there)
  cases size : s.isLarge with
  | true => exact Nat.lt_of_lt_of_le (overfull size) old
  | false =>
    cases s with
    | large words => cases size
    | small members nodup fits =>
      by_cases known : e ∈ members
      · simp [insert, known, isLarge] at form
      · by_cases room : members.length < smallCapacity
        · simp [insert, known, room, isLarge] at form
        · have all : (e :: members).Subperm ((small members nodup fits).insert e).1.toList := by
            refine (List.nodup_cons.mpr ⟨known, nodup⟩).subperm fun x there => ?_
            exact (mem_insert _ e x).mpr (List.mem_cons.mp there)
          have longer := all.length_le
          rw [List.length_cons] at longer
          unfold smallCapacity at room
          omega

theorem overfull_insertAll {s : HybridSet kind} {l : List (Id kind)}
    (overfull : s.isLarge = true → 32 < s.toList.length) (form : (s.insertAll l).1.isLarge = true) :
    32 < (s.insertAll l).1.toList.length := by
  induction l generalizing s with
  | nil => exact overfull form
  | cons e l ih => exact ih (overfull_insert overfull) form

theorem overfull_union {s t : HybridSet kind} (ours : s.isLarge = false) (theirs : t.isLarge = false)
    (form : (s.union t).1.isLarge = true) : 32 < (s.union t).1.toList.length := by
  have start : s.isLarge = true → 32 < s.toList.length := by simp [ours]
  cases t with
  | large words => cases theirs
  | small members nodup fits => cases s <;> exact overfull_insertAll start form

/-- Every operation leaves its target in form. -/
theorem InForm.result {sets : R → HybridSet kind} {lists : R → List (Id kind)}
    (forms : ∀ r, (sets r).InForm (lists r)) (edit : SetEdit R kind) :
    (edit.result sets).InForm (edit.arrivals lists) := by
  cases edit with
  | insert r e =>
    refine inForm_of (fun x => ?_) fun form => ?_
    · have added : x ∈ arrivals lists (.insert r e) ↔ x = e ∨ x ∈ lists r := by
        by_cases known : x = e <;> simp [arrivals, removeAll_eq_filter, known, em]
      rw [added, ← (forms r).members x]
      exact mem_insert (sets r) e x
    · rw [arrivals, ← ((forms r).small (isSmall_of_insert form)).1, removeAll_eq_filter]
      exact toList_insert form
  | union r s =>
    refine inForm_of (fun x => ?_) fun form => ?_
    · have added : x ∈ arrivals lists (.union r s) ↔ x ∈ lists r ∨ x ∈ lists s := by
        simp only [arrivals, removeAll_eq_filter, List.mem_append, List.mem_filter, decide_eq_true_eq]
        tauto
      rw [added, ← (forms r).members x, ← (forms s).members x]
      exact mem_union (sets r) (sets s) x
    · obtain ⟨ours, theirs⟩ := isSmall_of_union form
      rw [arrivals, ← ((forms r).small ours).1, ← ((forms s).small theirs).1, removeAll_eq_filter]
      exact toList_union form
  | subtract r s =>
    refine inForm_of (fun x => ?_) fun form => ?_
    · have added : x ∈ arrivals lists (.subtract r s) ↔ x ∈ lists r ∧ x ∉ lists s := by
        simp only [arrivals, removeAll_eq_filter, List.mem_filter, decide_eq_true_eq]
      rw [added, ← (forms r).members x, ← (forms s).members x]
      exact mem_subtract (sets r) (sets s) x
    · have ours : (sets r).isLarge = false := (isLarge_subtract _ _).symm.trans form
      simp only [arrivals, removeAll_eq_filter, ← ((forms r).small ours).1, ← (forms s).members]
      exact toList_subtract (sets s) ours
  | clear r => exact inForm_of (fun _ => Iff.rfl) fun _ => rfl
  | clone r s => exact forms s
  | singleton r e => exact inForm_of (fun _ => Iff.rfl) fun _ => rfl

/-- A set becomes large when it takes in a large one, or more than it can hold as a small one. -/
theorem grows_of_result {sets : R → HybridSet kind} {edit : SetEdit R kind}
    (form : (edit.result sets).isLarge = true) :
    (sets edit.target).isLarge = true ∨ (∃ s, edit.source? = some s ∧ (sets s).isLarge = true) ∨
      32 < (edit.result sets).toList.length := by
  cases edit with
  | insert r e =>
    cases before : (sets r).isLarge with
    | true => exact .inl before
    | false => exact .inr (.inr (overfull_insert (by simp [before]) form))
  | union r s =>
    cases before : (sets r).isLarge with
    | true => exact .inl before
    | false =>
      cases other : (sets s).isLarge with
      | true => exact .inr (.inl ⟨s, rfl, other⟩)
      | false => exact .inr (.inr (overfull_union before other form))
  | subtract r s => exact .inl ((isLarge_subtract _ _).symm.trans form)
  | clear r => cases form
  | clone r s => exact .inr (.inl ⟨s, rfl, form⟩)
  | singleton r e => cases form

theorem isLarge_result {sets : R → HybridSet kind} {edit : SetEdit R kind}
    (form : (sets edit.target).isLarge = true) (kept : ¬ edit.Replaces) :
    (edit.result sets).isLarge = true := by
  cases edit with
  | insert r e => exact isLarge_insert form e
  | union r s => exact isLarge_union (.inl form)
  | subtract r s => exact (isLarge_subtract _ _).trans form
  | clear r => exact absurd trivial kept
  | clone r s => exact absurd trivial kept
  | singleton r e => exact absurd trivial kept

end HybridSet

/-- After any history of operations on any number of sets, hybrid sets and search trees hold what the
finite sets hold, answer and report alike, and a hybrid set lists its members in the order of its
form, which it changes to the large one by growing and leaves by replacement only. -/
theorem hybrid_sets_agree_with_finite_sets [DecidableEq R] (edits : List (SetEdit R kind)) :
    IdSet.Agrees (after (IdSet.empty : HybridSet kind) result edits) (after ∅ meaning edits) ∧
    IdSet.Agrees (after (IdSet.empty : TreeSet kind) result edits) (after ∅ meaning edits) ∧
    (∀ r, HybridSet.InForm (after IdSet.empty result edits r) (after [] arrivals edits r)) ∧
    ∀ edit : SetEdit R kind,
      let sets : R → HybridSet kind := after IdSet.empty result edits
      ((sets edit.target).isLarge = true → ¬ edit.Replaces → (edit.result sets).isLarge = true) ∧
      ((edit.result sets).isLarge = true → (sets edit.target).isLarge = true ∨
        (∃ s, edit.source? = some s ∧ (sets s).isLarge = true) ∨
        32 < (edit.result sets).toList.length) := by
  refine ⟨IdSet.agrees_after _ edits, IdSet.agrees_after _ edits, ?_, fun edit => ?_⟩
  · exact Family.after_related (HybridSet.inForm_of (fun _ => Iff.rfl) fun _ => rfl)
      (fun _ _ edit forms => HybridSet.InForm.result forms edit) edits
  · exact ⟨HybridSet.isLarge_result, HybridSet.grows_of_result⟩

end PointerAnalysis
