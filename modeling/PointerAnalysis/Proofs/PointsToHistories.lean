import Mathlib.Algebra.GroupWithZero.Nat
import PointerAnalysis.Proofs.ObjectSet.Hybrid
import PointerAnalysis.Proofs.PointsToData

/-! Points-to data under any history of additions and flushes. Whatever was added to a key is in one of
its two parts, and the flushes of a key hand out its elements piece by piece, each of them once. -/
namespace PointerAnalysis

/-- An operation on points-to data, which is about one key. -/
inductive PointsToEdit (key kind : Entity) (S : Type) where
  | add (p : Id key) (e : Id kind)
  | addAll (p : Id key) (source : S)
  | flush (p : Id key)

variable {key kind : Entity} {S : Type} [IdSet S kind]

namespace PointsToEdit

omit [IdSet S kind] in
def target : PointsToEdit key kind S → Id key
  | add p _ | addAll p _ | flush p => p

/-- An element is among those that are added to a key. -/
def Adds : PointsToEdit key kind S → Id key → Id kind → Prop
  | add p e, q, x => q = p ∧ x = e
  | addAll p source, q, x => q = p ∧ x ∈ IdSet.toList source
  | flush _, _, _ => False

variable (d : PointsToData key S)

def perform : PointsToEdit key kind S → PointsToData key S
  | add p e => (d.add p e).1
  | addAll p source => (d.addAll p source).1
  | flush p => (d.flush p).1

/-- What an addition says about whether there was something new. -/
def report : PointsToEdit key kind S → Option Bool
  | add p e => some (d.add p e).2
  | addAll p source => some (d.addAll p source).2
  | flush _ => none

/-- What a flush hands out, with its key. -/
def handedOut : PointsToEdit key kind S → List (Id key × S)
  | add .. | addAll .. => []
  | flush p => [(p, (d.flush p).2)]

end PointsToEdit

namespace PointsToData

/-- The data after a history, and all that its flushes have handed out. -/
def after (edits : List (PointsToEdit key kind S)) : PointsToData key S × List (Id key × S) :=
  edits.foldl (fun run edit => (edit.perform run.1, run.2 ++ edit.handedOut run.1)) (empty, [])

/-- A set has all members of an earlier one, and one that is new. -/
def Grows (before after : S) : Prop :=
  (∀ x ∈ IdSet.toList before, x ∈ IdSet.toList after) ∧
    ∃ x ∈ IdSet.toList after, x ∉ IdSet.toList before

/-- Nothing that was added is lost, and nothing is handed out twice. -/
structure Accounts (edits : List (PointsToEdit key kind S)) (d : PointsToData key S)
    (deltas : List (Id key × S)) : Prop where
  disjoint : d.Disjoint
  /-- The two parts of a key are together what was added to it. -/
  knows_iff : ∀ p e, d.Knows p e ↔ ∃ edit ∈ edits, edit.Adds p e
  /-- The propagated part of a key is what its flushes have handed out. -/
  propagated_iff : ∀ p e, e ∈ IdSet.toList (d.propagatedOf p) ↔
    ∃ delta, (p, delta) ∈ deltas ∧ e ∈ IdSet.toList delta
  apart : deltas.Pairwise fun first second =>
    first.1 = second.1 → ∀ e ∈ IdSet.toList first.2, e ∉ IdSet.toList second.2
  counted : d.relations = (deltas.map fun entry => IdSet.count entry.2).sum

/-- Every operation tells the truth about the data and touches nothing but its key. -/
structure Honest (d : PointsToData key S) : Prop where
  grows_iff : ∀ (edit : PointsToEdit key kind S) changed, edit.report d = some changed →
    (changed = true ↔ Grows (d.pendingOf edit.target) ((edit.perform d).pendingOf edit.target))
  fresh_iff : ∀ (edit : PointsToEdit key kind S) changed, edit.report d = some changed →
    (changed = true ↔ ∃ e, edit.Adds edit.target e ∧ ¬ d.Knows edit.target e)
  flushed : ∀ p, IdSet.toList (d.flush p).2 = IdSet.toList (d.pendingOf p) ∧
    IdSet.toList ((d.flush p).1.pendingOf p) = []
  hasPending_iff : ∀ p, d.hasPending p = true ↔ IdSet.toList (d.flush p).2 ≠ []
  others : ∀ (edit : PointsToEdit key kind S) q, q ≠ edit.target →
    (edit.perform d).pending[q]? = d.pending[q]? ∧
      (edit.perform d).propagated[q]? = d.propagated[q]?

private theorem getElem?_insert_of_ne {m : Std.TreeMap (Id key) S} {p q : Id key} {s : S}
    (other : q ≠ p) : (m.insert p s)[q]? = m[q]? := by
  rw [Std.TreeMap.getElem?_insert, if_neg]
  exact fun same => other (Std.LawfulEqCmp.eq_of_compare same).symm

/-- An operation leaves the entries of other keys as they are. -/
theorem others_perform (d : PointsToData key S) (edit : PointsToEdit key kind S) {q : Id key}
    (other : q ≠ edit.target) : (edit.perform d).pending[q]? = d.pending[q]? ∧
      (edit.perform d).propagated[q]? = d.propagated[q]? := by
  cases edit with
  | add p e =>
    simp only [PointsToEdit.perform, add]
    split
    · exact ⟨rfl, rfl⟩
    · exact ⟨getElem?_insert_of_ne other, rfl⟩
  | addAll p source =>
    rw [PointsToEdit.perform, addAll_eq]
    split
    · exact ⟨rfl, rfl⟩
    · split
      · exact ⟨rfl, rfl⟩
      · exact ⟨getElem?_insert_of_ne other, rfl⟩
  | flush p =>
    simp only [PointsToEdit.perform, flush]
    split
    · exact ⟨rfl, rfl⟩
    · exact ⟨getElem?_insert_of_ne other, getElem?_insert_of_ne other⟩

variable [LawfulIdSet S] {d : PointsToData key S}

/-! ### One operation -/

theorem knows_perform (edit : PointsToEdit key kind S) {q : Id key} {x : Id kind} :
    (edit.perform d).Knows q x ↔ d.Knows q x ∨ edit.Adds q x := by
  cases edit with
  | add p e => exact knows_add
  | addAll p source => exact knows_addAll
  | flush p => exact knows_flush.trans (or_iff_left id).symm

theorem disjoint_perform (disjoint : d.Disjoint) (edit : PointsToEdit key kind S) :
    (edit.perform d).Disjoint := by
  cases edit with
  | add p e => exact disjoint_add disjoint p e
  | addAll p source => exact disjoint_addAll disjoint p source
  | flush p => exact disjoint_flush disjoint p

/-- What an operation hands out was pending. -/
theorem pending_of_handedOut {edit : PointsToEdit key kind S} {q : Id key} {delta : S}
    (handed : (q, delta) ∈ edit.handedOut d) {x : Id kind} (there : x ∈ IdSet.toList delta) :
    x ∈ IdSet.toList (d.pendingOf q) := by
  cases edit with
  | add p e => cases handed
  | addAll p source => cases handed
  | flush p =>
    cases List.mem_singleton.mp handed
    exact mem_flush.mp there

theorem mem_propagatedOf_perform (edit : PointsToEdit key kind S) {q : Id key} {x : Id kind} :
    x ∈ IdSet.toList ((edit.perform d).propagatedOf q) ↔ x ∈ IdSet.toList (d.propagatedOf q) ∨
      ∃ delta, (q, delta) ∈ edit.handedOut d ∧ x ∈ IdSet.toList delta := by
  cases edit with
  | add p e => simp [PointsToEdit.perform, PointsToEdit.handedOut]
  | addAll p source => simp [PointsToEdit.perform, PointsToEdit.handedOut]
  | flush p =>
    simp only [PointsToEdit.perform, PointsToEdit.handedOut, mem_propagatedOf_flush,
      List.mem_singleton, Prod.mk.injEq]
    refine or_congr_right ⟨?_, ?_⟩
    · rintro ⟨rfl, pending⟩
      exact ⟨_, ⟨rfl, rfl⟩, mem_flush.mpr pending⟩
    · rintro ⟨_, ⟨rfl, rfl⟩, there⟩
      exact ⟨rfl, mem_flush.mp there⟩

theorem relations_perform (disjoint : d.Disjoint) (edit : PointsToEdit key kind S) :
    (edit.perform d).relations =
      d.relations + ((edit.handedOut d).map fun entry => IdSet.count entry.2).sum := by
  cases edit with
  | add p e => exact relations_add d p e
  | addAll p source => exact relations_addAll d p source
  | flush p => simpa [PointsToEdit.perform, PointsToEdit.handedOut] using relations_flush_eq disjoint p

theorem fresh_iff {edit : PointsToEdit key kind S} {changed : Bool}
    (reported : edit.report d = some changed) :
    changed = true ↔ ∃ e, edit.Adds edit.target e ∧ ¬ d.Knows edit.target e := by
  cases edit with
  | add p e =>
    cases reported
    simp [PointsToEdit.Adds, PointsToEdit.target, add_fresh]
  | addAll p source =>
    cases reported
    simp [PointsToEdit.Adds, PointsToEdit.target, addAll_fresh]
  | flush p => cases reported

/-- An addition puts into the pending part what has not been propagated. -/
theorem mem_pendingOf_perform {edit : PointsToEdit key kind S} {changed : Bool}
    (reported : edit.report d = some changed) {q : Id key} {x : Id kind} :
    x ∈ IdSet.toList ((edit.perform d).pendingOf q) ↔ x ∈ IdSet.toList (d.pendingOf q) ∨
      (edit.Adds q x ∧ x ∉ IdSet.toList (d.propagatedOf q)) := by
  cases edit with
  | add p e =>
    refine mem_pendingOf_add.trans (or_congr_right ⟨?_, ?_⟩)
    · rintro ⟨rfl, rfl, new⟩
      exact ⟨⟨rfl, rfl⟩, new⟩
    · rintro ⟨⟨rfl, rfl⟩, new⟩
      exact ⟨rfl, rfl, new⟩
  | addAll p source =>
    refine mem_pendingOf_addAll.trans (or_congr_right ⟨?_, ?_⟩)
    · rintro ⟨rfl, there, new⟩
      exact ⟨⟨rfl, there⟩, new⟩
    · rintro ⟨⟨rfl, there⟩, new⟩
      exact ⟨rfl, there, new⟩
  | flush p => cases reported

/-- The pending part grows when something is added that neither part knew. -/
theorem grows_iff {edit : PointsToEdit key kind S} {changed : Bool}
    (reported : edit.report d = some changed) :
    changed = true ↔ Grows (d.pendingOf edit.target) ((edit.perform d).pendingOf edit.target) := by
  rw [fresh_iff reported]
  constructor
  · rintro ⟨x, added, unknown⟩
    refine ⟨fun y old => (mem_pendingOf_perform reported).mpr (.inl old), x, ?_, ?_⟩
    · exact (mem_pendingOf_perform reported).mpr (.inr ⟨added, fun old => unknown (.inr old)⟩)
    · exact fun old => unknown (.inl old)
  · rintro ⟨_, x, there, new⟩
    obtain ⟨added, unpropagated⟩ := ((mem_pendingOf_perform reported).mp there).resolve_left new
    exact ⟨x, added, not_or.mpr ⟨new, unpropagated⟩⟩

theorem honest (d : PointsToData key S) : d.Honest where
  grows_iff _ _ := grows_iff
  fresh_iff _ _ := fresh_iff
  flushed p := by
    refine ⟨d.toList_flush p, List.eq_nil_iff_forall_not_mem.mpr fun x pending => ?_⟩
    exact (mem_pendingOf_flush.mp pending).1 rfl
  hasPending_iff p := by
    rw [toList_flush, ne_eq, ← LawfulIdSet.isEmpty_iff, hasPending, Bool.not_eq_true',
      Bool.not_eq_true]
  others := d.others_perform

/-! ### Histories -/

theorem accounts_empty : Accounts [] (empty : PointsToData key S) [] where
  disjoint p e pending := by simp at pending
  knows_iff p e := by simp [Knows]
  propagated_iff p e := by simp
  apart := .nil
  counted := rfl

/-- One operation more keeps the account. -/
theorem Accounts.perform {edits : List (PointsToEdit key kind S)} {deltas : List (Id key × S)}
    (accounts : Accounts edits d deltas) (edit : PointsToEdit key kind S) :
    Accounts (edits ++ [edit]) (edit.perform d) (deltas ++ edit.handedOut d) where
  disjoint := disjoint_perform accounts.disjoint edit
  knows_iff p e := by
    rw [knows_perform, accounts.knows_iff]
    simp only [List.mem_append, List.mem_singleton, or_and_right, exists_or, exists_eq_left]
  propagated_iff p e := by
    rw [mem_propagatedOf_perform, accounts.propagated_iff]
    simp only [List.mem_append, or_and_right, exists_or]
  apart := by
    refine List.pairwise_append.mpr ⟨accounts.apart, ?_, ?_⟩
    · cases edit with
      | add p e => exact .nil
      | addAll p source => exact .nil
      | flush p => exact List.pairwise_singleton _ _
    · -- What was handed out before has been propagated, so it is not pending.
      rintro ⟨p, old⟩ listed ⟨q, new⟩ handed rfl e first second
      exact accounts.disjoint p e (pending_of_handedOut handed second)
        ((accounts.propagated_iff p e).mpr ⟨old, listed, first⟩)
  counted := by
    rw [relations_perform accounts.disjoint, accounts.counted, List.map_append, List.sum_append]

theorem accounts_after (edits : List (PointsToEdit key kind S)) :
    Accounts edits (after edits).1 (after edits).2 := by
  have along (edits done : List (PointsToEdit key kind S)) (run : PointsToData key S × List (Id key × S))
      (accounts : Accounts done run.1 run.2) :
      let last := edits.foldl (fun run edit => (edit.perform run.1, run.2 ++ edit.handedOut run.1)) run
      Accounts (done ++ edits) last.1 last.2 := by
    induction edits generalizing done run with
    | nil => simpa using accounts
    | cons edit edits ih =>
      have rest := ih (done ++ [edit]) (_, _) (accounts.perform edit)
      rwa [List.append_assoc] at rest
  exact along edits [] _ accounts_empty

/-- After any history of additions and flushes, under any representation of sets, each key has what was
added to it in two parts that share nothing; its flushes have handed out the propagated part, in pieces
that share nothing; and every further operation says truly what it does, to its own key alone. -/
theorem histories_lose_and_repeat_nothing (edits : List (PointsToEdit key kind S)) :
    Accounts edits (after edits).1 (after edits).2 ∧ (after edits).1.Honest :=
  ⟨accounts_after edits, (after edits).1.honest⟩

/-- The second flush has to leave out what the first one handed out. -/
def overlapping : List (PointsToEdit .pointer .contextObject (HybridSet .contextObject)) :=
  [.addAll ⟨0⟩ (IdSet.ofList [⟨2⟩, ⟨1⟩]), .flush ⟨0⟩, .add ⟨1⟩ ⟨2⟩, .add ⟨0⟩ ⟨1⟩,
    .addAll ⟨0⟩ (IdSet.ofList [⟨1⟩, ⟨3⟩]), .flush ⟨0⟩]

theorem histories_lose_and_repeat_nothing_overlapping :
    (after overlapping).2.map (fun entry => (entry.1, IdSet.toList entry.2)) =
      [(⟨0⟩, [⟨2⟩, ⟨1⟩]), (⟨0⟩, [⟨3⟩])] ∧
    Accounts overlapping (after overlapping).1 (after overlapping).2 ∧ (after overlapping).1.Honest :=
  ⟨by decide +kernel, histories_lose_and_repeat_nothing overlapping⟩

end PointsToData

end PointerAnalysis
