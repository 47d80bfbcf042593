import PointerAnalysis.Proofs.WakeUps

/-! What a run has passed on, object by object. No pointer passes an object on twice, and what pointers
have passed on is just what counts as propagated. -/
namespace PointerAnalysis.Solver.State

variable {E S : Type} [Coded E] [IdSet S .contextObject] {a : Analysis E} {s s' : State E S}

/-- What the next step passes on, if it takes a pointer: all objects that wait there. -/
def passedNext (s : State E S) : List (PointerId × ContextObjectId) :=
  match s.nextPointer? with
  | some (p, _) => (IdSet.toList (s.pointsTo.flush p).2).map (p, ·)
  | none => []

/-- A run to a state in which these pointers have passed these objects on, in this order. -/
inductive PassedOn (a : Analysis E) : List (PointerId × ContextObjectId) → State E S → Prop where
  | start {s : State E S} : (start a).run .empty = .ok () s → PassedOn a [] s
  | step {log : List (PointerId × ContextObjectId)} {s s' : State E S} {more : Bool} :
      PassedOn a log s → (step a).run s = .ok more s' → PassedOn a (log ++ s.passedNext) s'

variable {log : List (PointerId × ContextObjectId)}

theorem PassedOn.reachable (passed : PassedOn a log s) : s.Reachable a := by
  induction passed with
  | start ran => exact .start ran
  | step _ ran ih => exact ih.step ran

theorem Reachable.passedOn (reachable : s.Reachable a) : ∃ log, PassedOn a log s := by
  induction reachable with
  | start ran => exact ⟨[], .start ran⟩
  | step _ ran ih =>
    obtain ⟨log, passed⟩ := ih
    exact ⟨_, passed.step ran⟩

variable [LawfulIdSet S]

theorem Moves.propagated (moves : Moves a s s') (p : PointerId) :
    s'.pointsTo.propagatedOf p = s.pointsTo.propagatedOf p := by
  induction moves with
  | refl => rfl
  | tail _ move ih => exact (move.propagated p).trans ih

/-- A step adds to what has been propagated just what it passes on. -/
theorem mem_propagated_step (tidy : s.Tidy) {more : Bool} (ran : (step a).run s = .ok more s')
    {p : PointerId} {o : ContextObjectId} : o ∈ IdSet.toList (s'.pointsTo.propagatedOf p) ↔
      o ∈ IdSet.toList (s.pointsTo.propagatedOf p) ∨ (p, o) ∈ s.passedNext := by
  cases (outcome_step tidy.sound tidy.scheduled).of_ok ran with
  | moves none moves =>
    rw [moves.propagated, passedNext, none]
    simp
  | @passes q work next passes =>
    have flushed : s'.pointsTo.propagatedOf p = (s.pointsTo.flush q).1.propagatedOf p :=
      passes.changes.grows.propagated p
    rw [flushed, passedNext, next, PointsToData.mem_propagatedOf_flush]
    simp [PointsToData.mem_flush, and_comm, eq_comm]

/-- What is passed on next is passed on once, and has not been before. -/
theorem passedNext_new (tidy : s.Tidy) : s.passedNext.Nodup ∧
    ∀ entry ∈ s.passedNext, entry.2 ∉ IdSet.toList (s.pointsTo.propagatedOf entry.1) := by
  unfold passedNext
  split
  · next p _ _ =>
    refine ⟨(LawfulIdSet.nodup_toList _).map fun _ _ same => congrArg Prod.snd same, ?_⟩
    rintro _ listed
    obtain ⟨o, there, rfl⟩ := List.mem_map.mp listed
    exact tidy.scheduled.disjoint p o (PointsToData.mem_flush.mp there)
  · exact ⟨.nil, by simp⟩

theorem PassedOn.mem_iff (passed : PassedOn a log s) {p : PointerId} {o : ContextObjectId} :
    (p, o) ∈ log ↔ o ∈ IdSet.toList (s.pointsTo.propagatedOf p) := by
  induction passed with
  | start ran =>
    rw [Moves.propagated ((outcome_start sound_empty).of_ok ran)]
    simp [empty]
  | step before ran ih =>
    rw [List.mem_append, ih, mem_propagated_step before.reachable.tidy ran]

theorem PassedOn.nodup (passed : PassedOn a log s) : log.Nodup := by
  induction passed with
  | start => exact .nil
  | step before ran ih =>
    obtain ⟨once, new⟩ := passedNext_new before.reachable.tidy
    refine List.nodup_append.mpr ⟨ih, once, ?_⟩
    rintro entry old _ next rfl
    exact new entry next (before.mem_iff.mp old)

/-- There are as many relations as objects have been passed on. -/
theorem PassedOn.relations_eq (passed : PassedOn a log s) : s.pointsTo.relations = log.length := by
  have same : s.pointsTo.pairs.Perm log := by
    refine (List.perm_ext_iff_of_nodup (PointsToData.nodup_pairs _) passed.nodup).mpr fun ⟨p, o⟩ => ?_
    rw [PointsToData.mem_pairs, passed.mem_iff]
  rw [PointsToData.relations_eq, same.length_eq]

end PointerAnalysis.Solver.State
