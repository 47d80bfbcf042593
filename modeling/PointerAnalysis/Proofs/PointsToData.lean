import Mathlib.Data.List.Nodup
import PointerAnalysis.PointsToData
import PointerAnalysis.Proofs.ObjectSet.Laws

/-! What an addition and a flush do to the two parts of a points-to set. An addition puts into the
pending part just what neither part knows, and a flush moves the pending part over as a whole; the
relations that are counted are the pairs of a key and an element that has been moved over. -/
namespace PointerAnalysis.PointsToData

variable {key kind : Entity} {S : Type} [IdSet S kind]

/-- One of the two parts of a key has an element. -/
def Knows (d : PointsToData key S) (p : Id key) (e : Id kind) : Prop :=
  e ∈ IdSet.toList (d.pendingOf p) ∨ e ∈ IdSet.toList (d.propagatedOf p)

/-- What was propagated is not pending again. -/
def Disjoint (d : PointsToData key S) : Prop :=
  ∀ p e, e ∈ IdSet.toList (d.pendingOf p) → e ∉ IdSet.toList (d.propagatedOf p)

private theorem getD_insert {m : Std.TreeMap (Id key) S} {p q : Id key} {s none : S} :
    (m.insert p s).getD q none = if p = q then s else m.getD q none := by
  rw [Std.TreeMap.getD_insert]
  simp only [Std.LawfulEqCmp.compare_eq_iff_eq]

@[simp] theorem pendingOf_empty (p : Id key) : (empty : PointsToData key S).pendingOf p = IdSet.empty :=
  Std.TreeMap.getD_emptyc

@[simp] theorem propagatedOf_empty (p : Id key) :
    (empty : PointsToData key S).propagatedOf p = IdSet.empty :=
  Std.TreeMap.getD_emptyc

/-- Additions leave the propagated parts alone. -/
@[simp] theorem propagatedOf_add (d : PointsToData key S) (p q : Id key) (e : Id kind) :
    (d.add p e).1.propagatedOf q = d.propagatedOf q := by
  unfold add
  split <;> rfl

@[simp] theorem relations_add (d : PointsToData key S) (p : Id key) (e : Id kind) :
    (d.add p e).1.relations = d.relations := by
  unfold add
  split <;> rfl

/-- The members of a set that a key has not passed on yet. -/
def unpropagated (d : PointsToData key S) (p : Id key) (source : S) : S :=
  if IdSet.isEmpty (d.propagatedOf p) then source
  else (IdSet.subtract source (d.propagatedOf p)).1

theorem addAll_eq (d : PointsToData key S) (p : Id key) (source : S) :
    d.addAll p source =
      if IdSet.isEmpty source then (d, false)
      else if IdSet.isEmpty (d.unpropagated p source) then (d, false)
      else
        ({ d with pending :=
            d.pending.insert p (IdSet.union (d.pendingOf p) (d.unpropagated p source)).1 },
          (IdSet.union (d.pendingOf p) (d.unpropagated p source)).2) := rfl

@[simp] theorem propagatedOf_addAll (d : PointsToData key S) (p q : Id key) (source : S) :
    (d.addAll p source).1.propagatedOf q = d.propagatedOf q := by
  rw [addAll_eq]
  split
  · rfl
  · split <;> rfl

@[simp] theorem relations_addAll (d : PointsToData key S) (p : Id key) (source : S) :
    (d.addAll p source).1.relations = d.relations := by
  rw [addAll_eq]
  split
  · rfl
  · split <;> rfl

variable [LawfulIdSet S]

/-! ### Adding one element -/

/-- An element is pending after an addition if it was before, or if it is the new one and has not
been propagated. -/
theorem mem_pendingOf_add {d : PointsToData key S} {p q : Id key} {e x : Id kind} :
    x ∈ IdSet.toList ((d.add p e).1.pendingOf q) ↔
      x ∈ IdSet.toList (d.pendingOf q) ∨
        (q = p ∧ x = e ∧ e ∉ IdSet.toList (d.propagatedOf p)) := by
  unfold add
  split
  · next known =>
    rw [LawfulIdSet.contains_iff] at known
    simp [known]
  · next unknown =>
    rw [LawfulIdSet.contains_iff] at unknown
    simp only [pendingOf, getD_insert]
    by_cases same : p = q
    · subst same
      simp [unknown, or_comm]
    · simp [same, Ne.symm same]

theorem add_fresh {d : PointsToData key S} {p : Id key} {e : Id kind} :
    (d.add p e).2 = true ↔ ¬ d.Knows p e := by
  unfold add Knows
  split
  · next known =>
    rw [LawfulIdSet.contains_iff] at known
    simp [known]
  · next unknown =>
    rw [LawfulIdSet.contains_iff] at unknown
    simp [unknown, LawfulIdSet.insert_fresh]

theorem knows_add {d : PointsToData key S} {p q : Id key} {e x : Id kind} :
    (d.add p e).1.Knows q x ↔ d.Knows q x ∨ (q = p ∧ x = e) := by
  simp only [Knows, mem_pendingOf_add, propagatedOf_add]
  constructor
  · rintro ((old | ⟨rfl, rfl, _⟩) | old)
    · exact .inl (.inl old)
    · exact .inr ⟨rfl, rfl⟩
    · exact .inl (.inr old)
  · rintro ((old | old) | ⟨rfl, rfl⟩)
    · exact .inl (.inl old)
    · exact .inr old
    · by_cases known : x ∈ IdSet.toList (d.propagatedOf q)
      · exact .inr known
      · exact .inl (.inr ⟨rfl, rfl, known⟩)

theorem disjoint_add {d : PointsToData key S} (disjoint : d.Disjoint) (p : Id key) (e : Id kind) :
    (d.add p e).1.Disjoint := by
  intro q x pending
  rw [propagatedOf_add]
  rcases mem_pendingOf_add.mp pending with old | ⟨rfl, rfl, unknown⟩
  · exact disjoint q x old
  · exact unknown

/-! ### Adding a set -/

theorem mem_unpropagated {d : PointsToData key S} {p : Id key} {source : S} {x : Id kind} :
    x ∈ IdSet.toList (d.unpropagated p source) ↔
      x ∈ IdSet.toList source ∧ x ∉ IdSet.toList (d.propagatedOf p) := by
  unfold unpropagated
  split
  · next none =>
    rw [LawfulIdSet.isEmpty_iff] at none
    simp [none]
  · exact IdSet.mem_toList_subtract

theorem mem_pendingOf_addAll {d : PointsToData key S} {p q : Id key} {source : S} {x : Id kind} :
    x ∈ IdSet.toList ((d.addAll p source).1.pendingOf q) ↔
      x ∈ IdSet.toList (d.pendingOf q) ∨
        (q = p ∧ x ∈ IdSet.toList source ∧ x ∉ IdSet.toList (d.propagatedOf p)) := by
  rw [addAll_eq, ← mem_unpropagated]
  split
  · next none =>
    rw [LawfulIdSet.isEmpty_iff] at none
    simp [mem_unpropagated, none]
  · split
    · next none =>
      rw [LawfulIdSet.isEmpty_iff] at none
      simp [none]
    · simp only [pendingOf, getD_insert]
      by_cases same : p = q
      · subst same
        simp
      · simp [same, Ne.symm same]

theorem addAll_fresh {d : PointsToData key S} {p : Id key} {source : S} :
    (d.addAll p source).2 = true ↔ ∃ x ∈ IdSet.toList source, ¬ d.Knows p x := by
  have new : (∃ x ∈ IdSet.toList source, ¬ d.Knows p x) ↔
      ∃ x ∈ IdSet.toList (d.unpropagated p source), x ∉ IdSet.toList (d.pendingOf p) := by
    simp only [mem_unpropagated, Knows, not_or]
    exact ⟨fun ⟨x, there, waiting, new⟩ => ⟨x, ⟨there, new⟩, waiting⟩,
      fun ⟨x, ⟨there, new⟩, waiting⟩ => ⟨x, there, waiting, new⟩⟩
  rw [addAll_eq, new]
  split
  · next none =>
    rw [LawfulIdSet.isEmpty_iff] at none
    simp [mem_unpropagated, none]
  · split
    · next none =>
      rw [LawfulIdSet.isEmpty_iff] at none
      simp [none]
    · exact LawfulIdSet.union_changed _ _

theorem knows_addAll {d : PointsToData key S} {p q : Id key} {source : S} {x : Id kind} :
    (d.addAll p source).1.Knows q x ↔ d.Knows q x ∨ (q = p ∧ x ∈ IdSet.toList source) := by
  simp only [Knows, mem_pendingOf_addAll, propagatedOf_addAll]
  constructor
  · rintro ((old | ⟨rfl, there, _⟩) | old)
    · exact .inl (.inl old)
    · exact .inr ⟨rfl, there⟩
    · exact .inl (.inr old)
  · rintro ((old | old) | ⟨rfl, there⟩)
    · exact .inl (.inl old)
    · exact .inr old
    · by_cases known : x ∈ IdSet.toList (d.propagatedOf q)
      · exact .inr known
      · exact .inl (.inr ⟨rfl, there, known⟩)

theorem disjoint_addAll {d : PointsToData key S} (disjoint : d.Disjoint) (p : Id key)
    (source : S) : (d.addAll p source).1.Disjoint := by
  intro q x pending
  rw [propagatedOf_addAll]
  rcases mem_pendingOf_addAll.mp pending with old | ⟨rfl, _, unknown⟩
  · exact disjoint q x old
  · exact unknown

/-! ### Flushing -/

/-- A flush returns the pending part. -/
theorem toList_flush (d : PointsToData key S) (p : Id key) :
    IdSet.toList (d.flush p).2 = IdSet.toList (d.pendingOf p) := by
  unfold flush
  dsimp only
  split
  · next none =>
    rw [LawfulIdSet.isEmpty_iff] at none
    simp [none]
  · rfl

theorem mem_flush {d : PointsToData key S} {p : Id key} {x : Id kind} :
    x ∈ IdSet.toList (d.flush p).2 ↔ x ∈ IdSet.toList (d.pendingOf p) := by
  rw [toList_flush]

theorem mem_pendingOf_flush {d : PointsToData key S} {p q : Id key} {x : Id kind} :
    x ∈ IdSet.toList ((d.flush p).1.pendingOf q) ↔ q ≠ p ∧ x ∈ IdSet.toList (d.pendingOf q) := by
  unfold flush
  dsimp only
  split
  · next none =>
    rw [LawfulIdSet.isEmpty_iff] at none
    by_cases same : q = p
    · subst same
      simp [none]
    · simp [same]
  · simp only [pendingOf, getD_insert]
    by_cases same : p = q
    · subst same
      simp
    · simp [same, Ne.symm same]

theorem mem_propagatedOf_flush {d : PointsToData key S} {p q : Id key} {x : Id kind} :
    x ∈ IdSet.toList ((d.flush p).1.propagatedOf q) ↔
      x ∈ IdSet.toList (d.propagatedOf q) ∨ (q = p ∧ x ∈ IdSet.toList (d.pendingOf p)) := by
  unfold flush
  dsimp only
  split
  · next none =>
    rw [LawfulIdSet.isEmpty_iff] at none
    simp [none]
  · simp only [propagatedOf, getD_insert]
    by_cases same : p = q
    · subst same
      simp
    · simp [same, Ne.symm same]

theorem knows_flush {d : PointsToData key S} {p q : Id key} {x : Id kind} :
    (d.flush p).1.Knows q x ↔ d.Knows q x := by
  simp only [Knows, mem_pendingOf_flush, mem_propagatedOf_flush]
  constructor
  · rintro (⟨_, pending⟩ | old | ⟨rfl, pending⟩)
    · exact .inl pending
    · exact .inr old
    · exact .inl pending
  · rintro (pending | old)
    · by_cases same : q = p
      · subst same
        exact .inr (.inr ⟨rfl, pending⟩)
      · exact .inl ⟨same, pending⟩
    · exact .inr (.inl old)

theorem disjoint_flush {d : PointsToData key S} (disjoint : d.Disjoint) (p : Id key) :
    (d.flush p).1.Disjoint := by
  intro q x pending propagated
  obtain ⟨other, pending⟩ := mem_pendingOf_flush.mp pending
  rcases mem_propagatedOf_flush.mp propagated with old | ⟨same, _⟩
  · exact disjoint q x pending old
  · exact other same

/-! ### Counting -/

/-- All pairs of a key and an element that it has passed on. -/
def pairs (d : PointsToData key S) : List (Id key × Id kind) :=
  d.propagated.toList.flatMap fun entry => (IdSet.toList entry.2).map (entry.1, ·)

theorem mem_pairs {d : PointsToData key S} {p : Id key} {e : Id kind} :
    (p, e) ∈ d.pairs ↔ e ∈ IdSet.toList (d.propagatedOf p) := by
  have entry : (p, e) ∈ d.pairs ↔ ∃ set, d.propagated[p]? = some set ∧ e ∈ IdSet.toList set := by
    simp only [pairs, List.mem_flatMap, List.mem_map, Prod.exists, Prod.mk.injEq,
      Std.TreeMap.mem_toList_iff_getElem?_eq_some]
    constructor
    · rintro ⟨_, set, found, _, there, rfl, rfl⟩
      exact ⟨set, found, there⟩
    · rintro ⟨set, found, there⟩
      exact ⟨p, set, found, e, there, rfl, rfl⟩
  rw [entry, propagatedOf, Std.TreeMap.getD_eq_getD_getElem?]
  cases d.propagated[p]? <;> simp

theorem nodup_pairs (d : PointsToData key S) : d.pairs.Nodup := by
  refine List.pairwise_flatMap.mpr ⟨fun entry _ => ?_, ?_⟩
  · refine List.Pairwise.map _ (fun e e' other same => other ?_) (LawfulIdSet.nodup_toList entry.2)
    exact congrArg Prod.snd same
  · refine Std.TreeMap.distinct_keys_toList.imp fun apart x there y there' same => ?_
    obtain ⟨_, _, rfl⟩ := List.mem_map.mp there
    obtain ⟨_, _, rfl⟩ := List.mem_map.mp there'
    exact apart (Std.LawfulEqCmp.compare_eq_iff_eq.mpr (Prod.mk.inj same).1)

/-- The relations that are counted are these pairs. -/
theorem relations_eq (d : PointsToData key S) : d.relations = d.pairs.length := by
  have counted (entries : List (Id key × S)) (n : Nat) :
      entries.foldl (fun total entry => total + IdSet.count entry.2) n =
        n + (entries.flatMap fun entry => (IdSet.toList entry.2).map (entry.1, ·)).length := by
    induction entries generalizing n with
    | nil => rfl
    | cons entry entries ih =>
      rw [List.foldl_cons, ih, List.flatMap_cons, List.length_append, List.length_map,
        LawfulIdSet.count_eq, Nat.add_assoc]
  rw [relations, Std.TreeMap.foldl_eq_foldl_toList, counted, Nat.zero_add, pairs]

/-- A flush adds what it returns to the count. -/
theorem relations_flush_eq {d : PointsToData key S} (disjoint : d.Disjoint) (p : Id key) :
    (d.flush p).1.relations = d.relations + IdSet.count (d.flush p).2 := by
  let moved := (IdSet.toList (d.pendingOf p)).map (p, ·)
  have nodup : (d.pairs ++ moved).Nodup := by
    refine List.nodup_append.mpr ⟨d.nodup_pairs, ?_, ?_⟩
    · exact (LawfulIdSet.nodup_toList _).map fun _ _ same => congrArg Prod.snd same
    · rintro _ old _ new rfl
      obtain ⟨x, pending, rfl⟩ := List.mem_map.mp new
      exact disjoint p x pending (mem_pairs.mp old)
  have perm : (d.flush p).1.pairs.Perm (d.pairs ++ moved) := by
    rw [List.perm_ext_iff_of_nodup (nodup_pairs _) nodup]
    rintro ⟨q, x⟩
    rw [mem_pairs, mem_propagatedOf_flush, List.mem_append, mem_pairs, List.mem_map]
    refine or_congr_right ⟨?_, ?_⟩
    · rintro ⟨rfl, pending⟩
      exact ⟨x, pending, rfl⟩
    · rintro ⟨_, pending, same⟩
      cases same
      exact ⟨rfl, pending⟩
  rw [relations_eq, relations_eq, perm.length_eq, List.length_append, List.length_map,
    LawfulIdSet.count_eq, toList_flush]

/-- A flush of something pending adds to the count. -/
theorem relations_flush {d : PointsToData key S} (disjoint : d.Disjoint) {p : Id key} {e : Id kind}
    (pending : e ∈ IdSet.toList (d.pendingOf p)) : d.relations < (d.flush p).1.relations := by
  rw [relations_flush_eq disjoint p, LawfulIdSet.count_eq, toList_flush]
  exact Nat.lt_add_of_pos_right (List.length_pos_of_mem pending)

end PointerAnalysis.PointsToData
