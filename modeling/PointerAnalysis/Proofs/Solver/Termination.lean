import Mathlib.Algebra.Order.Ring.Nat
import Mathlib.Data.List.Nodup
import Mathlib.Tactic.GCongr
import Mathlib.Tactic.Ring
import PointerAnalysis.Proofs.Rules.Bounds
import PointerAnalysis.Proofs.Solver.Pushes
import PointerAnalysis.Proofs.Solver.Run

/-! Runs come to an end. A step that passes a pointer on moves at least one object over that never
comes back, and any other step takes a call edge from a queue whose length is bounded by what has been
passed on and reached; so the number of steps is bounded by the number of derivable facts. -/
namespace PointerAnalysis

variable {E S : Type} [Coded E] [IdSet S .contextObject]

namespace Solver

variable {a : Analysis E} {s : State E S} {limit n : Nat}

/-- How many facts about objects in locations there can be. -/
def heldFacts (p : Program) (contexts : List (Context E)) (objects : List AbstractObject) : Nat :=
  (p.locations contexts objects).length * (heapObjects contexts objects).length

/-- So many steps are paid for by objects that have been passed on and by call edges that have been
taken, and all call edges that have ever been queued by those objects and the reachable methods. -/
def State.Metered (limit n : Nat) (s : State E S) : Prop :=
  ∃ passed : List (PointerId × ContextObjectId), passed.Nodup ∧
    (∀ x ∈ passed, x.2 ∈ IdSet.toList (s.pointsTo.propagatedOf x.1)) ∧
    s.work.callEdges.length ≤ limit * (passed.length + s.calls.reached.size) ∧
    n ≤ passed.length + s.work.bookmark.passed

variable [LawfulIdSet S]

/-- A pointer that is passed on pays for a step. -/
private theorem metered_propagateNext (coherent : a.Coherent) (invariant : s.Invariant a)
    (metered : s.Metered a.program.callSites.size n) :
    Outcome (propagateNext a) s
      (fun more s' => s'.Metered a.program.callSites.size (n + more.toNat)) (fun _ _ => True) := by
  unfold propagateNext popPointer
  refine outcome_bind (outcome_modifyGet ?_)
  cases popped : s.work.popPointer? with
  | none => exact outcome_pure metered
  | some next =>
    obtain ⟨p, work⟩ := next
    obtain ⟨waiting, pushed, place⟩ := WorkList.popPointer?_eq_some popped
    obtain ⟨passed, nodup, held, fits, paid⟩ := metered
    have ran := (outcome_propagate coherent invariant popped).and
      (queues_propagate a.program.callSites.size coherent.program { s with work } p)
    refine outcome_bind (ran.mono ?_ fun _ _ _ => trivial)
    rintro _ s' ⟨⟨follows, _, arrived⟩, queues⟩
    have new {id : ContextObjectId} : id ∈ IdSet.toList (s.pointsTo.flush p).2 ↔
        id ∈ IdSet.toList (s.pointsTo.pendingOf p) := PointsToData.mem_flush
    have some : 0 < (IdSet.toList (s.pointsTo.flush p).2).length := by
      obtain ⟨id, pending⟩ := (invariant.scheduled.waiting_iff p).mp (by simp [waiting])
      exact List.length_pos_of_mem (new.mpr pending)
    have place' := queues.place
    have pushed' := queues.pushed
    simp only [pushed, place] at place' pushed'
    refine outcome_pure
      ⟨passed ++ (IdSet.toList (s.pointsTo.flush p).2).map (p, ·), ?_, ?_, ?_, ?_⟩
    · refine List.nodup_append.mpr ⟨nodup, List.Nodup.map (fun _ _ => by simp) (LawfulIdSet.nodup_toList _), ?_⟩
      rintro x old y there rfl
      obtain ⟨id, listed, rfl⟩ := List.mem_map.mp there
      exact invariant.scheduled.disjoint p id (new.mp listed) (held _ old)
    · intro x there
      rcases List.mem_append.mp there with old | there
      · exact follows.advances.propagated _ _ (held x old)
      · obtain ⟨id, listed, rfl⟩ := List.mem_map.mp there
        exact arrived id listed
    · rw [List.length_append, List.length_map]
      simp only [Nat.mul_add] at fits ⊢
      omega
    · rw [List.length_append, List.length_map, place', Bool.toNat_true]
      omega

/-- A call edge that is taken pays for a step. -/
private theorem metered_processNextCall (coherent : a.Coherent) (invariant : s.Invariant a)
    (metered : s.Metered a.program.callSites.size n) :
    Outcome (processNextCall a) s
      (fun more s' => s'.Metered a.program.callSites.size (n + more.toNat)) (fun _ _ => True) := by
  unfold processNextCall popCallEdge
  refine outcome_bind (outcome_modifyGet ?_)
  dsimp only
  cases queued : s.work.queuedCalls with
  | nil =>
    rw [WorkList.popCallEdge?_of_queuedCalls_eq_nil queued]
    exact outcome_pure metered
  | cons edge others =>
    rw [(WorkList.popCallEdge?_of_queuedCalls_eq_cons queued).1]
    obtain ⟨passed, nodup, held, fits, paid⟩ := metered
    have ran := (outcome_processCall coherent invariant queued).and
      (pushes_processCall coherent.program edge { s with work := s.work.popCallEdge?.2 })
    refine outcome_bind (ran.mono ?_ fun _ _ _ => trivial)
    rintro _ s' ⟨⟨follows, _⟩, queues⟩
    have place := queues.place
    have pushed := queues.pushed
    simp only [WorkList.callEdges_popCallEdge?] at place pushed
    refine outcome_pure ⟨passed, nodup, fun x there => follows.advances.propagated _ _ (held x there), ?_, ?_⟩
    · simp only [Nat.mul_add] at fits ⊢
      omega
    · rw [place, WorkList.passed_popCallEdge? queued, Bool.toNat_true]
      omega

/-- Every step that finds something to do is paid for. -/
theorem metered_step (coherent : a.Coherent) (invariant : s.Invariant a)
    (metered : s.Metered a.program.callSites.size n) :
    Outcome (step a) s
      (fun more s' => s'.Metered a.program.callSites.size (n + more.toNat)) (fun _ _ => True) := by
  have drain : ∀ {s : State E S}, s.Invariant a → s.Metered a.program.callSites.size n →
      Outcome (do
        if ← processNextCall a then return true
        modify ({ · with drainingCalls := false })
        propagateNext a) s
        (fun more s' => s'.Metered a.program.callSites.size (n + more.toNat))
        (fun _ _ => True) := by
    intro s invariant metered
    have keeps := keeps_processNextCall coherent invariant
    refine outcome_bind ((keeps.and (metered_processNextCall coherent invariant metered)).mono ?_
      fun _ _ _ => trivial)
    rintro (_ | _) s₁ ⟨⟨_, invariant₁, none⟩, paid⟩
    · obtain ⟨rfl, _⟩ := none rfl
      exact outcome_bind (outcome_modify (metered_propagateNext coherent (invariant₁.draining false) metered))
    · exact outcome_pure paid
  refine outcome_bind (outcome_get ?_)
  dsimp only
  split
  · have keeps := keeps_propagateNext coherent invariant
    refine outcome_bind ((keeps.and (metered_propagateNext coherent invariant metered)).mono ?_
      fun _ _ _ => trivial)
    rintro (_ | _) s₁ ⟨⟨_, invariant₁, none⟩, paid⟩
    · obtain ⟨rfl, _⟩ := none rfl
      exact outcome_bind (outcome_modify (drain (invariant₁.draining true) metered))
    · exact outcome_pure paid
  · exact drain invariant metered

omit [LawfulIdSet S] in
/-- The start has queued no more than the methods that it has reached account for. -/
theorem metered_start (coherent : a.Coherent) {s : State E S}
    (ran : (start a).run .empty = .ok () s) : s.Metered a.program.callSites.size 0 := by
  have queues := (pushes_start coherent.program .empty).of_ok ran
  refine ⟨[], List.nodup_nil, by simp, ?_, Nat.zero_le _⟩
  have pushed := queues.pushed
  have none : (State.empty : State E S).work.callEdges.length = 0 := rfl
  rw [List.length_nil, Nat.zero_add]
  omega

omit [LawfulIdSet S] in
/-- The steps of a run are paid for by facts that the rules derive, so they are bounded by the number
of these. -/
theorem State.Metered.steps_le (coherent : a.Coherent) (grounded : s.Grounded a)
    {contexts : List (Context E)} {objects : List AbstractObject}
    (confined : a.Confined contexts objects) (metered : s.Metered limit n) :
    n ≤ heldFacts a.program contexts objects +
      limit * (heldFacts a.program contexts objects + contexts.length * a.program.methods.size) := by
  obtain ⟨passed, nodup, held, fits, paid⟩ := metered
  have passed_le : passed.length ≤ heldFacts a.program contexts objects := by
    rw [heldFacts, ← List.length_product]
    refine length_le_of_injective
      (R := fun (x : PointerId × ContextObjectId) (y : Location E × HeapObject E) =>
        s.canon.Locates x.1 y.1 ∧ s.canon.Names x.2 y.2) ?_ nodup fun x there => ?_
    · rintro ⟨p, id⟩ ⟨p', id'⟩ y ⟨located, named⟩ ⟨located', named'⟩
      exact Prod.ext (located.injective located') (named.injective named')
    · obtain ⟨l, o, located, named, derived⟩ := grounded.holds (.inr (held x there))
      exact ⟨(l, o), derived.holds_listed confined coherent, located, named⟩
  have reached_le : s.calls.reached.size ≤ contexts.length * a.program.methods.size := by
    have size : s.calls.reached.size = s.calls.reached.toList.length := Array.length_toList.symm
    rw [size, ← Id.length_below .method a.program.methods.size, ← List.length_product]
    refine length_le_of_injective
      (R := fun (id : ContextMethodId) (y : Context E × MethodId) => s.canon.Enters id y.1 y.2) ?_
      (Registry.nodup_toList _) fun id there => ?_
    · exact fun first second => first.injective second
    · obtain ⟨c, m, entered, derived⟩ := grounded.reaches there
      exact ⟨(c, m), derived.reached_listed confined coherent, entered⟩
  have queued : s.work.bookmark.passed ≤ s.work.callEdges.length := s.work.behind
  have counted := Nat.mul_le_mul_left limit (Nat.add_le_add passed_le reached_le)
  omega

end Solver

/-! ### The bound on steps -/

/-- An analysis with no more contexts and objects than the size of its program and its depth allow. -/
structure Analysis.Bounded (a : Analysis E) (contexts : List (Context E))
    (objects : List AbstractObject) : Prop extends a.Confined contexts objects where
  contexts_le : contexts.length ≤ (a.program.size + 2) ^ (3 * a.policy.depth)
  objects_le : objects.length ≤ (a.program.size + 2) ^ 3

/-- Steps in terms of the numbers of contexts `K`, objects `O`, variables, fields, methods and calls. -/
private theorem steps_le_power {K O vars fields methods calls n power : Nat} (large : 2 ≤ n)
    (positive : 1 ≤ power) (hK : K ≤ power) (hO : O ≤ n ^ 3) (hvars : vars ≤ n) (hfields : fields ≤ n)
    (hmethods : methods ≤ n) (hcalls : calls + 1 ≤ n) :
    (K * vars + K * O * fields) * (K * O) +
      calls * ((K * vars + K * O * fields) * (K * O) + K * methods) + 1 ≤ power ^ 2 * n ^ 10 := by
  have located : K * vars + K * O * fields ≤ power * n ^ 5 := by
    have single : n ≤ n ^ 4 := Nat.le_self_pow (by decide) n
    calc K * vars + K * O * fields ≤ power * n + power * n ^ 3 * n := by gcongr
      _ = power * (n ^ 4 + n) := by ring
      _ ≤ power * (n ^ 4 * 2) := Nat.mul_le_mul_left _ (by omega)
      _ ≤ power * (n ^ 4 * n) := by gcongr
      _ = power * n ^ 5 := by ring
  have held : (K * vars + K * O * fields) * (K * O) ≤ power ^ 2 * n ^ 8 := by
    calc (K * vars + K * O * fields) * (K * O) ≤ power * n ^ 5 * (power * n ^ 3) := by gcongr
      _ = power ^ 2 * n ^ 8 := by ring
  have reached : K * methods ≤ power ^ 2 * n ^ 8 := by
    calc K * methods ≤ power * n := by gcongr
      _ ≤ power ^ 2 * n ^ 8 :=
        Nat.mul_le_mul (Nat.le_self_pow (by decide) _) (Nat.le_self_pow (by decide) _)
  have some : 1 ≤ power ^ 2 * n ^ 8 := Nat.mul_pos (Nat.pow_pos positive) (Nat.pow_pos (by omega))
  calc _ ≤ power ^ 2 * n ^ 8 + calls * (power ^ 2 * n ^ 8 + power ^ 2 * n ^ 8) + power ^ 2 * n ^ 8 := by
        gcongr
    _ = (calls + 1) * (2 * (power ^ 2 * n ^ 8)) := by ring
    _ ≤ n * (n * (power ^ 2 * n ^ 8)) := by gcongr
    _ = power ^ 2 * n ^ 10 := by ring

omit [Coded E] in
/-- Derivable facts pay for no more steps than a power of the size of the program. -/
theorem Analysis.Bounded.steps_lt {a : Analysis E} {contexts : List (Context E)}
    {objects : List AbstractObject} (bounded : a.Bounded contexts objects) :
    Solver.heldFacts a.program contexts objects + a.program.callSites.size *
      (Solver.heldFacts a.program contexts objects + contexts.length * a.program.methods.size) <
        (a.program.size + 2) ^ (6 * a.policy.depth + 10) := by
  have vars : a.program.vars.size ≤ a.program.size + 2 := by
    unfold Program.size
    omega
  have fields : a.program.fields.size ≤ a.program.size + 2 := by
    unfold Program.size
    omega
  have methods : a.program.methods.size ≤ a.program.size + 2 := by
    unfold Program.size
    omega
  have calls : a.program.callSites.size + 1 ≤ a.program.size + 2 := by
    unfold Program.size
    omega
  rw [Solver.heldFacts, Program.length_locations, length_heapObjects]
  refine Nat.lt_of_succ_le ?_
  calc _ ≤ ((a.program.size + 2) ^ (3 * a.policy.depth)) ^ 2 * (a.program.size + 2) ^ 10 :=
        steps_le_power (Nat.le_add_left _ _) (Nat.pow_pos (by omega)) bounded.contexts_le
          bounded.objects_le vars fields methods calls
    _ = (a.program.size + 2) ^ (6 * a.policy.depth + 10) := by ring

omit [Coded E] in
/-- The rounds of a run make up more steps than that. -/
theorem Analysis.lt_two_pow_rounds (a : Analysis E) :
    (a.program.size + 2) ^ (6 * a.policy.depth + 10) < 2 ^ a.rounds := by
  have base : a.program.size + 2 ≤ 2 ^ (a.program.size + 1) := Nat.lt_two_pow_self
  calc _ ≤ (2 ^ (a.program.size + 1)) ^ (6 * a.policy.depth + 10) := by gcongr
    _ = 2 ^ ((a.program.size + 1) * (6 * a.policy.depth + 10)) := (pow_mul _ _ _).symm
    _ < 2 ^ a.rounds := by
      refine Nat.pow_lt_pow_right (by decide) ?_
      rw [Analysis.rounds, Nat.mul_comm (6 * a.policy.depth + 11)]
      exact Nat.mul_lt_mul_of_pos_left (by omega) (by omega)

namespace Solver

variable {a : Analysis E} {s : State E S} {n : Nat} [LawfulIdSet S]

/-- The states of a run, with the number of steps before them that have found something to do. -/
inductive State.After (a : Analysis E) : Nat → State E S → Prop where
  | start {s : State E S} : (start a).run .empty = .ok () s → After a 0 s
  | step {n : Nat} {s s' : State E S} {more : Bool} :
      After a n s → (step a).run s = .ok more s' → After a (n + more.toNat) s'

theorem State.After.metered (coherent : a.Coherent) (after : s.After a n) :
    s.Reachable a ∧ s.Metered a.program.callSites.size n := by
  induction after with
  | start ran => exact ⟨.start ran, metered_start coherent ran⟩
  | step _ ran ih =>
    obtain ⟨reachable, metered⟩ := ih
    exact ⟨reachable.step ran, (metered_step coherent (reachable.invariant coherent) metered).of_ok ran⟩

/-- No run has more steps that find something to do than a power of the size of its program. -/
theorem State.After.steps_lt (coherent : a.Coherent) {contexts : List (Context E)}
    {objects : List AbstractObject} (bounded : a.Bounded contexts objects) (after : s.After a n) :
    n < (a.program.size + 2) ^ (6 * a.policy.depth + 10) := by
  obtain ⟨reachable, metered⟩ := after.metered coherent
  have grounded := (reachable.invariant coherent).grounded
  exact (metered.steps_le coherent grounded bounded.toConfined).trans_lt bounded.steps_lt

omit [LawfulIdSet S] in
private theorem after_runFor (steps : Nat) (after : s.After a n) :
    Outcome (runFor a steps) s (fun done s' => done = false → s'.After a (n + steps))
      (fun _ _ => True) := by
  induction steps generalizing s n with
  | zero => exact outcome_pure fun _ => after
  | succ steps ih =>
    refine outcome_bind (outcome_of_run ?_ fun _ _ _ => trivial)
    intro more s' ran
    cases more with
    | true =>
      have rest := ih (after.step ran)
      rw [Bool.toNat_true, Nat.add_assoc, Nat.add_comm 1] at rest
      exact rest
    | false => exact outcome_pure (by simp)

omit [LawfulIdSet S] in
private theorem after_runRounds (budget rounds : Nat) (after : s.After a n) :
    Outcome (runRounds a budget rounds) s
      (fun done s' => done = false → s'.After a (n + budget * (2 ^ rounds - 1)))
      (fun _ _ => True) := by
  induction rounds generalizing s n budget with
  | zero => exact outcome_pure fun _ => by simpa using after
  | succ rounds ih =>
    refine outcome_bind ((after_runFor budget after).mono ?_ fun _ _ => id)
    rintro (_ | _) s' goes
    · have rest := ih (2 * budget) (goes rfl)
      obtain ⟨more, same⟩ := Nat.exists_eq_add_of_le' (Nat.one_le_two_pow (n := rounds))
      have total : n + budget + 2 * budget * (2 ^ rounds - 1) = n + budget * (2 ^ (rounds + 1) - 1) := by
        rw [Nat.pow_succ, same, Nat.add_sub_cancel, Nat.add_mul, Nat.one_mul, Nat.add_sub_assoc (by decide)]
        ring
      rwa [total] at rest
    · exact outcome_pure (by simp)

/-- A run never meets the bound on its steps. -/
theorem runRounds_done (coherent : a.Coherent) {contexts : List (Context E)}
    {objects : List AbstractObject} (bounded : a.Bounded contexts objects) {done : Bool} {s' : State E S}
    (started : (start a).run .empty = .ok () s) (ran : (runRounds a 1 a.rounds).run s = .ok done s') :
    done = true := by
  cases done with
  | true => rfl
  | false =>
    have after := (after_runRounds 1 a.rounds (.start started)).of_ok ran rfl
    have steps := after.steps_lt coherent bounded
    have enough := a.lt_two_pow_rounds
    omega

end Solver

/-- An analysis is carried out unless a derivable fact is in its way. -/
theorem Analysis.solve_ends {a : Analysis E} (coherent : a.Coherent) {contexts : List (Context E)}
    {objects : List AbstractObject} (bounded : a.Bounded contexts objects) (S : Type)
    [IdSet S .contextObject] [LawfulIdSet S] :
    (∃ r, a.solve S = .ok r) ∨ ∃ e, a.solve S = .error e ∧ a.Obstructed e := by
  have outcome : Solver.Outcome (Solver.solve a) (.empty : Solver.State E S) (fun _ _ => True)
      (fun e _ => a.Obstructed e) := by
    have keeps := Solver.keeps_start (S := S) coherent (Solver.invariant_empty a)
    refine Solver.outcome_bind (Solver.outcome_of_run ?_ fun e s' ran => (keeps.of_error ran).2.2)
    intro _ s started
    have rounds := Solver.outcome_runRounds (S := S) coherent 1 a.rounds (.start started)
    refine Solver.outcome_bind (Solver.outcome_of_run ?_ fun e s' ran => (rounds.of_error ran).2)
    intro done s' ran
    rw [Solver.runRounds_done coherent bounded started ran]
    exact Solver.outcome_pure trivial
  unfold Analysis.solve
  cases ran : (Solver.solve a).run (.empty : Solver.State E S) with
  | ok x s => exact .inl ⟨_, rfl⟩
  | error e s => exact .inr ⟨e, rfl, outcome.of_error ran⟩

end PointerAnalysis
