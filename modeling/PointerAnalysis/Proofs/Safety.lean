import PointerAnalysis.Proofs.Failure
import PointerAnalysis.Proofs.Reports

/-! Loaded programs never crash an analysis. Whichever entry is asked for and however contexts and
objects are chosen, every lookup of every step finds its entry, every call passes what its callee takes,
and every report on a state of the run can be made. What remains are calls that cannot be carried out. -/
namespace PointerAnalysis

/-! ### Slices -/

namespace Context

variable {E : Type}

/-- The first elements of a context; it has to have that many. -/
def slice? (c : Context E) (n : Nat) : Option (Context E) :=
  if n ≤ c.length then some (c.take n) else none

/-- An element in front of a slice, which leaves room for it. -/
def pushSlice? (k : Nat) (e : E) (c : Context E) : Option (Context E) :=
  if k = 0 then some [] else (c.slice? (min c.length (k - 1))).map (e :: ·)

/-- A slice of a context that is too long. -/
def truncateSlice? (k : Nat) (c : Context E) : Option (Context E) :=
  if c.fits k then some c else c.slice? k

theorem pushSlice?_eq (k : Nat) (e : E) (c : Context E) : c.pushSlice? k e = some (c.push k e) := by
  cases k with
  | zero => rfl
  | succ k =>
    have short : min c.length k ≤ c.length := Nat.min_le_left _ _
    have taken : c.take (min c.length k) = c.take k := by
      rw [List.take_eq_take_iff]
      omega
    rw [pushSlice?, if_neg (by simp), Nat.add_sub_cancel, slice?, if_pos short, taken]
    rfl

theorem truncateSlice?_eq (k : Nat) (c : Context E) :
    c.truncateSlice? k = some (c.truncate k) := by
  unfold truncateSlice?
  split
  · next short => rw [truncate_of_fits short]
  · next long =>
    have inside : k ≤ c.length := by
      simp only [fits, decide_eq_true_eq] at long
      omega
    rw [slice?, if_pos inside]
    rfl

end Context

/-! ### Errors -/

/-- An error that reports no faulty call but a number that was never handed out, or arguments that a
callee does not take. -/
def AnalysisError.Crash : AnalysisError → Prop
  | .unknownId _ | .arityMismatch _ _ _ _ => True
  | _ => False

theorem Analysis.Obstructed.not_crash {E : Type} {a : Analysis E} {e : AnalysisError}
    (obstructed : a.Obstructed e) : ¬ e.Crash := by
  cases obstructed <;> exact id

namespace Solver

variable {E S : Type} [Coded E] [IdSet S .contextObject] [LawfulIdSet S] {a : Analysis E}
  (coherent : a.Coherent)
include coherent

theorem start_not_crash {e : AnalysisError} {s : State E S}
    (failed : (start a).run .empty = .error e s) : ¬ e.Crash :=
  ((keeps_start coherent (invariant_empty a)).of_error failed).2.2.not_crash

theorem State.Reachable.step_not_crash {s : State E S} (reachable : s.Reachable a)
    {e : AnalysisError} {s' : State E S} (failed : (Solver.step a).run s = .error e s') : ¬ e.Crash :=
  ((keeps_step coherent (reachable.invariant coherent)).of_error failed).2.2.not_crash

end Solver

/-! ### Programs -/

/-- A program that a description stands for, with its own entries or with the one that is asked for. -/
inductive Described.Program.Loads (d : Described.Program) : PointerAnalysis.Program → Prop where
  | described {p : PointerAnalysis.Program} : d.link = .ok p → Loads d p
  | entering {p : PointerAnalysis.Program} {name : String} {m : MethodId} :
      d.link = .ok p → p.findMethod name = some m → Loads d { p with entries := #[m] }

theorem Program.findMethod_known {p : Program} {name : String} {m : MethodId}
    (found : p.findMethod name = some m) : ∃ method, p.method m = .ok method := by
  obtain ⟨_, _, found⟩ := Option.bind_eq_some_iff.mp found
  obtain ⟨i, there, same⟩ := Option.bind_eq_some_iff.mp found
  cases same
  have inside : i < p.methods.size := (Array.findIdx?_eq_some_iff_findIdx_eq.mp there).1
  exact ⟨p.methods[i], Id.lookup_eq_ok_iff.mpr (Array.getElem?_eq_getElem inside)⟩

theorem Described.Program.Loads.coherent {d : Described.Program} {q : PointerAnalysis.Program}
    (loaded : d.Loads q) : q.Coherent := by
  cases loaded with
  | described linked => exact Described.Program.link_coherent linked
  | @entering p name m linked found =>
    apply (Described.Program.link_coherent linked).set_entries
    intro m' listed
    rw [List.mem_singleton.mp (Array.mem_toList_iff.mpr listed)]
    exact Program.findMethod_known found

/-- Options load what a description in their file stands for. -/
theorem Options.loads_of_load {o : Options} {path text : String} {q : Program}
    (loaded : o.load path text = .ok q) : ∃ d : Described.Program, d.Loads q := by
  obtain ⟨p, read, chosen⟩ := bind_eq_ok_iff.mp loaded
  obtain ⟨d, linked⟩ : ∃ d : Described.Program, d.link = .ok p := by
    unfold Program.load at read
    split at read
    · cases read
    · next d _ =>
      cases linked : d.link with
      | error e => simp [linked, Except.mapError] at read
      | ok p' =>
        rw [linked] at read
        cases read
        exact ⟨d, linked⟩
  refine ⟨d, ?_⟩
  split at chosen
  · cases chosen
    exact .described linked
  · split at chosen
    · cases chosen
    · next found =>
      cases chosen
      exact .entering linked found

theorem Options.analyse_not_crash (o : Options) {q : Program} (coherent : q.Coherent)
    {e : AnalysisError} (failed : o.analyse q = .error e) : ¬ e.Crash := by
  have coherent' := coherent.analysis o.analysis o.depth o.heap
  have bounded := coherent.analysis_bounded o.analysis o.depth o.heap
  rw [o.analyse_eq] at failed
  cases solved : (q.analysis o.analysis o.depth o.heap).solve (HybridSet .contextObject) with
  | error e' =>
    rw [solved] at failed
    cases failed
    exact (Analysis.obstructed_of_error coherent' bounded solved).not_crash
  | ok r =>
    -- Nothing is left that could fail.
    obtain ⟨same, reachable, _⟩ := Analysis.solve_reachable coherent' solved
    have program : r.analysis.program = q := congrArg Analysis.program same
    have answers : r.Answers :=
      Solution.answers (program ▸ coherent) (program ▸ reachable.inRange coherent)
    obtain ⟨outputs, written⟩ := o.outputs_succeeds answers
    rw [solved, ok_bind, written] at failed
    cases failed

/-- An analysis of a loaded program, however it is chosen, meets no number that is out of range and no
call with the wrong number of arguments, neither in a step of any run nor in a report on one of its
states. -/
theorem loaded_programs_never_crash {d : Described.Program} {q : Program} (loaded : d.Loads q)
    (kind : AnalysisKind) (depth : Nat) (heap : HeapKind) (S : Type) [IdSet S .contextObject]
    [LawfulIdSet S] :
    q.Coherent ∧
    (∀ e (s : Solver.State kind.Element S),
      (Solver.start (q.analysis kind depth heap)).run .empty = .error e s → ¬ e.Crash) ∧
    (∀ s : Solver.State kind.Element S, s.Reachable (q.analysis kind depth heap) →
      s.InRange q ∧ (Solution.mk (q.analysis kind depth heap) s).Answers ∧
        ∀ e s', (Solver.step (q.analysis kind depth heap)).run s = .error e s' → ¬ e.Crash) ∧
    (∀ (c : Context kind.Element) (k : Nat) (e : kind.Element),
      c.pushSlice? k e = some (c.push k e) ∧ c.truncateSlice? k = some (c.truncate k)) ∧
    ∀ (o : Options) e, o.analyse q = .error e → ¬ e.Crash := by
  have coherent := loaded.coherent
  have coherent' := coherent.analysis kind depth heap
  refine ⟨coherent, fun e s => Solver.start_not_crash coherent', fun s reachable => ?_, fun c k e => ?_,
    fun o e => o.analyse_not_crash coherent⟩
  · have inRange := reachable.inRange coherent
    exact ⟨inRange, Solution.answers coherent inRange, fun e s' =>
      reachable.step_not_crash coherent'⟩
  · exact ⟨c.pushSlice?_eq k e, c.truncateSlice?_eq k⟩

theorem loaded_programs_never_crash_boxes : ∃ p r, boxes.link = .ok p ∧
    (p.analysis .objectSensitive 1 .perSite).solve (HybridSet .contextObject) = .ok r ∧
    r.state.InRange p ∧
      (Solution.mk (p.analysis .objectSensitive 1 .perSite) r.state).Answers := by
  obtain ⟨p, r, loaded, solved⟩ := boxes_solved
  obtain ⟨_, reachable, _⟩ :=
    Analysis.solve_reachable (p.analysis_coherent loaded .objectSensitive 1 .perSite) solved
  obtain ⟨_, _, states, _⟩ := loaded_programs_never_crash (.described loaded) .objectSensitive 1 .perSite
    (HybridSet .contextObject)
  obtain ⟨inRange, answers, _⟩ := states r.state reachable
  exact ⟨p, r, loaded, solved, inRange, answers⟩

end PointerAnalysis
