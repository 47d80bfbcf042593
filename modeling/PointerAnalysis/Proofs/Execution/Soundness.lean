import PointerAnalysis.Proofs.Execution.Abstraction
import PointerAnalysis.Proofs.LeastSolution
import PointerAnalysis.Proofs.Solver.Solution

/-! No execution leaves the results of a successful analysis. Whatever a variable holds at any time is
taken for one of the objects reported for it, fields likewise, and the methods that are carried out and
the calls between them are in the merged call graph. -/
namespace PointerAnalysis.Execution

variable {E : Type} {a : Analysis E} {known : Fact E → Prop} {made : List (HeapObject E)}

theorem Suspended.frames {c : Context E} {m : MethodId} {callers : List (CallSiteId × Frame)}
    (suspended : Suspended a.program known made c m callers) :
    ∀ frame ∈ callers.map (·.2), ∃ c, frame.Covered known made c := by
  induction suspended with
  | bottom => simp
  | @caller c _ _ _ frame _ _ _ covered _ ih =>
    rw [List.map_cons, List.forall_mem_cons]
    exact ⟨⟨c, covered⟩, ih⟩

theorem Machine.Covered.frames {M : Machine} (covered : M.Covered a known made) :
    ∀ frame ∈ M.stack, ∃ c, frame.Covered known made c := by
  obtain ⟨c, top, suspended⟩ := covered.stack
  exact List.forall_mem_cons.mpr ⟨⟨c, top⟩, suspended.frames⟩

/-- An abstract object and the object that it is made from stand in the same place. -/
theorem Machine.Covered.object {M : Machine} (covered : M.Covered a known made) {address : Nat}
    {o : HeapObject E} (there : made[address]? = some o) : ∃ object, M.objects[address]? = some object ∧
      a.heap object.site object.type object.method = .ok o.object :=
  exists_right_of_getElem? (List.Forall₂.flip (R := flip _) covered.objects) there

/-- Every active call is among the facts. -/
theorem Suspended.calls {c : Context E} {m : MethodId} {callers : List (CallSiteId × Frame)}
    (suspended : Suspended a.program known made c m callers) {caller callee : MethodId}
    {site : CallSiteId} (active : (caller, site, callee) ∈ activeCalls m callers) :
    a.program.Has caller (.call site) ∧ ∃ c c', known (.calls c site c' callee) := by
  induction suspended with
  | bottom => cases active
  | caller statement called _ _ ih =>
    rcases List.mem_cons.mp active with same | active
    · cases same
      exact ⟨statement, _, _, called⟩
    · exact ih active

/-- The results of an analysis account for a machine. -/
structure Machine.Accounted {S : Type} [Coded E] [IdSet S .contextObject] (M : Machine) (p : Program)
    (heap : HeapModel) (r : Solution E S) : Prop where
  /-- What a variable holds is among the objects reported for it. -/
  locals : ∀ frame ∈ M.stack, ∀ v address, frame.locals v = some address →
    ∃ object o ids, M.objects[address]? = some object ∧
      heap object.site object.type object.method = .ok o ∧
      r.objectsOfVar v = .ok ids ∧ ∃ id ∈ ids, r.state.canon.object id = .ok o
  /-- What a field of an object holds is recorded for the field of its abstract object. -/
  fields : ∀ address f held, M.fields address f = some held →
    ∃ base object o o', M.objects[address]? = some base ∧ M.objects[held]? = some object ∧
      heap base.site base.type base.method = .ok o ∧
      heap object.site object.type object.method = .ok o' ∧
      ∃ c c', r.state.Records (.holds (.field ⟨c, o⟩ f) ⟨c', o'⟩)
  /-- The merged call graph has the methods of all frames and the calls between them. -/
  calls : ∃ calls, r.mergedCalls = .ok calls ∧
    (∀ frame ∈ M.stack, frame.method ∈ calls.reached.toList) ∧
    ∀ caller site callee, (caller, site, callee) ∈ activeCalls M.top.method M.callers →
      ∃ call, p.callSite site = .ok call ∧ ⟨caller, site, callee, call.kind⟩ ∈ calls.edges.toList

end Execution

open Execution

section Described

variable {described : Described.Program} {p : Program} (loaded : described.link = .ok p)
  (kind : AnalysisKind) (depth : Nat) (heap : HeapKind) {S : Type} [IdSet S .contextObject]
  [LawfulIdSet S]
include loaded

/-- The results of a successful analysis account for every machine that an execution can come to. -/
theorem results_account_for_executions {r : Solution kind.Element S}
    (solved : (p.analysis kind depth heap).solve S = .ok r) {M : Machine} (reachable : Reachable p M) :
    M.Accounted p heap.model r := by
  have coherent := p.analysis_coherent loaded kind depth heap
  have grounded := Analysis.solve_grounded coherent solved
  have fixpoint := (Analysis.solve_closed coherent solved).fixpoint
  obtain ⟨made, covered⟩ := Reachable.covered fixpoint coherent.heap reachable
  obtain ⟨calls, merged, mem_reached, mem_edges⟩ := Solution.mergedCalls_spec grounded
  refine ⟨?_, ?_, calls, merged, ?_, ?_⟩
  · intro frame there v address held
    obtain ⟨c, frame⟩ := covered.frames frame there
    obtain ⟨o, there, holds⟩ := frame.locals held
    obtain ⟨object, found, taken⟩ := covered.object there
    obtain ⟨ids, reported, mem_ids⟩ := Solution.objectsOfVar_spec grounded v
    exact ⟨object, o.object, ids, found, taken, reported, (mem_ids _).mpr ⟨c, o.context, holds⟩⟩
  · intro address f held stored
    obtain ⟨o, o', there, there', holds⟩ := covered.fields stored
    obtain ⟨base, found, taken⟩ := covered.object there
    obtain ⟨object, found', taken'⟩ := covered.object there'
    exact ⟨base, object, o.object, o'.object, found, found', taken, taken', o.context, o'.context, holds⟩
  · intro frame there
    obtain ⟨c, frame⟩ := covered.frames frame there
    exact (mem_reached _).mpr ⟨c, frame.reached⟩
  · intro caller site callee active
    obtain ⟨c, _, suspended⟩ := covered.stack
    obtain ⟨statement, called⟩ := suspended.calls active
    obtain ⟨call, found, container⟩ := coherent.program.statements_scoped statement
    exact ⟨call, found, (mem_edges _).mpr ⟨called, call, found, container.symm, rfl⟩⟩

end Described

/-- An execution of the boxes that puts the first into the second. -/
theorem boxes_executed {p : Program} (loaded : boxes.link = .ok p) :
    ∃ M, Reachable p M ∧ M.stack.length = 2 ∧ M.fields 1 ⟨0⟩ = some 0 := by
  have evaluated : boxes.passes fun p => decide (⟨2⟩ ∈ p.entries ∧
      p.Has ⟨2⟩ (.alloc ⟨5⟩ ⟨0⟩ ⟨0⟩) ∧ p.Has ⟨2⟩ (.alloc ⟨6⟩ ⟨1⟩ ⟨1⟩) ∧ p.Has ⟨2⟩ (.call ⟨1⟩) ∧
      p.Has ⟨0⟩ (.store ⟨1⟩ ⟨0⟩ ⟨0⟩) ∧
      (p.callSite ⟨1⟩).toOption.map (fun call => (call.kind, call.target, call.receiver, call.args)) =
        some (.virtual, ⟨0⟩, some ⟨6⟩, [⟨5⟩]) ∧
      (p.method ⟨0⟩).toOption.map (fun method => (method.this, method.params)) =
        some (some ⟨1⟩, [⟨0⟩]) ∧
      p.resolveVirtual ⟨1⟩ ⟨0⟩ = .ok (some ⟨0⟩)) := by decide +kernel
  obtain ⟨_, loaded', evaluated⟩ := Described.Program.exists_of_passes evaluated
  cases loaded.symm.trans loaded'
  rw [decide_eq_true_eq] at evaluated
  obtain ⟨entry, first, second, statement, stores, called, declared, resolved⟩ := evaluated
  cases found : p.callSite ⟨1⟩ with
  | error id => simp [found, Except.toOption] at called
  | ok call =>
    cases known : p.method ⟨0⟩ with
    | error id => simp [known, Except.toOption] at declared
    | ok method =>
      simp only [found, known, Except.toOption, Option.map_some, Option.some.injEq,
        Prod.mk.injEq] at called declared
      obtain ⟨kind, target, receiver, args⟩ := called
      obtain ⟨this, params⟩ := declared
      have enters : p.EntersOn ⟨1⟩ ⟨1⟩ ⟨0⟩ := .virtual found kind (target ▸ resolved)
      have made := ((Reachable.entry entry).step (.alloc first)).step (.alloc second)
      obtain ⟨M, inside, frames, method, base, source⟩ : ∃ M, Reachable p M ∧ M.stack.length = 2 ∧
          M.top.method = ⟨0⟩ ∧ M.top.locals ⟨1⟩ = some 1 ∧ M.top.locals ⟨0⟩ = some 0 := by
        refine ⟨_, made.step (.receiverCall statement found receiver rfl rfl enters known
          (binds_lookup _)), rfl, rfl, ?_, ?_⟩
        all_goals
          simp only [Machine.enter, Machine.arguments, this, params, args]
          rfl
      refine ⟨_, inside.step (.store (method ▸ stores) base), frames, ?_⟩
      simp [Machine.setField, source]

theorem results_account_for_executions_boxes : ∃ p r M, boxes.link = .ok p ∧
    (p.analysis .objectSensitive 1 .perSite).solve (HybridSet .contextObject) = .ok r ∧
    Reachable p M ∧ M.stack.length = 2 ∧ M.fields 1 ⟨0⟩ = some 0 ∧
      M.Accounted p HeapKind.perSite.model r := by
  obtain ⟨p, r, loaded, solved⟩ := boxes_solved
  obtain ⟨M, reachable, frames, stored⟩ := boxes_executed loaded
  exact ⟨p, r, M, loaded, solved, reachable, frames, stored,
    results_account_for_executions loaded .objectSensitive 1 .perSite solved reachable⟩

end PointerAnalysis
