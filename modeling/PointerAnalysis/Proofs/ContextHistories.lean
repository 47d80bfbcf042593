import PointerAnalysis.Proofs.Solver.Origins
import PointerAnalysis.Proofs.ReachableGraph

/-! What contexts mean. Under call sites the context of a method is the end of a path of calls that leads
to it from an entry, cut off at the depth. Under objects it is a chain of receivers: each of them is
made by a method that runs on the next. -/
namespace PointerAnalysis

namespace Context

variable {E : Type} {k : Nat}

/-- What has been cut off once is not missed when more is put in front. -/
theorem push_take (e : E) (c : Context E) : push k e (c.take k) = (e :: c).take k := by
  cases k with
  | zero => rfl
  | succ k =>
    rw [push, List.take_succ_cons, List.take_succ_cons, List.take_take, Nat.min_eq_left (Nat.le_succ k)]

/-- Neighbours in a context that something has been put in front of are neighbours in the old one, or
the new element and the first of the old ones. -/
theorem infix_push {e o o' : E} {c : Context E} (near : [o, o'] <:+: c.push k e) :
    [o, o'] <:+: c ∨ (o = e ∧ ∃ rest, c = o' :: rest) := by
  have near := near.trans (List.take_prefix k (e :: c)).isInfix
  rcases List.infix_cons_iff.mp near with front | later
  · obtain ⟨same, rest, front⟩ := List.cons_prefix_cons.mp front
    exact .inr ⟨same, rest, front.symm⟩
  · exact .inl later

end Context

/-- No way of choosing contexts lets them grow beyond the depth. -/
theorem AnalysisKind.length_chosen_le (kind : AnalysisKind) (depth : Nat) {c : Context kind.Element}
    (short : c.length ≤ depth) :
    ((kind.policy depth).heap c).length ≤ depth - 1 ∧
    (∀ site, ((kind.policy depth).call c site).length ≤ depth) ∧
    ∀ site c' o, ((kind.policy depth).receiverCall c site c' o).length ≤ depth := by
  cases kind with
  | insensitive => exact ⟨Nat.zero_le _, fun _ => Nat.zero_le _, fun _ _ _ => Nat.zero_le _⟩
  | callSiteSensitive =>
    exact ⟨List.length_take_le _ _, fun _ => Context.length_push_le _ _ _,
      fun _ _ _ => Context.length_push_le _ _ _⟩
  | objectSensitive =>
    exact ⟨List.length_take_le _ _, fun _ => short, fun _ _ _ => Context.length_push_le _ _ _⟩

namespace Solver.State

/-! ### What is to be shown -/

section Meaning

variable {E S : Type} [Coded E]

/-- A path of call edges from an entry to a method, with the call sites along it, the latest first. -/
inductive CallPath (s : State E S) : List CallSiteId → ContextMethodId → Prop where
  | entry {id : ContextMethodId} : id ∈ s.calls.entries.toList → CallPath s [] id
  | call {sites : List CallSiteId} {e : ContextCallEdge} {entry : ContextCallSite} :
      CallPath s sites e.caller → e ∈ s.calls.edges.toList → s.canon.callSite e.site = .ok entry →
      CallPath s (entry.site :: sites) e.callee

/-- Contexts are call strings: those of methods are what is left of the paths that lead to them. -/
structure CallStrings (depth : Nat) (s : State CallSiteId S) : Prop where
  /-- A call puts its site in front of the context of the caller. -/
  pushed : ∀ e ∈ s.calls.edges.toList, ∃ context site caller callee,
    s.canon.CallsAt e.site context site ∧ s.canon.Enters e.caller context caller ∧
    s.canon.Enters e.callee (context.push depth site) callee
  path : ∀ {sites id}, s.CallPath sites id → ∃ m, s.canon.Enters id (sites.take depth) m
  reached : ∀ id ∈ s.calls.reached.toList, ∃ sites, s.CallPath sites id

variable [IdSet S .contextObject]

/-- Contexts are chains of receivers. -/
structure ReceiverChains (a : Analysis AbstractObject) (depth : Nat) (s : State AbstractObject S) :
    Prop where
  /-- A call without receiver keeps the context of the caller, a call with one puts an object that the
  receiver holds in front of the context of this object. -/
  chosen : ∀ e ∈ s.calls.edges.toList, ∃ context site call calleeContext callee,
    s.canon.CallsAt e.site context site ∧ a.program.callSite site = .ok call ∧
    s.canon.Enters e.caller context call.container ∧ s.canon.Enters e.callee calleeContext callee ∧
    (call.receiver = none → calleeContext = context) ∧
    ∀ x, call.receiver = some x → ∃ o, s.Records (.holds (.var context x) o) ∧
      calleeContext = o.context.push depth o.object
  /-- An object is made on the one that follows it. -/
  chained : ∀ {id context m}, s.canon.Enters id context m → ∀ {o o'}, [o, o'] <:+: context →
    ∃ maker rest, a.Allocates maker o ∧ s.Records (.reached (o' :: rest) maker)

/-- Contexts are limited by the depth, and that of an object is the beginning of one in which a method
that allocates it is reachable. -/
structure Limited (a : Analysis E) (depth : Nat) (s : State E S) : Prop where
  methods : ∀ {id context m}, s.canon.Enters id context m → context.length ≤ depth
  objects : ∀ {id o}, s.canon.Names id o → o.context.length ≤ depth - 1
  makers : ∀ {id o}, s.canon.Names id o → ∃ m context, s.Records (.reached context m) ∧
    a.Allocates m o.object ∧ o.context = context.truncate (depth - 1)

end Meaning

/-! ### Contexts that are chosen -/

variable {p : Program} {kind : AnalysisKind} {depth : Nat} {heap : HeapKind} {S : Type}

theorem Chooses.length_le {s : State kind.Element S} {context : Context kind.Element}
    (chooses : Chooses (p.analysis kind depth heap) s context) : context.length ≤ depth := by
  induction chooses with
  | empty => exact Nat.zero_le depth
  | heap _ ih => exact Nat.le_trans (kind.length_chosen_le depth ih).1 (Nat.sub_le depth 1)
  | call _ _ ih => exact (kind.length_chosen_le depth ih).2.1 _
  | receiverCall _ _ _ _ ih => exact (kind.length_chosen_le depth ih).2.2 _ _ _

variable [IdSet S .contextObject]

/-- Two receivers are neighbours from the time that the first is pushed on the context that it was made
in. -/
theorem Chooses.chained {s : State AbstractObject S} {context : Context AbstractObject}
    (chooses : Chooses (p.analysis .objectSensitive depth heap) s context) {o o' : AbstractObject}
    (near : [o, o'] <:+: context) :
    ∃ maker rest, (p.analysis .objectSensitive depth heap).Allocates maker o ∧
      s.Records (.reached (o' :: rest) maker) := by
  induction chooses with
  | empty => simp at near
  | heap _ ih => exact ih (near.trans (List.take_prefix _ _).isInfix)
  | call _ _ ih => exact ih near
  | receiverCall _ _ makes _ _ ih =>
    rcases Context.infix_push near with older | ⟨rfl, rest, first⟩
    · exact ih older
    -- The rest is what is left of the context in which the first one was made.
    · obtain ⟨maker, context, recorded, allocates, chosen⟩ := makes.records
      have cut : context.take (depth - 1) = o' :: rest := chosen.symm.trans first
      obtain ⟨later, whole⟩ := List.take_prefix (depth - 1) context
      rw [cut, List.cons_append] at whole
      exact ⟨maker, rest ++ later, allocates, whole ▸ recorded⟩

end Solver.State

/-! ### Runs -/

namespace Solver.State.Reachable

variable {p : Program} (coherent : p.Coherent) {depth : Nat} {heap : HeapKind} {S : Type}
  [IdSet S .contextObject] [LawfulIdSet S]

theorem limited {kind : AnalysisKind} {s : State kind.Element S}
    (policy : ∀ context, (kind.policy depth).heap context = context.truncate (depth - 1))
    (reachable : s.Reachable (p.analysis kind depth heap)) :
    s.Limited (p.analysis kind depth heap) depth := by
  have traced := reachable.traced
  refine ⟨fun {id context m} entered => ?_, fun {id o} named => ?_, fun {id o} named => ?_⟩
  · obtain ⟨entry, _, named, _⟩ := entered
    exact (traced.chooses named).length_le
  · obtain ⟨m, context, _, _, chosen⟩ := (traced.makes named).records
    rw [chosen.trans (policy context)]
    exact List.length_take_le _ _
  · obtain ⟨m, context, recorded, allocates, chosen⟩ := (traced.makes named).records
    exact ⟨m, context, recorded, allocates, chosen.trans (policy context)⟩

include coherent

theorem callStrings {s : State CallSiteId S}
    (reachable : s.Reachable (p.analysis .callSiteSensitive depth heap)) : s.CallStrings depth := by
  have calls := reachable.callsReachable (coherent.analysis .callSiteSensitive depth heap)
  have pushed : ∀ e ∈ s.calls.edges.toList, ∃ context site caller callee,
      s.canon.CallsAt e.site context site ∧ s.canon.Enters e.caller context caller ∧
      s.canon.Enters e.callee (context.push depth site) callee := by
    intro e there
    obtain ⟨context, site, call, calleeContext, callee, placed, _, within, entered, selects⟩ :=
      (reachable.traced.issues (.inl there)).selects coherent
    cases selects with
    | alone => exact ⟨context, site, call.container, callee, placed, within, entered⟩
    | onObject => exact ⟨context, site, call.container, callee, placed, within, entered⟩
  refine ⟨pushed, fun path => ?_, fun id there => ?_⟩
  -- Along a path each caller is known from the path before it, and a number has one context.
  · induction path with
    | entry listed =>
      obtain ⟨m, _, entered⟩ := (calls.entry_iff _).mp listed
      refine ⟨m, ?_⟩
      rw [List.take_nil]
      exact entered
    | @call sites e entry _ there found ih =>
      obtain ⟨m, within⟩ := ih
      obtain ⟨context, site, caller, callee, ⟨entry', found', _, same⟩, within', entered⟩ :=
        pushed e there
      cases found.symm.trans found'
      obtain ⟨rfl, _⟩ := within.unique within'
      rw [Context.push_take, ← same] at entered
      exact ⟨callee, entered⟩
  · obtain ⟨entry, listed, path⟩ := (calls.reached_iff id).mp there
    clear there
    induction path with
    | refl => exact ⟨[], .entry listed⟩
    | tail _ last ih =>
      obtain ⟨e, there, rfl, rfl⟩ := last
      obtain ⟨sites, path⟩ := ih
      obtain ⟨_, _, _, _, ⟨entry', found, _⟩, _⟩ := pushed e there
      exact ⟨_, path.call there found⟩

theorem receiverChains {s : State AbstractObject S}
    (reachable : s.Reachable (p.analysis .objectSensitive depth heap)) :
    s.ReceiverChains (p.analysis .objectSensitive depth heap) depth := by
  have traced := reachable.traced
  refine ⟨fun e there => ?_, fun {id context m} entered o o' near => ?_⟩
  · obtain ⟨context, site, call, calleeContext, callee, placed, found, within, entered, selects⟩ :=
      (traced.issues (.inl there)).selects coherent
    refine ⟨context, site, call, calleeContext, callee, placed, found, within, entered, ?_⟩
    cases selects with
    | alone alone => exact ⟨fun _ => rfl, fun x receiver => by simp [alone] at receiver⟩
    | @onObject x o receiver holds =>
      refine ⟨fun alone => by simp [receiver] at alone, fun x' receiver' => ?_⟩
      cases receiver.symm.trans receiver'
      exact ⟨o, holds, rfl⟩
  · obtain ⟨entry, _, named, _⟩ := entered
    exact (traced.chooses named).chained near

end Solver.State.Reachable

section Described

variable {described : Described.Program} {p : Program} (loaded : described.link = .ok p)
  (depth : Nat) (heap : HeapKind) {S : Type} [IdSet S .contextObject] [LawfulIdSet S]
include loaded

/-- In every state of a run, contexts of call sites are the last calls on the paths that lead to the
methods under them, and contexts of objects are chains in which each object is made on the next. -/
theorem contexts_are_histories :
    (∀ s : Solver.State AnalysisKind.callSiteSensitive.Element S,
      s.Reachable (p.analysis .callSiteSensitive depth heap) →
        Solver.State.CallStrings depth s ∧
          s.Limited (p.analysis .callSiteSensitive depth heap) depth) ∧
    ∀ s : Solver.State AnalysisKind.objectSensitive.Element S,
      s.Reachable (p.analysis .objectSensitive depth heap) →
        Solver.State.ReceiverChains (p.analysis .objectSensitive depth heap) depth s ∧
          s.Limited (p.analysis .objectSensitive depth heap) depth := by
  have coherent := Described.Program.link_coherent loaded
  constructor
  · intro s reachable
    exact ⟨Solver.State.Reachable.callStrings coherent reachable, reachable.limited fun _ => rfl⟩
  · intro s reachable
    exact ⟨Solver.State.Reachable.receiverChains coherent reachable, reachable.limited fun _ => rfl⟩

end Described

/-- A method that makes an object of its own class and calls itself on it. -/
def growth : Described.Program where
  types := [
    { name := "Node", super := none, methods := [
        { name := "grow", isStatic := false, isAbstract := false, params := []
          body := [.new "n" "Node", .call .virtual "Node.grow" (some "n") [] none] }] },
    { name := "Main", super := none, methods := [
        { name := "main", isStatic := true, isAbstract := false, params := []
          body := [.new "n" "Node", .call .virtual "Node.grow" (some "n") [] none] }] }]
  entries := ["Main.main"]

/-- Paths of calls that are longer than the depth, and chains of as many receivers. -/
theorem contexts_are_histories_growth : ∃ p r r', growth.link = .ok p ∧
    (p.analysis .callSiteSensitive 2 .perSite).solve (HybridSet .contextObject) = .ok r ∧
    (p.analysis .objectSensitive 2 .perSite).solve (HybridSet .contextObject) = .ok r' ∧
    Solver.State.CallStrings 2 r.state ∧
    r.state.Limited (p.analysis .callSiteSensitive 2 .perSite) 2 ∧
    Solver.State.ReceiverChains (p.analysis .objectSensitive 2 .perSite) 2 r'.state ∧
    r'.state.Limited (p.analysis .objectSensitive 2 .perSite) 2 := by
  obtain ⟨p, r, loaded, solved⟩ : ∃ p r, growth.link = .ok p ∧
      (p.analysis .callSiteSensitive 2 .perSite).solve (HybridSet .contextObject) = .ok r :=
    Described.Program.solved (by decide +kernel)
  obtain ⟨p', r', loaded', solved'⟩ : ∃ p r, growth.link = .ok p ∧
      (p.analysis .objectSensitive 2 .perSite).solve (HybridSet .contextObject) = .ok r :=
    Described.Program.solved (by decide +kernel)
  cases loaded.symm.trans loaded'
  have coherent := p.analysis_coherent loaded
  obtain ⟨_, reachable, _⟩ := Analysis.solve_reachable (coherent .callSiteSensitive 2 .perSite) solved
  obtain ⟨_, reachable', _⟩ := Analysis.solve_reachable (coherent .objectSensitive 2 .perSite) solved'
  obtain ⟨sites, objects⟩ :=
    contexts_are_histories (S := HybridSet .contextObject) loaded 2 .perSite
  exact ⟨p, r, r', loaded, solved, solved', (sites _ reachable).1, (sites _ reachable).2,
    (objects _ reachable').1, (objects _ reachable').2⟩

end PointerAnalysis
