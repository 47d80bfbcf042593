import PointerAnalysis.Proofs.LeastSolution
import PointerAnalysis.Proofs.Program.Histories

/-! The indices beside the statements of a program. However commands follow one another, variables list
the accesses and calls that go through them just as these were added, each numbered site is that of one
statement, and tables and methods are what was declared. In loaded programs no statement reaches for a
variable of another method. -/
namespace PointerAnalysis

namespace Program

variable (p : Program)

/-- A statement stands at a place of a method. -/
def Stands (m : MethodId) (place : Nat) (s : Statement) : Prop :=
  ∃ method, p.method m = .ok method ∧ method.body[place]? = some s

/-- Each call site and each allocation site is that of one statement, which stands at one place; that of a
call stands in the container of its site. -/
structure SitesOnce : Prop where
  call_stands : ∀ {id call}, p.callSite id = .ok call → ∃ place, p.Stands call.container place (.call id)
  call_known : ∀ {id m place}, p.Stands m place (.call id) → ∃ call, p.callSite id = .ok call ∧
    call.container = m
  call_once : ∀ {id m m' place place'}, p.Stands m place (.call id) → p.Stands m' place' (.call id) →
    m = m' ∧ place = place'
  alloc_stands : ∀ site : AllocSiteId, site.index < p.allocSites ↔
    ∃ m place target type, p.Stands m place (.alloc target site type)
  alloc_once : ∀ {site m m' place place' target target' type type'},
    p.Stands m place (.alloc target site type) → p.Stands m' place' (.alloc target' site type') →
    m = m' ∧ place = place'

/-- A statement reads or writes a variable. -/
def Touches (v : VarId) : Statement → Prop
  | .alloc target _ _ => v = target
  | .assign target source => v = target ∨ v = source
  | .load target base _ => v = target ∨ v = base
  | .store base _ source => v = base ∨ v = source
  | .call site => ∃ call, p.callSite site = .ok call ∧
    (call.receiver = some v ∨ v ∈ call.args ∨ call.result = some v)

variable {p} {edits : List Edit}

/-! ### Places -/

namespace BuiltBy

variable (built : p.BuiltBy edits) {m m' : MethodId} {place place' : Nat} {s s' : Statement}
include built

theorem stands_iff : p.Stands m place s ↔ ((Edit.history edits).within m)[place]? = some s := by
  rw [← built.bodies]
  unfold Stands Id.listed
  simp only [Program.method, Id.lookup_eq_ok_iff]
  cases p.methods[m.index]? <;> simp

/-- A statement that was added to a method stands somewhere in it. -/
theorem exists_stands (added : (m, s) ∈ Edit.history edits) : ∃ place, p.Stands m place s := by
  simp only [built.stands_iff]
  refine List.mem_iff_getElem?.mp (List.mem_filterMap.mpr ⟨_, added, ?_⟩)
  simp

theorem added_of_stands (stands : p.Stands m place s) : (m, s) ∈ Edit.history edits := by
  have within := List.mem_of_getElem? (built.stands_iff.mp stands)
  obtain ⟨⟨m', s'⟩, added, here⟩ := List.mem_filterMap.mp within
  split at here
  · next same =>
    cases same
    cases here
    exact added
  · cases here

/-- Statements with the same number stand at the same place, where no number is given twice. -/
theorem place_unique {β : Type} (key : Statement → Option β) {k : β}
    (once : ((Edit.history edits).filterMap (key ·.2)).Nodup) (first : p.Stands m place s)
    (second : p.Stands m' place' s') (here : key s = some k) (there : key s' = some k) :
    m = m' ∧ place = place' := by
  have same := eq_of_nodup_filterMap once (built.added_of_stands first) (built.added_of_stands second) here
    there
  cases same
  refine ⟨rfl, ?_⟩
  -- The statements of one method are a part of the history, so their numbers are apart as well.
  have part : ((Edit.history edits).within m).Pairwise fun s s' =>
      ∀ k, key s = some k → ∀ k', key s' = some k' → k ≠ k' := by
    refine (List.pairwise_filterMap.mp once).filterMap _ fun x y apart s hs s' hs' => ?_
    split at hs
    · split at hs'
      · cases hs
        cases hs'
        exact apart
      · cases hs'
    · cases hs
  obtain ⟨inside, first⟩ := List.getElem?_eq_some_iff.mp (built.stands_iff.mp first)
  obtain ⟨inside', second⟩ := List.getElem?_eq_some_iff.mp (built.stands_iff.mp second)
  rw [List.pairwise_iff_getElem] at part
  rcases Nat.lt_trichotomy place place' with before | same | after
  · exact absurd rfl (part _ _ inside inside' before k (first ▸ here) k (second ▸ there))
  · exact same
  · exact absurd rfl (part _ _ inside' inside after k (second ▸ there) k (first ▸ here))

theorem sitesOnce : p.SitesOnce where
  call_stands {id call} found := by
    have numbered : id ∈ (Edit.history edits).calls := by
      rw [built.call_numbers, Id.mem_below]
      exact Id.index_lt_of_lookup found
    obtain ⟨⟨m, s⟩, added, key⟩ := List.mem_filterMap.mp numbered
    cases s with
    | call id' =>
      cases key
      obtain ⟨call', found', rfl⟩ := built.containers added
      cases found.symm.trans found'
      exact built.exists_stands added
    | _ => cases key
  call_known stands := built.containers (built.added_of_stands stands)
  call_once first second := by
    have once : (Edit.history edits).calls.Nodup := built.call_numbers ▸ Id.nodup_below ..
    exact built.place_unique Statement.callSite? once first second rfl rfl
  alloc_stands site := by
    rw [← Id.mem_below, ← built.alloc_numbers]
    constructor
    · intro numbered
      obtain ⟨⟨m, s⟩, added, key⟩ := List.mem_filterMap.mp numbered
      cases s with
      | alloc target site' type =>
        cases key
        obtain ⟨place, stands⟩ := built.exists_stands added
        exact ⟨m, place, target, type, stands⟩
      | _ => cases key
    · rintro ⟨m, place, target, type, stands⟩
      exact List.mem_filterMap.mpr ⟨_, built.added_of_stands stands, rfl⟩
  alloc_once first second := by
    have once : (Edit.history edits).allocs.Nodup := built.alloc_numbers ▸ Id.nodup_below ..
    exact built.place_unique Statement.allocSite? once first second rfl rfl

/-- Just the methods that are not static have a `this`. -/
theorem this_iff {method : Method} (found : p.method m = .ok method) :
    method.this.isSome ↔ method.isStatic = false := by
  have there : method.declaration ∈ edits.filterMap Edit.declaration? := by
    rw [← built.declarations]
    refine List.mem_map_of_mem (List.mem_of_getElem? (i := m.index) ?_)
    rw [Array.getElem?_toList]
    exact Id.lookup_eq_ok_iff.mp found
  obtain ⟨e, _, declares⟩ := List.mem_filterMap.mp there
  cases e with
  | addMethod owner name params form =>
    have static : decide (form = .static) = method.isStatic :=
      congrArg Declaration.isStatic (Option.some.inj declares)
    have this : decide (form ≠ .static) = method.this.isSome :=
      congrArg Declaration.hasThis (Option.some.inj declares)
    rw [← static, ← this]
    simp
  | _ => cases declares

end BuiltBy

/-! ### Loaded programs -/

/-- A statement of a coherent program uses variables of its own method only. -/
theorem Coherent.owns_of_touches (coherent : p.Coherent) {m : MethodId} {s : Statement} {v : VarId}
    (has : p.Has m s) (touches : p.Touches v s) : p.Owns m v := by
  have inside := coherent.statements_scoped has
  cases s with
  | alloc => exact touches ▸ inside.1
  | assign =>
    rcases touches with rfl | rfl
    · exact inside.1
    · exact inside.2
  | load =>
    rcases touches with rfl | rfl
    · exact inside.1
    · exact inside.2.1
  | store =>
    rcases touches with rfl | rfl
    · exact inside.1
    · exact inside.2.1
  | call site =>
    obtain ⟨call, found, rfl⟩ := inside
    obtain ⟨call', found', touched⟩ := touches
    cases found.symm.trans found'
    have call_coherent := coherent.calls found
    rcases touched with receiver | arg | result
    · exact call_coherent.receiver_owned receiver
    · exact call_coherent.args_owned v arg
    · exact call_coherent.result_owned result

end Program

/-- What commands have built lists beside its statements just what was added, and what a description
stands for keeps its statements to the variables of their methods. -/
theorem indices_mirror_statements :
    (∀ (edits : List Edit) (b : Builder), Edit.run .empty edits = .ok b →
      b.program.BuiltBy edits ∧ b.program.SitesOnce ∧
        ∀ m method, b.program.method m = .ok method → (method.this.isSome ↔ method.isStatic = false)) ∧
    ∀ (d : Described.Program) (p : Program), d.link = .ok p → ∀ m s v, p.Has m s → p.Touches v s →
      p.Owns m v := by
  refine ⟨fun edits b ran => ?_, fun d p loaded m s v has touches => ?_⟩
  · have built := Edit.builtBy_run ran
    exact ⟨built, built.sitesOnce, fun _ _ found => built.this_iff found⟩
  · exact (Described.Program.link_coherent loaded).owns_of_touches has touches

/-- A method is declared twice, and the second one stores the same twice and calls itself. -/
def relinked : List Edit := [
  .addType "Cell" none, .nameField "next", .addMethod ⟨0⟩ "link" ["x"] .onReceiver,
  .addMethod ⟨0⟩ "link" ["x"] .onReceiver, .alloc ⟨1⟩ ⟨2⟩ ⟨0⟩, .store ⟨1⟩ ⟨3⟩ ⟨0⟩ ⟨2⟩,
  .call ⟨⟨1⟩, .virtual, ⟨0⟩, some ⟨3⟩, [⟨2⟩], none⟩, .store ⟨1⟩ ⟨3⟩ ⟨0⟩ ⟨2⟩]

theorem indices_mirror_statements_relinked : (∃ b, Edit.run .empty relinked = .ok b ∧
      b.program.BuiltBy relinked ∧ b.program.SitesOnce ∧
      (⟨3⟩ : VarId).listed b.program.vars Variable.stores = [(⟨0⟩, ⟨2⟩), (⟨0⟩, ⟨2⟩)]) ∧
    ∃ p, boxes.link = .ok p ∧ ∀ m s v, p.Has m s → p.Touches v s → p.Owns m v := by
  constructor
  · have ran : (Edit.run .empty relinked).toOption.isSome = true := by decide +kernel
    obtain ⟨b, ran⟩ : ∃ b, Edit.run .empty relinked = .ok b := by
      cases result : Edit.run .empty relinked with
      | error e => simp [result, Except.toOption] at ran
      | ok b => exact ⟨b, rfl⟩
    obtain ⟨built, once, _⟩ := indices_mirror_statements.1 relinked b ran
    exact ⟨b, ran, built, once, by rw [built.stores]; decide⟩
  · obtain ⟨p, _, loaded, _⟩ := boxes_solved
    exact ⟨p, loaded, indices_mirror_statements.2 boxes p loaded⟩

end PointerAnalysis
