import Mathlib.Logic.Equiv.Defs
import PointerAnalysis.Proofs.Description.Resolution

/-! Programs that differ in their numbers only. Variables, fields and sites are numbered in the order
in which they are first met; a renaming takes these numbers to others one to one, and leaves classes
and methods alone. -/
namespace PointerAnalysis

/-- New numbers for the variables, the fields and the sites of a program. -/
structure Renaming where
  var : Equiv.Perm VarId
  field : Equiv.Perm FieldId
  callSite : Equiv.Perm CallSiteId
  allocSite : Equiv.Perm AllocSiteId

namespace Renaming

def refl : Renaming := ⟨.refl _, .refl _, .refl _, .refl _⟩

def symm (names : Renaming) : Renaming :=
  ⟨names.var.symm, names.field.symm, names.callSite.symm, names.allocSite.symm⟩

def statement (names : Renaming) : Statement → Statement
  | .alloc target site type => .alloc (names.var target) (names.allocSite site) type
  | .assign target source => .assign (names.var target) (names.var source)
  | .load target base field => .load (names.var target) (names.var base) (names.field field)
  | .store base field source => .store (names.var base) (names.field field) (names.var source)
  | .call site => .call (names.callSite site)

def call (names : Renaming) (call : CallSite) : CallSite :=
  { call with
    receiver := call.receiver.map names.var
    args := call.args.map names.var
    result := call.result.map names.var }

/-- An abstract object, under a new number for its site. -/
def object (names : Renaming) (o : AbstractObject) : AbstractObject :=
  { o with site := o.site.map names.allocSite }

@[simp] theorem symm_symm (names : Renaming) : names.symm.symm = names := rfl

@[simp] theorem symm_object (names : Renaming) (o : AbstractObject) :
    names.symm.object (names.object o) = o := by
  obtain ⟨site, type, container⟩ := o
  cases site <;> simp [object, symm]

@[simp] theorem refl_object (o : AbstractObject) : refl.object o = o := by
  obtain ⟨site, type, container⟩ := o
  cases site <;> rfl

@[simp] theorem refl_statement (s : Statement) : refl.statement s = s := by
  cases s <;> rfl

@[simp] theorem refl_call (call : CallSite) : refl.call call = call := by
  obtain ⟨container, kind, target, receiver, args, result⟩ := call
  cases receiver <;> cases result <;> simp [Renaming.call, refl]

theorem receiver_call {names : Renaming} {call : CallSite} {x : VarId}
    (receiver : call.receiver = some x) : (names.call call).receiver = some (names.var x) :=
  Option.map_eq_some_iff.mpr ⟨x, receiver, rfl⟩

theorem receiver_call_none {names : Renaming} {call : CallSite} (alone : call.receiver = none) :
    (names.call call).receiver = none := Option.map_eq_none_iff.mpr alone

/-- A method says the same as another under new numbers, but for its statements. -/
structure Restates (names : Renaming) (m m' : Method) : Prop where
  name : m'.name = m.name
  owner : m'.owner = m.owner
  isStatic : m'.isStatic = m.isStatic
  isAbstract : m'.isAbstract = m.isAbstract
  params : m'.params = m.params.map names.var
  this : m'.this = m.this.map names.var
  returns : ∀ v ∈ m.returns, names.var v ∈ m'.returns

theorem Restates.signature {names : Renaming} {m m' : Method} (same : names.Restates m m') :
    m'.signature = m.signature := by
  rw [Method.signature, Method.signature, same.name, same.params, List.length_map]

/-- All that the first program declares the second one declares under the new numbers. The order of
statements, entries and returned variables does not matter. -/
structure Carries (names : Renaming) (p p' : Program) : Prop where
  types : p'.types = p.types
  entries : ∀ {m}, m ∈ p.entries → m ∈ p'.entries
  methods : ∀ {m method}, p.method m = .ok method →
    ∃ method', p'.method m = .ok method' ∧ names.Restates method method'
  vars : ∀ {v var}, p.var v = .ok var → ∃ var', p'.var (names.var v) = .ok var' ∧
    var'.name = var.name ∧ var'.method = var.method
  fields : ∀ {f name}, p.field f = .ok name → p'.field (names.field f) = .ok name
  has : ∀ {m s}, p.Has m s → p'.Has m (names.statement s)
  calls : ∀ {site call}, p.callSite site = .ok call →
    p'.callSite (names.callSite site) = .ok (names.call call)

/-- Two programs are the same but for the numbers of variables, fields and sites. -/
structure Exchanges (names : Renaming) (p p' : Program) : Prop where
  forth : names.Carries p p'
  back : names.symm.Carries p' p

theorem carries_refl (p : Program) : refl.Carries p p where
  types := rfl
  entries := id
  methods found := ⟨_, found, rfl, rfl, rfl, rfl, by simp [refl], by simp [refl], fun _ listed => listed⟩
  vars found := ⟨_, found, rfl, rfl⟩
  fields found := found
  has there := by rwa [refl_statement]
  calls found := by
    rw [refl_call]
    exact found

theorem exchanges_refl (p : Program) : refl.Exchanges p p := ⟨carries_refl p, carries_refl p⟩

theorem Exchanges.symm {names : Renaming} {p p' : Program} (exchanges : names.Exchanges p p') :
    names.symm.Exchanges p' p := ⟨exchanges.back, exchanges.forth⟩

end Renaming

/-- A search that succeeds has the same answer where the classes are the same and every visit that
succeeds has its answer. -/
theorem Program.searchChain_carried {α : Type} {p p' : Program} (types : p'.types = p.types)
    {visit visit' : TypeDecl → Except UnknownId (Option α)}
    (visits : ∀ type answer, visit type = .ok answer → visit' type = .ok answer) (steps : Nat)
    {current : Option TypeId} {answer : Option α}
    (searched : p.searchChain visit steps current = .ok answer) :
    p'.searchChain visit' steps current = .ok answer := by
  induction steps generalizing current with
  | zero => cases current <;> exact searched
  | succ steps ih =>
    cases current with
    | none => exact searched
    | some t =>
      obtain ⟨type, found, searched⟩ := bind_eq_ok_iff.mp searched
      obtain ⟨visited, here, searched⟩ := bind_eq_ok_iff.mp searched
      have found' : p'.type t = .ok type := by
        rw [Program.type, types]
        exact found
      simp only [searchChain, found', visits _ _ here, ok_bind]
      cases visited with
      | none => exact ih searched
      | some found => exact searched

namespace Renaming.Carries

variable {names : Renaming} {p p' : Program} (carries : names.Carries p p')
include carries

theorem typeName {t : TypeId} {name : String} (named : p.typeName t = .ok name) :
    p'.typeName t = .ok name := by
  unfold Program.typeName Program.type at named ⊢
  rwa [carries.types]

theorem dispatch {t : TypeId} {s : Signature} {answer : Option MethodId}
    (dispatched : p.dispatch t s = .ok answer) : p'.dispatch t s = .ok answer := by
  unfold Program.dispatch at dispatched ⊢
  rw [carries.types]
  refine Program.searchChain_carried carries.types (fun type answer visited => ?_) _ dispatched
  cases declared : type.declares? s with
  | none => simpa [declared] using visited
  | some id =>
    simp only [declared] at visited
    obtain ⟨method, found, visited⟩ := bind_eq_ok_iff.mp visited
    obtain ⟨method', found', same⟩ := carries.methods found
    simp only [found', ok_bind, same.isAbstract]
    exact visited

theorem resolveVirtual {t : TypeId} {target : MethodId} {answer : Option MethodId}
    (resolved : p.resolveVirtual t target = .ok answer) :
    p'.resolveVirtual t target = .ok answer := by
  obtain ⟨named, found, dispatched⟩ := bind_eq_ok_iff.mp resolved
  obtain ⟨named', found', same⟩ := carries.methods found
  refine bind_eq_ok_iff.mpr ⟨named', found', ?_⟩
  rw [same.signature]
  exact carries.dispatch dispatched

theorem resolveSpecial {site : CallSiteId} {answer : Option MethodId}
    (resolved : p.resolveSpecial site = .ok answer) :
    p'.resolveSpecial (names.callSite site) = .ok answer := by
  obtain ⟨call, found, resolved⟩ := bind_eq_ok_iff.mp resolved
  obtain ⟨named, declared, dispatched⟩ := bind_eq_ok_iff.mp resolved
  obtain ⟨named', declared', same⟩ := carries.methods declared
  refine bind_eq_ok_iff.mpr ⟨_, carries.calls found, bind_eq_ok_iff.mpr ⟨named', declared', ?_⟩⟩
  rw [same.signature, same.owner]
  exact carries.dispatch dispatched

theorem entersAlone {site : CallSiteId} {m : MethodId} (enters : p.EntersAlone site m) :
    p'.EntersAlone (names.callSite site) m := by
  cases enters with
  | @static call found alone kind =>
    have enters' : p'.EntersAlone (names.callSite site) (names.call call).target :=
      .static (carries.calls found) (receiver_call_none alone) kind
    exact enters'
  | special found alone kind resolved =>
    exact .special (carries.calls found) (receiver_call_none alone) kind
      (carries.resolveSpecial resolved)

theorem entersOn {site : CallSiteId} {t : TypeId} {m : MethodId} (enters : p.EntersOn site t m) :
    p'.EntersOn (names.callSite site) t m := by
  cases enters with
  | virtual found kind resolved =>
    exact .virtual (carries.calls found) kind (carries.resolveVirtual resolved)
  | special found kind resolved =>
    exact .special (carries.calls found) kind (carries.resolveSpecial resolved)

end Renaming.Carries

end PointerAnalysis
