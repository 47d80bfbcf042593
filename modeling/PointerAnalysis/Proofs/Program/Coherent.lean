import PointerAnalysis.Program.Resolution
import PointerAnalysis.Proofs.Except
import PointerAnalysis.Rules.Basic

/-! Coherent programs: whatever is referred to is declared, variables are used in their own method
only, and what is entered under a variable mirrors the statements that go through it. Looking for
a method in a coherent program never meets an unknown id and finds only what was asked for. -/
namespace PointerAnalysis.Program

instance (p : Program) (m : MethodId) (s : Statement) : Decidable (p.Has m s) :=
  match found : p.method m with
  | .ok method => decidable_of_iff (s ∈ method.body.toList) (by simp [Has, found])
  | .error _ => isFalse (by simp [Has, found])

/-- A variable belongs to a method. -/
def Owns (p : Program) (m : MethodId) (v : VarId) : Prop :=
  ∃ var, p.var v = .ok var ∧ var.method = m

/-- A variable belongs to one method. -/
theorem Owns.unique {p : Program} {m m' : MethodId} {v : VarId} (owns : p.Owns m v)
    (owns' : p.Owns m' v) : m = m' := by
  obtain ⟨var, found, rfl⟩ := owns
  obtain ⟨var', found', rfl⟩ := owns'
  cases found.symm.trans found'
  rfl

/-- All that a statement of a method mentions is declared, its variables in that method. -/
def Scoped (p : Program) (m : MethodId) : Statement → Prop
  | .alloc target _ type => p.Owns m target ∧ ∃ declared, p.type type = .ok declared
  | .assign target source => p.Owns m target ∧ p.Owns m source
  | .load target base field =>
    p.Owns m target ∧ p.Owns m base ∧ ∃ name, p.field field = .ok name
  | .store base field source =>
    p.Owns m base ∧ p.Owns m source ∧ ∃ name, p.field field = .ok name
  | .call site => ∃ call, p.callSite site = .ok call ∧ call.container = m

end Program

/-- The site of a call statement. -/
def Statement.callSite? : Statement → Option CallSiteId
  | .call site => some site
  | _ => none

/-- The site of an allocation. -/
def Statement.allocSite? : Statement → Option AllocSiteId
  | .alloc _ site _ => some site
  | _ => none

/-- A declaration answers for its own signature, and for no other. -/
theorem TypeDecl.declares?_declare (type : TypeDecl) (s s' : Signature) (m : MethodId) :
    (type.declare s m).declares? s' = if s' = s then some m else type.declares? s' := by
  unfold declares? declare
  dsimp only
  rw [List.lookup_append]
  split
  · next same =>
    have none : (type.declared.filter fun entry => entry.1 ≠ s).lookup s' = none := by
      rw [List.lookup_eq_none_iff]
      intro entry there
      have other : entry.1 ≠ s := by simpa using (List.mem_filter.mp there).2
      rw [same]
      exact bne_iff_ne.mpr (Ne.symm other)
    rw [none, same, Option.none_or, List.lookup_cons_self]
  · next other =>
    have kept : (type.declared.filter fun entry => entry.1 ≠ s).lookup s' =
        type.declared.lookup s' := by
      induction type.declared with
      | nil => rfl
      | cons entry declared ih =>
        by_cases same : entry.1 = s
        · have skipped : (s' == entry.1) = false := by simpa [same] using other
          rw [List.filter_cons_of_neg (by simpa using same), ih, List.lookup_cons, skipped]
        · rw [List.filter_cons_of_pos (by simpa using same), List.lookup_cons, List.lookup_cons, ih]
    have missing : (s' == s) = false := by simpa using other
    rw [kept, List.lookup_cons, missing, List.lookup_nil, Option.or_none]

/-- A class whose super type and methods are declared. -/
structure TypeDecl.Coherent (p : Program) (t : TypeId) (type : TypeDecl) : Prop where
  super_known : ∀ {super}, type.super = some super → ∃ declared, p.type super = .ok declared
  declared_known : ∀ {s m}, (s, m) ∈ type.declared →
    ∃ method, p.method m = .ok method ∧ method.signature = s ∧ method.owner = t

/-- A method that mentions its own variables only, and no site twice. -/
structure Method.Coherent (p : Program) (m : MethodId) (method : Method) : Prop where
  owner_known : ∃ type, p.type method.owner = .ok type
  params_owned : ∀ v ∈ method.params, p.Owns m v
  this_owned : ∀ {v}, method.this = some v → p.Owns m v
  this_iff : method.this = none ↔ method.isStatic = true
  returns_owned : ∀ v ∈ method.returns, p.Owns m v
  statements_scoped : ∀ s ∈ method.body.toList, p.Scoped m s
  allocs_known : ∀ {target site type}, .alloc target site type ∈ method.body.toList →
    site.index < p.allocSites
  calls_once : (method.body.toList.filterMap Statement.callSite?).Nodup
  allocs_once : (method.body.toList.filterMap Statement.allocSite?).Nodup

/-- A call that stands in its method and passes as many variables of it as its target takes. -/
structure CallSite.Coherent (p : Program) (site : CallSiteId) (call : CallSite) : Prop where
  target_known : ∃ target, p.method call.target = .ok target ∧
    target.params.length = call.args.length
  receiver_owned : ∀ {v}, call.receiver = some v → p.Owns call.container v
  args_owned : ∀ v ∈ call.args, p.Owns call.container v
  result_owned : ∀ {v}, call.result = some v → p.Owns call.container v
  placed : p.Has call.container (.call site)

/-- A variable that lists what goes through it. -/
structure Variable.Coherent (p : Program) (v : VarId) (var : Variable) : Prop where
  stores_iff : ∀ f source, (f, source) ∈ var.stores.toList ↔ p.Has var.method (.store v f source)
  loads_iff : ∀ f target, (f, target) ∈ var.loads.toList ↔ p.Has var.method (.load target v f)
  calls_iff : ∀ site,
    site ∈ var.calls.toList ↔ ∃ call, p.callSite site = .ok call ∧ call.receiver = some v
  calls_once : var.calls.toList.Nodup

namespace Program

structure Coherent (p : Program) : Prop where
  types : ∀ {t type}, p.type t = .ok type → type.Coherent p t
  methods : ∀ {m method}, p.method m = .ok method → method.Coherent p m
  calls : ∀ {site call}, p.callSite site = .ok call → call.Coherent p site
  vars : ∀ {v var}, p.var v = .ok var → var.Coherent p v
  entry_known : ∀ {m}, m ∈ p.entries → ∃ method, p.method m = .ok method
  /-- No two methods share an allocation site. -/
  allocs_apart : ∀ {m m' target target' site type type'}, p.Has m (.alloc target site type) →
    p.Has m' (.alloc target' site type') → m = m'

theorem Coherent.statements_scoped {p : Program} (coherent : p.Coherent) {m : MethodId}
    {s : Statement} (has : p.Has m s) : p.Scoped m s := by
  obtain ⟨method, found, there⟩ := has
  exact (coherent.methods found).statements_scoped s there

/-- A class declares a method under a signature. -/
def Declares (p : Program) (s : Signature) (t : TypeId) (m : MethodId) : Prop :=
  ∃ method, p.method m = .ok method ∧ method.owner = t ∧ method.signature = s

/-- A method is declared, and has a body, under a signature. -/
def Implements (p : Program) (m : MethodId) (s : Signature) : Prop :=
  ∃ method, p.method m = .ok method ∧ method.signature = s ∧ method.isAbstract = false

theorem mem_of_lookup {declared : List (Signature × MethodId)} {s : Signature} {m : MethodId}
    (found : declared.lookup s = some m) : (s, m) ∈ declared := by
  obtain ⟨before, after, rfl, _⟩ := List.lookup_eq_some_iff.mp found
  simp

namespace Coherent

variable {p : Program} (coherent : p.Coherent)
include coherent

/-- A search along a chain of declared classes meets no unknown id if no visit does, and its
answer was given by one of the classes visited. -/
theorem searchChain_ok {α : Type} {visit : TypeDecl → Except UnknownId (Option α)}
    {Good : α → Prop}
    (visits : ∀ t type, p.type t = .ok type →
      ∃ answer, visit type = .ok answer ∧ ∀ a, answer = some a → Good a)
    (steps : Nat) {current : Option TypeId}
    (known : ∀ t, current = some t → ∃ type, p.type t = .ok type) :
    ∃ answer, p.searchChain visit steps current = .ok answer ∧ ∀ a, answer = some a → Good a := by
  induction steps generalizing current with
  | zero => cases current <;> exact ⟨none, rfl, by simp⟩
  | succ steps ih =>
    cases current with
    | none => exact ⟨none, rfl, by simp⟩
    | some t =>
      obtain ⟨type, found⟩ := known t rfl
      obtain ⟨answer, visited, good⟩ := visits t type found
      cases answer with
      | some a => exact ⟨some a, by simp [searchChain, found, visited], good⟩
      | none =>
        obtain ⟨answer, searched, good⟩ :=
          ih fun super same => (coherent.types found).super_known same
        exact ⟨answer, by simpa [searchChain, found, visited] using searched, good⟩

theorem declares?_known {t : TypeId} {type : TypeDecl} {s : Signature} {m : MethodId}
    (found : p.type t = .ok type) (declared : type.declares? s = some m) :
    ∃ method, p.method m = .ok method ∧ method.signature = s := by
  obtain ⟨method, known, signature, _⟩ :=
    (coherent.types found).declared_known (mem_of_lookup declared)
  exact ⟨method, known, signature⟩

/-- Dispatch on a declared class gives an answer, and the method found has a body and the
signature asked for. -/
theorem dispatch_ok {t : TypeId} {type : TypeDecl} (found : p.type t = .ok type) (s : Signature) :
    ∃ answer, p.dispatch t s = .ok answer ∧ ∀ m, answer = some m → p.Implements m s := by
  refine coherent.searchChain_ok ?_ _ fun t' same => ⟨type, Option.some.inj same ▸ found⟩
  intro t type found
  cases declared : type.declares? s with
  | none => exact ⟨none, by simp, by simp⟩
  | some m =>
    obtain ⟨method, known, signature⟩ := coherent.declares?_known found declared
    cases abstract : method.isAbstract with
    | true => exact ⟨none, by simp [known, abstract], by simp⟩
    | false =>
      refine ⟨some m, by simp [known, abstract], ?_⟩
      intro found same
      exact Option.some.inj same ▸ ⟨method, known, signature, abstract⟩

theorem resolveVirtual_ok {t : TypeId} {type : TypeDecl} (found : p.type t = .ok type)
    {target : MethodId} {named : Method} (known : p.method target = .ok named) :
    ∃ answer, p.resolveVirtual t target = .ok answer ∧
      ∀ m, answer = some m → p.Implements m named.signature := by
  obtain ⟨answer, dispatched, good⟩ := coherent.dispatch_ok found named.signature
  exact ⟨answer, by simpa [resolveVirtual, known] using dispatched, good⟩

theorem resolveSpecial_ok {site : CallSiteId} {call : CallSite} (found : p.callSite site = .ok call)
    {named : Method} (known : p.method call.target = .ok named) :
    ∃ answer, p.resolveSpecial site = .ok answer ∧
      ∀ m, answer = some m → p.Implements m named.signature := by
  obtain ⟨type, owner⟩ := (coherent.methods known).owner_known
  obtain ⟨answer, dispatched, good⟩ := coherent.dispatch_ok owner named.signature
  exact ⟨answer, by simpa [resolveSpecial, found, known] using dispatched, good⟩

end Coherent

/-- A method takes as many arguments as a call passes. -/
def Takes (p : Program) (callee : MethodId) (call : CallSite) : Prop :=
  ∃ method, p.method callee = .ok method ∧ call.args.length = method.params.length

private theorem takes_of_implements {p : Program} {callee : MethodId} {call : CallSite}
    {target : Method} (found : p.Implements callee target.signature)
    (fits : target.params.length = call.args.length) : p.Takes callee call := by
  obtain ⟨method, known, signature, _⟩ := found
  have arities : method.params.length = target.params.length := congrArg Signature.arity signature
  exact ⟨method, known, (arities.trans fits).symm⟩

namespace Coherent

variable {p : Program} (coherent : p.Coherent)
include coherent

/-- What a call without receiver enters takes its arguments. -/
theorem takes_of_entersAlone {site : CallSiteId} {callee : MethodId}
    (enters : p.EntersAlone site callee) :
    ∃ call, p.callSite site = .ok call ∧ p.Takes callee call := by
  cases enters with
  | @static call found alone kind =>
    obtain ⟨target, known, fits⟩ := (coherent.calls found).target_known
    exact ⟨call, found, target, known, fits.symm⟩
  | @special call callee found alone kind resolved =>
    obtain ⟨target, known, fits⟩ := (coherent.calls found).target_known
    obtain ⟨answer, same, good⟩ := coherent.resolveSpecial_ok found known
    cases same.symm.trans resolved
    exact ⟨call, found, takes_of_implements (good _ rfl) fits⟩

/-- What a call enters on an object of a declared class takes its arguments. -/
theorem takes_of_entersOn {site : CallSiteId} {t : TypeId} {type : TypeDecl} {callee : MethodId}
    (declared : p.type t = .ok type) (enters : p.EntersOn site t callee) :
    ∃ call, p.callSite site = .ok call ∧ p.Takes callee call := by
  cases enters with
  | @virtual call callee found kind resolved =>
    obtain ⟨target, known, fits⟩ := (coherent.calls found).target_known
    obtain ⟨answer, same, good⟩ := coherent.resolveVirtual_ok declared known
    cases same.symm.trans resolved
    exact ⟨call, found, takes_of_implements (good _ rfl) fits⟩
  | @special call callee found kind resolved =>
    obtain ⟨target, known, fits⟩ := (coherent.calls found).target_known
    obtain ⟨answer, same, good⟩ := coherent.resolveSpecial_ok found known
    cases same.symm.trans resolved
    exact ⟨call, found, takes_of_implements (good _ rfl) fits⟩

end Coherent

end PointerAnalysis.Program
