import PointerAnalysis.Proofs.Id
import PointerAnalysis.Proofs.Program.Coherent

/-! Programs in the making. Declarations and statements are only ever added, and each addition that
mentions declared things only keeps a program coherent. A heap access or receiver call is added to
its method and to the variable it goes through at once, so the two never disagree. -/
namespace PointerAnalysis

/-- A later program declares all that the earlier one declares and has all of its statements. -/
structure Program.Within (p p' : Program) : Prop where
  types : ∀ {t type}, p.type t = .ok type → ∃ type', p'.type t = .ok type'
  fields : ∀ {f name}, p.field f = .ok name → p'.field f = .ok name
  methods : ∀ {m method}, p.method m = .ok method → ∃ method', p'.method m = .ok method' ∧
    method'.signature = method.signature ∧ method'.owner = method.owner ∧
    ∀ s ∈ method.body.toList, s ∈ method'.body.toList
  vars : ∀ {v var}, p.var v = .ok var → ∃ var', p'.var v = .ok var' ∧ var'.method = var.method
  calls : ∀ {site call}, p.callSite site = .ok call → p'.callSite site = .ok call
  allocSites : p.allocSites ≤ p'.allocSites

theorem Program.Within.refl (p : Program) : p.Within p where
  types found := ⟨_, found⟩
  fields found := found
  methods found := ⟨_, found, rfl, rfl, fun _ there => there⟩
  vars found := ⟨_, found, rfl⟩
  calls found := found
  allocSites := Nat.le_refl _

section Monotone

variable {p p' : Program} (within : p.Within p')
include within

theorem Program.Owns.mono {m : MethodId} {v : VarId} (owns : p.Owns m v) : p'.Owns m v := by
  obtain ⟨var, found, same⟩ := owns
  obtain ⟨var', found', same'⟩ := within.vars found
  exact ⟨var', found', same'.trans same⟩

theorem Program.Has.mono {m : MethodId} {s : Statement} (has : p.Has m s) : p'.Has m s := by
  obtain ⟨method, found, there⟩ := has
  obtain ⟨method', found', _, _, kept⟩ := within.methods found
  exact ⟨method', found', kept s there⟩

theorem Program.Scoped.mono {m : MethodId} {s : Statement} (mentions : p.Scoped m s) :
    p'.Scoped m s := by
  cases s with
  | alloc target site type =>
    obtain ⟨owns, _, known⟩ := mentions
    exact ⟨owns.mono within, within.types known⟩
  | assign target source => exact ⟨mentions.1.mono within, mentions.2.mono within⟩
  | load target base field =>
    obtain ⟨target, base, name, known⟩ := mentions
    exact ⟨target.mono within, base.mono within, name, within.fields known⟩
  | store base field source =>
    obtain ⟨base, source, name, known⟩ := mentions
    exact ⟨base.mono within, source.mono within, name, within.fields known⟩
  | call site =>
    obtain ⟨call, found, container⟩ := mentions
    exact ⟨call, within.calls found, container⟩

theorem TypeDecl.Coherent.mono {t : TypeId} {type : TypeDecl} (coherent : type.Coherent p t) :
    type.Coherent p' t where
  super_known same := by
    obtain ⟨_, found⟩ := coherent.super_known same
    exact within.types found
  declared_known listed := by
    obtain ⟨method, found, signature, owner⟩ := coherent.declared_known listed
    obtain ⟨method', found', signature', owner', _⟩ := within.methods found
    exact ⟨method', found', signature'.trans signature, owner'.trans owner⟩

theorem Method.Coherent.mono {m : MethodId} {method : Method} (coherent : method.Coherent p m) :
    method.Coherent p' m where
  owner_known := by
    obtain ⟨_, found⟩ := coherent.owner_known
    exact within.types found
  params_owned v listed := (coherent.params_owned v listed).mono within
  this_owned same := (coherent.this_owned same).mono within
  this_iff := coherent.this_iff
  returns_owned v listed := (coherent.returns_owned v listed).mono within
  statements_scoped s there := (coherent.statements_scoped s there).mono within
  allocs_known there := Nat.lt_of_lt_of_le (coherent.allocs_known there) within.allocSites
  calls_once := coherent.calls_once
  allocs_once := coherent.allocs_once

theorem CallSite.Coherent.mono {site : CallSiteId} {call : CallSite}
    (coherent : call.Coherent p site) : call.Coherent p' site where
  target_known := by
    obtain ⟨target, found, fits⟩ := coherent.target_known
    obtain ⟨target', found', signature, _⟩ := within.methods found
    have arities : target'.params.length = target.params.length := congrArg Signature.arity signature
    exact ⟨target', found', arities.trans fits⟩
  receiver_owned same := (coherent.receiver_owned same).mono within
  args_owned v listed := (coherent.args_owned v listed).mono within
  result_owned same := (coherent.result_owned same).mono within
  placed := coherent.placed.mono within

end Monotone

namespace Program.Coherent

variable {p : Program} (coherent : p.Coherent)
include coherent

/-! ### Declarations -/

theorem push_type (name : String) : Coherent { p with types := p.types.push ⟨name, none, []⟩ } := by
  have within : p.Within { p with types := p.types.push ⟨name, none, []⟩ } :=
    { Within.refl p with types := fun found => ⟨_, Id.lookup_push.mpr (.inl found)⟩ }
  refine ⟨fun {t type} found => ?_, fun found => (coherent.methods found).mono within,
    fun found => (coherent.calls found).mono within,
    fun found => ⟨(coherent.vars found).stores_iff, (coherent.vars found).loads_iff,
      (coherent.vars found).calls_iff, (coherent.vars found).calls_once⟩,
    coherent.entry_known, coherent.allocs_apart⟩
  rcases Id.lookup_push.mp found with old | ⟨_, rfl⟩
  · exact (coherent.types old).mono within
  · exact ⟨by simp, by simp⟩

theorem set_super (t : TypeId) {super : Option TypeId}
    (known : ∀ id, super = some id → ∃ type, p.type id = .ok type) :
    Coherent { p with types := p.types.modify t.index ({ · with super }) } := by
  have within : p.Within { p with types := p.types.modify t.index ({ · with super }) } :=
    { Within.refl p with types := fun found => ⟨_, Id.lookup_modify.mpr ⟨_, found, rfl⟩⟩ }
  refine ⟨fun {t' type} found => ?_, fun found => (coherent.methods found).mono within,
    fun found => (coherent.calls found).mono within,
    fun found => ⟨(coherent.vars found).stores_iff, (coherent.vars found).loads_iff,
      (coherent.vars found).calls_iff, (coherent.vars found).calls_once⟩,
    coherent.entry_known, coherent.allocs_apart⟩
  obtain ⟨old, before, rfl⟩ := Id.lookup_modify.mp found
  have kept := (coherent.types before).mono within
  split
  · refine ⟨fun {id} same => ?_, kept.declared_known⟩
    obtain ⟨_, known⟩ := known id same
    exact within.types known
  · exact kept

theorem set_fields {fields : Array String}
    (kept : ∀ {f name}, p.field f = .ok name → f.lookup fields = .ok name) :
    Coherent { p with fields } := by
  have within : p.Within { p with fields } := { Within.refl p with fields := kept }
  exact ⟨fun found => (coherent.types found).mono within,
    fun found => (coherent.methods found).mono within,
    fun found => (coherent.calls found).mono within,
    fun found => ⟨(coherent.vars found).stores_iff, (coherent.vars found).loads_iff,
      (coherent.vars found).calls_iff, (coherent.vars found).calls_once⟩,
    coherent.entry_known, coherent.allocs_apart⟩

/-- Nothing goes through a variable that is yet to be declared. -/
theorem push_var (name : String) (m : MethodId) :
    Coherent { p with vars := p.vars.push ⟨name, m, #[], #[], #[]⟩ } := by
  have within : p.Within { p with vars := p.vars.push ⟨name, m, #[], #[], #[]⟩ } :=
    { Within.refl p with vars := fun found => ⟨_, Id.lookup_push.mpr (.inl found), rfl⟩ }
  have unowned (m' : MethodId) : ¬ p.Owns m' ⟨p.vars.size⟩ := by
    rintro ⟨var, found, _⟩
    exact Nat.lt_irrefl _ (Id.index_lt_of_lookup found)
  refine ⟨fun found => (coherent.types found).mono within,
    fun found => (coherent.methods found).mono within,
    fun found => (coherent.calls found).mono within, fun {v var} found => ?_,
    coherent.entry_known, coherent.allocs_apart⟩
  rcases Id.lookup_push.mp found with old | ⟨rfl, rfl⟩
  · have kept := coherent.vars old
    exact ⟨kept.stores_iff, kept.loads_iff, kept.calls_iff, kept.calls_once⟩
  · refine ⟨fun f source => ?_, fun f target => ?_, fun site => ?_, List.nodup_nil⟩
    · exact iff_of_false List.not_mem_nil fun has => unowned m (coherent.statements_scoped has).1
    · exact iff_of_false List.not_mem_nil fun has => unowned m (coherent.statements_scoped has).2.1
    · refine iff_of_false List.not_mem_nil ?_
      rintro ⟨call, found, receiver⟩
      exact unowned _ ((coherent.calls found).receiver_owned receiver)

end Program.Coherent

/-- A program with one more method, which its class declares. -/
def Program.pushMethod (p : Program) (method : Method) : Program :=
  { p with
    methods := p.methods.push method
    types := p.types.modify method.owner.index (·.declare method.signature ⟨p.methods.size⟩) }

namespace Program.Coherent

variable {p : Program} (coherent : p.Coherent)
include coherent

/-- A method without statements that belongs to a declared class. -/
theorem pushMethod {method : Method} {type : TypeDecl} (owner : p.type method.owner = .ok type)
    (params : ∀ v ∈ method.params, p.Owns ⟨p.methods.size⟩ v)
    (this : ∀ v, method.this = some v → p.Owns ⟨p.methods.size⟩ v)
    (this_iff : method.this = none ↔ method.isStatic = true) (returns : method.returns = [])
    (body : method.body = #[]) : (p.pushMethod method).Coherent := by
  have within : p.Within (p.pushMethod method) :=
    { Within.refl p with
      types := fun found => ⟨_, Id.lookup_modify.mpr ⟨_, found, rfl⟩⟩
      methods := fun found =>
        ⟨_, Id.lookup_push.mpr (.inl found), rfl, rfl, fun _ there => there⟩ }
  have has_iff {m : MethodId} {s : Statement} : (p.pushMethod method).Has m s ↔ p.Has m s := by
    refine ⟨?_, fun has => has.mono within⟩
    rintro ⟨method', found, there⟩
    rcases Id.lookup_push.mp found with old | ⟨_, rfl⟩
    · exact ⟨method', old, there⟩
    · simp [body] at there
  refine ⟨fun {t type} found => ?_, fun {m method'} found => ?_,
    fun found => (coherent.calls found).mono within, fun {v var} found => ?_,
    fun listed => ?_, fun has has' => ?_⟩
  · obtain ⟨old, before, rfl⟩ := Id.lookup_modify.mp found
    have kept := (coherent.types before).mono within
    split
    · next same =>
      refine ⟨kept.super_known, fun {s m} listed => ?_⟩
      rcases List.mem_append.mp listed with old | new
      · exact kept.declared_known (List.mem_filter.mp old).1
      · cases List.mem_singleton.mp new
        exact ⟨method, Id.lookup_push_self _, rfl, same.symm⟩
    · exact kept
  · rcases Id.lookup_push.mp found with old | ⟨rfl, rfl⟩
    · exact (coherent.methods old).mono within
    · exact {
        owner_known := within.types owner
        params_owned := fun v listed => (params v listed).mono within
        this_owned := fun {v} same => (this v same).mono within
        this_iff := this_iff
        returns_owned := by simp [returns]
        statements_scoped := by simp [body]
        allocs_known := by simp [body]
        calls_once := by simp [body]
        allocs_once := by simp [body] }
  · have kept := coherent.vars found
    refine ⟨fun f source => ?_, fun f target => ?_, kept.calls_iff, kept.calls_once⟩
    · rw [has_iff, kept.stores_iff]
    · rw [has_iff, kept.loads_iff]
  · obtain ⟨method', found⟩ := coherent.entry_known listed
    exact ⟨method', Id.lookup_push.mpr (.inl found)⟩
  · exact coherent.allocs_apart (has_iff.mp has) (has_iff.mp has')

end Program.Coherent

/-! ### Statements -/

/-- One program has a statement more than another. What goes through a variable is entered there,
and sites are new. -/
structure Program.Gains (p p' : Program) (m : MethodId) (s : Statement) : Prop where
  types : p'.types = p.types
  fields : p'.fields = p.fields
  methods : p'.methods =
    p.methods.modify m.index fun method => { method with body := method.body.push s }
  entries : p'.entries = p.entries
  declared : ∃ method, p.method m = .ok method
  mentions : p'.Scoped m s
  vars : ∀ {v var}, p.var v = .ok var → ∃ var', p'.var v = .ok var' ∧ var'.method = var.method
  noted : ∀ {v var'}, p'.var v = .ok var' → ∃ var, p.var v = .ok var ∧
    var'.method = var.method ∧
    (∀ f source, (f, source) ∈ var'.stores.toList ↔
      (f, source) ∈ var.stores.toList ∨ s = .store v f source) ∧
    (∀ f target, (f, target) ∈ var'.loads.toList ↔
      (f, target) ∈ var.loads.toList ∨ s = .load target v f) ∧
    (∀ site, site ∈ var'.calls.toList ↔ site ∈ var.calls.toList ∨
      (s = .call site ∧ ∃ call, p'.callSite site = .ok call ∧ call.receiver = some v)) ∧
    var'.calls.toList.Nodup
  calls : ∀ {site call}, p.callSite site = .ok call → p'.callSite site = .ok call
  /-- A new call passes variables of its method, as many as its target takes. -/
  called : ∀ {site call}, p'.callSite site = .ok call → p.callSite site = .ok call ∨
    (s = .call site ∧ call.container = m ∧
      (∃ target, p.method call.target = .ok target ∧ target.params.length = call.args.length) ∧
      (∀ v, call.receiver = some v → p.Owns m v) ∧ (∀ v ∈ call.args, p.Owns m v) ∧
      ∀ v, call.result = some v → p.Owns m v)
  call_new : ∀ {site call}, s = .call site → p.callSite site ≠ .ok call
  allocSites : p.allocSites ≤ p'.allocSites
  alloc_new : ∀ {target site type}, s = .alloc target site type →
    p.allocSites ≤ site.index ∧ site.index < p'.allocSites

namespace Program.Gains

variable {p p' : Program} {m : MethodId} {s : Statement} (gains : p.Gains p' m s)
include gains

theorem method_iff {m' : MethodId} {method' : Method} : p'.method m' = .ok method' ↔
    ∃ method, p.method m' = .ok method ∧
      method' = if m' = m then { method with body := method.body.push s } else method := by
  rw [Program.method, gains.methods]
  exact Id.lookup_modify

theorem within : p.Within p' where
  types found := ⟨_, by rw [Program.type, gains.types]; exact found⟩
  fields found := by rwa [Program.field, gains.fields]
  methods := by
    intro m' method found
    refine ⟨_, gains.method_iff.mpr ⟨method, found, rfl⟩, ?_⟩
    split
    · exact ⟨rfl, rfl, fun s there => by simp [there]⟩
    · exact ⟨rfl, rfl, fun s there => there⟩
  vars := gains.vars
  calls := gains.calls
  allocSites := gains.allocSites

theorem has_iff {m' : MethodId} {s' : Statement} :
    p'.Has m' s' ↔ p.Has m' s' ∨ (m' = m ∧ s' = s) := by
  constructor
  · rintro ⟨method', found, there⟩
    obtain ⟨method, before, rfl⟩ := gains.method_iff.mp found
    split at there
    · next same =>
      rw [Array.toList_push, List.mem_append, List.mem_singleton] at there
      exact there.imp (fun old => ⟨method, before, old⟩) fun new => ⟨same, new⟩
    · exact .inl ⟨method, before, there⟩
  · rintro (has | ⟨rfl, rfl⟩)
    · exact has.mono gains.within
    · obtain ⟨method, found⟩ := gains.declared
      exact ⟨_, gains.method_iff.mpr ⟨method, found, rfl⟩, by simp⟩

end Program.Gains

private theorem nodup_filterMap_append {α β : Type} {f : α → Option β} {l : List α} {x : α}
    (once : (l.filterMap f).Nodup) (new : ∀ b, f x = some b → b ∉ l.filterMap f) :
    ((l ++ [x]).filterMap f).Nodup := by
  rw [List.filterMap_append]
  cases image : f x with
  | none => simpa [image] using once
  | some b =>
    have single : [x].filterMap f = [b] := by simp [image]
    rw [single, List.nodup_append]
    refine ⟨once, List.nodup_cons.mpr ⟨List.not_mem_nil, List.nodup_nil⟩, ?_⟩
    intro y there z last same
    rw [List.mem_singleton.mp last] at same
    exact new b image (same ▸ there)

private theorem mem_allocSites {l : List Statement} {site : AllocSiteId}
    (there : site ∈ l.filterMap Statement.allocSite?) : ∃ target type, .alloc target site type ∈ l := by
  obtain ⟨s, there, same⟩ := List.mem_filterMap.mp there
  cases s <;> cases same
  exact ⟨_, _, there⟩

private theorem mem_callSites {l : List Statement} {site : CallSiteId}
    (there : site ∈ l.filterMap Statement.callSite?) : .call site ∈ l := by
  obtain ⟨s, there, same⟩ := List.mem_filterMap.mp there
  cases s <;> cases same
  exact there

section Gains

variable {p p' : Program} {m : MethodId} {s : Statement} (coherent : p.Coherent)
  (gains : p.Gains p' m s)
include coherent gains

private theorem method_gains {method : Method} (found : p.method m = .ok method) :
    Method.Coherent p' m { method with body := method.body.push s } := by
  have old := coherent.methods found
  have kept := old.mono gains.within
  refine { kept with statements_scoped := ?_, allocs_known := ?_, calls_once := ?_, allocs_once := ?_ }
  · intro s' there
    rw [Array.toList_push, List.mem_append, List.mem_singleton] at there
    rcases there with there | rfl
    · exact kept.statements_scoped s' there
    · exact gains.mentions
  · intro target site type there
    rw [Array.toList_push, List.mem_append, List.mem_singleton] at there
    rcases there with there | new
    · exact kept.allocs_known there
    · exact (gains.alloc_new new.symm).2
  · rw [Array.toList_push]
    refine nodup_filterMap_append old.calls_once fun site image there => ?_
    obtain ⟨call, known, _⟩ := old.statements_scoped _ (mem_callSites there)
    cases s <;> cases image
    exact gains.call_new rfl known
  · rw [Array.toList_push]
    refine nodup_filterMap_append old.allocs_once fun site image there => ?_
    obtain ⟨target, type, there⟩ := mem_allocSites there
    cases s <;> cases image
    exact Nat.lt_irrefl _ (Nat.lt_of_lt_of_le (old.allocs_known there) (gains.alloc_new rfl).1)

private theorem var_gains {v : VarId} {var' : Variable} (found : p'.var v = .ok var') :
    var'.Coherent p' v := by
  obtain ⟨var, before, method, stores, loads, calls, once⟩ := gains.noted found
  have kept := coherent.vars before
  have owned (owns : p'.Owns m v) : var.method = m := by
    obtain ⟨var'', found', same⟩ := owns
    cases found.symm.trans found'
    exact method.symm.trans same
  refine ⟨fun f source => ?_, fun f target => ?_, fun site => ?_, once⟩
  · rw [stores, kept.stores_iff, gains.has_iff, method]
    refine or_congr_right ⟨fun new => ⟨?_, new.symm⟩, fun new => new.2.symm⟩
    subst new
    exact owned gains.mentions.1
  · rw [loads, kept.loads_iff, gains.has_iff, method]
    refine or_congr_right ⟨fun new => ⟨?_, new.symm⟩, fun new => new.2.symm⟩
    subst new
    exact owned gains.mentions.2.1
  · rw [calls, kept.calls_iff]
    constructor
    · rintro (⟨call, known, receiver⟩ | ⟨_, new⟩)
      · exact ⟨call, gains.calls known, receiver⟩
      · exact new
    · rintro ⟨call, known, receiver⟩
      rcases gains.called known with old | ⟨same, _⟩
      · exact .inl ⟨call, old, receiver⟩
      · exact .inr ⟨same, call, known, receiver⟩

private theorem allocs_gain {m₁ m₂ : MethodId} {target₁ target₂ : VarId} {site : AllocSiteId}
    {type₁ type₂ : TypeId} (first : p'.Has m₁ (.alloc target₁ site type₁))
    (second : p'.Has m₂ (.alloc target₂ site type₂)) : m₁ = m₂ := by
  have older {m' : MethodId} {target : VarId} {type : TypeId}
      (has : p.Has m' (.alloc target site type)) : site.index < p.allocSites := by
    obtain ⟨method, found, there⟩ := has
    exact (coherent.methods found).allocs_known there
  have newer {target : VarId} {type : TypeId} (same : .alloc target site type = s) :
      p.allocSites ≤ site.index := (gains.alloc_new same.symm).1
  rcases gains.has_iff.mp first with old₁ | ⟨rfl, new₁⟩ <;>
    rcases gains.has_iff.mp second with old₂ | ⟨rfl, new₂⟩
  · exact coherent.allocs_apart old₁ old₂
  · exact absurd (older old₁) (Nat.not_lt.mpr (newer new₂))
  · exact absurd (older old₂) (Nat.not_lt.mpr (newer new₁))
  · rfl

/-- A coherent program stays coherent when it gains a statement. -/
theorem Program.Coherent.gain : p'.Coherent := by
  have within := gains.within
  refine ⟨fun {t type} found => ?_, fun {m' method'} found => ?_, fun {site call} found => ?_,
    var_gains coherent gains, fun {m'} listed => ?_, allocs_gain coherent gains⟩
  · rw [Program.type, gains.types] at found
    exact (coherent.types found).mono within
  · obtain ⟨method, before, rfl⟩ := gains.method_iff.mp found
    split
    · next same => exact same ▸ method_gains coherent gains (same ▸ before)
    · exact (coherent.methods before).mono within
  · rcases gains.called found with old | ⟨rfl, rfl, target, receiver, args, result⟩
    · exact (coherent.calls old).mono within
    · obtain ⟨target, known, fits⟩ := target
      obtain ⟨target', known', signature, _⟩ := within.methods known
      have arities : target'.params.length = target.params.length :=
        congrArg Signature.arity signature
      exact ⟨⟨target', known', arities.trans fits⟩, fun {v} same => (receiver v same).mono within,
        fun v there => (args v there).mono within, fun {v} same => (result v same).mono within,
        gains.has_iff.mpr (.inr ⟨rfl, rfl⟩)⟩
  · rw [gains.entries] at listed
    obtain ⟨method, found⟩ := coherent.entry_known listed
    obtain ⟨method', found', _⟩ := within.methods found
    exact ⟨method', found'⟩

end Gains

/-! ### Returned variables and entries -/

namespace Program.Coherent

variable {p : Program} (coherent : p.Coherent)
include coherent

/-- A method that returns one of its variables more. -/
theorem set_returns {m : MethodId} {returns : Method → List VarId}
    (owned : ∀ {method}, p.method m = .ok method → ∀ v ∈ returns method, p.Owns m v) :
    Coherent { p with
      methods := p.methods.modify m.index fun method =>
        { method with returns := returns method } } := by
  generalize same : ({ p with
    methods := p.methods.modify m.index fun method =>
      { method with returns := returns method } } : Program) = p'
  have method_iff {m' : MethodId} {method' : Method} : p'.method m' = .ok method' ↔
      ∃ method, p.method m' = .ok method ∧
        method' = if m' = m then { method with returns := returns method } else method := by
    rw [← same]
    exact Id.lookup_modify
  have within : p.Within p' := by
    rw [← same]
    refine { Within.refl p with methods := fun {m' method} found =>
      ⟨_, Id.lookup_modify.mpr ⟨method, found, rfl⟩, ?_⟩ }
    split <;> exact ⟨rfl, rfl, fun _ there => there⟩
  have has_iff {m' : MethodId} {s : Statement} : p'.Has m' s ↔ p.Has m' s := by
    refine ⟨?_, fun has => has.mono within⟩
    rintro ⟨method', found, there⟩
    obtain ⟨method, before, rfl⟩ := method_iff.mp found
    refine ⟨method, before, ?_⟩
    split at there <;> exact there
  refine ⟨fun {t type} found => ?_, fun {m' method'} found => ?_, fun {site call} found => ?_,
    fun {v var} found => ?_, fun {m'} listed => ?_, fun has has' => ?_⟩
  · rw [← same] at found
    exact (coherent.types found).mono within
  · obtain ⟨method, before, rfl⟩ := method_iff.mp found
    have kept := (coherent.methods before).mono within
    split
    · next here =>
      subst here
      exact { kept with returns_owned := fun v listed => (owned before v listed).mono within }
    · exact kept
  · rw [← same] at found
    exact (coherent.calls found).mono within
  · have kept : var.Coherent p v := coherent.vars (by rwa [← same] at found)
    refine ⟨fun f source => ?_, fun f target => ?_, fun site => ?_, kept.calls_once⟩
    · rw [has_iff, kept.stores_iff]
    · rw [has_iff, kept.loads_iff]
    · rw [← same]
      exact kept.calls_iff site
  · obtain ⟨method, found⟩ := coherent.entry_known (by rwa [← same] at listed)
    obtain ⟨method', found', _⟩ := within.methods found
    exact ⟨method', found'⟩
  · exact coherent.allocs_apart (has_iff.mp has) (has_iff.mp has')

/-- Any declared methods may be the entries. -/
theorem set_entries {entries : Array MethodId}
    (known : ∀ m ∈ entries, ∃ method, p.method m = .ok method) : Coherent { p with entries } := by
  have within : p.Within { p with entries } := { Within.refl p with }
  exact ⟨fun found => (coherent.types found).mono within,
    fun found => (coherent.methods found).mono within,
    fun found => (coherent.calls found).mono within,
    fun found => ⟨(coherent.vars found).stores_iff, (coherent.vars found).loads_iff,
      (coherent.vars found).calls_iff, (coherent.vars found).calls_once⟩,
    fun {m} listed => known m listed, coherent.allocs_apart⟩

theorem push_entry {m : MethodId} {method : Method} (known : p.method m = .ok method) :
    Coherent { p with entries := p.entries.push m } := by
  apply coherent.set_entries
  intro m' listed
  rcases Array.mem_push.mp listed with old | rfl
  · exact coherent.entry_known old
  · exact ⟨method, known⟩

end Program.Coherent

theorem Program.coherent_empty : Program.empty.Coherent where
  types found := by simp [Program.type, Program.empty, Id.lookup] at found
  methods found := by simp [Program.method, Program.empty, Id.lookup] at found
  calls found := by simp [Program.callSite, Program.empty, Id.lookup] at found
  vars found := by simp [Program.var, Program.empty, Id.lookup] at found
  entry_known listed := by simp [Program.empty] at listed
  allocs_apart has _ := by
    obtain ⟨method, found, _⟩ := has
    simp [Program.method, Program.empty, Id.lookup] at found

end PointerAnalysis
