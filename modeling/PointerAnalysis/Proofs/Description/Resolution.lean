import PointerAnalysis.Description.Link
import PointerAnalysis.Proofs.Program.Builder

/-! What names stand for while bodies are read. Reading a body adds statements, variables, fields and
sites; classes and what methods declare stay, so a name of a class or a method stands for the same
thing from the first body to the last entry. -/
namespace PointerAnalysis

/-- A method without its statements and returned variables. -/
def Method.header (m : Method) : Method := { m with returns := [], body := #[] }

namespace Program

/-- A search sees nothing of a program but its classes. -/
theorem searchChain_congr {α : Type} {p p' : Program} (types : p'.types = p.types)
    (visit : TypeDecl → Except UnknownId (Option α)) (steps : Nat) (current : Option TypeId) :
    p'.searchChain visit steps current = p.searchChain visit steps current := by
  induction steps generalizing current with
  | zero => cases current <;> rfl
  | succ steps ih =>
    cases current with
    | none => rfl
    | some t => simp only [searchChain, Program.type, types, ih]

theorem lookupMethod_congr {p p' : Program} (types : p'.types = p.types) (t : TypeId)
    (s : Signature) : p'.lookupMethod t s = p.lookupMethod t s := by
  unfold lookupMethod
  rw [searchChain_congr types, types]

/-- A lookup finds declared methods with the signature asked for. -/
theorem Coherent.lookupMethod_ok {p : Program} (coherent : p.Coherent) {t : TypeId}
    {type : TypeDecl} (known : p.type t = .ok type) (s : Signature) :
    ∃ answer, p.lookupMethod t s = .ok answer ∧
      ∀ m, answer = some m → ∃ method, p.method m = .ok method ∧ method.signature = s := by
  refine coherent.searchChain_ok ?_ _ fun t' same => ⟨type, Option.some.inj same ▸ known⟩
  intro t type found
  exact ⟨_, rfl, fun m declared => coherent.declares?_known found declared⟩

end Program

namespace Builder

/-- A later builder knows the same classes and methods. Bodies, variables, fields and sites may have
been added. -/
structure Later (b b' : Builder) : Prop where
  types : b'.program.types = b.program.types
  typeNames : b'.typeNames = b.typeNames
  headers : b'.program.methods.map Method.header = b.program.methods.map Method.header
  varNames : b.varNames.Extends b'.varNames
  fieldNames : b.fieldNames.Extends b'.fieldNames
  calls : ∀ {site call}, b.program.callSite site = .ok call → b'.program.callSite site = .ok call

namespace Later

theorem refl (b : Builder) : b.Later b := ⟨rfl, rfl, rfl, .refl _, .refl _, id⟩

theorem trans {b b' b'' : Builder} (first : b.Later b') (second : b'.Later b'') : b.Later b'' where
  types := second.types.trans first.types
  typeNames := second.typeNames.trans first.typeNames
  headers := second.headers.trans first.headers
  varNames := first.varNames.trans second.varNames
  fieldNames := first.fieldNames.trans second.fieldNames
  calls found := second.calls (first.calls found)

variable {b b' : Builder} (later : b.Later b')
include later

theorem varNamed {m : MethodId} {name : String} {v : VarId} (named : b.VarNamed m name v) :
    b'.VarNamed m name v := later.varNames.value? named

theorem fieldNamed {name : String} {f : FieldId} (named : b.FieldNamed name f) :
    b'.FieldNamed name f := later.fieldNames.value? named

/-- What a method declares it declares for good. -/
theorem method_header {m : MethodId} {method : Method} (found : b.program.method m = .ok method) :
    ∃ method', b'.program.method m = .ok method' ∧ method'.header = method.header := by
  have here := congrArg (·[m.index]?) later.headers
  simp only [Array.getElem?_map, Id.lookup_eq_ok_iff.mp found, Option.map_some,
    Option.map_eq_some_iff] at here
  obtain ⟨method', found', same⟩ := here
  exact ⟨method', Id.lookup_eq_ok_iff.mpr found', same⟩

theorem resolveType (name : String) : b'.resolveType name = b.resolveType name := by
  simp only [Builder.resolveType, typeId?, later.typeNames]

theorem maxArity : b'.maxArity = b.maxArity := by
  have headers (table : Array Method) :
      table.foldl (fun most method => max most method.params.length) 0 =
        (table.map Method.header).foldl (fun most method => max most method.params.length) 0 := by
    rw [Array.foldl_map]
    rfl
  unfold Builder.maxArity
  rw [headers, later.headers, ← headers]

theorem resolveMethod (qualified : String) (arity : Option Nat) :
    b'.resolveMethod qualified arity = b.resolveMethod qualified arity := by
  have visible : b'.findVisible? = b.findVisible? := by
    funext t name arities
    simp only [findVisible?, Program.lookupMethod_congr later.types]
  unfold Builder.resolveMethod
  simp only [later.resolveType, later.maxArity, visible]

end Later

/-! ### What is found -/

variable {b : Builder}

theorem resolveType_ok {name : String} {t : TypeId} (sound : b.Sound)
    (resolved : b.resolveType name = .ok t) : ∃ type, b.program.type t = .ok type := by
  unfold resolveType at resolved
  split at resolved
  · next id named =>
    cases resolved
    exact sound.types named
  · cases resolved

theorem findVisible?_known (sound : b.Sound) {t : TypeId} {type : TypeDecl}
    (known : b.program.type t = .ok type) {name : String} {arities : List Nat} {m : MethodId}
    (found : b.findVisible? t name arities = some m) :
    ∃ arity ∈ arities, ∃ method, b.program.method m = .ok method ∧
      method.signature = ⟨name, arity⟩ := by
  obtain ⟨arity, tried, found⟩ := List.exists_of_findSome?_eq_some found
  obtain ⟨answer, looked, good⟩ := sound.coherent.lookupMethod_ok known ⟨name, arity⟩
  rw [looked] at found
  exact ⟨arity, tried, good m found⟩

/-- A method found by name takes one of the numbers of parameters that were tried. -/
theorem resolveMethod_ok {qualified : String} {arity : Option Nat} {m : MethodId}
    (sound : b.Sound) (resolved : b.resolveMethod qualified arity = .ok m) :
    ∃ method, b.program.method m = .ok method ∧ ∀ n, arity = some n → method.params.length = n := by
  unfold resolveMethod at resolved
  split at resolved
  · next name _ =>
    obtain ⟨t, named, resolved⟩ := bind_eq_ok_iff.mp resolved
    obtain ⟨type, known⟩ := resolveType_ok sound named
    dsimp only at resolved
    split at resolved
    · next id visible =>
      cases resolved
      obtain ⟨arity', tried, method, found, signature⟩ := findVisible?_known sound known visible
      refine ⟨method, found, fun n same => ?_⟩
      subst same
      rw [List.mem_singleton.mp tried] at signature
      exact congrArg Signature.arity signature
    · cases resolved
  · cases resolved

end Builder

end PointerAnalysis
