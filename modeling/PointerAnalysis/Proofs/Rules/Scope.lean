import PointerAnalysis.Proofs.Program.Coherent

/-! Derivable facts stay inside the program: they speak of declared methods, variables, classes and
call sites only, and the calls among them pass as many arguments as their callees take. -/
namespace PointerAnalysis

/-- Every object has the class that its allocation names. -/
def HeapModel.Typed (heap : HeapModel) : Prop :=
  ∀ {site type m o}, heap site type m = .ok o → o.type = type

namespace HeapModel

theorem perSite_typed : perSite.Typed := by
  intro site type m o made
  cases made
  rfl

theorem perType_typed : perType.Typed := by
  intro site type m o made
  cases made
  rfl

end HeapModel

/-- An analysis of a coherent program under a heap model that keeps classes. -/
structure Analysis.Coherent {E : Type} (a : Analysis E) : Prop where
  program : a.program.Coherent
  heap : a.heap.Typed

variable {E : Type}

/-- What holds objects is declared. -/
def Location.Scoped (p : Program) : Location E → Prop
  | .var _ v => ∃ var, p.var v = .ok var
  | .field o f => (∃ type, p.type o.object.type = .ok type) ∧ ∃ name, p.field f = .ok name

def Fact.Scoped (p : Program) : Fact E → Prop
  | .reached _ m => ∃ method, p.method m = .ok method
  | .calls _ site _ callee => ∃ call, p.callSite site = .ok call ∧ p.Takes callee call
  | .flows source target _ => source.Scoped p ∧ target.Scoped p
  | .holds location o => location.Scoped p ∧ ∃ type, p.type o.object.type = .ok type

theorem Program.Owns.known {p : Program} {m : MethodId} {v : VarId} (owns : p.Owns m v) :
    ∃ var, p.var v = .ok var := by
  obtain ⟨var, found, _⟩ := owns
  exact ⟨var, found⟩

/-- Every rule leads from declared things to declared things. -/
theorem Analysis.Derives.scoped {a : Analysis E} (coherent : a.Coherent) {f : Fact E}
    (derived : a.Derives f) : f.Scoped a.program := by
  have program := coherent.program
  induction derived with
  | entry listed => exact program.entry_known listed
  | alloc reached statement made ih =>
    obtain ⟨target, type⟩ := program.statements_scoped statement
    rw [← coherent.heap made] at type
    exact ⟨target.known, type⟩
  | assign reached statement ih =>
    obtain ⟨target, source⟩ := program.statements_scoped statement
    exact ⟨source.known, target.known⟩
  | store held statement ih =>
    obtain ⟨base, source, field⟩ := program.statements_scoped statement
    exact ⟨source.known, ih.2, field⟩
  | load held statement ih =>
    obtain ⟨target, base, field⟩ := program.statements_scoped statement
    exact ⟨⟨ih.2, field⟩, target.known⟩
  | call reached statement enters ih => exact program.takes_of_entersAlone enters
  | receiverCall held found receiver enters ih =>
    obtain ⟨type, declared⟩ := ih.2
    exact program.takes_of_entersOn declared enters
  | this held found receiver enters known named ih =>
    exact ⟨((program.methods known).this_owned named).known, ih.2⟩
  | callee called ih =>
    obtain ⟨call, found, method, known, _⟩ := ih
    exact ⟨method, known⟩
  | param called found known placed ih =>
    obtain ⟨argument, param⟩ := List.of_mem_zip placed
    exact ⟨((program.calls found).args_owned _ argument).known, ((program.methods known).params_owned _ param).known⟩
  | «return» called found known listed named ih =>
    exact ⟨((program.methods known).returns_owned _ listed).known, ((program.calls found).result_owned named).known⟩
  | flow flows held ihFlows ihHeld => exact ⟨ihFlows.2, ihHeld.2⟩

end PointerAnalysis
