import PointerAnalysis.Rules.Basic

/-! How programs run. A machine is a heap and a stack of frames; in each step the frame on top carries
out any statement of its method, or ends. Statements may be taken in any order and any number of
times, so every real order of them is among the executions. -/
namespace PointerAnalysis.Execution

/-- An object of a running program, with the allocation that made it. -/
structure Object where
  site : AllocSiteId
  type : TypeId
  /-- The method of the frame that made it. -/
  method : MethodId
  /-- The number of that frame. -/
  frame : Nat

/-- A method that is being carried out. Variables hold addresses of objects or nothing. -/
structure Frame where
  number : Nat
  method : MethodId
  locals : VarId → Option Nat

def Frame.set (frame : Frame) (v : VarId) (value : Option Nat) : Frame :=
  { frame with locals := fun w => if w = v then value else frame.locals w }

structure Machine where
  /-- The objects made so far; an address is a place in this list. -/
  objects : List Object
  fields : Nat → FieldId → Option Nat
  top : Frame
  /-- The frames below, each at the call that it waits for, the latest first. -/
  callers : List (CallSiteId × Frame)
  /-- How many frames there have been. -/
  frames : Nat

namespace Machine

/-- Nothing but a frame of a method, in which every variable is null. -/
def init (m : MethodId) : Machine := ⟨[], fun _ _ => none, ⟨0, m, fun _ => none⟩, [], 1⟩

def setLocal (machine : Machine) (v : VarId) (value : Option Nat) : Machine :=
  { machine with top := machine.top.set v value }

/-- Puts a new object of a class into a variable. -/
def make (machine : Machine) (site : AllocSiteId) (type : TypeId) (target : VarId) : Machine :=
  { machine with
    objects := machine.objects ++ [⟨site, type, machine.top.method, machine.top.number⟩]
    top := machine.top.set target (some machine.objects.length) }

def setField (machine : Machine) (address : Nat) (f : FieldId) (value : Option Nat) : Machine :=
  { machine with
    fields := fun other g => if other = address ∧ g = f then value else machine.fields other g }

/-- Puts a frame for a method on top. -/
def enter (machine : Machine) (site : CallSiteId) (callee : MethodId) (locals : VarId → Option Nat) :
    Machine :=
  { machine with
    top := ⟨machine.frames, callee, locals⟩
    callers := (site, machine.top) :: machine.callers
    frames := machine.frames + 1 }

/-- What the parameters of a method are bound to by a call in the frame on top. -/
def arguments (machine : Machine) (call : CallSite) (method : Method) :
    List (VarId × Option Nat) :=
  (call.args.zip method.params).map fun (argument, param) => (param, machine.top.locals argument)

/-- Goes on in a caller. -/
def resume (machine : Machine) (caller : Frame) (callers : List (CallSiteId × Frame)) : Machine :=
  { machine with top := caller, callers }

/-- All frames, the latest first. -/
def stack (machine : Machine) : List Frame := machine.top :: machine.callers.map (·.2)

end Machine

/-- The calls that are being carried out below a frame of a method: caller, site and callee. -/
def activeCalls (callee : MethodId) : List (CallSiteId × Frame) → List (MethodId × CallSiteId × MethodId)
  | [] => []
  | (site, caller) :: callers => (caller.method, site, callee) :: activeCalls caller.method callers

/-- Variables that are bound hold what they are bound to, and all others are null. Of a variable that is
bound more than once, as two parameters of one name are, any binding may count. -/
def Binds (bound : List (VarId × Option Nat)) (locals : VarId → Option Nat) : Prop :=
  ∀ v, (v, locals v) ∈ bound ∨ locals v = none ∧ ∀ value, (v, value) ∉ bound

/-- The first binding of each variable is a choice. -/
theorem binds_lookup (bound : List (VarId × Option Nat)) : Binds bound fun v => (bound.lookup v).join := by
  intro v
  dsimp only
  cases found : bound.lookup v with
  | none =>
    refine .inr ⟨rfl, fun value there => ?_⟩
    simpa using List.lookup_eq_none_iff.mp found _ there
  | some value =>
    obtain ⟨before, after, rfl, _⟩ := List.lookup_eq_some_iff.mp found
    exact .inl (List.mem_append_right before List.mem_cons_self)

/-- One step of an execution. -/
inductive Step (p : Program) (M : Machine) : Machine → Prop where
  | alloc {target : VarId} {site : AllocSiteId} {type : TypeId} :
      p.Has M.top.method (.alloc target site type) →
      Step p M (M.make site type target)
  | assign {target source : VarId} :
      p.Has M.top.method (.assign target source) →
      Step p M (M.setLocal target (M.top.locals source))
  | load {target base : VarId} {field : FieldId} {address : Nat} :
      p.Has M.top.method (.load target base field) → M.top.locals base = some address →
      Step p M (M.setLocal target (M.fields address field))
  | store {base source : VarId} {field : FieldId} {address : Nat} :
      p.Has M.top.method (.store base field source) → M.top.locals base = some address →
      Step p M (M.setField address field (M.top.locals source))
  | call {site : CallSiteId} {call : CallSite} {callee : MethodId} {method : Method}
      {locals : VarId → Option Nat} :
      p.Has M.top.method (.call site) → p.callSite site = .ok call →
      p.EntersAlone site callee → p.method callee = .ok method →
      Binds (M.arguments call method) locals → Step p M (M.enter site callee locals)
  /-- A call on an object enters the method that the class of the object decides on. -/
  | receiverCall {site : CallSiteId} {call : CallSite} {x : VarId} {address : Nat} {o : Object}
      {callee : MethodId} {method : Method} {locals : VarId → Option Nat} :
      p.Has M.top.method (.call site) → p.callSite site = .ok call → call.receiver = some x →
      M.top.locals x = some address → M.objects[address]? = some o →
      p.EntersOn site o.type callee → p.method callee = .ok method →
      Binds (method.this.toList.map (·, some address) ++ M.arguments call method) locals →
      Step p M (M.enter site callee locals)
  /-- A frame ends and any variable that its method returns is the result of the call. -/
  | return {site : CallSiteId} {call : CallSite} {caller : Frame}
      {callers : List (CallSiteId × Frame)} {method : Method} {returned result : VarId} :
      M.callers = (site, caller) :: callers → p.callSite site = .ok call →
      call.result = some result → p.method M.top.method = .ok method →
      returned ∈ method.returns →
      Step p M (M.resume (caller.set result (M.top.locals returned)) callers)
  /-- A frame ends without a result. -/
  | leave {site : CallSiteId} {caller : Frame} {callers : List (CallSiteId × Frame)} :
      M.callers = (site, caller) :: callers → Step p M (M.resume caller callers)

/-- The machines that an execution can come to from an entry of the program. -/
inductive Reachable (p : Program) : Machine → Prop where
  | entry {m : MethodId} : m ∈ p.entries → Reachable p (.init m)
  | step {M M' : Machine} : Reachable p M → Step p M M' → Reachable p M'

end PointerAnalysis.Execution
