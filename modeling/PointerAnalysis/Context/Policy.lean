import PointerAnalysis.Context.Basic
import PointerAnalysis.Heap

/-! Context policies: how the context of an object follows from that of the allocating method, and
the context of a callee from those of the caller and the receiver. Every policy starts entry
methods in the empty context. -/
namespace PointerAnalysis

/-- A way of choosing contexts, where `O` names abstract objects and `E` is what contexts are made of
(`ContextSelector`). -/
structure ContextPolicy (O E : Type) where
  /-- No context is longer. -/
  depth : Nat
  /-- The context of an object, from that of the method that allocates it. -/
  heap : Context E → Context E
  /-- The context of a callee without receiver, from that of the caller and the call site. -/
  call : Context E → CallSiteId → Context E
  /-- The context of a callee on a receiver object, from that of the caller, the call site, the
  context of the receiver and the receiver itself. -/
  receiverCall : Context E → CallSiteId → Context E → O → Context E
  /-- The printed form of an element, given the numbers of the objects. -/
  label : (O → ObjectId) → E → String

namespace ContextPolicy

variable {O : Type}

/-- All methods and objects share the empty context (`ContextInsensitive`). -/
def insensitive : ContextPolicy O Unit where
  depth := 0
  heap _ := []
  call _ _ := []
  receiverCall _ _ _ _ := []
  label _ _ := "()"

/-- Methods are told apart by their last `k` call sites, objects by one fewer (`KCallSiteSensitive`). -/
def callSite (k : Nat) : ContextPolicy O CallSiteId where
  depth := k
  heap c := c.truncate (k - 1)
  call c site := c.push k site
  receiverCall c site _ _ := c.push k site
  label _ site := site.text

/-- Methods are told apart by the last `k` receivers, objects by one fewer (`KObjectSensitive`). A call
without receiver stays in the context of its caller. -/
def object (k : Nat) : ContextPolicy O O where
  depth := k
  heap c := c.truncate (k - 1)
  call c _ := c
  receiverCall _ _ receiverContext receiver := receiverContext.push k receiver
  label number o := (number o).text

end ContextPolicy

end PointerAnalysis
