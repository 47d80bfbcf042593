import PointerAnalysis.Context.Basic
import PointerAnalysis.Heap

/-! Canonical numbers for everything that is told apart by contexts. Equal pairs of a context and
an entity get one number, so graphs and points-to sets need to hold numbers only. -/
namespace PointerAnalysis

/-- What has a points-to set: a variable under a context of its method, or a field of an object. -/
inductive Pointer where
  | var (context : ContextId) (var : VarId)
  | field (object : ContextObjectId) (field : FieldId)
  deriving DecidableEq

/-- An abstract object under a heap context. -/
structure ContextObject where
  context : ContextId
  object : ObjectId
  deriving DecidableEq

structure ContextMethod where
  context : ContextId
  method : MethodId
  deriving DecidableEq

structure ContextCallSite where
  context : ContextId
  site : CallSiteId
  deriving DecidableEq

instance : Coded Pointer where
  code
    | .var context var => [0, context.index, var.index]
    | .field object field => [1, object.index, field.index]
  code_injective {a b} same := by
    cases a <;> cases b <;> simp_all [Id.ext_iff]

instance : Coded ContextObject where
  code o := code (o.context, o.object)
  code_injective {a b} same := by
    have parts := code_injective same
    cases a
    cases b
    simp_all

instance : Coded ContextMethod where
  code m := code (m.context, m.method)
  code_injective {a b} same := by
    have parts := code_injective same
    cases a
    cases b
    simp_all

instance : Coded ContextCallSite where
  code s := code (s.context, s.site)
  code_injective {a b} same := by
    have parts := code_injective same
    cases a
    cases b
    simp_all

/-- The tables of all numbered contexts, objects, pointers, methods and call sites (`CSManager`). -/
structure Canon (E : Type) [Coded E] where
  contexts : Registry (Context E)
  objects : Registry AbstractObject
  contextObjects : Registry ContextObject
  pointers : Registry Pointer
  methods : Registry ContextMethod
  callSites : Registry ContextCallSite

namespace Canon

variable {E : Type} [Coded E]

def empty : Canon E := ⟨.empty, .empty, .empty, .empty, .empty, .empty⟩

def internContext (c : Canon E) (context : Context E) : Canon E × ContextId :=
  let (contexts, position) := c.contexts.register context
  ({ c with contexts }, ⟨position⟩)

def internObject (c : Canon E) (object : AbstractObject) : Canon E × ObjectId :=
  let (objects, position) := c.objects.register object
  ({ c with objects }, ⟨position⟩)

def internContextObject (c : Canon E) (object : ContextObject) : Canon E × ContextObjectId :=
  let (contextObjects, position) := c.contextObjects.register object
  ({ c with contextObjects }, ⟨position⟩)

def internPointer (c : Canon E) (pointer : Pointer) : Canon E × PointerId :=
  let (pointers, position) := c.pointers.register pointer
  ({ c with pointers }, ⟨position⟩)

def internMethod (c : Canon E) (method : ContextMethod) : Canon E × ContextMethodId :=
  let (methods, position) := c.methods.register method
  ({ c with methods }, ⟨position⟩)

def internCallSite (c : Canon E) (site : ContextCallSite) : Canon E × ContextCallSiteId :=
  let (callSites, position) := c.callSites.register site
  ({ c with callSites }, ⟨position⟩)

/-- The number of a pointer if it has one; asking gives it none. -/
def pointerId? (c : Canon E) (pointer : Pointer) : Option PointerId :=
  (c.pointers.position? pointer).map (⟨·⟩)

def context (c : Canon E) (id : ContextId) : Except UnknownId (Context E) :=
  id.lookup c.contexts.values

def object (c : Canon E) (id : ObjectId) : Except UnknownId AbstractObject :=
  id.lookup c.objects.values

def contextObject (c : Canon E) (id : ContextObjectId) : Except UnknownId ContextObject :=
  id.lookup c.contextObjects.values

def pointer (c : Canon E) (id : PointerId) : Except UnknownId Pointer :=
  id.lookup c.pointers.values

def method (c : Canon E) (id : ContextMethodId) : Except UnknownId ContextMethod :=
  id.lookup c.methods.values

def callSite (c : Canon E) (id : ContextCallSiteId) : Except UnknownId ContextCallSite :=
  id.lookup c.callSites.values

/-- All pointers with their numbers, in the order of these. -/
def pointerList (c : Canon E) : List (PointerId × Pointer) :=
  c.pointers.toList.zipIdx.map fun entry => (⟨entry.2⟩, entry.1)

/-- All variables under contexts, in the order of their numbers. -/
def varPointers (c : Canon E) : List (PointerId × ContextId × VarId) :=
  c.pointerList.filterMap fun entry =>
    match entry.2 with
    | .var context var => some (entry.1, context, var)
    | .field .. => none

/-- All fields of objects, in the order of their numbers. -/
def fieldPointers (c : Canon E) : List (PointerId × ContextObjectId × FieldId) :=
  c.pointerList.filterMap fun entry =>
    match entry.2 with
    | .var .. => none
    | .field object field => some (entry.1, object, field)

/-- The sizes of all tables. -/
def summary (c : Canon E) : String :=
  "CSManager \x7b contexts: " ++ toString c.contexts.size
    ++ ", objs: " ++ toString c.objects.size
    ++ ", cs_objs: " ++ toString c.contextObjects.size
    ++ ", pointers: " ++ toString c.pointers.size
    ++ ", cs_methods: " ++ toString c.methods.size
    ++ ", cs_callsites: " ++ toString c.callSites.size ++ " \x7d"

end Canon

end PointerAnalysis
