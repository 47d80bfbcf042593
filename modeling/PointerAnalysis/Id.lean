import Std.Data.TreeMap

/-! Numbered entities. Everything an analysis talks about is counted from zero, each kind on its
own, so a number carries the kind it counts and numbers of different kinds never mix. -/
namespace PointerAnalysis

/-- The kinds of things that are numbered. -/
inductive Entity where
  | type
  | field
  | method
  | var
  | callSite
  | allocSite
  | object
  | context
  | pointer
  | contextObject
  | contextMethod
  | contextCallSite
  deriving DecidableEq

/-- The word that stands before a number in printed text. -/
def Entity.word : Entity → String
  | .type => "TypeId"
  | .field => "FieldId"
  | .method => "MethodId"
  | .var => "VarId"
  | .callSite => "CallSiteId"
  | .allocSite => "AllocSiteId"
  | .object => "ObjId"
  | .context => "ContextId"
  | .pointer => "PointerId"
  | .contextObject => "CSObjId"
  | .contextMethod => "CSMethodId"
  | .contextCallSite => "CSCallSiteId"

/-- The number of one entity of a kind. There is no largest one: where numbers have 32 bits, a store is as
described here as long as none of its tables has more than `2 ^ 32` entries. -/
structure Id (kind : Entity) where
  index : Nat
  deriving DecidableEq

namespace Id

variable {kind : Entity}

/-- The printed form: the word of the kind with the number in parentheses. -/
def text (id : Id kind) : String :=
  kind.word ++ "(" ++ toString id.index ++ ")"

@[ext] theorem ext {a b : Id kind} (same : a.index = b.index) : a = b := by
  cases a
  cases b
  cases same
  rfl

/-- Ids are ordered by their numbers. -/
instance : Ord (Id kind) where
  compare := compareOn index

instance : Std.TransOrd (Id kind) :=
  inferInstanceAs (Std.TransCmp (compareOn index))

instance : Std.LawfulEqOrd (Id kind) where
  compare_self {a} := by
    have self : compare a.index a.index = .eq := Std.ReflCmp.compare_self
    exact self
  eq_of_compare {a b} same := by
    have numbers : compare a.index b.index = .eq := same
    exact ext (Std.LawfulEqCmp.eq_of_compare numbers)

end Id

abbrev TypeId := Id .type
abbrev FieldId := Id .field
abbrev MethodId := Id .method
abbrev VarId := Id .var
abbrev CallSiteId := Id .callSite
abbrev AllocSiteId := Id .allocSite
abbrev ObjectId := Id .object
abbrev ContextId := Id .context
abbrev PointerId := Id .pointer
abbrev ContextObjectId := Id .contextObject
abbrev ContextMethodId := Id .contextMethod
abbrev ContextCallSiteId := Id .contextCallSite

/-- A reference to an entity that was never declared. -/
structure UnknownId where
  kind : Entity
  index : Nat
  deriving DecidableEq

/-- The entry a table holds for `id`; a number past its end is an unknown id. -/
def Id.lookup {kind : Entity} {α : Type} (id : Id kind) (table : Array α) : Except UnknownId α :=
  match table[id.index]? with
  | some entry => .ok entry
  | none => .error ⟨kind, id.index⟩

end PointerAnalysis
