import PointerAnalysis.Registry

/-! Abstract objects: what an analysis takes the objects of a running program for. A heap model
says which one stands for the objects of an allocation site. -/
namespace PointerAnalysis

/-- An abstract object. Without a site it stands for all objects of its class. -/
structure AbstractObject where
  site : Option AllocSiteId
  type : TypeId
  /-- The method that holds the allocation. -/
  container : Option MethodId
  deriving DecidableEq

instance : Coded AbstractObject where
  code o := code (o.site, o.type, o.container)
  code_injective {a b} same := by
    have parts := code_injective same
    cases a
    cases b
    simp_all

/-- A heap model has no object for an allocation site. -/
structure HeapRefusal where
  site : AllocSiteId

def HeapRefusal.message (refusal : HeapRefusal) : String :=
  "no object for " ++ refusal.site.text

/-- The object for an allocation of a class at a site of a method. -/
abbrev HeapModel := AllocSiteId → TypeId → MethodId → Except HeapRefusal AbstractObject

namespace HeapModel

/-- One object for each allocation site (`AllocationSiteHeapModel`). -/
def perSite : HeapModel := fun site type container => .ok ⟨some site, type, some container⟩

/-- One object for each class, whatever the site (`TypeBasedHeapModel`). -/
def perType : HeapModel := fun _ type _ => .ok ⟨none, type, none⟩

/-- A model that has no object for one of the sites. -/
def without (model : HeapModel) (refused : AllocSiteId) : HeapModel :=
  fun site type container =>
    if site = refused then .error ⟨site⟩ else model site type container

end HeapModel

end PointerAnalysis
