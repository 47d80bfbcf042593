import PointerAnalysis.Proofs.Registry
import PointerAnalysis.Rules.View

/-! Canonical numbers and what they stand for. Numbering something new changes no earlier number,
each number stands for one thing and each thing has one number, so facts about numbers and facts
about what they stand for are the same facts. -/
namespace PointerAnalysis.Canon

variable {E : Type} [Coded E]

/-- Every table of the first canon is the beginning of the same table of the second. -/
structure Extends (c c' : Canon E) : Prop where
  contexts : c.contexts.Extends c'.contexts
  objects : c.objects.Extends c'.objects
  contextObjects : c.contextObjects.Extends c'.contextObjects
  pointers : c.pointers.Extends c'.pointers
  methods : c.methods.Extends c'.methods
  callSites : c.callSites.Extends c'.callSites

namespace Extends

theorem refl (c : Canon E) : c.Extends c :=
  ⟨.refl _, .refl _, .refl _, .refl _, .refl _, .refl _⟩

theorem trans {c c' c'' : Canon E} (first : c.Extends c') (second : c'.Extends c'') :
    c.Extends c'' where
  contexts := first.contexts.trans second.contexts
  objects := first.objects.trans second.objects
  contextObjects := first.contextObjects.trans second.contextObjects
  pointers := first.pointers.trans second.pointers
  methods := first.methods.trans second.methods
  callSites := first.callSites.trans second.callSites

end Extends

section Lookup

private theorem lookup_of_extends {α : Type} [Coded α] {kind : Entity} {r r' : Registry α}
    (grown : r.Extends r') {id : Id kind} {a : α} (held : id.lookup r.values = .ok a) :
    id.lookup r'.values = .ok a :=
  Id.lookup_eq_ok_iff.mpr (grown.value? (Id.lookup_eq_ok_iff.mp held))

private theorem lookup_injective {α : Type} [Coded α] {kind : Entity} {r : Registry α}
    {id id' : Id kind} {a : α} (first : id.lookup r.values = .ok a)
    (second : id'.lookup r.values = .ok a) : id = id' :=
  Id.ext (Registry.value?_injective (Id.lookup_eq_ok_iff.mp first) (Id.lookup_eq_ok_iff.mp second))

private theorem lookup_register {α : Type} [Coded α] {kind : Entity} (r : Registry α) (a : α) :
    (⟨(r.register a).2⟩ : Id kind).lookup (r.register a).1.values = .ok a :=
  Id.lookup_eq_ok_iff.mpr (r.value?_register a)

/-- Numbering enters nothing but its own value. -/
private theorem lookup_of_register {α : Type} [Coded α] {kind : Entity} {r : Registry α}
    {id : Id kind} {a b : α} (held : id.lookup (r.register a).1.values = .ok b) :
    id.lookup r.values = .ok b ∨ b = a :=
  (Registry.value?_of_register (Id.lookup_eq_ok_iff.mp held)).imp_left Id.lookup_eq_ok_iff.mpr

variable {c c' : Canon E}

theorem Extends.context_eq (grown : c.Extends c') {id : ContextId} {context : Context E}
    (held : c.context id = .ok context) : c'.context id = .ok context :=
  lookup_of_extends grown.contexts held

theorem Extends.object_eq (grown : c.Extends c') {id : ObjectId} {object : AbstractObject}
    (held : c.object id = .ok object) : c'.object id = .ok object :=
  lookup_of_extends grown.objects held

theorem Extends.contextObject_eq (grown : c.Extends c') {id : ContextObjectId}
    {entry : ContextObject} (held : c.contextObject id = .ok entry) :
    c'.contextObject id = .ok entry :=
  lookup_of_extends grown.contextObjects held

theorem Extends.pointer_eq (grown : c.Extends c') {id : PointerId} {pointer : Pointer}
    (held : c.pointer id = .ok pointer) : c'.pointer id = .ok pointer :=
  lookup_of_extends grown.pointers held

theorem Extends.method_eq (grown : c.Extends c') {id : ContextMethodId} {entry : ContextMethod}
    (held : c.method id = .ok entry) : c'.method id = .ok entry :=
  lookup_of_extends grown.methods held

theorem context_injective {id id' : ContextId} {context : Context E}
    (first : c.context id = .ok context) (second : c.context id' = .ok context) : id = id' :=
  lookup_injective first second

theorem method_injective {id id' : ContextMethodId} {entry : ContextMethod}
    (first : c.method id = .ok entry) (second : c.method id' = .ok entry) : id = id' :=
  lookup_injective first second

theorem Extends.callSite_eq (grown : c.Extends c') {id : ContextCallSiteId}
    {entry : ContextCallSite} (held : c.callSite id = .ok entry) : c'.callSite id = .ok entry :=
  lookup_of_extends grown.callSites held

end Lookup

/-! ### Numbering -/

section Interning

variable (c : Canon E)

theorem extends_internContext (context : Context E) : c.Extends (c.internContext context).1 :=
  { Extends.refl c with contexts := Registry.register_extends _ _ }

theorem context_internContext (context : Context E) :
    (c.internContext context).1.context (c.internContext context).2 = .ok context :=
  lookup_register _ _

theorem extends_internObject (object : AbstractObject) : c.Extends (c.internObject object).1 :=
  { Extends.refl c with objects := Registry.register_extends _ _ }

theorem object_internObject (object : AbstractObject) :
    (c.internObject object).1.object (c.internObject object).2 = .ok object :=
  lookup_register _ _

theorem extends_internContextObject (object : ContextObject) :
    c.Extends (c.internContextObject object).1 :=
  { Extends.refl c with contextObjects := Registry.register_extends _ _ }

theorem contextObject_internContextObject (object : ContextObject) :
    (c.internContextObject object).1.contextObject (c.internContextObject object).2 = .ok object :=
  lookup_register _ _

theorem extends_internPointer (pointer : Pointer) : c.Extends (c.internPointer pointer).1 :=
  { Extends.refl c with pointers := Registry.register_extends _ _ }

theorem pointer_internPointer (pointer : Pointer) :
    (c.internPointer pointer).1.pointer (c.internPointer pointer).2 = .ok pointer :=
  lookup_register _ _

theorem extends_internMethod (method : ContextMethod) : c.Extends (c.internMethod method).1 :=
  { Extends.refl c with methods := Registry.register_extends _ _ }

theorem method_internMethod (method : ContextMethod) :
    (c.internMethod method).1.method (c.internMethod method).2 = .ok method :=
  lookup_register _ _

theorem extends_internCallSite (site : ContextCallSite) : c.Extends (c.internCallSite site).1 :=
  { Extends.refl c with callSites := Registry.register_extends _ _ }

theorem callSite_internCallSite (site : ContextCallSite) :
    (c.internCallSite site).1.callSite (c.internCallSite site).2 = .ok site :=
  lookup_register _ _

variable {c}

theorem context_of_internContext {id : ContextId} {context held : Context E}
    (found : (c.internContext context).1.context id = .ok held) :
    c.context id = .ok held ∨ held = context :=
  lookup_of_register found

theorem object_of_internObject {id : ObjectId} {object held : AbstractObject}
    (found : (c.internObject object).1.object id = .ok held) :
    c.object id = .ok held ∨ held = object :=
  lookup_of_register found

theorem contextObject_of_internContextObject {id : ContextObjectId} {object held : ContextObject}
    (found : (c.internContextObject object).1.contextObject id = .ok held) :
    c.contextObject id = .ok held ∨ held = object :=
  lookup_of_register found

theorem pointer_of_internPointer {id : PointerId} {pointer held : Pointer}
    (found : (c.internPointer pointer).1.pointer id = .ok held) :
    c.pointer id = .ok held ∨ held = pointer :=
  lookup_of_register found

theorem method_of_internMethod {id : ContextMethodId} {method held : ContextMethod}
    (found : (c.internMethod method).1.method id = .ok held) :
    c.method id = .ok held ∨ held = method :=
  lookup_of_register found

theorem callSite_of_internCallSite {id : ContextCallSiteId} {site held : ContextCallSite}
    (found : (c.internCallSite site).1.callSite id = .ok held) :
    c.callSite id = .ok held ∨ held = site :=
  lookup_of_register found

end Interning

/-! ### What numbers stand for -/

variable {c c' : Canon E}

theorem Extends.names (grown : c.Extends c') {id : ContextObjectId} {o : HeapObject E}
    (named : c.Names id o) : c'.Names id o := by
  obtain ⟨entry, found, context, object⟩ := named
  exact ⟨entry, grown.contextObject_eq found, grown.context_eq context, grown.object_eq object⟩

theorem Extends.locates (grown : c.Extends c') {id : PointerId} {l : Location E}
    (located : c.Locates id l) : c'.Locates id l := by
  cases located with
  | var found context => exact .var (grown.pointer_eq found) (grown.context_eq context)
  | field found named => exact .field (grown.pointer_eq found) (grown.names named)

theorem Extends.enters (grown : c.Extends c') {id : ContextMethodId} {context : Context E}
    {m : MethodId} (entered : c.Enters id context m) : c'.Enters id context m := by
  obtain ⟨entry, found, named, same⟩ := entered
  exact ⟨entry, grown.method_eq found, grown.context_eq named, same⟩

theorem Extends.callsAt (grown : c.Extends c') {id : ContextCallSiteId} {context : Context E}
    {site : CallSiteId} (called : c.CallsAt id context site) : c'.CallsAt id context site := by
  obtain ⟨entry, found, named, same⟩ := called
  exact ⟨entry, grown.callSite_eq found, grown.context_eq named, same⟩

private theorem ok_injective {ε α : Type} {x : Except ε α} {a b : α} (first : x = .ok a)
    (second : x = .ok b) : a = b := Except.ok.inj (first.symm.trans second)

theorem Names.unique {id : ContextObjectId} {o o' : HeapObject E} (first : c.Names id o)
    (second : c.Names id o') : o = o' := by
  obtain ⟨entry, found, context, object⟩ := first
  obtain ⟨entry', found', context', object'⟩ := second
  cases ok_injective found found'
  cases o
  cases o'
  cases ok_injective context context'
  cases ok_injective object object'
  rfl

theorem Names.injective {id id' : ContextObjectId} {o : HeapObject E} (first : c.Names id o)
    (second : c.Names id' o) : id = id' := by
  obtain ⟨entry, found, context, object⟩ := first
  obtain ⟨entry', found', context', object'⟩ := second
  have contexts : entry.context = entry'.context := lookup_injective context context'
  have objects : entry.object = entry'.object := lookup_injective object object'
  cases entry
  cases entry'
  cases contexts
  cases objects
  exact lookup_injective found found'

theorem Locates.unique {id : PointerId} {l l' : Location E} (first : c.Locates id l)
    (second : c.Locates id l') : l = l' := by
  cases first with
  | var found context =>
    cases second with
    | var found' context' =>
      cases ok_injective found found'
      cases ok_injective context context'
      rfl
    | field found' named' => cases ok_injective found found'
  | field found named =>
    cases second with
    | var found' context' => cases ok_injective found found'
    | field found' named' =>
      cases ok_injective found found'
      cases named.unique named'
      rfl

theorem Locates.injective {id id' : PointerId} {l : Location E} (first : c.Locates id l)
    (second : c.Locates id' l) : id = id' := by
  cases first with
  | var found context =>
    cases second with
    | var found' context' =>
      cases lookup_injective context context'
      exact lookup_injective found found'
  | field found named =>
    cases second with
    | field found' named' =>
      cases named.injective named'
      exact lookup_injective found found'

theorem Extends.names_back (grown : c.Extends c') {id : ContextObjectId} {o o' : HeapObject E}
    (before : c.Names id o) (after : c'.Names id o') : c.Names id o' :=
  (grown.names before).unique after ▸ before

theorem Extends.locates_back (grown : c.Extends c') {id : PointerId} {l l' : Location E}
    (before : c.Locates id l) (after : c'.Locates id l') : c.Locates id l' :=
  (grown.locates before).unique after ▸ before

theorem Enters.unique {id : ContextMethodId} {context context' : Context E} {m m' : MethodId}
    (first : c.Enters id context m) (second : c.Enters id context' m') :
    context = context' ∧ m = m' := by
  obtain ⟨entry, found, named, rfl⟩ := first
  obtain ⟨entry', found', named', rfl⟩ := second
  cases ok_injective found found'
  exact ⟨ok_injective named named', rfl⟩

theorem Enters.injective {id id' : ContextMethodId} {context : Context E} {m : MethodId}
    (first : c.Enters id context m) (second : c.Enters id' context m) : id = id' := by
  obtain ⟨⟨context, method⟩, found, named, same⟩ := first
  obtain ⟨⟨context', method'⟩, found', named', same'⟩ := second
  cases same
  cases same'
  cases lookup_injective named named'
  exact lookup_injective found found'

theorem CallsAt.unique {id : ContextCallSiteId} {context context' : Context E}
    {site site' : CallSiteId} (first : c.CallsAt id context site)
    (second : c.CallsAt id context' site') : context = context' ∧ site = site' := by
  obtain ⟨entry, found, named, rfl⟩ := first
  obtain ⟨entry', found', named', rfl⟩ := second
  cases ok_injective found found'
  exact ⟨ok_injective named named', rfl⟩

theorem CallsAt.injective {id id' : ContextCallSiteId} {context : Context E} {site : CallSiteId}
    (first : c.CallsAt id context site) (second : c.CallsAt id' context site) : id = id' := by
  obtain ⟨⟨context, site⟩, found, named, same⟩ := first
  obtain ⟨⟨context', site'⟩, found', named', same'⟩ := second
  cases same
  cases same'
  cases lookup_injective named named'
  exact lookup_injective found found'

theorem Extends.enters_back (grown : c.Extends c') {id : ContextMethodId}
    {context context' : Context E} {m m' : MethodId} (before : c.Enters id context m)
    (after : c'.Enters id context' m') : c.Enters id context' m' := by
  obtain ⟨rfl, rfl⟩ := (grown.enters before).unique after
  exact before

theorem Extends.callsAt_back (grown : c.Extends c') {id : ContextCallSiteId}
    {context context' : Context E} {site site' : CallSiteId} (before : c.CallsAt id context site)
    (after : c'.CallsAt id context' site') : c.CallsAt id context' site' := by
  obtain ⟨rfl, rfl⟩ := (grown.callsAt before).unique after
  exact before

/-! ### Listings -/

theorem mem_pointerList {id : PointerId} {pointer : Pointer} :
    (id, pointer) ∈ c.pointerList ↔ c.pointer id = .ok pointer := by
  rw [Canon.pointer, Id.lookup_eq_ok_iff, pointerList, List.mem_map]
  constructor
  · rintro ⟨⟨entry, i⟩, there, same⟩
    cases same
    have here := List.mem_zipIdx_iff_getElem?.mp there
    rwa [← Registry.value?_eq] at here
  · intro held
    refine ⟨(pointer, id.index), List.mem_zipIdx_iff_getElem?.mpr ?_, rfl⟩
    rwa [← Registry.value?_eq]

theorem map_fst_pointerList (c : Canon E) :
    c.pointerList.map Prod.fst = Id.below .pointer c.pointers.toList.length := by
  rw [pointerList, List.map_map, Id.below, List.range_eq_range', ← List.zipIdx_map_snd, List.map_map]
  rfl

theorem map_snd_pointerList (c : Canon E) : c.pointerList.map Prod.snd = c.pointers.toList := by
  rw [pointerList, List.map_map]
  exact List.zipIdx_map_fst ..

theorem nodup_pointerList : (c.pointerList.map Prod.fst).Nodup :=
  c.map_fst_pointerList ▸ Id.nodup_below ..

theorem mem_varPointers {id : PointerId} {context : ContextId} {v : VarId} :
    (id, context, v) ∈ c.varPointers ↔ c.pointer id = .ok (.var context v) := by
  rw [← mem_pointerList, varPointers, List.mem_filterMap]
  constructor
  · rintro ⟨⟨id', pointer⟩, there, same⟩
    cases pointer with
    | var context' v' =>
      cases same
      exact there
    | field object f => cases same
  · exact fun there => ⟨_, there, rfl⟩

end PointerAnalysis.Canon
