import PointerAnalysis.Id

/-! Registries give equal values one number and different values different numbers, counted in
the order in which the values were first entered. The invariant is part of the type: the index
and the list of values always say the same, so a lookup undoes a registration for ever. -/
namespace PointerAnalysis

/-- Values that a list of numbers tells apart; registries are sorted by it. -/
class Coded (α : Type) where
  code : α → List Nat
  code_injective : ∀ {a b : α}, code a = code b → a = b

export Coded (code code_injective)

namespace Coded

instance : Coded Unit where
  code _ := []
  code_injective _ := rfl

instance {kind : Entity} : Coded (Id kind) where
  code id := [id.index]
  code_injective same := Id.ext (List.cons.inj same).1

instance : Coded String where
  code s := s.toList.map Char.toNat
  code_injective {a b} same := by
    have chars : a.toList = b.toList :=
      List.map_inj_right (fun _ _ => Char.toNat_inj.mp) |>.mp same
    exact String.toList_inj.mp chars

/-- Each part is preceded by the length of its code, so the parts can be read back. -/
def framed (part : List Nat) : List Nat := part.length :: part

theorem framed_append_inj {a b c d : List Nat} (same : framed a ++ c = framed b ++ d) :
    a = b ∧ c = d := by
  simp only [framed, List.cons_append, List.cons.injEq] at same
  exact List.append_inj same.2 same.1

instance {α β : Type} [Coded α] [Coded β] : Coded (α × β) where
  code p := framed (code p.1) ++ code p.2
  code_injective {a b} same := by
    have parts := framed_append_inj same
    exact Prod.ext (code_injective parts.1) (code_injective parts.2)

instance {α : Type} [Coded α] : Coded (Option α) where
  code
    | none => []
    | some a => 1 :: code a
  code_injective {a b} same := by
    cases a <;> cases b <;> simp_all
    exact code_injective same

instance {α : Type} [Coded α] : Coded (List α) where
  code l := l.flatMap fun a => framed (code a)
  code_injective {a b} same := by
    induction a generalizing b with
    | nil => cases b <;> simp_all [framed]
    | cons x xs ih =>
      cases b with
      | nil => simp [framed] at same
      | cons y ys =>
        simp only [List.flatMap_cons] at same
        have parts := framed_append_inj same
        rw [code_injective parts.1, ih parts.2]

end Coded

/-- Distinct values in the order of their first entry, with an index from value to position (`Interner`). -/
structure Registry (α : Type) [Coded α] where
  values : Array α
  positions : Std.TreeMap (List Nat) Nat
  agrees : ∀ a i, positions[code a]? = some i ↔ values[i]? = some a

namespace Registry

variable {α : Type} [Coded α]

def empty : Registry α where
  values := #[]
  positions := ∅
  agrees := by simp

instance : Inhabited (Registry α) := ⟨empty⟩

/-- How many values have been entered. -/
def size (r : Registry α) : Nat := r.values.size

/-- The value entered as number `i`. -/
def value? (r : Registry α) (i : Nat) : Option α := r.values[i]?

/-- The number of a value, if it has been entered (`get`). -/
def position? (r : Registry α) (a : α) : Option Nat := r.positions[code a]?

/-- The number of a value, or how many there are if it is not one of them. -/
def idxOf (r : Registry α) (a : α) : Nat := (r.position? a).getD r.size

def contains (r : Registry α) (a : α) : Bool := (r.position? a).isSome

/-- The values in the order of their numbers. -/
def toList (r : Registry α) : List α := r.values.toList

/-- The number of a value, which is entered behind all others unless it is known (`intern`). -/
def register (r : Registry α) (a : α) : Registry α × Nat :=
  match known : r.positions[code a]? with
  | some i => (r, i)
  | none =>
    ({ values := r.values.push a
       positions := r.positions.insert (code a) r.values.size
       agrees := by
        intro b i
        have absent : ∀ j, r.values[j]? ≠ some a := fun j there => by
          rw [(r.agrees a j).mpr there] at known
          cases known
        rw [Std.TreeMap.getElem?_insert, Array.getElem?_push]
        by_cases same : b = a
        · subst same
          simp only [Std.LawfulEqCmp.compare_eq_iff_eq, ↓reduceIte, Option.some.injEq]
          by_cases last : i = r.values.size
          · simp [last]
          · simp only [last, ↓reduceIte, absent i, iff_false]
            exact fun h => last h.symm
        · have codes : code a ≠ code b := fun h => same (code_injective h).symm
          simp only [Std.LawfulEqCmp.compare_eq_iff_eq, codes, ↓reduceIte, r.agrees b i]
          by_cases last : i = r.values.size
          · simp [last, Ne.symm same]
          · simp [last] },
     r.values.size)

/-- How many values have been entered, in words. -/
def summary (r : Registry α) : String := "Interner(" ++ toString r.size ++ " keys)"

/-- The distinct values of a list in the order of their first occurrence. -/
def ofList (l : List α) : Registry α := l.foldl (fun r a => (r.register a).1) empty

theorem position?_eq_some_iff {r : Registry α} {a : α} {i : Nat} :
    r.position? a = some i ↔ r.value? i = some a :=
  r.agrees a i

theorem register_of_known {r : Registry α} {a : α} {i : Nat} (known : r.position? a = some i) :
    r.register a = (r, i) := by
  unfold register
  split
  · next j found =>
    rw [position?, found] at known
    cases known
    rfl
  · next fresh =>
    rw [position?, fresh] at known
    cases known

theorem register_of_fresh {r : Registry α} {a : α} (fresh : r.position? a = none) :
    (r.register a).1.values = r.values.push a ∧ (r.register a).2 = r.size := by
  unfold register
  split
  · next i found =>
    rw [position?, found] at fresh
    cases fresh
  · exact ⟨rfl, rfl⟩

/-- A registered value is found under the number it was given. -/
theorem value?_register (r : Registry α) (a : α) :
    (r.register a).1.value? (r.register a).2 = some a := by
  cases known : r.position? a with
  | some i =>
    rw [register_of_known known]
    exact position?_eq_some_iff.mp known
  | none =>
    have pushed := register_of_fresh known
    simp [value?, pushed.1, pushed.2, size]

/-- Registering never renumbers: what a number stood for it stands for afterwards. -/
theorem value?_register_of_value? {r : Registry α} {i : Nat} {b : α} (a : α)
    (held : r.value? i = some b) : (r.register a).1.value? i = some b := by
  cases known : r.position? a with
  | some j => rwa [register_of_known known]
  | none =>
    have inside : i < r.values.size := (Array.getElem?_eq_some_iff.mp held).1
    rw [value?, (register_of_fresh known).1, Array.getElem?_push_lt inside]
    rw [← held, value?, Array.getElem?_eq_getElem inside]

end Registry

end PointerAnalysis
