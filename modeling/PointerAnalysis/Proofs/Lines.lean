import Mathlib.Data.List.Basic
import PointerAnalysis.Proofs.Quoted

/-! Texts that are made of lines, and decimal numbers in them. Lines that hold no line break of their own fall
apart again where they were put together, and a number is read up to the first character that is no digit. -/
namespace PointerAnalysis.Text

/-! ### Numbers -/

/-- Reads a decimal number, and what follows it. -/
def readNumber (line : List Char) : Nat × List Char :=
  (readDigits 10 0 (line.takeWhile Char.isDigit), line.dropWhile Char.isDigit)

theorem isDigit_of_mem_toString {n : Nat} {d : Char} (there : d ∈ (toString n).toList) : d.isDigit = true :=
  Nat.isDigit_of_mem_toDigits (by decide) (by decide) (Nat.toList_repr ▸ there)

/-- A number is read back if no digit follows it. -/
theorem readNumber_toString (n : Nat) (rest : List Char) (stops : ∀ c ∈ rest.head?, ¬ c.isDigit) :
    readNumber ((toString n).toList ++ rest) = (n, rest) := by
  have digits : ∀ d ∈ (toString n).toList, d.isDigit = true := fun _ => isDigit_of_mem_toString
  have taken : rest.takeWhile Char.isDigit = [] ∧ rest.dropWhile Char.isDigit = rest := by
    cases rest with
    | nil => exact ⟨rfl, rfl⟩
    | cons c rest =>
      have stop : ¬ c.isDigit = true := stops c rfl
      exact ⟨List.takeWhile_cons_of_neg stop, List.dropWhile_cons_of_neg stop⟩
  rw [readNumber, List.takeWhile_append_of_pos digits, List.dropWhile_append_of_pos digits, taken.1, taken.2,
    List.append_nil, Nat.toString_eq_repr, Nat.toList_repr, readDigits_toDigits (by decide) (by decide)]

theorem newline_not_mem_toString (n : Nat) : '\n' ∉ (toString n).toList := fun there =>
  absurd (isDigit_of_mem_toString there) (by decide)

/-! ### Lines -/

theorem dropPrefix?_append (front rest : List Char) : (front ++ rest).dropPrefix? front = some rest :=
  List.dropPrefix?_append_of_beq rest (beq_self_eq_true front)

/-- Lines that are put behind one another fall apart again. -/
theorem splitOn_lines {lines : List (List Char)} (single : ∀ line ∈ lines, '\n' ∉ line) :
    (lines.flatMap (· ++ ['\n'])).splitOn '\n' = lines ++ [[]] := by
  induction lines with
  | nil => rfl
  | cons line lines ih =>
    obtain ⟨first, others⟩ := List.forall_mem_cons.mp single
    rw [List.flatMap_cons, List.append_assoc, List.singleton_append,
      List.splitOn_append_cons_self_of_not_mem first, ih others, List.cons_append]

end PointerAnalysis.Text
