import PointerAnalysis.Text.Quoted

/-! Quoted text can be read back. A reader that goes through it character by character finds the closing
quote, whatever stands between the quotes and behind them, and has the string that was quoted by then. Of
what cannot be seen, line breaks among them, nothing is left between quotes. -/
namespace PointerAnalysis.Text

/-! ### Numbers -/

/-- The number that a digit stands for. -/
def digitValue (c : Char) : Nat := if c.isDigit then c.toNat - '0'.toNat else c.toNat - 'a'.toNat + 10

/-- A number, with these digits put behind its own. -/
def readDigits (base n : Nat) (digits : List Char) : Nat :=
  digits.foldl (fun n c => base * n + digitValue c) n

theorem digitValue_digitChar : ∀ d < 16, digitValue d.digitChar = d := by
  decide

theorem readDigits_toDigits {base : Nat} (two : 1 < base) (sixteen : base ≤ 16) (n : Nat) :
    readDigits base 0 (Nat.toDigits base n) = n := by
  have digit {d : Nat} (small : d < base) (front : Nat) :
      readDigits base front (Nat.toDigits base d) = base * front + d := by
    rw [Nat.toDigits_of_lt_base small, readDigits, List.foldl_cons, List.foldl_nil,
      digitValue_digitChar d (Nat.lt_of_lt_of_le small sixteen)]
  induction n using Nat.base_induction base two with
  | single d small => rw [digit small, Nat.mul_zero, Nat.zero_add]
  | digit front d small positive ih =>
    rw [← Nat.toDigits_append_toDigits two positive small, readDigits, List.foldl_append]
    refine (digit small _).trans ?_
    rw [← readDigits, ih]

/-- A digit stands for a number below the base. -/
theorem exists_digitChar_of_mem_toDigits {base : Nat} (two : 1 < base) {n : Nat} {c : Char}
    (there : c ∈ Nat.toDigits base n) : ∃ d < base, c = d.digitChar := by
  induction n using Nat.base_induction base two with
  | single d small =>
    rw [Nat.toDigits_of_lt_base small, List.mem_singleton] at there
    exact ⟨d, small, there⟩
  | digit front d small positive ih =>
    rw [← Nat.toDigits_append_toDigits two positive small, List.mem_append,
      Nat.toDigits_of_lt_base small, List.mem_singleton] at there
    rcases there with front | last
    · exact ih front
    · exact ⟨d, small, last⟩

/-! ### Reading -/

/-- Where a reader is in a quoted text. -/
inductive Reading where
  | plain
  /-- Behind a backslash. -/
  | escaped
  /-- In front of a number in braces. -/
  | opened
  /-- In a number, of which so much has been read. -/
  | code (n : Nat)

/-- What a character behind a backslash stands for. -/
def meant? : Char → Option Char
  | '"' => some '"'
  | '\\' => some '\\'
  | 'n' => some '\n'
  | 't' => some '\t'
  | 'r' => some '\r'
  | '0' => some '\x00'
  | _ => none

/-- Puts a character in front of what has been read. -/
def put (c : Char) (read : List Char × List Char) : List Char × List Char := (c :: read.1, read.2)

/-- Reads up to the closing quote; the answer is what stands for itself or is meant, and what follows. -/
def readOn : Reading → List Char → Option (List Char × List Char)
  | _, [] => none
  | .plain, c :: rest =>
    if c = '"' then some ([], rest)
    else if c = '\\' then readOn .escaped rest
    else (readOn .plain rest).map (put c)
  | .escaped, c :: rest =>
    if c = 'u' then readOn .opened rest
    else (meant? c).bind fun meant => (readOn .plain rest).map (put meant)
  | .opened, c :: rest => if c = '\x7b' then readOn (.code 0) rest else none
  | .code n, c :: rest =>
    if c = '\x7d' then (readOn .plain rest).map (put (Char.ofNat n))
    else readOn (.code (16 * n + digitValue c)) rest

/-- Reads a string between quotes. -/
def readQuoted : List Char → Option (String × List Char)
  | [] => none
  | c :: rest => if c = '"' then (readOn .plain rest).map (Prod.map String.ofList id) else none

/-- A number is read up to its closing brace. -/
theorem readOn_code {digits : List Char} (free : '\x7d' ∉ digits) (n : Nat) (rest : List Char) :
    readOn (.code n) (digits ++ '\x7d' :: rest) =
      (readOn .plain rest).map (put (Char.ofNat (readDigits 16 n digits))) := by
  induction digits generalizing n with
  | nil => rfl
  | cons c digits ih =>
    have other : c ≠ '\x7d' := fun same => free (same ▸ List.mem_cons_self)
    rw [List.cons_append, readOn, if_neg other, ih fun there => free (.tail _ there)]
    rfl

/-- Between the braces of an escaped character is nothing but its number. -/
private theorem readOn_hexDigits (c : Char) (rest : List Char) :
    readOn (.code 0) (hexDigits c.toNat ++ '\x7d' :: rest) = (readOn .plain rest).map (put c) := by
  have free : '\x7d' ∉ hexDigits c.toNat := by
    intro there
    obtain ⟨d, small, same⟩ := exists_digitChar_of_mem_toDigits (by decide) there
    exact (by decide : ∀ d < 16, '\x7d' ≠ Nat.digitChar d) d small same
  rw [readOn_code free, hexDigits, readDigits_toDigits (by decide) (by decide), Char.ofNat_toNat]

/-- The form of a character is read as the character. -/
theorem readOn_escapeChar (c : Char) (rest : List Char) :
    readOn .plain (escapeChar c ++ rest) = (readOn .plain rest).map (put c) := by
  by_cases quote : c = '"'
  · subst quote
    rfl
  by_cases backslash : c = '\\'
  · subst backslash
    rfl
  by_cases newline : c = '\n'
  · subst newline
    rfl
  by_cases tab : c = '\t'
  · subst tab
    rfl
  by_cases carriage : c = '\r'
  · subst carriage
    rfl
  rw [escapeChar, if_neg quote, if_neg backslash, if_neg newline, if_neg tab, if_neg carriage]
  by_cases null : c.toNat = 0
  · have zero : c = '\x00' := Char.toNat_inj.mp null
    subst zero
    rfl
  rw [if_neg null]
  by_cases hidden : isUnprintable c = true
  · rw [if_pos hidden, List.append_assoc, List.append_assoc]
    exact readOn_hexDigits c rest
  · rw [if_neg hidden, List.singleton_append, readOn, if_neg quote, if_neg backslash]

theorem readOn_escape (s rest : List Char) : readOn .plain (escape s ++ '"' :: rest) = some (s, rest) := by
  induction s with
  | nil => rfl
  | cons c s ih =>
    rw [escape, List.flatMap_cons, List.append_assoc, readOn_escapeChar]
    exact congrArg (Option.map (put c)) ih

/-- A quoted string is read to its closing quote, whatever follows. -/
theorem readQuoted_quoted (s : String) (rest : List Char) :
    readQuoted ((quoted s).toList ++ rest) = some (s, rest) := by
  have chars : (quoted s).toList ++ rest = '"' :: (escape s.toList ++ '"' :: rest) := by
    rw [quoted, String.toList_ofList, List.cons_append, List.cons_append, List.append_assoc]
    rfl
  rw [chars, readQuoted, if_pos rfl, readOn_escape, Option.map_some, Prod.map, String.ofList_toList]
  rfl

/-! ### Visible characters -/

/-- Of the first characters, those from the blank on have a printed form, but for the last one. -/
theorem visible_of_ascii {c : Char} (low : 32 ≤ c.toNat) (high : c.toNat < 127) : isUnprintable c = false := by
  have ascii : c.toNat < 128 := Nat.lt_succ_of_lt high
  rw [isUnprintable, if_pos ascii, Bool.or_eq_false_iff, decide_eq_false_iff_not, decide_eq_false_iff_not]
  exact ⟨Nat.not_lt.mpr low, Nat.ne_of_lt high⟩

private theorem visible_hexDigits {n : Nat} {d : Char} (there : d ∈ hexDigits n) : isUnprintable d = false := by
  obtain ⟨value, small, rfl⟩ := exists_digitChar_of_mem_toDigits (by decide) there
  exact (by decide : ∀ value < 16, isUnprintable value.digitChar = false) value small

private theorem visible_backslashed {l : List Char} (visible : ∀ d ∈ l, isUnprintable d = false) :
    ∀ d ∈ '\\' :: l, isUnprintable d = false :=
  List.forall_mem_cons.mpr ⟨visible_of_ascii (by decide) (by decide), visible⟩

private theorem visible_escapeChar (c : Char) : ∀ d ∈ escapeChar c, isUnprintable d = false := by
  rw [escapeChar]
  iterate 6
    split
    · exact visible_backslashed (List.forall_mem_singleton.mpr (visible_of_ascii (by decide) (by decide)))
  split
  · refine visible_backslashed (List.forall_mem_append.mpr ⟨List.forall_mem_cons.mpr ⟨?_, ?_⟩, ?_⟩)
    · exact visible_of_ascii (by decide) (by decide)
    · exact List.forall_mem_cons.mpr ⟨visible_of_ascii (by decide) (by decide), fun _ => visible_hexDigits⟩
    · exact List.forall_mem_singleton.mpr (visible_of_ascii (by decide) (by decide))
  · next visible => exact List.forall_mem_singleton.mpr (Bool.eq_false_iff.mpr visible)

/-- Nothing in quoted text is hidden, so it stays on one line. -/
theorem visible_quoted {s : String} {c : Char} (there : c ∈ (quoted s).toList) : isUnprintable c = false := by
  have mark : isUnprintable '"' = false := visible_of_ascii (by decide) (by decide)
  rw [quoted, String.toList_ofList, List.cons_append, List.mem_cons, List.mem_append,
    List.mem_singleton] at there
  rcases there with rfl | inside | rfl
  · exact mark
  · obtain ⟨d, _, there⟩ := List.mem_flatMap.mp inside
    exact visible_escapeChar d c there
  · exact mark

end PointerAnalysis.Text
