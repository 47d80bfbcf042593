import Mathlib.Data.Nat.Digits.Defs
import PointerAnalysis.Options.Arguments
import PointerAnalysis.Proofs.Lists

/-! How an argument list is to be read. A reading goes through the list from the left and says of each
option, flag and positional argument which parameter it gives which setting. What the values mean is
said here by the words themselves, without any of the steps of parsing. -/
namespace PointerAnalysis

/-! ### Values -/

/-- The number that decimal digits write. -/
def decimal (digits : List Char) : Nat := Nat.ofDigits 10 (digits.reverse.map fun c => c.toNat - '0'.toNat)

/-- A text writes a number: by digits, of which there is one at least, with a plus sign or none before them. A
minus sign may stand before zero. -/
inductive Numeral : String → Nat → Prop where
  | bare {digits : List Char} : digits ≠ [] → (∀ c ∈ digits, c.isDigit) →
      Numeral (String.ofList digits) (decimal digits)
  | plus {digits : List Char} : digits ≠ [] → (∀ c ∈ digits, c.isDigit) →
      Numeral (String.ofList ('+' :: digits)) (decimal digits)
  | minus {digits : List Char} : digits ≠ [] → (∀ c ∈ digits, c.isDigit) → decimal digits = 0 →
      Numeral (String.ofList ('-' :: digits)) 0

/-- What a value says of a parameter. -/
inductive Parameter.Means : Parameter → String → Setting → Prop where
  | entry {method : String} : Means .entry method (.entry method)
  | insensitive {name : String} : name ∈ ["andersen", "ander", "ci"] →
      Means .analysis name (.analysis .insensitive)
  | callSiteSensitive {name : String} : name ∈ ["callsite-sensitive", "cs"] →
      Means .analysis name (.analysis .callSiteSensitive)
  | objectSensitive {name : String} : name ∈ ["object-sensitive", "obj"] →
      Means .analysis name (.analysis .objectSensitive)
  | depth {text : String} {k : Nat} : Numeral text k → k < 2 ^ 32 → Means .depth text (.depth k)
  | perSite : Means .heap "alloc-site" (.heap .perSite)
  | perType : Means .heap "type" (.heap .perType)
  | callGraphOutput {path : String} : Means .callGraphOutput path (.callGraphOutput path)
  | pointsToOutput {path : String} : Means .pointsToOutput path (.pointsToOutput path)
  | flowGraphOutput {path : String} : Means .flowGraphOutput path (.flowGraphOutput path)
  | input {path : String} : Means .input path (.input path)

theorem decimal_eq_foldl (digits : List Char) :
    decimal digits = digits.foldl (fun n c => 10 * n + (c.toNat - 48)) 0 := by
  rw [decimal, ← List.foldr_reverse, Nat.ofDigits_eq_foldr, List.foldr_map]
  simp [Nat.add_comm]

theorem digitsValue?_eq_some_iff {digits : List Char} {n : Nat} :
    digitsValue? digits = some n ↔ digits ≠ [] ∧ (∀ c ∈ digits, c.isDigit) ∧ decimal digits = n := by
  rw [digitsValue?, ← decimal_eq_foldl]
  split
  · next written => simp_all
  · next other =>
    simp only [reduceCtorEq, false_iff]
    rintro ⟨nonempty, digits, _⟩
    simp_all

/-- The number that a text writes, if it is the text of one. -/
private theorem numeral_iff {text : String} {n : Nat} : Numeral text n ↔ (match text.toList with
    | '+' :: digits => digitsValue? digits
    | '-' :: digits => (digitsValue? digits).filter (· = 0)
    | digits => digitsValue? digits) = some n := by
  constructor
  · intro written
    cases written with
    | @bare digits nonempty allDigits =>
      rw [String.toList_ofList]
      have value := digitsValue?_eq_some_iff.mpr ⟨nonempty, allDigits, rfl⟩
      split
      · simp at allDigits
      · simp at allDigits
      · exact value
    | plus nonempty allDigits =>
      rw [String.toList_ofList]
      exact digitsValue?_eq_some_iff.mpr ⟨nonempty, allDigits, rfl⟩
    | minus nonempty allDigits zero =>
      rw [String.toList_ofList]
      exact Option.filter_eq_some_iff.mpr
        ⟨digitsValue?_eq_some_iff.mpr ⟨nonempty, allDigits, zero⟩, by simp⟩
  · intro value
    rw [← String.ofList_toList (s := text)]
    split at value
    · next digits written =>
      obtain ⟨nonempty, allDigits, rfl⟩ := digitsValue?_eq_some_iff.mp value
      exact written ▸ .plus nonempty allDigits
    · next digits written =>
      obtain ⟨value, zero⟩ := Option.filter_eq_some_iff.mp value
      obtain ⟨nonempty, allDigits, same⟩ := digitsValue?_eq_some_iff.mp value
      cases of_decide_eq_true zero
      exact written ▸ .minus nonempty allDigits same
    · obtain ⟨nonempty, allDigits, rfl⟩ := digitsValue?_eq_some_iff.mp value
      exact .bare nonempty allDigits

theorem depth?_eq_some_iff {text : String} {k : Nat} :
    depth? text = some k ↔ Numeral text k ∧ k < 2 ^ 32 := by
  rw [depth?, Option.filter_eq_some_iff, numeral_iff, decide_eq_true_iff, maxDepth]
  exact and_congr_right fun _ => Nat.le_sub_one_iff_lt (by decide)

theorem AnalysisKind.ofName?_eq_some_iff {name : String} {kind : AnalysisKind} :
    AnalysisKind.ofName? name = some kind ↔ Parameter.Means .analysis name (.analysis kind) := by
  constructor
  · intro named
    rw [AnalysisKind.ofName?] at named
    split at named
    · next listed =>
      cases named
      exact .insensitive listed
    · split at named
      · next listed =>
        cases named
        exact .callSiteSensitive listed
      · split at named
        · next listed =>
          cases named
          exact .objectSensitive listed
        · cases named
  · intro means
    cases means with
    | insensitive listed | callSiteSensitive listed | objectSensitive listed =>
      simp only [List.mem_cons, List.not_mem_nil, or_false] at listed
      rcases listed with rfl | rfl | rfl <;> decide

theorem HeapKind.ofName?_eq_some_iff {name : String} {kind : HeapKind} :
    HeapKind.ofName? name = some kind ↔ Parameter.Means .heap name (.heap kind) := by
  constructor
  · intro named
    rw [HeapKind.ofName?] at named
    split at named
    · next same =>
      cases named
      exact same ▸ .perSite
    · split at named
      · next same =>
        cases named
        exact same ▸ .perType
      · cases named
  · intro means
    cases means <;> decide

namespace Parameter

/-- A value makes just the settings that it says, and of a flag it says none. -/
theorem setting_eq_ok_iff {p : Parameter} {value : String} {s : Setting} :
    p.setting value = .ok s ↔ p.Means value s := by
  constructor
  · intro made
    cases p with
    | analysis =>
      simp only [setting] at made
      split at made
      · next kind named =>
        cases made
        exact AnalysisKind.ofName?_eq_some_iff.mp named
      · cases made
    | depth =>
      simp only [setting] at made
      split at made
      · next k written =>
        cases made
        obtain ⟨numeral, small⟩ := depth?_eq_some_iff.mp written
        exact .depth numeral small
      · cases made
    | heap =>
      simp only [setting] at made
      split at made
      · next kind named =>
        cases made
        exact HeapKind.ofName?_eq_some_iff.mp named
      · cases made
    | showStatistics => cases made
    | _ =>
      cases made
      constructor
  · intro means
    cases p with
    | analysis =>
      obtain ⟨kind, rfl⟩ : ∃ kind, s = .analysis kind := by cases means <;> exact ⟨_, rfl⟩
      simp only [setting, AnalysisKind.ofName?_eq_some_iff.mpr means]
    | depth =>
      cases means with
      | depth numeral small => simp only [setting, depth?_eq_some_iff.mpr ⟨numeral, small⟩]
    | heap =>
      obtain ⟨kind, rfl⟩ : ∃ kind, s = .heap kind := by cases means <;> exact ⟨_, rfl⟩
      simp only [setting, HeapKind.ofName?_eq_some_iff.mpr means]
    | showStatistics => cases means
    | _ =>
      cases means
      rfl

end Parameter

/-! ### The look of arguments -/

/-- A text that does not look like an option. A dash by itself does not. -/
def Plain (text : String) : Prop := text = "-" ∨ text.toList.head? ≠ some '-'

/-- The names of options. No equals sign is in them. -/
theorem Parameter.name_of_ofName? {name : String} {p : Parameter} (named : Parameter.ofName? name = some p) :
    name ≠ "" ∧ '=' ∉ name.toList ∧ (p = .showStatistics ↔ name = "dump-stats") ∧ p ≠ .input := by
  unfold Parameter.ofName? at named
  split at named
  all_goals
    cases named <;> decide

theorem Parameter.option_of_ofName? {name : String} {p : Parameter}
    (named : Parameter.ofName? name = some p) : p ≠ .input := (Parameter.name_of_ofName? named).2.2.2

namespace ArgumentForm

theorem of_eq_endOfOptions_iff {text : String} : of text = .endOfOptions ↔ text = "--" := by
  constructor
  · intro form
    unfold of at form
    split at form
    · next written => exact String.toList_inj.mp written
    · cases form
    · cases form
    · cases form
  · rintro rfl
    rfl

theorem of_eq_plain_iff {text : String} : of text = .plain ↔ Plain text := by
  have dash : text = "-" ↔ text.toList = ['-'] := String.toList_inj.symm
  rw [of, Plain, dash]
  split
  · next written => simp [written]
  · next written => simp [written]
  · next written => simp [written]
  · next none some two =>
    simp only [true_iff]
    cases written : text.toList with
    | nil => simp
    | cons c rest =>
      cases rest with
      | nil => by_cases same : c = '-' <;> simp [same]
      | cons c' rest => exact .inr fun head => two c' rest (Option.some.inj head ▸ written)

private theorem of_eq_long_iff {text name : String} {value : Option String} :
    of text = .long name value ↔
      ∃ chars, chars ≠ [] ∧ text.toList = '-' :: '-' :: chars ∧ splitAtEquals chars = (name, value) := by
  constructor
  · intro form
    unfold of at form
    split at form
    · cases form
    · next chars notEnd written =>
      cases form
      exact ⟨chars, fun none => notEnd none, written, rfl⟩
    · cases form
    · cases form
  · rintro ⟨chars, some, written, parts⟩
    rw [of, written]
    split
    · next same => exact absurd (List.cons.inj (List.cons.inj same).2).2 some
    · next same =>
      cases same
      rw [parts]
    · next notDashes same =>
      cases same
      exact (notDashes rfl).elim
    · next other => exact (other _ _ rfl).elim

private theorem splitAtEquals_eq_some_iff {text : List Char} {name value : String} :
    splitAtEquals text = (name, some value) ↔
      '=' ∉ name.toList ∧ text = name.toList ++ '=' :: value.toList := by
  have parts : splitAtEquals text = (name, some value) ↔
      text.takeWhile (· ≠ '=') = name.toList ∧ ∃ c, text.dropWhile (· ≠ '=') = c :: value.toList := by
    simp only [splitAtEquals]
    split
    · next none =>
      rw [none]
      simp
    · next some =>
      rw [some]
      simp [← String.toList_inj]
  rw [parts, ← exists_and_left]
  simp only [parted_iff, exists_eq_left]

private theorem splitAtEquals_eq_none_iff {text : List Char} {name : String} :
    splitAtEquals text = (name, none) ↔ '=' ∉ name.toList ∧ text = name.toList := by
  have parts : splitAtEquals text = (name, none) ↔
      text.takeWhile (· ≠ '=') = name.toList ∧ text.dropWhile (· ≠ '=') = [] := by
    simp only [splitAtEquals]
    split
    · next none =>
      rw [none]
      simp [← String.toList_inj]
    · next some =>
      rw [some]
      simp
  rw [parts, unparted_iff]

theorem of_eq_joined_iff {text name value : String} : of text = .long name (some value) ↔
    '=' ∉ name.toList ∧ text = "--" ++ name ++ "=" ++ value := by
  simp only [of_eq_long_iff, splitAtEquals_eq_some_iff, ← String.toList_inj, String.toList_append]
  constructor
  · rintro ⟨_, _, written, whole, rfl⟩
    exact ⟨whole, by simp [written]⟩
  · rintro ⟨whole, written⟩
    exact ⟨_, by simp, by simp [written], whole, rfl⟩

theorem of_eq_apart_iff {text name : String} : of text = .long name none ↔
    '=' ∉ name.toList ∧ name ≠ "" ∧ text = "--" ++ name := by
  have named : name ≠ "" ↔ name.toList ≠ [] := not_congr String.toList_inj.symm
  simp only [of_eq_long_iff, splitAtEquals_eq_none_iff, named, ← String.toList_inj, String.toList_append]
  constructor
  · rintro ⟨_, some, written, whole, rfl⟩
    exact ⟨whole, fun none => some none, by simp [written]⟩
  · rintro ⟨whole, some, written⟩
    exact ⟨_, some, by simp [written], whole, rfl⟩

end ArgumentForm

/-! ### Readings -/

/-- An argument list gives these parameters these settings, in this order. -/
inductive Reads : List String → List (Parameter × Setting) → Prop where
  | nothing : Reads [] []
  /-- Behind two dashes everything is positional. -/
  | ended {texts : List String} :
      Reads ("--" :: texts) (texts.map fun text => (.input, .input text))
  | joined {name value : String} {p : Parameter} {s : Setting} {rest : List String}
      {granted : List (Parameter × Setting)} : Parameter.ofName? name = some p → p.Means value s →
      Reads rest granted → Reads (("--" ++ name ++ "=" ++ value) :: rest) ((p, s) :: granted)
  /-- A value of its own does not look like an option. -/
  | apart {name value : String} {p : Parameter} {s : Setting} {rest : List String}
      {granted : List (Parameter × Setting)} : Parameter.ofName? name = some p → Plain value →
      p.Means value s → Reads rest granted → Reads (("--" ++ name) :: value :: rest) ((p, s) :: granted)
  | flag {rest : List String} {granted : List (Parameter × Setting)} : Reads rest granted →
      Reads ("--dump-stats" :: rest) ((.showStatistics, .showStatistics) :: granted)
  | positional {text : String} {rest : List String} {granted : List (Parameter × Setting)} :
      Plain text → Reads rest granted → Reads (text :: rest) ((.input, .input text) :: granted)

/-- An argument list is accepted with these settings: it can be read, and gives nothing twice. -/
def Accepted (arguments : List String) (granted : List (Parameter × Setting)) : Prop :=
  Reads arguments granted ∧ (granted.map Prod.fst).Nodup

end PointerAnalysis
