import Mathlib.Data.List.Nodup
import PointerAnalysis.Proofs.Except
import PointerAnalysis.Proofs.Options.Readings

/-! Argument lists are accepted if they can be read. The value of an option is checked late and what is
missing or given twice even later, but in the end just the lists go through that have a reading in which
nothing is given twice, and the settings are those of the reading. -/
namespace PointerAnalysis

namespace Arguments

variable {a a' b z : Arguments} {settings : List Setting}

/-! ### One argument -/

/-- What the pending parameter adds to those that have been given. -/
inductive Settles : Option (Parameter × Option String) → List (Parameter × Option Setting) → Prop where
  | nothing : Settles none []
  | missing {p : Parameter} : Settles (some (p, none)) [(p, none)]
  | value {p : Parameter} {value : String} {s : Setting} : p.Means value s →
      Settles (some (p, some value)) [(p, some s)]

theorem settle_eq_ok_iff : a.settle = .ok b ↔
    ∃ last, Settles a.pending last ∧ b = { a with given := a.given ++ last, pending := none } := by
  obtain ⟨given, pending, inputGiven, optionsEnded⟩ := a
  constructor
  · intro settled
    match pending, settled with
    | none, settled =>
      cases settled
      exact ⟨[], .nothing, by simp⟩
    | some (p, none), settled =>
      cases settled
      exact ⟨_, .missing, rfl⟩
    | some (p, some value), settled =>
      obtain ⟨s, made, same⟩ := bind_eq_ok_iff.mp settled
      cases same
      exact ⟨_, .value (Parameter.setting_eq_ok_iff.mp made), rfl⟩
  · rintro ⟨last, settles, rfl⟩
    cases settles with
    | nothing => simp [settle]
    | missing => rfl
    | value means =>
      simp only [settle, Parameter.setting_eq_ok_iff.mpr means]
      rfl

/-- What one argument does to those that have been looked at before. -/
inductive Step (a : Arguments) : String → Arguments → Prop where
  | ended : a.optionsEnded = false → Step a "--" { a with optionsEnded := true }
  /-- The value that the last option waits for. -/
  | value {p : Parameter} {text : String} : a.optionsEnded = false → a.pending = some (p, none) →
      Plain text → Step a text { a with pending := some (p, some text) }
  | joined {name value : String} {p : Parameter} {s : Setting} {b : Arguments} : a.optionsEnded = false →
      Parameter.ofName? name = some p → a.settle = .ok b → p.Means value s →
      Step a ("--" ++ name ++ "=" ++ value) (b.give p (some s))
  | opened {name : String} {p : Parameter} {b : Arguments} : a.optionsEnded = false →
      Parameter.ofName? name = some p → p ≠ .showStatistics → a.settle = .ok b →
      Step a ("--" ++ name) { b with pending := some (p, none) }
  | flag {b : Arguments} : a.optionsEnded = false → a.settle = .ok b →
      Step a "--dump-stats" (b.give .showStatistics (some .showStatistics))
  | positional {text : String} {b : Arguments} :
      a.optionsEnded = true ∨ Plain text ∧ (∀ p, a.pending ≠ some (p, none)) → a.inputGiven = false →
      a.settle = .ok b → Step a text { b with pending := some (.input, some text), inputGiven := true }

section Throw

variable {α : Type} {e : UsageError} {x : α}

private theorem throw_bind {β : Type} {f : α → Except UsageError β} :
    (throw e >>= f : Except UsageError β) = .error e := rfl

private theorem bind_throw_ne_ok {β : Type} {m : Except UsageError β} {e : β → UsageError} :
    (m >>= fun y => throw (e y) : Except UsageError α) ≠ .ok x := by
  cases m <;> exact fun same => nomatch same

end Throw

theorem addPositional_eq_ok_iff {text : String} : a.addPositional text = .ok a' ↔
    a.inputGiven = false ∧
      ∃ b, a.settle = .ok b ∧ a' = { b with pending := some (.input, some text), inputGiven := true } := by
  unfold addPositional
  split
  · next twice => simp [twice, throw_bind]
  · next first => simp [first, bind_eq_ok_iff, eq_comm (a := a')]

/-- A known option is accepted with a value that means something, or without one, be it a flag or not. -/
theorem addLong_eq_ok_iff {name : String} {value : Option String} : a.addLong name value = .ok a' ↔
    ∃ p b, Parameter.ofName? name = some p ∧ a.settle = .ok b ∧
      ((∃ text s, value = some text ∧ p.Means text s ∧ a' = b.give p (some s)) ∨
      (value = none ∧ p ≠ .showStatistics ∧ a' = { b with pending := some (p, none) }) ∨
      (value = none ∧ p = .showStatistics ∧ a' = b.give p (some .showStatistics))) := by
  unfold addLong
  split
  · next p text named =>
    simp only [named, Option.some.injEq, reduceCtorEq, false_and, or_false]
    split
    · next flag =>
      have meaningless (s : Setting) : ¬ p.Means text s := fun means => by
        cases means <;> cases flag
      simp [throw_bind, meaningless]
    · simp [bind_eq_ok_iff, Parameter.setting_eq_ok_iff, eq_comm (a := a')]
  · next p named =>
    by_cases flag : p = .showStatistics <;>
      simp [named, bind_eq_ok_iff, Parameter.takesValue, flag, eq_comm (a := a')]
  · next named =>
    simp only [named, reduceCtorEq, false_and, exists_false, iff_false]
    split
    · simp [throw_bind]
    · split
      · simp [throw_bind]
      · exact bind_throw_ne_ok

theorem addShort_ne_ok {letter : Char} : a.addShort letter ≠ .ok a' := by
  unfold addShort
  by_cases unknown : (decide (letter ≠ 'h') && decide (letter ≠ 'V')) = true
  · simp only [unknown, if_true, throw_bind]
    exact fun same => nomatch same
  · simp only [unknown]
    exact bind_throw_ne_ok

private theorem step_of_add {text : String} (accepted : a.add text = .ok a') : Step a text a' := by
  unfold add at accepted
  split at accepted
  · next ended =>
    obtain ⟨first, b, settled, rfl⟩ := addPositional_eq_ok_iff.mp accepted
    exact .positional (.inl ended) first settled
  · next notEnded =>
    have notEnded := Bool.eq_false_iff.mpr notEnded
    split at accepted
    · next form =>
      cases accepted
      exact ArgumentForm.of_eq_endOfOptions_iff.mp form ▸ .ended notEnded
    · next name value form =>
      obtain ⟨p, b, named, settled, how⟩ := addLong_eq_ok_iff.mp accepted
      rcases how with ⟨value, s, rfl, means, rfl⟩ | ⟨rfl, valued, rfl⟩ | ⟨rfl, rfl, rfl⟩
      · obtain ⟨_, rfl⟩ := ArgumentForm.of_eq_joined_iff.mp form
        exact .joined notEnded named settled means
      · obtain ⟨_, _, rfl⟩ := ArgumentForm.of_eq_apart_iff.mp form
        exact .opened notEnded named valued settled
      · obtain ⟨_, _, rfl⟩ := ArgumentForm.of_eq_apart_iff.mp form
        obtain rfl := (Parameter.name_of_ofName? named).2.2.1.mp rfl
        exact .flag notEnded settled
    · exact absurd accepted addShort_ne_ok
    · next form =>
      have plain := ArgumentForm.of_eq_plain_iff.mp form
      split at accepted
      · next p waits =>
        cases accepted
        exact .value notEnded waits plain
      · next complete =>
        obtain ⟨first, b, settled, rfl⟩ := addPositional_eq_ok_iff.mp accepted
        exact .positional (.inr ⟨plain, complete⟩) first settled

private theorem add_of_step {text : String} (step : Step a text a') : a.add text = .ok a' := by
  have plainly (plain : Plain text) : ArgumentForm.of text = .plain := ArgumentForm.of_eq_plain_iff.mpr plain
  unfold add
  cases step with
  | ended notEnded => simp [notEnded, ArgumentForm.of_eq_endOfOptions_iff.mpr]
  | value notEnded waits plain => simp [notEnded, plainly plain, waits]
  | joined notEnded named settled means =>
    obtain ⟨_, whole, _⟩ := Parameter.name_of_ofName? named
    simp only [notEnded, Bool.false_eq_true, if_false, ArgumentForm.of_eq_joined_iff.mpr ⟨whole, rfl⟩]
    exact addLong_eq_ok_iff.mpr ⟨_, _, named, settled, .inl ⟨_, _, rfl, means, rfl⟩⟩
  | opened notEnded named valued settled =>
    obtain ⟨some, whole, _⟩ := Parameter.name_of_ofName? named
    simp only [notEnded, Bool.false_eq_true, if_false, ArgumentForm.of_eq_apart_iff.mpr ⟨whole, some, rfl⟩]
    exact addLong_eq_ok_iff.mpr ⟨_, _, named, settled, .inr (.inl ⟨rfl, valued, rfl⟩)⟩
  | flag notEnded settled =>
    have form : ArgumentForm.of "--dump-stats" = .long "dump-stats" none :=
      ArgumentForm.of_eq_apart_iff.mpr (by decide)
    simp only [notEnded, Bool.false_eq_true, if_false, form]
    exact addLong_eq_ok_iff.mpr ⟨_, _, rfl, settled, .inr (.inr ⟨rfl, rfl, rfl⟩)⟩
  | positional look first settled =>
    have accepted : a.addPositional text = .ok _ := addPositional_eq_ok_iff.mpr ⟨first, _, settled, rfl⟩
    split
    · exact accepted
    · next notEnded =>
      obtain ⟨plain, complete⟩ := look.resolve_left notEnded
      simp only [plainly plain]
      exact accepted

theorem add_eq_ok_iff {text : String} : a.add text = .ok a' ↔ Step a text a' := ⟨step_of_add, add_of_step⟩

/-! ### The end of the list -/

private theorem fault?_eq_none_iff {p : Parameter} :
    a.fault? p = none ↔ a.hasValue p = true ∧ (a.given.map Prod.fst).count p ≤ 1 := by
  rw [fault?, List.count_eq_countP, List.countP_map]
  split
  · next lacks => simp_all
  · next has => simp_all [Function.comp_def, beq_eq_decide]

private theorem faults_eq_none_iff : (a.given.findSome? fun entry => a.fault? entry.1) = none ↔
    (a.given.map Prod.fst).Nodup ∧ ∀ entry ∈ a.given, entry.2.isSome := by
  simp only [List.findSome?_eq_none_iff, fault?_eq_none_iff]
  constructor
  · intro faultless
    have once : (a.given.map Prod.fst).Nodup := by
      refine List.nodup_iff_count_le_one.mpr fun p => ?_
      by_cases there : p ∈ a.given.map Prod.fst
      · obtain ⟨entry, listed, rfl⟩ := List.mem_map.mp there
        exact (faultless entry listed).2
      · exact (List.count_eq_zero_of_not_mem there).trans_le (Nat.zero_le 1)
    refine ⟨once, fun entry there => ?_⟩
    obtain ⟨valued, there', has⟩ := List.any_eq_true.mp (faultless entry there).1
    obtain ⟨same, isSome⟩ := by simpa using has
    exact List.inj_on_of_nodup_map once there' there same ▸ isSome
  · rintro ⟨once, valued⟩ entry there
    refine ⟨List.any_eq_true.mpr ⟨entry, there, by simp [valued entry there]⟩, ?_⟩
    exact List.nodup_iff_count_le_one.mp once entry.1

/-- An option that waits for its value at the end is at fault unless it was given one before. -/
theorem hasValue_of_faultless {p : Parameter} (settled : a.settle = .ok b) (waits : a.pending = some (p, none))
    (faultless : (b.given.findSome? fun entry => b.fault? entry.1) = none) : b.hasValue p = true := by
  obtain ⟨last, settles, rfl⟩ := settle_eq_ok_iff.mp settled
  rw [waits] at settles
  cases settles
  exact nomatch (faults_eq_none_iff.mp faultless).2 (p, none) (by simp)

/-- A complete list is accepted if nothing was given twice or without a value. -/
theorem finish_eq_ok_iff : a.finish = .ok settings ↔ ∃ b, a.settle = .ok b ∧
    (b.given.map Prod.fst).Nodup ∧ (∀ entry ∈ b.given, entry.2.isSome) ∧
      settings = b.given.filterMap Prod.snd := by
  rw [finish, bind_eq_ok_iff]
  refine exists_congr fun b => and_congr_right fun settled => ?_
  rw [← and_assoc, ← faults_eq_none_iff]
  cases found : b.given.findSome? fun entry => b.fault? entry.1 with
  | some fault =>
    simp only [reduceCtorEq, false_and, iff_false]
    split
    · split <;> exact fun accepted => nomatch accepted
    · exact fun accepted => nomatch accepted
  | none =>
    have accepted : (.ok (b.given.filterMap Prod.snd) : Except UsageError (List Setting)) = .ok settings ↔
        settings = b.given.filterMap Prod.snd := by simp [eq_comm]
    rw [and_iff_right rfl]
    cases waits : a.pending with
    | none => exact accepted
    | some entry =>
      obtain ⟨p, value⟩ := entry
      cases value with
      | some value => exact accepted
      | none =>
        simp only [hasValue_of_faultless settled waits found, Bool.not_true, Bool.false_eq_true, if_false]
        exact accepted

/-- What was given is this reading so far, once the pending value is checked. -/
structure Stands (a : Arguments) (granted : List (Parameter × Setting)) : Prop where
  settled : ∃ last, Settles a.pending last ∧ a.given ++ last = granted.map fun g => (g.1, some g.2)
  input : a.inputGiven = true ↔ .input ∈ granted.map Prod.fst

variable {granted before : List (Parameter × Setting)}

theorem stands_empty : Stands .empty [] := ⟨⟨[], .nothing, rfl⟩, by simp [empty]⟩

namespace Stands

theorem complete (stands : Stands a granted) (p : Parameter) : a.pending ≠ some (p, none) := by
  intro waits
  obtain ⟨last, settles, same⟩ := stands.settled
  rw [waits] at settles
  cases settles
  have missing : (p, none) ∈ granted.map fun g => (g.1, some g.2) := same ▸ by simp
  simp at missing

/-- What is known once the pending value has been checked. -/
theorem settle (stands : Stands a granted) : ∃ b, a.settle = .ok b ∧ b.pending = none ∧
    b.given = (granted.map fun g => (g.1, some g.2)) ∧ b.optionsEnded = a.optionsEnded ∧
      b.inputGiven = a.inputGiven := by
  obtain ⟨last, settles, same⟩ := stands.settled
  exact ⟨_, settle_eq_ok_iff.mpr ⟨last, settles, rfl⟩, rfl, same, rfl, rfl⟩

theorem finish_eq_ok_iff (stands : Stands a granted) : a.finish = .ok settings ↔
    (granted.map Prod.fst).Nodup ∧ settings = granted.map Prod.snd := by
  obtain ⟨b, settled, _, given, _⟩ := stands.settle
  have firsts : b.given.map Prod.fst = granted.map Prod.fst := by simp [given]
  have seconds : b.given.filterMap Prod.snd = granted.map Prod.snd := by simp [given, List.filterMap_map]
  have valued : ∀ entry ∈ b.given, entry.2.isSome := by
    intro entry there
    obtain ⟨g, _, rfl⟩ := List.mem_map.mp (given ▸ there)
    rfl
  rw [Arguments.finish_eq_ok_iff]
  constructor
  · rintro ⟨b', settled', once, _, rfl⟩
    cases settled.symm.trans settled'
    exact ⟨firsts ▸ once, seconds⟩
  · rintro ⟨once, rfl⟩
    exact ⟨b, settled, firsts ▸ once, valued, seconds.symm⟩

/-- An option with its value, or a flag. -/
theorem give (stands : Stands a granted) (settled : a.settle = .ok b) {p : Parameter} (s : Setting)
    (option : p ≠ .input) : Stands (b.give p (some s)) (granted ++ [(p, s)]) := by
  obtain ⟨b', settled', pending, given, _, input⟩ := stands.settle
  cases settled.symm.trans settled'
  refine ⟨⟨[], ?_, by simp [Arguments.give, given]⟩, ?_⟩
  · rw [Arguments.give, pending]
    exact .nothing
  · simp only [Arguments.give, input, stands.input, List.map_append, List.mem_append, List.map_singleton,
      List.mem_singleton, option.symm, or_false]

private theorem pend (stands : Stands a granted) (settled : a.settle = .ok b) {p : Parameter} {value : String}
    {s : Setting} (means : p.Means value s) (inputGiven : Bool)
    (input : inputGiven = true ↔ b.inputGiven = true ∨ p = .input) :
    Stands { b with pending := some (p, some value), inputGiven } (granted ++ [(p, s)]) := by
  obtain ⟨b', settled', _, given, _, kept⟩ := stands.settle
  cases settled.symm.trans settled'
  refine ⟨⟨_, .value means, by simp [given]⟩, ?_⟩
  simp only [input, kept, stands.input, List.map_append, List.mem_append, List.map_singleton,
    List.mem_singleton, eq_comm]

/-- An option whose value has come but is not checked yet. -/
theorem valued (stands : Stands a granted) (settled : a.settle = .ok b) {p : Parameter} (option : p ≠ .input)
    {value : String} {s : Setting} (means : p.Means value s) :
    Stands { b with pending := some (p, some value) } (granted ++ [(p, s)]) :=
  stands.pend settled means b.inputGiven (by simp [option])

theorem positional (stands : Stands a granted) (settled : a.settle = .ok b) (text : String) :
    Stands { b with pending := some (.input, some text), inputGiven := true }
      (granted ++ [(.input, .input text)]) :=
  stands.pend settled .input true (by simp)

end Stands

/-! ### Whole lists -/

/-- A parameter that was given without a value is missed in the end, and behind the two dashes no value comes
any more. -/
def Misses (a : Arguments) : Prop :=
  ∃ p, (p, none) ∈ a.given ∨ a.pending = some (p, none) ∧ a.optionsEnded = true

theorem misses_of_settle {p : Parameter} (missed : (p, none) ∈ a.given ∨ a.pending = some (p, none))
    (settled : a.settle = .ok b) : (p, none) ∈ b.given := by
  obtain ⟨last, settles, rfl⟩ := settle_eq_ok_iff.mp settled
  rcases missed with there | waits
  · exact List.mem_append_left _ there
  · rw [waits] at settles
    cases settles
    exact List.mem_append_right _ List.mem_cons_self

theorem Misses.step {text : String} (misses : Misses a) (step : Step a text a') : Misses a' := by
  obtain ⟨p, missed⟩ := misses
  have given {b : Arguments} (settled : a.settle = .ok b) : (p, none) ∈ b.given :=
    misses_of_settle (missed.imp_right And.left) settled
  cases step with
  | ended => exact ⟨p, missed.imp_right fun waits => ⟨waits.1, rfl⟩⟩
  | value notEnded => exact ⟨p, .inl (missed.resolve_right fun waits => by simp [notEnded] at waits)⟩
  | joined _ _ settled | flag _ settled => exact ⟨p, .inl (List.mem_append_left _ (given settled))⟩
  | @opened _ _ b _ _ _ settled => exact ⟨p, .inl (given (b := b) settled)⟩
  | @positional _ b _ _ settled => exact ⟨p, .inl (given (b := b) settled)⟩

theorem Misses.fails {texts : List String} (misses : Misses a) (ran : texts.foldlM add a = .ok z) :
    z.finish ≠ .ok settings := by
  have missed : Misses z :=
    foldlM_invariant (fun _ _ _ misses ran => misses.step (add_eq_ok_iff.mp ran)) misses ran
  obtain ⟨p, missed⟩ := missed
  intro finished
  obtain ⟨b, settled, _, valued, _⟩ := finish_eq_ok_iff.mp finished
  exact nomatch valued _ (misses_of_settle (missed.imp_right And.left) settled)

/-- In an accepted list each value is checked sooner or later. -/
theorem settles_of_accepted {texts : List String} (ran : texts.foldlM add a = .ok z)
    (finished : z.finish = .ok settings) : ∃ last, Settles a.pending last := by
  have of_settled {a b : Arguments} (settled : a.settle = .ok b) : ∃ last, Settles a.pending last :=
    (settle_eq_ok_iff.mp settled).imp fun _ => And.left
  induction texts generalizing a with
  | nil =>
    cases ran
    obtain ⟨b, settled, _⟩ := finish_eq_ok_iff.mp finished
    exact of_settled settled
  | cons text texts ih =>
    obtain ⟨a', first, rest⟩ := bind_eq_ok_iff.mp ran
    cases add_eq_ok_iff.mp first with
    | ended => exact ih (a := { a with optionsEnded := true }) rest
    | value _ waits => exact ⟨_, waits ▸ Settles.missing⟩
    | joined _ _ settled | flag _ settled => exact of_settled settled
    | @opened _ _ b _ _ _ settled => exact of_settled (b := b) settled
    | @positional _ b _ _ settled => exact of_settled (b := b) settled

/-- Behind the two dashes everything that is accepted is positional. -/
theorem Stands.of_ended {texts : List String} (stands : Stands a before) (ended : a.optionsEnded = true)
    (ran : texts.foldlM add a = .ok z) :
    Stands z (before ++ texts.map fun text => (.input, .input text)) := by
  induction texts generalizing a before with
  | nil =>
    cases ran
    simpa using stands
  | cons text texts ih =>
    obtain ⟨a', first, rest⟩ := bind_eq_ok_iff.mp ran
    cases add_eq_ok_iff.mp first with
    | positional _ _ settled =>
      have stands' := stands.positional settled text
      obtain ⟨_, settled', _, _, kept, _⟩ := stands.settle
      cases settled.symm.trans settled'
      rw [List.map_cons, List.append_cons]
      exact ih stands' (kept.trans ended) rest
    | ended notEnded | value notEnded | joined notEnded | opened notEnded | flag notEnded =>
      simp [notEnded] at ended

/-- An option without a value has it in the next argument, for later it is missed for good. -/
theorem value_of_opened {p : Parameter} {rest : List String}
    (ran : rest.foldlM add { b with pending := some (p, none) } = .ok z) (finished : z.finish = .ok settings) :
    ∃ value rest' s, rest = value :: rest' ∧ Plain value ∧ p.Means value s ∧
      rest'.foldlM add { b with pending := some (p, some value) } = .ok z := by
  have missed {c : Arguments} (settled : settle { b with pending := some (p, none) } = .ok c) :
      (p, none) ∈ c.given := misses_of_settle (.inr rfl) settled
  cases rest with
  | nil =>
    cases ran
    obtain ⟨c, settled, _, valued, _⟩ := finish_eq_ok_iff.mp finished
    exact nomatch valued _ (missed settled)
  | cons value rest =>
    obtain ⟨a', first, ran⟩ := bind_eq_ok_iff.mp ran
    have never (misses : Misses a') : False := misses.fails ran finished
    cases add_eq_ok_iff.mp first with
    | value _ waits plain =>
      cases waits
      obtain ⟨last, settles⟩ := settles_of_accepted ran finished
      cases settles with
      | value means => exact ⟨value, rest, _, rfl, plain, means, ran⟩
    | ended => exact (never ⟨p, .inr ⟨rfl, rfl⟩⟩).elim
    | joined _ _ settled | flag _ settled =>
      exact (never ⟨p, .inl (List.mem_append_left _ (missed settled))⟩).elim
    | @opened _ _ c _ _ _ settled => exact (never ⟨p, .inl (missed (c := c) settled)⟩).elim
    | @positional _ c _ _ settled => exact (never ⟨p, .inl (missed (c := c) settled)⟩).elim

/-- What is accepted can be read. -/
theorem reads_of_accepted {arguments : List String} {a : Arguments} {before : List (Parameter × Setting)}
    (stands : Stands a before) (notEnded : a.optionsEnded = false)
    (ran : arguments.foldlM add a = .ok z) (finished : z.finish = .ok settings) :
    ∃ granted, Reads arguments granted ∧ Stands z (before ++ granted) := by
  match arguments with
  | [] =>
    cases ran
    exact ⟨[], .nothing, by simpa using stands⟩
  | text :: rest =>
    obtain ⟨a', first, ran⟩ := bind_eq_ok_iff.mp ran
    obtain ⟨b, settled, _, _, kept, _⟩ := stands.settle
    have notEnded' : b.optionsEnded = false := kept.trans notEnded
    cases add_eq_ok_iff.mp first with
    | ended =>
      have stands' : Stands { a with optionsEnded := true } before := ⟨stands.settled, stands.input⟩
      exact ⟨_, .ended, stands'.of_ended rfl ran⟩
    | value _ waits => exact absurd waits (stands.complete _)
    | @joined _ _ p s _ _ named settled' means =>
      cases settled.symm.trans settled'
      have stands' := stands.give settled s (Parameter.option_of_ofName? named)
      obtain ⟨granted, reads, stands''⟩ := reads_of_accepted stands' notEnded' ran finished
      exact ⟨_, .joined named means reads, by simpa using stands''⟩
    | opened _ named _ settled' =>
      cases settled.symm.trans settled'
      obtain ⟨value, rest', s, rfl, plain, means, ran⟩ := value_of_opened ran finished
      have stands' := stands.valued settled (Parameter.option_of_ofName? named) means
      obtain ⟨granted, reads, stands''⟩ := reads_of_accepted stands' notEnded' ran finished
      exact ⟨_, .apart named plain means reads, by simpa using stands''⟩
    | flag _ settled' =>
      cases settled.symm.trans settled'
      have stands' := stands.give settled .showStatistics (p := .showStatistics) (by decide)
      obtain ⟨granted, reads, stands''⟩ := reads_of_accepted stands' notEnded' ran finished
      exact ⟨_, .flag reads, by simpa using stands''⟩
    | positional look _ settled' =>
      cases settled.symm.trans settled'
      have plain := (look.resolve_left (by simp [notEnded])).1
      have stands' := stands.positional settled text
      obtain ⟨granted, reads, stands''⟩ := reads_of_accepted stands' notEnded' ran finished
      exact ⟨_, .positional plain reads, by simpa using stands''⟩
termination_by arguments.length

theorem Stands.inputGiven_eq_false {s : Setting} (stands : Stands a before)
    (once : ((before ++ (.input, s) :: granted).map Prod.fst).Nodup) : a.inputGiven = false := by
  rw [List.map_append, List.map_cons] at once
  refine Bool.eq_false_iff.mpr fun already => ?_
  exact List.nodup_append.mp once |>.2.2 _ (stands.input.mp already) _ List.mem_cons_self rfl

/-- Behind the two dashes the positional argument can still come. -/
theorem accepts_of_ended {texts : List String} (stands : Stands a before) (ended : a.optionsEnded = true)
    (once : ((before ++ texts.map fun text => (Parameter.input, Setting.input text)).map Prod.fst).Nodup) :
    ∃ z, texts.foldlM add a = .ok z := by
  match texts with
  | [] => exact ⟨a, rfl⟩
  | [text] =>
    obtain ⟨b, settled, _⟩ := stands.settle
    have step : Step a text _ := .positional (.inl ended) (stands.inputGiven_eq_false once) settled
    exact ⟨_, bind_eq_ok_iff.mpr ⟨_, add_eq_ok_iff.mpr step, rfl⟩⟩
  | _ :: _ :: _ => simp [List.nodup_append] at once

/-- What can be read is accepted if it gives nothing twice. -/
theorem accepts_of_reads {arguments : List String} (reads : Reads arguments granted) (stands : Stands a before)
    (notEnded : a.optionsEnded = false) (once : ((before ++ granted).map Prod.fst).Nodup) :
    ∃ z, arguments.foldlM add a = .ok z ∧ Stands z (before ++ granted) := by
  have andThen {a a' : Arguments} {text : String} {rest : List String} {granted : List (Parameter × Setting)}
      (step : Step a text a') (ran : ∃ z, rest.foldlM add a' = .ok z ∧ Stands z granted) :
      ∃ z, (text :: rest).foldlM add a = .ok z ∧ Stands z granted :=
    ran.imp fun _ ⟨ran, stands⟩ => ⟨bind_eq_ok_iff.mpr ⟨a', add_eq_ok_iff.mpr step, ran⟩, stands⟩
  induction reads generalizing a before with
  | nothing => exact ⟨a, rfl, by simpa using stands⟩
  | @ended texts =>
    have stands' : Stands { a with optionsEnded := true } before := ⟨stands.settled, stands.input⟩
    obtain ⟨z, ran⟩ := accepts_of_ended stands' rfl once
    exact andThen (.ended notEnded) ⟨z, ran, stands'.of_ended rfl ran⟩
  | @joined name value p s rest granted named means _ ih =>
    obtain ⟨b, settled, _, _, kept, _⟩ := stands.settle
    have stands' := stands.give settled s (Parameter.option_of_ofName? named)
    rw [List.append_cons] at once ⊢
    exact andThen (.joined notEnded named settled means) (ih stands' (kept.trans notEnded) once)
  | @apart name value p s rest granted named plain means _ ih =>
    obtain ⟨b, settled, _, _, kept, _⟩ := stands.settle
    have kept' := kept.trans notEnded
    have stands' := stands.valued settled (Parameter.option_of_ofName? named) means
    have valued : p ≠ .showStatistics := by
      rintro rfl
      cases means
    rw [List.append_cons] at once ⊢
    exact andThen (.opened notEnded named valued settled)
      (andThen (.value kept' rfl plain) (ih stands' kept' once))
  | @flag rest granted _ ih =>
    obtain ⟨b, settled, _, _, kept, _⟩ := stands.settle
    have stands' := stands.give settled .showStatistics (p := .showStatistics) (by decide)
    rw [List.append_cons] at once ⊢
    exact andThen (.flag notEnded settled) (ih stands' (kept.trans notEnded) once)
  | @positional text rest granted plain _ ih =>
    obtain ⟨b, settled, _, _, kept, _⟩ := stands.settle
    have stands' := stands.positional settled text
    have first := stands.inputGiven_eq_false once
    rw [List.append_cons] at once ⊢
    exact andThen (.positional (.inr ⟨plain, stands.complete⟩) first settled)
      (ih stands' (kept.trans notEnded) once)

end Arguments

/-- An argument list makes the settings of its reading, if it has one in which nothing is given twice, and
is refused otherwise. -/
theorem settingsOf_eq_ok_iff {arguments : List String} {settings : List Setting} :
    settingsOf arguments = .ok settings ↔
      ∃ granted, Accepted arguments granted ∧ settings = granted.map Prod.snd := by
  rw [settingsOf, bind_eq_ok_iff]
  constructor
  · rintro ⟨z, ran, finished⟩
    obtain ⟨granted, reads, stands⟩ := Arguments.reads_of_accepted Arguments.stands_empty rfl ran finished
    obtain ⟨once, same⟩ := stands.finish_eq_ok_iff.mp finished
    exact ⟨granted, ⟨reads, once⟩, same⟩
  · rintro ⟨granted, ⟨reads, once⟩, same⟩
    obtain ⟨z, ran, stands⟩ := Arguments.accepts_of_reads reads Arguments.stands_empty rfl once
    exact ⟨z, ran, stands.finish_eq_ok_iff.mpr ⟨once, same⟩⟩

end PointerAnalysis
