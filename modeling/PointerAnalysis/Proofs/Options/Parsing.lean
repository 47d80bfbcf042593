import Mathlib.Data.List.Perm.Basic
import PointerAnalysis.Proofs.Options.Arguments

/-! What argument lists do to options. A parse changes the options it is given in place, and yet a list that
is refused leaves them untouched, and one that is accepted gives the options that its reading names their
settings and no others. So after many lists each option is as the last one left it that names it, and within a
list the order is of no importance. -/
namespace PointerAnalysis

/-- The parameter that a setting is for. -/
def Setting.parameter : Setting → Parameter
  | .entry _ => .entry
  | .analysis _ => .analysis
  | .depth _ => .depth
  | .heap _ => .heap
  | .showStatistics => .showStatistics
  | .callGraphOutput _ => .callGraphOutput
  | .pointsToOutput _ => .pointsToOutput
  | .flowGraphOutput _ => .flowGraphOutput
  | .input _ => .input

namespace Options

/-- The setting that an option has. A flag that is not set has none. -/
def field (o : Options) : Parameter → Option Setting
  | .entry => o.entry.map .entry
  | .analysis => some (.analysis o.analysis)
  | .depth => some (.depth o.depth)
  | .heap => some (.heap o.heap)
  | .showStatistics => if o.showStatistics then some .showStatistics else none
  | .callGraphOutput => o.callGraphOutput.map .callGraphOutput
  | .pointsToOutput => o.pointsToOutput.map .pointsToOutput
  | .flowGraphOutput => o.flowGraphOutput.map .flowGraphOutput
  | .input => o.input.map .input

/-- The options that a parse leaves behind, be the list accepted or not. -/
def after (o : Options) (arguments : List String) : Options := ((parse arguments).run o).2

/-- Options differ in these settings, which the later ones have. -/
structure Updates (granted : List (Parameter × Setting)) (o o' : Options) : Prop where
  given : ∀ p s, (p, s) ∈ granted → o'.field p = some s
  kept : ∀ p, p ∉ granted.map Prod.fst → o'.field p = o.field p

variable {o o' o'' : Options} {granted granted' : List (Parameter × Setting)}

/-- Options are known by their settings. -/
theorem eq_of_field (same : ∀ p, o.field p = o'.field p) : o = o' := by
  have some_inj {α : Type} {f : α → Setting} (inj : Function.Injective f) {x y : Option α}
      (mapped : x.map f = y.map f) : x = y := Option.map_injective inj mapped
  obtain ⟨entry, analysis, depth, heap, statistics, callGraph, pointsTo, flowGraph, input⟩ := o
  obtain ⟨entry', analysis', depth', heap', statistics', callGraph', pointsTo', flowGraph', input'⟩ := o'
  obtain rfl : entry = entry' := some_inj (fun _ _ => Setting.entry.inj) (same .entry)
  obtain rfl : analysis = analysis' := Setting.analysis.inj (Option.some.inj (same .analysis))
  obtain rfl : depth = depth' := Setting.depth.inj (Option.some.inj (same .depth))
  obtain rfl : heap = heap' := Setting.heap.inj (Option.some.inj (same .heap))
  obtain rfl : statistics = statistics' := by
    have shown := same .showStatistics
    cases statistics <;> cases statistics' <;> first | rfl | cases shown
  obtain rfl : callGraph = callGraph' :=
    some_inj (fun _ _ => Setting.callGraphOutput.inj) (same .callGraphOutput)
  obtain rfl : pointsTo = pointsTo' :=
    some_inj (fun _ _ => Setting.pointsToOutput.inj) (same .pointsToOutput)
  obtain rfl : flowGraph = flowGraph' :=
    some_inj (fun _ _ => Setting.flowGraphOutput.inj) (same .flowGraphOutput)
  obtain rfl : input = input' := some_inj (fun _ _ => Setting.input.inj) (same .input)
  rfl

theorem field_set (o : Options) (s : Setting) (p : Parameter) :
    (o.set s).field p = if p = s.parameter then some s else o.field p := by
  cases s <;> cases p <;> rfl

namespace Updates

theorem unique (first : Updates granted o o') (second : Updates granted o o'') : o' = o'' := by
  refine eq_of_field fun p => ?_
  by_cases named : p ∈ granted.map Prod.fst
  · obtain ⟨⟨_, s⟩, there, rfl⟩ := List.mem_map.mp named
    rw [first.given _ s there, second.given _ s there]
  · rw [first.kept p named, second.kept p named]

theorem of_perm (updates : Updates granted o o') (perm : granted.Perm granted') : Updates granted' o o' where
  given p s there := updates.given p s (perm.mem_iff.mpr there)
  kept p unnamed := updates.kept p fun named => unnamed ((perm.map _).mem_iff.mp named)

end Updates

/-- Settings that are made one after another are all there in the end, if none is for the same parameter. -/
theorem updates_foldl_set (own : ∀ g ∈ granted, g.2.parameter = g.1) (once : (granted.map Prod.fst).Nodup)
    (o : Options) : Updates granted o ((granted.map Prod.snd).foldl Options.set o) := by
  induction granted generalizing o with
  | nil => exact ⟨fun _ _ there => (nomatch there), fun _ _ => rfl⟩
  | cons g granted ih =>
    obtain ⟨p, s⟩ := g
    obtain ⟨fresh, once⟩ := List.nodup_cons.mp once
    obtain ⟨own_s, own⟩ := List.forall_mem_cons.mp own
    have later := ih own once (o.set s)
    constructor
    · intro p' s' there
      rcases List.mem_cons.mp there with same | there
      · cases same
        exact (later.kept p fresh).trans ((field_set o s p).trans (if_pos own_s.symm))
      · exact later.given p' s' there
    · intro p' unnamed
      obtain ⟨other, unnamed⟩ := not_or.mp (fun named => unnamed (List.mem_cons.mpr named))
      exact (later.kept p' unnamed).trans ((field_set o s p').trans (if_neg (own_s ▸ other)))

end Options

theorem Parameter.Means.parameter_eq {p : Parameter} {value : String} {s : Setting} (means : p.Means value s) :
    s.parameter = p := by
  cases means <;> rfl

theorem Reads.parameter_eq {arguments : List String} {granted : List (Parameter × Setting)}
    (reads : Reads arguments granted) : ∀ g ∈ granted, g.2.parameter = g.1 := by
  induction reads with
  | nothing => exact fun _ there => nomatch there
  | ended =>
    intro g there
    obtain ⟨_, _, rfl⟩ := List.mem_map.mp there
    rfl
  | joined _ means _ ih | apart _ _ means _ ih => exact List.forall_mem_cons.mpr ⟨means.parameter_eq, ih⟩
  | flag _ ih | positional _ _ ih => exact List.forall_mem_cons.mpr ⟨rfl, ih⟩

namespace Options

variable {o o' : Options} {arguments arguments' : List String} {granted : List (Parameter × Setting)}

theorem run_forM_modify (settings : List Setting) (o : Options) :
    (settings.forM fun s => modify (·.set s) : ExceptT UsageError (StateM Options) Unit).run o =
      (.ok (), settings.foldl set o) := by
  induction settings generalizing o with
  | nil => rfl
  | cons s settings ih => exact ih (o.set s)

theorem run_parse_of_error {e : UsageError} (refused : settingsOf arguments = .error e) (o : Options) :
    (parse arguments).run o = (.error e, o) := by
  rw [parse, refused]
  rfl

theorem run_parse_of_ok {settings : List Setting} (read : settingsOf arguments = .ok settings) (o : Options) :
    (parse arguments).run o = (.ok (), settings.foldl set o) := by
  rw [parse, read]
  exact run_forM_modify settings o

/-- A list is accepted if it can be read and gives nothing twice, and then does what its reading says. -/
theorem run_parse_eq_ok_iff : (parse arguments).run o = (.ok (), o') ↔
    ∃ granted, Accepted arguments granted ∧ Updates granted o o' := by
  have updates {granted : List (Parameter × Setting)} (accepted : Accepted arguments granted) :=
    updates_foldl_set accepted.1.parameter_eq accepted.2 o
  constructor
  · intro parsed
    cases read : settingsOf arguments with
    | error e => cases (run_parse_of_error read o).symm.trans parsed
    | ok settings =>
      cases (run_parse_of_ok read o).symm.trans parsed
      obtain ⟨granted, accepted, rfl⟩ := settingsOf_eq_ok_iff.mp read
      exact ⟨granted, accepted, updates accepted⟩
  · rintro ⟨granted, accepted, made⟩
    rw [run_parse_of_ok (settingsOf_eq_ok_iff.mpr ⟨granted, accepted, rfl⟩), (updates accepted).unique made]

/-- A list that is refused has no reading, and nothing has been changed when that is found out. -/
theorem of_run_parse_eq_error {e : UsageError} (parsed : (parse arguments).run o = (.error e, o')) :
    o' = o ∧ ∀ granted, ¬ Accepted arguments granted := by
  cases read : settingsOf arguments with
  | ok settings => cases (run_parse_of_ok read o).symm.trans parsed
  | error e =>
    cases (run_parse_of_error read o).symm.trans parsed
    refine ⟨rfl, fun granted accepted => ?_⟩
    cases read.symm.trans (settingsOf_eq_ok_iff.mpr ⟨granted, accepted, rfl⟩)

/-! ### One list after another -/

/-- No list that is accepted names this parameter. -/
def Unnamed (p : Parameter) (lists : List (List String)) : Prop :=
  ∀ arguments ∈ lists, ∀ granted, Accepted arguments granted → p ∉ granted.map Prod.fst

/-- A parameter has this setting by the last of the lists that were accepted and name it. -/
inductive LastGiven (p : Parameter) (s : Setting) : List (List String) → Prop where
  | intro {arguments : List String} {granted : List (Parameter × Setting)} (before : List (List String))
      {later : List (List String)} : Accepted arguments granted → (p, s) ∈ granted → Unnamed p later →
      LastGiven p s (before ++ arguments :: later)

theorem LastGiven.cons {p : Parameter} {s : Setting} {lists : List (List String)} (last : LastGiven p s lists)
    (first : List String) : LastGiven p s (first :: lists) := by
  cases last with
  | intro before accepted there unnamed => exact .intro (first :: before) accepted there unnamed

theorem after_eq {result : Except UsageError Unit} (parsed : (parse arguments).run o = (result, o')) :
    o.after arguments = o' := congrArg Prod.snd parsed

/-- What one list does to one option. -/
theorem field_after (o : Options) (arguments : List String) (p : Parameter) :
    (∃ granted s, Accepted arguments granted ∧ (p, s) ∈ granted ∧ (o.after arguments).field p = some s) ∨
    (Unnamed p [arguments] ∧ (o.after arguments).field p = o.field p) := by
  by_cases named : ∃ granted, Accepted arguments granted ∧ p ∈ granted.map Prod.fst
  · obtain ⟨granted, accepted, named⟩ := named
    obtain ⟨⟨_, s⟩, there, rfl⟩ := List.mem_map.mp named
    have updates := updates_foldl_set accepted.1.parameter_eq accepted.2 o
    have parsed := run_parse_eq_ok_iff.mpr ⟨granted, accepted, updates⟩
    exact .inl ⟨granted, s, accepted, there, after_eq parsed ▸ updates.given _ s there⟩
  · refine .inr ⟨?_, ?_⟩
    · rintro _ (_ | ⟨_, ⟨⟩⟩) granted accepted there
      exact named ⟨granted, accepted, there⟩
    · obtain ⟨result, o', parsed⟩ : ∃ result o', (parse arguments).run o = (result, o') := ⟨_, _, rfl⟩
      rw [after_eq parsed]
      cases result with
      | error e => rw [(of_run_parse_eq_error parsed).1]
      | ok =>
        obtain ⟨granted, accepted, updates⟩ := run_parse_eq_ok_iff.mp parsed
        exact updates.kept p fun there => named ⟨granted, accepted, there⟩

/-- After any lists an option is as the last one left it that was accepted and names it, and as it was before
if there is none. -/
theorem field_foldl_after (lists : List (List String)) (o : Options) (p : Parameter) :
    (∃ s, LastGiven p s lists ∧ (lists.foldl after o).field p = some s) ∨
    (Unnamed p lists ∧ (lists.foldl after o).field p = o.field p) := by
  induction lists generalizing o with
  | nil => exact .inr ⟨fun _ there => (nomatch there), rfl⟩
  | cons arguments lists ih =>
    rcases ih (o.after arguments) with ⟨s, last, holds⟩ | ⟨unnamed, kept⟩
    · exact .inl ⟨s, last.cons arguments, holds⟩
    · rcases field_after o arguments p with ⟨granted, s, accepted, there, holds⟩ | ⟨unnamed', kept'⟩
      · exact .inl ⟨s, .intro [] accepted there unnamed, kept.trans holds⟩
      · refine .inr ⟨List.forall_mem_cons.mpr ⟨unnamed' _ List.mem_cons_self, unnamed⟩, kept.trans kept'⟩

end Options

/-! ### Orders -/

/-- An option that takes the next argument as its value. -/
def Waits (text : String) : Prop :=
  ∃ name p, Parameter.ofName? name = some p ∧ p ≠ .showStatistics ∧ text = "--" ++ name

/-- Arguments that belong together: an option and its value, or anything else but the two dashes. -/
inductive Piece : List String → Prop where
  | alone {text : String} : text ≠ "--" → ¬ Waits text → Piece [text]
  | valued {text : String} (value : String) : Waits text → Piece [text, value]

/-- The same pieces come in another order, before what stays where it is. -/
inductive Reordered : List String → List String → Prop where
  | intro {pieces pieces' : List (List String)} (tail : List String) : (∀ piece ∈ pieces, Piece piece) →
      pieces.Perm pieces' → Reordered (pieces.flatten ++ tail) (pieces'.flatten ++ tail)

theorem Waits.form {text : String} (waits : Waits text) : ∃ name, ArgumentForm.of text = .long name none ∧
    name ≠ "dump-stats" := by
  obtain ⟨name, p, named, valued, rfl⟩ := waits
  obtain ⟨some, whole, flag, _⟩ := Parameter.name_of_ofName? named
  exact ⟨name, ArgumentForm.of_eq_apart_iff.mpr ⟨whole, some, rfl⟩, fun same => valued (flag.mpr same)⟩

variable {text value : String} {piece rest tail : List String} {granted : List (Parameter × Setting)}

/-- An option that waits for a value is read together with the next argument. -/
theorem Reads.of_waits (waits : Waits text) (reads : Reads (text :: rest) granted) :
    ∃ value rest' g granted', rest = value :: rest' ∧ granted = g :: granted' ∧ Reads rest' granted' ∧
      ∀ {rest others}, Reads rest others → Reads (text :: value :: rest) (g :: others) := by
  obtain ⟨name, form, valued⟩ := waits.form
  cases reads with
  | ended => exact nomatch (ArgumentForm.of_eq_endOfOptions_iff.mpr rfl).symm.trans form
  | @joined name' _ _ _ _ _ named =>
    obtain ⟨_, whole, _⟩ := Parameter.name_of_ofName? named
    exact nomatch (ArgumentForm.of_eq_joined_iff.mpr ⟨whole, rfl⟩).symm.trans form
  | apart named plain means reads => exact ⟨_, _, _, _, rfl, rfl, reads, .apart named plain means⟩
  | flag =>
    have flag : ArgumentForm.of "--dump-stats" = .long "dump-stats" none :=
      ArgumentForm.of_eq_apart_iff.mpr (by decide)
    cases flag.symm.trans form
    exact (valued rfl).elim
  | positional plain => exact nomatch (ArgumentForm.of_eq_plain_iff.mpr plain).symm.trans form

/-- A piece is read by itself: it gives one setting, which is the same whatever comes behind. -/
theorem Reads.of_piece (together : Piece piece) (reads : Reads (piece ++ rest) granted) :
    ∃ g others, granted = g :: others ∧ Reads rest others ∧
      ∀ {rest others}, Reads rest others → Reads (piece ++ rest) (g :: others) := by
  cases together with
  | alone inner apart =>
    cases reads with
    | ended => exact (inner rfl).elim
    | joined named means reads => exact ⟨_, _, rfl, reads, .joined named means⟩
    | apart named _ means =>
      refine (apart ⟨_, _, named, ?_, rfl⟩).elim
      rintro rfl
      cases means
    | flag reads => exact ⟨_, _, rfl, reads, .flag⟩
    | positional plain reads => exact ⟨_, _, rfl, reads, .positional plain⟩
  | valued value waits =>
    obtain ⟨_, _, g, others, same, rfl, reads, again⟩ := Reads.of_waits waits reads
    cases same
    exact ⟨g, others, rfl, reads, again⟩

/-- Pieces in another order give the same settings in another order. -/
theorem Reads.reorder {pieces pieces' : List (List String)} (perm : pieces.Perm pieces')
    (together : ∀ piece ∈ pieces, Piece piece) (reads : Reads (pieces.flatten ++ tail) granted) :
    ∃ granted', granted.Perm granted' ∧ Reads (pieces'.flatten ++ tail) granted' := by
  induction perm generalizing granted with
  | nil => exact ⟨granted, .refl _, reads⟩
  | cons piece perm ih =>
    obtain ⟨first, together⟩ := List.forall_mem_cons.mp together
    rw [List.flatten_cons, List.append_assoc] at reads
    obtain ⟨g, others, rfl, reads, again⟩ := Reads.of_piece first reads
    obtain ⟨others', perm, reads⟩ := ih together reads
    exact ⟨g :: others', perm.cons g, by simpa using again reads⟩
  | swap piece piece' pieces =>
    obtain ⟨first, second, _⟩ := by simpa only [List.forall_mem_cons] using together
    simp only [List.flatten_cons, List.append_assoc] at reads
    obtain ⟨g, others, rfl, reads, again⟩ := Reads.of_piece first reads
    obtain ⟨g', others, rfl, reads, again'⟩ := Reads.of_piece second reads
    exact ⟨g' :: g :: others, .swap .., by simpa using again' (again reads)⟩
  | trans first _ ih ih' =>
    obtain ⟨granted₁, perm₁, reads₁⟩ := ih together reads
    obtain ⟨granted₂, perm₂, reads₂⟩ := ih' (fun piece there => together piece (first.mem_iff.mpr there)) reads₁
    exact ⟨granted₂, perm₁.trans perm₂, reads₂⟩

theorem Reordered.symm {arguments arguments' : List String} (reordered : Reordered arguments arguments') :
    Reordered arguments' arguments := by
  cases reordered with
  | intro tail together perm =>
    exact .intro tail (fun piece there => together piece (perm.mem_iff.mpr there)) perm.symm

theorem Options.run_parse_of_reordered {o o' : Options} {arguments arguments' : List String}
    (reordered : Reordered arguments arguments') (parsed : (parse arguments).run o = (.ok (), o')) :
    (parse arguments').run o = (.ok (), o') := by
  obtain ⟨granted, ⟨reads, once⟩, updates⟩ := run_parse_eq_ok_iff.mp parsed
  cases reordered with
  | intro tail together perm =>
    obtain ⟨granted', perm', reads'⟩ := reads.reorder perm together
    exact run_parse_eq_ok_iff.mpr
      ⟨granted', ⟨reads', (perm'.map Prod.fst).nodup_iff.mp once⟩, updates.of_perm perm'⟩

/-- Where the pieces of a list end: where the two dashes stand, or where an option waits in vain. -/
inductive Tail : List String → Prop where
  | nothing : Tail []
  | ended (texts : List String) : Tail ("--" :: texts)
  | waiting {text : String} : Waits text → Tail [text]

/-- Every list is made of pieces. -/
theorem exists_pieces (arguments : List String) : ∃ (pieces : List (List String)) (tail : List String),
    arguments = pieces.flatten ++ tail ∧ (∀ piece ∈ pieces, Piece piece) ∧ Tail tail := by
  match arguments with
  | [] => exact ⟨[], [], rfl, by simp, .nothing⟩
  | text :: rest =>
    by_cases ended : text = "--"
    · exact ⟨[], text :: rest, rfl, by simp, ended ▸ .ended rest⟩
    by_cases waits : Waits text
    · rcases rest with _ | ⟨value, rest⟩
      · exact ⟨[], [text], rfl, by simp, .waiting waits⟩
      · obtain ⟨pieces, tail, rfl, together, last⟩ := exists_pieces rest
        exact ⟨[text, value] :: pieces, tail, rfl,
          List.forall_mem_cons.mpr ⟨.valued value waits, together⟩, last⟩
    · obtain ⟨pieces, tail, rfl, together, last⟩ := exists_pieces rest
      exact ⟨[text] :: pieces, tail, rfl, List.forall_mem_cons.mpr ⟨.alone ended waits, together⟩, last⟩
termination_by arguments.length

/-- Argument lists are parsed as wholes, the later over the earlier. A list that has a reading in which nothing
is given twice gives just the options of that reading their settings; any other is refused, and one that is
refused leaves all options as they were. After any lists an option is as the last one left it that was accepted
and names it, or else has its default. The pieces that lists are made of can come in any order. -/
theorem parsing_is_atomic_and_right_biased :
    (∀ (o o' : Options) (arguments : List String), (Options.parse arguments).run o = (.ok (), o') ↔
      ∃ granted, Accepted arguments granted ∧ Options.Updates granted o o') ∧
    (∀ (o : Options) (arguments : List String), (∀ granted, ¬ Accepted arguments granted) →
      ∃ e o', (Options.parse arguments).run o = (.error e, o')) ∧
    (∀ (o o' : Options) (arguments : List String) (e : UsageError),
      (Options.parse arguments).run o = (.error e, o') → o' = o) ∧
    (∀ (lists : List (List String)) (p : Parameter),
      (∃ s, Options.LastGiven p s lists ∧ (lists.foldl Options.after {}).field p = some s) ∨
      (Options.Unnamed p lists ∧ (lists.foldl Options.after {}).field p = Options.field {} p)) ∧
    (∀ arguments : List String, ∃ (pieces : List (List String)) (tail : List String),
      arguments = pieces.flatten ++ tail ∧ (∀ piece ∈ pieces, Piece piece) ∧ Tail tail) ∧
    ∀ (o : Options) (arguments arguments' : List String), Reordered arguments arguments' →
      o.after arguments = o.after arguments' ∧
        ((Options.parse arguments).run o).1.toOption = ((Options.parse arguments').run o).1.toOption := by
  refine ⟨fun _ _ _ => Options.run_parse_eq_ok_iff, fun o arguments refused => ?_,
    fun _ _ _ _ parsed => (Options.of_run_parse_eq_error parsed).1,
    fun lists => Options.field_foldl_after lists {}, exists_pieces, fun o arguments arguments' reordered => ?_⟩
  · obtain ⟨result, o', parsed⟩ : ∃ result o', (Options.parse arguments).run o = (result, o') := ⟨_, _, rfl⟩
    cases result with
    | error e => exact ⟨e, o', parsed⟩
    | ok =>
      obtain ⟨granted, accepted, _⟩ := Options.run_parse_eq_ok_iff.mp parsed
      exact (refused granted accepted).elim
  · obtain ⟨result, o₁, parsed⟩ : ∃ result o', (Options.parse arguments).run o = (result, o') := ⟨_, _, rfl⟩
    obtain ⟨result', o₂, parsed'⟩ : ∃ result o', (Options.parse arguments').run o = (result, o') := ⟨_, _, rfl⟩
    rw [Options.after_eq parsed, Options.after_eq parsed', parsed, parsed']
    cases result with
    | ok =>
      cases (Options.run_parse_of_reordered reordered parsed).symm.trans parsed'
      exact ⟨rfl, rfl⟩
    | error e =>
      cases result' with
      | ok => cases (Options.run_parse_of_reordered reordered.symm parsed').symm.trans parsed
      | error e' =>
        exact ⟨(Options.of_run_parse_eq_error parsed).1.trans (Options.of_run_parse_eq_error parsed').1.symm, rfl⟩

def typeFirst : List String := ["--pta-type", "obj", "--context-depth=2", "--", "-in"]

def depthFirst : List String := ["--context-depth=2", "--pta-type", "obj", "--", "-in"]

def typeTwice : List String := ["--context-depth=2", "--pta-type", "obj", "--pta-type=ci"]

/-- An option and its value change places with another option, and a third list gives one option twice. -/
theorem parsing_is_atomic_and_right_biased_twoOrders :
    (Options.parse typeFirst).run {} =
      (.ok (), { analysis := .objectSensitive, depth := 2, input := some "-in" }) ∧
    Reordered typeFirst depthFirst ∧ Options.after {} typeFirst = Options.after {} depthFirst ∧
    (∀ granted, ¬ Accepted typeTwice granted) ∧
    ∃ e, (Options.parse typeTwice).run { depth := 3 } = (.error e, { depth := 3 }) := by
  obtain ⟨parses, refuses, keeps, _, _, reorders⟩ := parsing_is_atomic_and_right_biased
  have waits : Waits "--pta-type" := ⟨"pta-type", .analysis, rfl, by decide, rfl⟩
  have joined : ¬ Waits "--context-depth=2" := fun waits => by
    have form : ArgumentForm.of "--context-depth=2" = .long "context-depth" (some "2") := rfl
    obtain ⟨_, form', _⟩ := waits.form
    cases form.symm.trans form'
  have together : ∀ piece ∈ [["--pta-type", "obj"], ["--context-depth=2"]], Piece piece := by
    simp only [List.forall_mem_cons]
    exact ⟨.valued "obj" waits, .alone (by decide) joined, fun _ there => (nomatch there)⟩
  have reordered : Reordered typeFirst depthFirst := .intro ["--", "-in"] together (.swap ..)
  have once : settingsOf typeFirst = .ok [.analysis .objectSensitive, .depth 2, .input "-in"] := rfl
  have twice : settingsOf typeTwice = .error .unexpectedMultipleUsage := rfl
  have refused (granted : List (Parameter × Setting)) (accepted : Accepted typeTwice granted) : False := by
    have made := Options.updates_foldl_set accepted.1.parameter_eq accepted.2 {}
    have parsed := (parses _ _ _).mpr ⟨granted, accepted, made⟩
    cases (Options.run_parse_of_error twice {}).symm.trans parsed
  obtain ⟨e, o', parsed⟩ := refuses { depth := 3 } _ refused
  obtain rfl := keeps _ _ _ _ parsed
  exact ⟨Options.run_parse_of_ok once {}, reordered, (reorders {} _ _ reordered).1, refused, e, parsed⟩

end PointerAnalysis
