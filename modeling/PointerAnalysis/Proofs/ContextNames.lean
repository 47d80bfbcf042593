import PointerAnalysis.Proofs.Names
import PointerAnalysis.Proofs.Reports
import PointerAnalysis.Proofs.Solver.Origins

/-! Names of what contexts tell apart. A context is printed as a list of words without commas and brackets,
so it can be read back from the text before the first closing bracket. Objects under different contexts
therefore have different names, like the objects themselves, whatever the names of the program are. -/
namespace PointerAnalysis

/-! ### Lists of words -/

/-- A word that can be read back from a list in brackets. -/
structure PlainWord (word : String) : Prop where
  nonempty : word ≠ ""
  no_comma : ',' ∉ word.toList
  no_bracket : ']' ∉ word.toList
  no_newline : '\n' ∉ word.toList

section Words

variable {words words' : List String}

theorem mem_intercalate {c : Char} {separator : String}
    (there : c ∈ (separator.intercalate words).toList) :
    c ∈ separator.toList ∨ ∃ word ∈ words, c ∈ word.toList := by
  induction words with
  | nil => simp at there
  | cons word words ih =>
    cases words with
    | nil => exact .inr ⟨word, List.mem_singleton.mpr rfl, by simpa using there⟩
    | cons next words =>
      rw [String.intercalate_cons_cons, String.toList_append, String.toList_append, List.mem_append,
        List.mem_append] at there
      rcases there with (first | between) | rest
      · exact .inr ⟨word, List.mem_cons_self, first⟩
      · exact .inl between
      · exact (ih rest).imp_right fun ⟨word, listed, here⟩ => ⟨word, List.mem_cons_of_mem _ listed, here⟩

/-- A list of plain words is known by its text. -/
theorem intercalate_injective (plain : ∀ word ∈ words, PlainWord word)
    (plain' : ∀ word ∈ words', PlainWord word)
    (same : ", ".intercalate words = ", ".intercalate words') : words = words' := by
  have nonempty {word : String} {words : List String} (plain : PlainWord word) :
      ", ".intercalate (word :: words) ≠ "" := by
    cases words with
    | nil => simpa using plain.nonempty
    | cons next words => simp [String.intercalate_cons_cons, plain.nonempty]
  have several {word next : String} {words : List String} :
      ',' ∈ (", ".intercalate (word :: next :: words)).toList := by
    simp [String.intercalate_cons_cons, String.toList_append]
  induction words generalizing words' with
  | nil =>
    cases words' with
    | nil => rfl
    | cons word' words' => exact absurd same.symm (nonempty (plain' _ List.mem_cons_self))
  | cons word words ih =>
    obtain ⟨first, others⟩ := List.forall_mem_cons.mp plain
    cases words' with
    | nil => exact absurd same (nonempty first)
    | cons word' words' =>
      obtain ⟨first', others'⟩ := List.forall_mem_cons.mp plain'
      cases words with
      | nil =>
        cases words' with
        | nil => simpa using same
        | cons next' words' =>
          rw [String.intercalate_singleton] at same
          exact absurd (same ▸ several) first.no_comma
      | cons next words =>
        cases words' with
        | nil =>
          rw [String.intercalate_singleton] at same
          exact absurd (same ▸ several) first'.no_comma
        | cons next' words' =>
          have split (word text : String) : word ++ ", " ++ text = word ++ "," ++ (" " ++ text) := by
            simp [← String.toList_inj, String.toList_append]
          rw [String.intercalate_cons_cons, String.intercalate_cons_cons, split, split] at same
          obtain ⟨rfl, rest⟩ := append_inj_of_first rfl first.no_comma first'.no_comma same
          rw [ih others others' ((String.append_right_inj _).mp rest)]

end Words

/-! ### Contexts -/

/-- Where the elements are printed as plain words, what a text starts with determines them. -/
theorem Context.text_append_inj {E : Type} {label : E → String} (plain : ∀ e, PlainWord (label e))
    {c c' : Context E} {rest rest' : String} (same : c.text label ++ rest = c'.text label ++ rest') :
    c.map label = c'.map label ∧ rest = rest' := by
  have words (c : Context E) : ∀ word ∈ c.map label, PlainWord word := by
    intro word listed
    obtain ⟨e, _, rfl⟩ := List.mem_map.mp listed
    exact plain e
  have lacks (c : Context E) : ']' ∉ ("[" ++ ", ".intercalate (c.map label)).toList := by
    rw [String.toList_append, List.mem_append, not_or]
    refine ⟨by decide, fun there => ?_⟩
    rcases mem_intercalate there with between | ⟨word, listed, here⟩
    · exact absurd between (by decide)
    · exact (words c word listed).no_bracket here
  obtain ⟨inner, rest⟩ := append_inj_of_first rfl (lacks c) (lacks c') same
  exact ⟨intercalate_injective (words c) (words c') ((String.append_right_inj _).mp inner), rest⟩

theorem Context.newline_not_mem_text {E : Type} {label : E → String} (plain : ∀ e, PlainWord (label e))
    (c : Context E) : '\n' ∉ (c.text label).toList := by
  have inside : '\n' ∉ (", ".intercalate (c.map label)).toList := by
    intro there
    rcases mem_intercalate there with between | ⟨word, listed, here⟩
    · exact absurd between (by decide)
    · obtain ⟨e, _, rfl⟩ := List.mem_map.mp listed
      exact (plain e).no_newline here
  simp only [Context.text, String.toList_append, List.mem_append, inside, or_false]
  decide

namespace Id

variable {kind : Entity} {id id' : Id kind}

theorem text_injective (same : id.text = id'.text) : id = id' := by
  rw [text, text, String.append_left_inj, String.append_right_inj] at same
  exact ext (Nat.repr_injective same)

theorem plainWord_text (id : Id kind) : PlainWord id.text where
  nonempty empty := by simp [text] at empty
  no_comma := by
    have word : ',' ∉ kind.word.toList := by cases kind <;> decide
    simp [text, String.toList_append, word, not_mem_toDigits]
  no_bracket := by
    have word : ']' ∉ kind.word.toList := by cases kind <;> decide
    simp [text, String.toList_append, word, not_mem_toDigits]
  no_newline := by
    have word : '\n' ∉ kind.word.toList := by cases kind <;> decide
    simp [text, String.toList_append, word, not_mem_toDigits]

end Id

namespace AnalysisKind

variable {kind : AnalysisKind} {depth : Nat}

theorem plainWord_label (number : AbstractObject → ObjectId) (e : kind.Element) :
    PlainWord ((kind.policy depth).label number e) := by
  cases kind with
  | insensitive =>
    have word : PlainWord "()" := ⟨by decide, by decide, by decide, by decide⟩
    exact word
  | callSiteSensitive => exact Id.plainWord_text _
  | objectSensitive => exact Id.plainWord_text _

/-- Only receivers are printed by their numbers among the objects. -/
theorem label_eq_of_unnumbered (unnumbered : kind ≠ .objectSensitive)
    (number number' : AbstractObject → ObjectId) :
    (kind.policy depth).label number = (kind.policy depth).label number' := by
  cases kind with
  | insensitive => rfl
  | callSiteSensitive => rfl
  | objectSensitive => exact absurd rfl unnumbered

/-- Elements that contexts can be made of are known by their words. -/
theorem label_injective {p : Program} {c : Canon kind.Element} {e e' : kind.Element}
    (known : kind.Known p c e) (known' : kind.Known p c e')
    (same : (kind.policy depth).label (fun o => ⟨c.objects.idxOf o⟩) e =
      (kind.policy depth).label (fun o => ⟨c.objects.idxOf o⟩) e') : e = e' := by
  cases kind with
  | insensitive => rfl
  | callSiteSensitive => exact Id.text_injective same
  | objectSensitive =>
    obtain ⟨id, found⟩ := known
    obtain ⟨id', found'⟩ := known'
    have number {id : ObjectId} {o : AbstractObject} (found : c.object id = .ok o) :
        c.objects.idxOf o = id.index := by
      rw [Registry.idxOf, Registry.position?_eq_some_iff.mpr (Id.lookup_eq_ok_iff.mp found),
        Option.getD_some]
    have numbers := congrArg Id.index (Id.text_injective same)
    simp only [number found, number found'] at numbers
    cases Id.ext numbers
    exact Except.ok.inj (found.symm.trans found')

end AnalysisKind

/-! ### Names of what has a number -/

namespace Solution

section Names

variable {E S : Type} [Coded E] (r : Solution E S)

def contextText (c : Context E) : String :=
  c.text (r.analysis.policy.label fun o => ⟨r.state.canon.objects.idxOf o⟩)

/-- The name of an object under a context. -/
def heapObjectLabel (o : HeapObject E) : Except UnknownId String := do
  return r.contextText o.context ++ ":" ++ (← r.objectLabel o.object)

/-- The name of a variable or a field with its context. -/
def fullLabel : Location E → Except UnknownId String
  | .var c v => do return r.contextText c ++ ":" ++ (← r.analysis.program.varName v)
  | .field o f => do return (← r.heapObjectLabel o) ++ "." ++ (← r.analysis.program.field f)

variable {r}

theorem contextObjectLabel_eq {id : ContextObjectId} {o : HeapObject E}
    (named : r.state.canon.Names id o) : r.contextObjectLabel id = r.heapObjectLabel o := by
  obtain ⟨entry, found, context, object⟩ := named
  simp [contextObjectLabel, mergedObjectLabel, contextLabel, heapObjectLabel, contextText, found, context,
    object]

theorem pointerLabel_eq {q : PointerId} {l : Location E} (located : r.state.canon.Locates q l) :
    r.pointerLabel q = r.fullLabel l := by
  cases located with
  | var found context => simp [pointerLabel, contextLabel, fullLabel, contextText, found, context]
  | field found named => simp [pointerLabel, fullLabel, found, contextObjectLabel_eq named]

end Names

/-- Different objects under contexts have different names. -/
def ContextObjectsApart {E S : Type} [Coded E] (r : Solution E S) : Prop :=
  ∀ {id id' label}, r.contextObjectLabel id = .ok label → r.contextObjectLabel id' = .ok label → id = id'

section Loaded

variable {kind : AnalysisKind} {S : Type} {p : Program} {depth : Nat} {heap : HeapKind}
  {s : Solver.State kind.Element S}

/-- A context that has a number is known by what a text starts with. -/
theorem contextText_append_inj (composed : kind.Composed p s.canon) {id id' : ContextId}
    {c c' : Context kind.Element} (named : s.canon.context id = .ok c)
    (named' : s.canon.context id' = .ok c') {rest rest' : String}
    (same : contextText ⟨p.analysis kind depth heap, s⟩ c ++ rest =
      contextText ⟨p.analysis kind depth heap, s⟩ c' ++ rest') : c = c' ∧ rest = rest' := by
  obtain ⟨words, rest⟩ := Context.text_append_inj (fun e => kind.plainWord_label _ e) same
  refine ⟨eq_of_map_eq (fun e there e' there' same => ?_) words, rest⟩
  exact kind.label_injective (composed id c named e there) (composed id' c' named' e' there') same

variable {d : Described.Program} (loaded : d.link = .ok p) [IdSet S .contextObject] [LawfulIdSet S]
include loaded

/-- Objects under contexts have different names in every state of a run on a loaded program. -/
theorem contextObjectsApart_of_reachable (reachable : s.Reachable (p.analysis kind depth heap)) :
    ContextObjectsApart ⟨p.analysis kind depth heap, s⟩ := by
  have stands := Described.Program.standsFor_of_link loaded
  have distinct := (Described.Program.wellFormed_of_link loaded).types_distinct
  have inRange := reachable.inRange stands.coherent
  have known {id : ContextObjectId} {label : String}
      (labelled : contextObjectLabel ⟨p.analysis kind depth heap, s⟩ id = .ok label) :
      ∃ o, s.canon.Names id o ∧ p.Makes heap o.object := by
    obtain ⟨entry, found, _⟩ := bind_eq_ok_iff.mp labelled
    obtain ⟨o, named⟩ := inRange.sound.contextObjects found
    obtain ⟨m, _, _, allocates, _⟩ := (reachable.traced.makes named).records
    exact ⟨o, named, m, allocates⟩
  intro id id' label labelled labelled'
  obtain ⟨o, named, made⟩ := known labelled
  obtain ⟨o', named', made'⟩ := known labelled'
  rw [contextObjectLabel_eq named] at labelled
  rw [contextObjectLabel_eq named'] at labelled'
  obtain ⟨object, isNamed, whole⟩ := bind_eq_ok_iff.mp labelled
  obtain ⟨object', isNamed', whole'⟩ := bind_eq_ok_iff.mp labelled'
  have same := Except.ok.inj (whole.trans whole'.symm)
  rw [String.append_assoc, String.append_assoc] at same
  have ⟨_, _, context, _⟩ := named
  have ⟨_, _, context', _⟩ := named'
  obtain ⟨contexts, same⟩ := contextText_append_inj inRange.composed context context' same
  rw [String.append_right_inj] at same
  have objects := objectLabel_injective (r := ⟨p.analysis kind depth heap, s⟩) stands distinct made made'
    isNamed (same ▸ isNamed')
  obtain ⟨_, _⟩ := o
  obtain ⟨_, _⟩ := o'
  cases contexts
  cases objects
  exact named.injective named'

/-! ### Names on one line -/

section Unbroken

variable (unbroken : d.UnbrokenNames) {label : String}

omit loaded [IdSet S .contextObject] [LawfulIdSet S] in
theorem newline_not_mem_contextLabel {id : ContextId}
    (labelled : contextLabel ⟨p.analysis kind depth heap, s⟩ id = .ok label) : '\n' ∉ label.toList := by
  obtain ⟨c, _, same⟩ := bind_eq_ok_iff.mp labelled
  cases same
  exact Context.newline_not_mem_text (fun e => kind.plainWord_label _ e) c

include unbroken

omit [IdSet S .contextObject] [LawfulIdSet S] in
theorem newline_not_mem_contextObjectLabel {id : ContextObjectId}
    (labelled : contextObjectLabel ⟨p.analysis kind depth heap, s⟩ id = .ok label) :
    '\n' ∉ label.toList := by
  obtain ⟨entry, _, labelled⟩ := bind_eq_ok_iff.mp labelled
  obtain ⟨context, contextLabelled, labelled⟩ := bind_eq_ok_iff.mp labelled
  obtain ⟨object, objectLabelled, same⟩ := bind_eq_ok_iff.mp labelled
  obtain ⟨_, _, objectLabelled⟩ := bind_eq_ok_iff.mp objectLabelled
  obtain ⟨o, _, objectLabelled⟩ := bind_eq_ok_iff.mp objectLabelled
  cases same
  have front := newline_not_mem_contextLabel contextLabelled
  have back := newline_not_mem_objectLabel (Described.Program.standsFor_of_link loaded) unbroken objectLabelled
  simp [String.toList_append, front, back]

omit [IdSet S .contextObject] [LawfulIdSet S] in
theorem newline_not_mem_pointerLabel {q : PointerId}
    (labelled : pointerLabel ⟨p.analysis kind depth heap, s⟩ q = .ok label) : '\n' ∉ label.toList := by
  have stands := Described.Program.standsFor_of_link loaded
  obtain ⟨pointer, _, labelled⟩ := bind_eq_ok_iff.mp labelled
  cases pointer with
  | var context v =>
    obtain ⟨context, contextLabelled, labelled⟩ := bind_eq_ok_iff.mp labelled
    obtain ⟨name, named, same⟩ := bind_eq_ok_iff.mp labelled
    cases same
    have front := newline_not_mem_contextLabel contextLabelled
    have back := stands.newline_not_mem_varName unbroken named
    simp [String.toList_append, front, back]
  | field object f =>
    obtain ⟨object, objectLabelled, labelled⟩ := bind_eq_ok_iff.mp labelled
    obtain ⟨name, named, same⟩ := bind_eq_ok_iff.mp labelled
    cases same
    have front := newline_not_mem_contextObjectLabel loaded unbroken objectLabelled
    have back := stands.newline_not_mem_field unbroken named
    simp [String.toList_append, front, back]

end Unbroken

end Loaded

end Solution

end PointerAnalysis
