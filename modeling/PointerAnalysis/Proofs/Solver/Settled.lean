import PointerAnalysis.Proofs.Rules.Closed
import PointerAnalysis.Proofs.Solver.Quiet

/-! What has been reacted to. A recorded fact is settled when all that it asks for is shown, be it
recorded or still waiting; the facts whose reactions are under way are the debts of a state. A
change settles nothing for ever by accident: new entries become debts, and a new flow edge must
have delivered what its source had passed on before. -/
namespace PointerAnalysis.Solver

variable {E S α β : Type} [Coded E] [IdSet S .contextObject]

namespace State

/-- Every recorded fact has got what it asks for, apart from the debts. -/
def Settled (a : Analysis E) (s : State E S) (debts : Fact E → Prop) : Prop :=
  ∀ f, s.Records f → debts f ∨ a.Answered s.Records s.Shows f

variable {a : Analysis E} {s s' : State E S} {debts debts' : Fact E → Prop}

/-- Nothing is unsettled by a change that keeps what was shown, delivers along new flow edges and
owes the reactions to whatever else it records. -/
theorem Settled.advance (settled : s.Settled a debts) (grounded : s.Grounded a)
    (canon : s.canon.Extends s'.canon) (shows : ∀ f, s.Shows f → s'.Shows f)
    (flow : ∀ e ∈ s'.flow.edges.toList, e ∈ s.flow.edges.toList ∨
      ∀ o ∈ IdSet.toList (s.pointsTo.propagatedOf e.source), s'.pointsTo.Knows e.target o)
    (owed : ∀ f, debts f → debts' f)
    (reached : ∀ id ∈ s'.calls.reached.toList, id ∈ s.calls.reached.toList ∨
      ∀ c m, s'.canon.Enters id c m → debts' (.reached c m))
    (calls : ∀ e ∈ s'.calls.edges.toList, e ∈ s.calls.edges.toList ∨
      ∀ c site c' m, s'.canon.CallsAt e.site c site → s'.canon.Enters e.callee c' m →
        debts' (.calls c site c' m))
    (passed : ∀ p, ∀ id ∈ IdSet.toList (s'.pointsTo.propagatedOf p),
      id ∈ IdSet.toList (s.pointsTo.propagatedOf p) ∨
        ∀ l o, s'.canon.Locates p l → s'.canon.Names id o → debts' (.holds l o)) :
    s'.Settled a debts' := by
  intro f recorded
  cases recorded with
  | reached there enters =>
    rcases reached _ there with old | owes
    · obtain ⟨_, _, before, _⟩ := grounded.reaches old
      refine (settled _ (.reached old (canon.enters_back before enters))).imp (owed _) ?_
      exact fun answered statement has => (answered statement has).mono shows
    · exact .inl (owes _ _ enters)
  | calls there placed enters =>
    rcases calls _ (Array.mem_toList_iff.mpr there) with old | owes
    · obtain ⟨_, _, _, _, _, placed₀, entered₀, _⟩ := grounded.calls old
      refine (settled _ (.calls (Array.mem_toList_iff.mp old) (canon.callsAt_back placed₀ placed)
        (canon.enters_back entered₀ enters))).imp (owed _) ?_
      exact fun answered => answered.mono shows
    · exact .inl (owes _ _ _ _ placed enters)
  | flows => exact .inr trivial
  | holds there located named =>
    rcases passed _ _ there with old | owes
    · obtain ⟨_, _, located₀, named₀, _⟩ := grounded.holds (.inr old)
      refine (settled _ (.holds old (canon.locates_back located₀ located)
        (canon.names_back named₀ named))).imp (owed _) ?_
      rintro ⟨arrived, reacted⟩
      refine ⟨?_, fun c x same => (reacted c x same).mono shows⟩
      rintro target kind (_ | _ | ⟨along, fromSource, toTarget⟩ | _)
      rcases flow _ (Array.mem_toList_iff.mpr along) with edge | delivered
      · obtain ⟨_, _, source₀, target₀, _⟩ := grounded.flows edge
        exact shows _ (arrived target _ (.flows (Array.mem_toList_iff.mp edge)
          (canon.locates_back source₀ fromSource) (canon.locates_back target₀ toTarget)))
      · cases fromSource.injective located
        exact shows_holds (delivered _ old) toTarget named
    · exact .inl (owes _ _ located named)

theorem Settled.grows (settled : s.Settled a debts) (grounded : s.Grounded a)
    (grows : s.Grows s') : s'.Settled a debts :=
  settled.advance grounded grows.canon (fun _ => grows.shows) grows.delivered (fun _ => id)
    (fun _ there => .inl (grows.calls ▸ there)) (fun _ there => .inl (grows.calls ▸ there))
    fun p _ there => .inl (grows.propagated p ▸ there)

/-- Debts are paid when what they ask for is shown. -/
theorem Settled.pay (settled : s.Settled a debts)
    (answered : ∀ f, debts f → s.Records f → debts' f ∨ a.Answered s.Records s.Shows f) :
    s.Settled a debts' := by
  intro f recorded
  rcases settled f recorded with owed | held
  · exact answered f owed recorded
  · exact .inr held

/-- A state between two steps, or one in which only the debts await their reactions. -/
structure Orderly (a : Analysis E) (debts : Fact E → Prop) (s : State E S) : Prop where
  grounded : s.Grounded a
  settled : s.Settled a debts
  scheduled : s.Scheduled

/-- A later state that shows all that was shown. -/
structure Follows (s s' : State E S) : Prop where
  advances : s.Advances s'
  shows : ∀ f, s.Shows f → s'.Shows f

theorem Follows.refl (s : State E S) : s.Follows s := ⟨.refl s, fun _ => id⟩

theorem Follows.trans {s s' s'' : State E S} (first : s.Follows s') (second : s'.Follows s'') :
    s.Follows s'' :=
  ⟨first.advances.trans second.advances, fun f shown => second.shows f (first.shows f shown)⟩

theorem Grows.follows (grows : s.Grows s') : s.Follows s' := ⟨grows.advances, fun _ => grows.shows⟩

theorem Orderly.grows (orderly : s.Orderly a debts) (grows : s.Grows s')
    (grounded : s'.Grounded a) : s'.Orderly a debts :=
  ⟨grounded, orderly.settled.grows orderly.grounded grows, grows.scheduled orderly.scheduled⟩

end State

theorem follows_progress : Progress (State.Follows : State E S → State E S → Prop) :=
  ⟨.refl, .trans, State.Follows.advances⟩

/-- A computation that leads from an orderly state to a later one with the same debts, unless it is
obstructed. -/
abbrev Keeps (a : Analysis E) (debts : Fact E → Prop) :
    Solver E S α → State E S → (α → State E S → Prop) → Prop :=
  Leads a State.Follows (State.Orderly a debts)

variable {a : Analysis E} {s : State E S} {debts debts' : Fact E → Prop}
  {success : α → State E S → Prop}

theorem Quiet.keeps {m : Solver E S α} (quiet : Quiet a m s success)
    (orderly : s.Orderly a debts) : Keeps a debts m s success := by
  refine Outcome.mono quiet ?_ fun _ _ => id
  rintro x s' ⟨grows, grounded, held⟩
  exact ⟨grows.follows, orderly.grows grows grounded, held⟩

theorem Keeps.mono {m : Solver E S α} {success' : α → State E S → Prop}
    (keeps : Keeps a debts m s success)
    (weaker : ∀ x s', s'.Orderly a debts → success x s' → success' x s') :
    Keeps a debts m s success' :=
  Outcome.mono keeps (fun x s' held => ⟨held.1, held.2.1, weaker x s' held.2.1 held.2.2⟩)
    fun _ _ => id

/-- A computation pays debts if in the end what they ask for is shown. -/
theorem Keeps.pay {m : Solver E S α} (keeps : Keeps a debts m s success)
    (answered : ∀ x s', success x s' → ∀ f, debts f → s'.Records f →
      debts' f ∨ a.Answered s'.Records s'.Shows f) : Keeps a debts' m s success := by
  refine Outcome.mono keeps ?_ fun _ _ => id
  rintro x s' ⟨follows, orderly, held⟩
  exact ⟨follows, ⟨orderly.grounded, orderly.settled.pay (answered x s' held), orderly.scheduled⟩,
    held⟩

theorem keeps_pure {x : α} (orderly : s.Orderly a debts) (holds : success x s) :
    Keeps a debts (pure x) s success :=
  leads_pure follows_progress orderly holds

theorem keeps_bind {m : Solver E S α} {f : α → Solver E S β} {middle : α → State E S → Prop}
    {success : β → State E S → Prop} (first : Keeps a debts m s middle)
    (second : ∀ x s', s.Follows s' → s'.Orderly a debts → middle x s' →
      Keeps a debts (f x) s' success) : Keeps a debts (m >>= f) s success :=
  leads_bind follows_progress first second

theorem keeps_forM {l : List β} {body : β → Solver E S Unit} {achieved : β → State E S → Prop}
    (orderly : s.Orderly a debts)
    (lasting : ∀ x s s', s.Follows s' → achieved x s → achieved x s')
    (each : ∀ x ∈ l, ∀ s', s.Follows s' → s'.Orderly a debts →
      Keeps a debts (body x) s' (fun _ => achieved x)) :
    Keeps a debts (l.forM body) s (fun _ s' => ∀ x ∈ l, achieved x s') :=
  leads_forM follows_progress orderly lasting each

/-- A computation that runs on from a later state runs on from the earlier one. -/
theorem Keeps.from_earlier {m : Solver E S α} {s₀ : State E S} (keeps : Keeps a debts m s success)
    (follows : s₀.Follows s) :
    Outcome m s (fun x s' => s₀.Follows s' ∧ s'.Orderly a debts ∧ success x s')
      (fun e s' => s₀.Advances s' ∧ s'.Grounded a ∧ a.Obstructed e) := by
  refine Outcome.mono keeps ?_ ?_
  · rintro x s' ⟨follows', orderly, held⟩
    exact ⟨follows.trans follows', orderly, held⟩
  · rintro e s' ⟨advances, grounded, obstructed⟩
    exact ⟨follows.advances.trans advances, grounded, obstructed⟩

end PointerAnalysis.Solver
