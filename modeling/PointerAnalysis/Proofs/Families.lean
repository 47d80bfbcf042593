import Mathlib.Logic.Function.Basic

/-! Families of values that go by names, under operations each of which gives one of them a new value.
What relates two readings of every operation relates the families that a history leaves. -/
namespace PointerAnalysis.Family

variable {R Op α β : Type} [DecidableEq R] (target : Op → R)

/-- A family after an operation, which changes the target only. -/
def perform (apply : (R → α) → Op → α) (family : R → α) (op : Op) : R → α :=
  Function.update family (target op) (apply family op)

/-- A family after a history of operations. -/
def after (start : α) (apply : (R → α) → Op → α) (ops : List Op) : R → α :=
  ops.foldl (perform target apply) fun _ => start

variable {target}

/-- Related families stay related if they are given related values for one name. -/
theorem update_related {Related : α → β → Prop} {family : R → α} {family' : R → β}
    (related : ∀ r, Related (family r) (family' r)) {r : R} {x : α} {y : β} (new : Related x y) (s : R) :
    Related (Function.update family r x s) (Function.update family' r y s) := by
  by_cases same : s = r
  · subst same
    rwa [Function.update_self, Function.update_self]
  · rw [Function.update_of_ne same, Function.update_of_ne same]
    exact related s

theorem after_related {Related : α → β → Prop} {start : α} {start' : β}
    {apply : (R → α) → Op → α} {apply' : (R → β) → Op → β} (begins : Related start start')
    (steps : ∀ family family' op, (∀ r, Related (family r) (family' r)) →
      Related (apply family op) (apply' family' op))
    (ops : List Op) (r : R) : Related (after target start apply ops r) (after target start' apply' ops r) := by
  have performed (family : R → α) (family' : R → β) (op : Op)
      (related : ∀ r, Related (family r) (family' r)) (r : R) :
      Related (perform target apply family op r) (perform target apply' family' op r) :=
    update_related related (steps family family' op related) r
  have folded (family : R → α) (family' : R → β) (related : ∀ r, Related (family r) (family' r)) :
      Related (ops.foldl (perform target apply) family r) (ops.foldl (perform target apply') family' r) := by
    induction ops generalizing family family' with
    | nil => exact related r
    | cons op ops ih => exact ih _ _ (performed family family' op related)
  exact folded _ _ fun _ => begins

end PointerAnalysis.Family
