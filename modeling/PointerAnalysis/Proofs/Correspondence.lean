import Mathlib.Data.List.Pairwise
import Mathlib.Data.List.Perm.Basic
import Mathlib.Logic.Equiv.Basic

/-! One-to-one correspondences. A finite one extends to a permutation, and lists whose elements
correspond to those of one list, whatever their order, can be paired. -/
namespace PointerAnalysis

variable {α β γ : Type}

/-- A finite relation that is one to one is part of a permutation. -/
theorem exists_perm_of_relation {R : α → α → Prop} (l : List α)
    (functional : ∀ {x y y'}, R x y → R x y' → y = y')
    (injective : ∀ {x x' y}, R x y → R x' y → x = x') :
    ∃ σ : Equiv.Perm α, ∀ x ∈ l, ∀ y, R x y → σ x = y := by
  classical
  induction l with
  | nil => exact ⟨.refl α, by simp⟩
  | cons x l ih =>
    obtain ⟨σ, agrees⟩ := ih
    by_cases related : ∃ y, R x y
    · obtain ⟨y, here⟩ := related
      -- Swapping the image of `x` with `y` disturbs nothing else that is related.
      refine ⟨σ.trans (Equiv.swap (σ x) y), fun x' listed y' there => ?_⟩
      by_cases same : x' = x
      · subst same
        rw [Equiv.trans_apply, Equiv.swap_apply_left]
        exact functional here there
      · have listed := (List.mem_cons.mp listed).resolve_left same
        rw [Equiv.trans_apply, agrees x' listed y' there]
        refine Equiv.swap_apply_of_ne_of_ne (fun image => same ?_) fun image => same ?_
        · exact σ.injective ((agrees x' listed y' there).trans image)
        · exact injective there (image ▸ here)
    · refine ⟨σ, fun x' listed y there => ?_⟩
      rcases List.mem_cons.mp listed with rfl | listed
      · exact absurd ⟨y, there⟩ related
      · exact agrees x' listed y there

private theorem exists_zip {R : α → γ → Prop} {R' : β → γ → Prop} {l : List α} {l' : List β}
    {m : List γ} (left : List.Forall₂ R l m) (right : List.Forall₂ R' l' m) :
    ∃ pairs : List (α × β), pairs.map Prod.fst = l ∧ pairs.map Prod.snd = l' ∧
      ∀ pair ∈ pairs, ∃ z, R pair.1 z ∧ R' pair.2 z := by
  induction left generalizing l' with
  | nil =>
    cases right
    exact ⟨[], rfl, rfl, by simp⟩
  | @cons x z l m first rest ih =>
    cases right with
    | @cons y _ _ _ first' rest' =>
      obtain ⟨pairs, same, same', related⟩ := ih rest'
      refine ⟨(x, y) :: pairs, congrArg (x :: ·) same, congrArg (y :: ·) same', ?_⟩
      exact List.forall_mem_cons.mpr ⟨⟨z, first, first'⟩, related⟩

/-- Lists that correspond to one list, each in an order of its own, can be paired. -/
theorem exists_pairs {R : α → γ → Prop} {R' : β → γ → Prop} {l : List α} {l' : List β}
    {m m' : List γ} (left : List.Forall₂ R l m) (reordered : m.Perm m')
    (right : List.Forall₂ R' l' m') :
    ∃ pairs : List (α × β), (pairs.map Prod.fst).Perm l ∧ (pairs.map Prod.snd).Perm l' ∧
      ∀ pair ∈ pairs, ∃ z, R pair.1 z ∧ R' pair.2 z := by
  obtain ⟨l₂, left, same⟩ := List.perm_comp_forall₂ reordered.symm (List.Forall₂.flip left)
  obtain ⟨pairs, rfl, rfl, related⟩ := exists_zip (List.Forall₂.flip left) right
  exact ⟨pairs, same, .refl _, related⟩

/-- Where every key is that of one element, the key determines the element. -/
theorem eq_of_nodup_filterMap {key : α → Option β} {l : List α} (once : (l.filterMap key).Nodup)
    {x y : α} {k : β} (first : x ∈ l) (second : y ∈ l) (here : key x = some k)
    (there : key y = some k) : x = y := by
  by_contra other
  have symmetric : Std.Symm fun x y => ∀ k, key x = some k → ∀ k', key y = some k' → k ≠ k' :=
    ⟨fun _ _ apart k held k' held' => (apart k' held' k held).symm⟩
  exact (List.pairwise_filterMap.mp once).forall first second other k here k there rfl

end PointerAnalysis
