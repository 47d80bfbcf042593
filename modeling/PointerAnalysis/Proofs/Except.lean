import Mathlib.Data.List.Forall2
import PointerAnalysis.Id

/-! Computations that may fail, read backwards: a chain that succeeds has succeeded link by link. -/
namespace PointerAnalysis

variable {ε α β : Type}

@[simp] theorem pure_eq_ok (a : α) : (pure a : Except ε α) = .ok a := rfl

@[simp] theorem ok_bind (a : α) (f : α → Except ε β) : ((Except.ok a : Except ε α) >>= f) = f a := rfl

@[simp] theorem error_bind (e : ε) (f : α → Except ε β) :
    ((Except.error e : Except ε α) >>= f) = .error e := rfl

@[simp] theorem map_ok (f : α → β) (a : α) : f <$> (Except.ok a : Except ε α) = .ok (f a) := rfl

theorem bind_eq_ok_iff {x : Except ε α} {f : α → Except ε β} {b : β} :
    (x >>= f) = .ok b ↔ ∃ a, x = .ok a ∧ f a = .ok b := by
  cases x <;> simp

/-- What every step of a chain keeps, the whole chain keeps. -/
theorem foldlM_invariant {invariant : β → Prop} {step : β → α → Except ε β}
    (keeps : ∀ b x b', invariant b → step b x = .ok b' → invariant b') {l : List α} {b b' : β}
    (before : invariant b) (ran : l.foldlM step b = .ok b') : invariant b' := by
  induction l generalizing b with
  | nil =>
    cases ran
    exact before
  | cons x l ih =>
    obtain ⟨b₁, first, rest⟩ := bind_eq_ok_iff.mp ran
    exact ih (keeps _ _ _ before first) rest

/-- Elements that make the same steps make the same chain. -/
theorem foldlM_congr {step : β → α → Except ε β} {l l' : List α}
    (same : List.Forall₂ (fun x x' => ∀ b, step b x = step b x') l l') (b : β) :
    l.foldlM step b = l'.foldlM step b := by
  induction same generalizing b with
  | nil => rfl
  | cons first _ ih =>
    rw [List.foldlM_cons, List.foldlM_cons, first]
    exact bind_congr ih

/-- A list is mapped without failure if each element is, and the images are those of the elements. -/
theorem mapM_ok {f : α → Except ε β} {l : List α} (works : ∀ x ∈ l, ∃ y, f x = .ok y) :
    ∃ images, l.mapM f = .ok images ∧ ∀ y, y ∈ images ↔ ∃ x ∈ l, f x = .ok y := by
  induction l with
  | nil => exact ⟨[], rfl, by simp⟩
  | cons x l ih =>
    obtain ⟨⟨y, first⟩, works⟩ := List.forall_mem_cons.mp works
    obtain ⟨images, mapped, mem_images⟩ := ih works
    refine ⟨y :: images, by simp [List.mapM_cons, first, mapped], fun y' => ?_⟩
    rw [List.mem_cons, mem_images]
    simp only [List.mem_cons, exists_eq_or_imp, first, Except.ok.injEq, eq_comm (a := y)]

/-- A list is mapped as a function maps it that gives the results. -/
theorem mapM_eq_map {f : α → Except ε β} {g : α → β} {l : List α} (works : ∀ x ∈ l, f x = .ok (g x)) :
    l.mapM f = .ok (l.map g) := by
  induction l with
  | nil => rfl
  | cons x l ih =>
    obtain ⟨first, works⟩ := List.forall_mem_cons.mp works
    simp [List.mapM_cons, first, ih works]

/-! ### Computations that do not fail -/

/-- A computation gives a result. -/
def Succeeds (x : Except ε α) : Prop := ∃ a, x = .ok a

theorem succeeds_ok (a : α) : Succeeds (.ok a : Except ε α) := ⟨a, rfl⟩

/-- A chain gives a result if its first link does and the second one does after it. -/
theorem Succeeds.bind {x : Except ε α} {f : α → Except ε β} (first : Succeeds x)
    (rest : ∀ a, x = .ok a → Succeeds (f a)) : Succeeds (x >>= f) := by
  obtain ⟨a, ran⟩ := first
  rw [ran, ok_bind]
  exact rest a ran

theorem succeeds_mapM {f : α → Except ε β} {l : List α} (works : ∀ x ∈ l, Succeeds (f x)) :
    Succeeds (l.mapM f) :=
  (mapM_ok works).imp fun _ => And.left

theorem succeeds_foldlM {step : β → α → Except ε β} {l : List α}
    (works : ∀ b, ∀ x ∈ l, Succeeds (step b x)) (b : β) : Succeeds (l.foldlM step b) := by
  induction l generalizing b with
  | nil => exact succeeds_ok b
  | cons x l ih =>
    rw [List.foldlM_cons]
    exact (works b x List.mem_cons_self).bind fun b' _ =>
      ih (fun b x there => works b x (List.mem_cons_of_mem _ there)) b'

/-- The images stand in the places of what they are images of. -/
theorem forall₂_of_mapM {f : α → Except ε β} {l : List α} {images : List β}
    (mapped : l.mapM f = .ok images) : List.Forall₂ (fun x y => f x = .ok y) l images := by
  induction l generalizing images with
  | nil =>
    cases mapped
    exact .nil
  | cons x l ih =>
    rw [List.mapM_cons] at mapped
    obtain ⟨y, first, rest⟩ := bind_eq_ok_iff.mp mapped
    obtain ⟨ys, others, same⟩ := bind_eq_ok_iff.mp rest
    cases same
    exact .cons first (ih others)

theorem length_of_mapM {f : α → Except ε β} {l : List α} {images : List β}
    (mapped : l.mapM f = .ok images) : images.length = l.length :=
  (forall₂_of_mapM mapped).length_eq.symm

end PointerAnalysis
