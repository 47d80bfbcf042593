import Mathlib.Data.List.Forall2
import Mathlib.Data.List.Induction
import Mathlib.Data.List.TakeWhile
import Mathlib.Data.Option.Basic
import Mathlib.Logic.Relation

/-! Lists whose elements correspond one by one, and options likewise. -/
namespace PointerAnalysis

variable {α β : Type} {R : α → β → Prop} {l : List α} {l' : List β}

theorem exists_left_of_forall₂ (related : List.Forall₂ R l l') {y : β} (there : y ∈ l') :
    ∃ x ∈ l, R x y := by
  induction related with
  | nil => cases there
  | cons first _ ih =>
    rcases List.mem_cons.mp there with rfl | there
    · exact ⟨_, List.mem_cons_self, first⟩
    · obtain ⟨x, there, same⟩ := ih there
      exact ⟨x, List.mem_cons_of_mem _ there, same⟩

theorem exists_right_of_forall₂ (related : List.Forall₂ R l l') {x : α} (there : x ∈ l) :
    ∃ y ∈ l', R x y :=
  exists_left_of_forall₂ (R := flip R) (List.Forall₂.flip related) there

/-- If something corresponds to each element, a list corresponds to them all. -/
theorem exists_forall₂_of_forall (each : ∀ y ∈ l', ∃ x, R x y) : ∃ l, List.Forall₂ R l l' := by
  induction l' with
  | nil => exact ⟨[], .nil⟩
  | cons y l' ih =>
    obtain ⟨⟨x, first⟩, others⟩ := List.forall_mem_cons.mp each
    obtain ⟨l, rest⟩ := ih others
    exact ⟨x :: l, .cons first rest⟩

theorem forall₂_comp {γ : Type} {R' : β → γ → Prop} {m : List γ} (first : List.Forall₂ R l l')
    (second : List.Forall₂ R' l' m) : List.Forall₂ (Relation.Comp R R') l m := by
  induction first generalizing m with
  | nil =>
    cases second
    exact .nil
  | cons here _ ih =>
    cases second with
    | cons there rest => exact .cons ⟨_, here, there⟩ (ih rest)

/-- A function that tells the elements of two lists apart tells the lists apart. -/
theorem eq_of_map_eq {f : α → β} {l l' : List α} (apart : ∀ x ∈ l, ∀ y ∈ l', f x = f y → x = y)
    (same : l.map f = l'.map f) : l = l' := by
  induction l generalizing l' with
  | nil => exact (List.map_eq_nil_iff.mp same.symm).symm
  | cons x l ih =>
    cases l' with
    | nil => cases same
    | cons y l' =>
      obtain ⟨first, rest⟩ := List.cons.inj same
      obtain rfl := apart x List.mem_cons_self y List.mem_cons_self first
      rw [ih (fun x there y there' => apart x (.tail _ there) y (.tail _ there')) rest]

/-- Elements that correspond stand in the same place. -/
theorem exists_right_of_getElem? (related : List.Forall₂ R l l') {i : Nat} {x : α}
    (there : l[i]? = some x) : ∃ y, l'[i]? = some y ∧ R x y := by
  induction related generalizing i with
  | nil => cases there
  | cons first _ ih =>
    cases i with
    | zero =>
      cases there
      exact ⟨_, rfl, first⟩
    | succ i => exact ih there

/-- What stands in a list stands in the same place of a longer one. -/
theorem getElem?_of_prefix {long short : List α} (grown : short <+: long) {i : Nat} {x : α}
    (there : short[i]? = some x) : long[i]? = some x := by
  obtain ⟨inside, rfl⟩ := List.getElem?_eq_some_iff.mp there
  exact List.prefix_iff_getElem?.mp grown i inside

theorem getElem?_append_singleton {l : List α} {x y : α} {i : Nat} :
    (l ++ [x])[i]? = some y ↔ l[i]? = some y ∨ (i = l.length ∧ y = x) := by
  rw [List.getElem?_append]
  split
  · next inside => simp [Nat.ne_of_lt inside]
  · next outside =>
    rw [List.getElem?_eq_none (Nat.le_of_not_lt outside)]
    rcases Nat.eq_or_lt_of_le (Nat.le_of_not_lt outside) with last | beyond
    · simp [← last, eq_comm]
    · have none : [x][i - l.length]? = none :=
        List.getElem?_eq_none (Nat.sub_pos_of_lt beyond)
      simp [none, Nat.ne_of_gt beyond]

/-- A pair in a list that has got one pair more is an old one or the new one. -/
theorem exists_getElem?_append_singleton {l : List (α × β)} {x : α} {y : β} {i : Nat}
    {Q : α → β → Prop} : (∃ x' y', (l ++ [(x, y)])[i]? = some (x', y') ∧ Q x' y') ↔
      (∃ x' y', l[i]? = some (x', y') ∧ Q x' y') ∨ (i = l.length ∧ Q x y) := by
  simp only [getElem?_append_singleton, or_and_right, exists_or, Prod.mk.injEq]
  refine or_congr_right ⟨?_, ?_⟩
  · rintro ⟨_, _, ⟨last, rfl, rfl⟩, holds⟩
    exact ⟨last, holds⟩
  · rintro ⟨last, holds⟩
    exact ⟨x, y, ⟨last, rfl, rfl⟩, holds⟩

theorem exists_left_of_rel {o : Option α} {y : β} (related : Option.Rel R o (some y)) :
    ∃ x, o = some x ∧ R x y := by
  cases related with
  | some related => exact ⟨_, rfl, related⟩

theorem exists_right_of_rel {x : α} {o : Option β} (related : Option.Rel R (some x) o) :
    ∃ y, o = some y ∧ R x y := by
  cases related with
  | some related => exact ⟨_, rfl, related⟩

theorem none_iff_of_rel {o : Option α} {o' : Option β} (related : Option.Rel R o o') :
    o' = none ↔ o = none := by
  cases related <;> simp

theorem rel_imp {R' : α → β → Prop} {o : Option α} {o' : Option β}
    (weaker : ∀ x y, R x y → R' x y) (related : Option.Rel R o o') : Option.Rel R' o o' := by
  cases related with
  | none => exact .none
  | some related => exact .some (weaker _ _ related)

/-- A maximum is as large as what it starts from and as all elements. -/
theorem le_foldl_max {f : α → Nat} (l : List α) (least : Nat) :
    least ≤ l.foldl (fun most x => max most (f x)) least ∧
      ∀ x ∈ l, f x ≤ l.foldl (fun most x => max most (f x)) least := by
  induction l generalizing least with
  | nil => simp
  | cons x l ih =>
    obtain ⟨start, others⟩ := ih (max least (f x))
    refine ⟨Nat.le_trans (Nat.le_max_left ..) start, List.forall_mem_cons.mpr ⟨?_, others⟩⟩
    exact Nat.le_trans (Nat.le_max_right ..) start

/-- An element more adds to what is picked out of a list what is picked of the element. -/
theorem filterMap_concat (pick : α → Option β) (l : List α) (x : α) :
    (l ++ [x]).filterMap pick = l.filterMap pick ++ (pick x).toList := by
  rw [List.filterMap_append]
  cases picked : pick x with
  | none => rw [List.filterMap_cons_none picked, List.filterMap_nil, Option.toList_none]
  | some y => rw [List.filterMap_cons_some picked, List.filterMap_nil, Option.toList_some]

/-! ### Separators -/

section Separator

variable [DecidableEq α] {separator : α} {l before : List α}

private theorem takeWhile_of_free (free : separator ∉ before) (after : List α) :
    (before ++ after).takeWhile (· ≠ separator) = before ++ after.takeWhile (· ≠ separator) ∧
      (before ++ after).dropWhile (· ≠ separator) = after.dropWhile (· ≠ separator) := by
  have all : ∀ x ∈ before, decide (x ≠ separator) = true :=
    fun x there => decide_eq_true fun same => free (same ▸ there)
  exact ⟨List.takeWhile_append_of_pos all, List.dropWhile_append_of_pos all⟩

private theorem free_takeWhile (separator : α) (l : List α) : separator ∉ l.takeWhile (· ≠ separator) :=
  fun there => by simpa using List.mem_takeWhile_imp there

/-- A list is parted at the first separator. -/
theorem parted_iff {x : α} {after : List α} :
    l.takeWhile (· ≠ separator) = before ∧ l.dropWhile (· ≠ separator) = x :: after ↔
      x = separator ∧ separator ∉ before ∧ l = before ++ separator :: after := by
  constructor
  · rintro ⟨rfl, dropped⟩
    have first : x = separator := by
      have head := List.head?_dropWhile_not (· ≠ separator) l
      rw [dropped] at head
      simpa using head
    refine ⟨first, free_takeWhile separator l, ?_⟩
    rw [← first, ← dropped, first, List.takeWhile_append_dropWhile]
  · rintro ⟨rfl, free, rfl⟩
    obtain ⟨taken, dropped⟩ := takeWhile_of_free free (x :: after)
    rw [taken, dropped]
    simp

/-- A list without separator is not parted. -/
theorem unparted_iff : l.takeWhile (· ≠ separator) = before ∧ l.dropWhile (· ≠ separator) = [] ↔
    separator ∉ before ∧ l = before := by
  constructor
  · rintro ⟨rfl, dropped⟩
    refine ⟨free_takeWhile separator l, ?_⟩
    conv_lhs => rw [← List.takeWhile_append_dropWhile (p := (· ≠ separator)) (l := l), dropped,
      List.append_nil]
  · rintro ⟨free, rfl⟩
    have whole := takeWhile_of_free free []
    simpa using whole

end Separator

/-! ### Lists without repetitions -/

section AddOnce

variable [DecidableEq α] [DecidableEq β]

/-- A list with one element more, unless it is there. -/
def addOnce (l : List α) (x : α) : List α := if x ∈ l then l else l ++ [x]

theorem foldl_addOnce (l : List α) : l.foldl addOnce [] = l.eraseDups := by
  have along (acc : List α) :
      l.foldl addOnce acc = List.eraseDupsBy.loop (· == ·) l acc.reverse := by
    induction l generalizing acc with
    | nil => simp [List.eraseDupsBy.loop]
    | cons x l ih =>
      have any : (acc.reverse.any fun y => x == y) = decide (x ∈ acc) := by
        rw [List.any_reverse, List.any_beq, List.contains_eq_mem]
      rw [List.foldl_cons, ih, List.eraseDupsBy.loop, any, addOnce]
      by_cases there : x ∈ acc <;> simp [there]
  exact along []

/-- Where elements correspond one to one, so do their first occurrences. -/
theorem forall₂_eraseDups (injective : ∀ {x x' y}, R x y → R x' y → x = x')
    (functional : ∀ {x y y'}, R x y → R x y' → y = y') (related : List.Forall₂ R l l') :
    List.Forall₂ R l.eraseDups l'.eraseDups := by
  have along {acc : List α} {acc' : List β} (before : List.Forall₂ R acc acc') :
      List.Forall₂ R (l.foldl addOnce acc) (l'.foldl addOnce acc') := by
    induction related generalizing acc acc' with
    | nil => exact before
    | @cons x y l l' first _ ih =>
      have same : x ∈ acc ↔ y ∈ acc' := by
        constructor
        · intro there
          obtain ⟨y', there', second⟩ := exists_right_of_forall₂ before there
          exact functional first second ▸ there'
        · intro there
          obtain ⟨x', there', second⟩ := exists_left_of_forall₂ before there
          exact injective first second ▸ there'
      refine ih ?_
      by_cases there : x ∈ acc
      · simpa only [addOnce, there, same.mp there, ↓reduceIte] using before
      · simpa only [addOnce, there, mt same.mpr there, ↓reduceIte] using
          List.rel_append before (.cons first .nil)
  simpa only [foldl_addOnce] using along .nil

theorem eraseDups_concat (l : List α) (x : α) : (l ++ [x]).eraseDups = addOnce l.eraseDups x := by
  rw [← foldl_addOnce, ← foldl_addOnce, List.foldl_append, List.foldl_cons, List.foldl_nil]

theorem nodup_eraseDups (l : List α) : l.eraseDups.Nodup := by
  induction l using List.reverseRecOn with
  | nil => exact .nil
  | append_singleton l x ih =>
    rw [eraseDups_concat, addOnce]
    split
    · exact ih
    · next new =>
      refine List.nodup_append.mpr ⟨ih, List.pairwise_singleton _ x, fun y there z last same => new ?_⟩
      exact List.mem_singleton.mp last ▸ same ▸ there

theorem length_eraseDups_le (l : List α) : l.eraseDups.length ≤ l.length := by
  induction l using List.reverseRecOn with
  | nil => exact Nat.le_refl 0
  | append_singleton l x ih =>
    rw [eraseDups_concat, addOnce, List.length_append]
    split
    · exact Nat.le_add_right_of_le ih
    · rw [List.length_append]
      exact Nat.add_le_add_right ih _

end AddOnce

section FirstOfKey

variable [DecidableEq β] (key : α → β)

/-- The elements whose key is that of no earlier one. -/
def firstOfKey (l : List α) : List α := l.eraseDupsBy fun x y => key x = key y

theorem firstOfKey_concat (l : List α) (x : α) : firstOfKey key (l ++ [x]) =
    if key x ∈ (firstOfKey key l).map key then firstOfKey key l else firstOfKey key l ++ [x] := by
  let loop := List.eraseDupsBy.loop fun x y => decide (key x = key y)
  have along (acc : List α) : loop (l ++ [x]) acc =
      if key x ∈ (loop l acc).map key then loop l acc else loop l acc ++ [x] := by
    induction l generalizing acc with
    | nil =>
      have known : (acc.any fun y => decide (key x = key y)) = decide (key x ∈ acc.reverse.map key) := by
        rw [Bool.eq_iff_iff, List.any_eq_true, decide_eq_true_iff, List.map_reverse, List.mem_reverse,
          List.mem_map]
        simp only [decide_eq_true_eq, eq_comm (a := key x)]
      show (match acc.any fun y => decide (key x = key y) with
        | true => acc.reverse
        | false => (x :: acc).reverse) = if key x ∈ acc.reverse.map key then acc.reverse else _
      rw [known]
      by_cases there : key x ∈ acc.reverse.map key
      · rw [decide_eq_true there, if_pos there]
      · rw [decide_eq_false there, if_neg there]
        exact List.reverse_cons
    | cons y l ih =>
      simp only [loop, List.cons_append, List.eraseDupsBy.loop] at ih ⊢
      split <;> exact ih _
  exact along []

/-- Each key has one element, and the keys come in the order of their first occurrence. -/
theorem map_firstOfKey (l : List α) : (firstOfKey key l).map key = (l.map key).eraseDups := by
  induction l using List.reverseRecOn with
  | nil => rfl
  | append_singleton l x ih =>
    rw [firstOfKey_concat, List.map_append, List.map_singleton, eraseDups_concat, ← ih, addOnce]
    split <;> simp

theorem mem_map_firstOfKey {l : List α} {k : β} : k ∈ (firstOfKey key l).map key ↔ k ∈ l.map key := by
  rw [map_firstOfKey, List.mem_eraseDups]

theorem nodup_map_firstOfKey (l : List α) : ((firstOfKey key l).map key).Nodup := by
  rw [map_firstOfKey]
  exact nodup_eraseDups _

end FirstOfKey

/-- There are no more different things than different ones that correspond to them. -/
theorem length_le_of_injective (injective : ∀ {x x' y}, R x y → R x' y → x = x') (nodup : l.Nodup)
    (related : ∀ x ∈ l, ∃ y ∈ l', R x y) : l.length ≤ l'.length := by
  classical
  induction l generalizing l' with
  | nil => exact Nat.zero_le _
  | cons x l ih =>
    obtain ⟨new, nodup⟩ := List.nodup_cons.mp nodup
    obtain ⟨⟨y, there, same⟩, related⟩ := List.forall_mem_cons.mp related
    have others : l.length ≤ (l'.erase y).length := ih nodup fun x' listed => by
      obtain ⟨y', there', same'⟩ := related x' listed
      have other : y' ≠ y := fun equal => new (injective same (equal ▸ same') ▸ listed)
      exact ⟨y', (List.mem_erase_of_ne other).mpr there', same'⟩
    rw [List.length_erase_of_mem there] at others
    have nonempty := List.length_pos_of_mem there
    rw [List.length_cons]
    omega

/-- What a change of one entry does not touch is the same of the whole table. -/
theorem map_modify {table : Array α} {i : Nat} {change : α → α} {view : α → β}
    (same : ∀ x, view (change x) = view x) : (table.modify i change).map view = table.map view := by
  apply Array.ext_getElem?
  intro j
  rw [Array.getElem?_map, Array.getElem?_map, Array.getElem?_modify]
  split
  · cases table[j]? <;> simp [same]
  · rfl

end PointerAnalysis
