import PointerAnalysis.ObjectSet.Words

/-! Sets of words by their bits. Each operation is described by what it does to the bit of every
number, and the list of members is the increasing list of the numbers whose bit is set. -/
namespace PointerAnalysis.WordSet

/-- Whether the bit that stands for a number is set. -/
def bit (s : WordSet) (n : Nat) : Bool := (s.word (wordIndex n)).toBitVec.getLsbD (n % 64)

private theorem getLsbD_mask (n : Nat) {i : Nat} (inside : i < 64) :
    (mask n).toBitVec.getLsbD i = decide (i = n % 64) := by
  simp only [mask, UInt64.toBitVec_shiftLeft]
  simp [inside]
  rw [Bool.eq_iff_iff]
  simp
  omega

private theorem eq_zero_iff (w : UInt64) : w = 0 ↔ ∀ i < 64, w.toBitVec.getLsbD i = false := by
  rw [← UInt64.toBitVec_inj]
  constructor
  · intro zero i _
    simp [zero]
  · intro clear
    apply BitVec.eq_of_getLsbD_eq
    intro i inside
    simp [clear i inside]

/-- A word is no zero as soon as one of its bits is set. -/
private theorem ne_zero_iff (w : UInt64) : (w != 0) = true ↔ ∃ i < 64, w.toBitVec.getLsbD i = true := by
  rw [bne_iff_ne, ne_eq, eq_zero_iff]
  simp

theorem contains_eq_bit (s : WordSet) (n : Nat) : s.contains n = s.bit n := by
  have small : n % 64 < 64 := Nat.mod_lt _ (by decide)
  rw [Bool.eq_iff_iff, contains, ne_zero_iff, bit]
  simp only [UInt64.toBitVec_and, BitVec.getLsbD_and, Bool.and_eq_true]
  constructor
  · rintro ⟨i, inside, set, chosen⟩
    rw [getLsbD_mask n inside, decide_eq_true_eq] at chosen
    exact chosen ▸ set
  · intro set
    exact ⟨n % 64, small, set, by simp [getLsbD_mask n small]⟩

/-- A word and a place in it make up one number. -/
private theorem bit_mul_add (s : WordSet) (i : Nat) {b : Nat} (inside : b < 64) :
    s.bit (64 * i + b) = (s.word i).toBitVec.getLsbD b := by
  have place : (64 * i + b) % 64 = b := by omega
  have index : wordIndex (64 * i + b) = i := by
    unfold wordIndex
    omega
  rw [bit, place, index]

/-! ### Changing words -/

@[simp] theorem word_grow (s : WordSet) (length i : Nat) : (s.grow length).word i = s.word i := by
  unfold word grow
  rw [Array.getElem?_append]
  split
  · rfl
  · next past =>
    have absent : s.words[i]? = none := Array.getElem?_eq_none (by omega)
    rw [absent, Array.getElem?_replicate]
    split <;> rfl

private theorem word_modify (s : WordSet) (k i : Nat) (change : UInt64 → UInt64)
    (inside : k < s.words.size) :
    (WordSet.mk (s.words.modify k change)).word i =
      if i = k then change (s.word i) else s.word i := by
  unfold word
  rw [Array.getElem?_modify]
  by_cases same : k = i
  · subst same
    simp [inside]
  · simp [same, Ne.symm same]

private theorem wordIndex_lt_size_of_bit {s : WordSet} {n : Nat} (set : s.bit n = true) :
    wordIndex n < s.words.size := by
  by_cases inside : wordIndex n < s.words.size
  · exact inside
  · have absent : s.words[wordIndex n]? = none := Array.getElem?_eq_none (by omega)
    simp [bit, word, absent] at set

theorem bit_empty (n : Nat) : empty.bit n = false := by
  simp [bit, word, empty]

/-- Two numbers share the word and the place in it only if they are one. -/
private theorem eq_of_index_of_place {m n : Nat} (index : wordIndex m = wordIndex n)
    (place : m % 64 = n % 64) : m = n := by
  unfold wordIndex at index
  omega

theorem bit_insert (s : WordSet) (n m : Nat) : (s.insert n).1.bit m = (decide (m = n) || s.bit m) := by
  have small : m % 64 < 64 := Nat.mod_lt _ (by decide)
  have room : wordIndex n < (s.grow (wordIndex n + 1)).words.size := by
    simp only [grow, Array.size_append, Array.size_replicate]
    omega
  simp only [insert, bit, word_modify _ _ _ _ room, word_grow]
  by_cases index : wordIndex m = wordIndex n
  · have places : (m % 64 = n % 64) ↔ m = n :=
      ⟨eq_of_index_of_place index, fun same => same ▸ rfl⟩
    simp [index, getLsbD_mask n small, places, Bool.or_comm]
  · have different : m ≠ n := fun same => index (same ▸ rfl)
    simp [index, different]

theorem insert_fresh (s : WordSet) (n : Nat) : (s.insert n).2 = !s.bit n := by
  rw [← contains_eq_bit]
  rfl

theorem bit_erase (s : WordSet) (n m : Nat) : (s.erase n).1.bit m = (decide (m ≠ n) && s.bit m) := by
  have small : m % 64 < 64 := Nat.mod_lt _ (by decide)
  unfold erase
  rw [contains_eq_bit]
  by_cases held : s.bit n = true
  · rw [if_pos held]
    simp only [bit, word_modify _ _ _ _ (wordIndex_lt_size_of_bit held)]
    by_cases index : wordIndex m = wordIndex n
    · have places : (m % 64 = n % 64) ↔ m = n :=
        ⟨eq_of_index_of_place index, fun same => same ▸ rfl⟩
      simp only [index, ↓reduceIte, UInt64.toBitVec_and, UInt64.toBitVec_not, BitVec.getLsbD_and,
        BitVec.getLsbD_not, small, decide_true, Bool.true_and, getLsbD_mask n small, places,
        ne_eq, decide_not, Bool.and_comm]
    · have different : m ≠ n := fun same => index (same ▸ rfl)
      simp [index, different]
  · by_cases same : m = n
    · subst same
      simp [held]
    · simp [held, same]

theorem erase_changed (s : WordSet) (n : Nat) : (s.erase n).2 = s.bit n := by
  unfold erase
  rw [contains_eq_bit]
  cases s.bit n <;> rfl

theorem bit_union (s t : WordSet) (n : Nat) : (s.union t).1.bit n = (s.bit n || t.bit n) := by
  have words : (s.union t).1.word (wordIndex n) = s.word (wordIndex n) ||| t.word (wordIndex n) := by
    rw [← word_grow s t.words.size]
    simp only [union, word, Array.getElem?_mapIdx]
    cases there : (s.grow t.words.size).words[wordIndex n]? with
    | some w => rfl
    | none =>
      have past : (s.grow t.words.size).words.size ≤ wordIndex n := Array.getElem?_eq_none_iff.mp there
      simp only [grow, Array.size_append, Array.size_replicate] at past
      have absent : t.words[wordIndex n]? = none := Array.getElem?_eq_none (by omega)
      simp [absent]
  rw [bit, words]
  simp [bit]

theorem bit_subtract (s t : WordSet) (n : Nat) :
    (s.subtract t).1.bit n = (s.bit n && !t.bit n) := by
  have small : n % 64 < 64 := Nat.mod_lt _ (by decide)
  have words : (s.subtract t).1.word (wordIndex n) =
      s.word (wordIndex n) &&& ~~~t.word (wordIndex n) := by
    simp only [subtract, word, Array.getElem?_mapIdx]
    cases s.words[wordIndex n]? with
    | some w => rfl
    | none => simp
  rw [bit, words]
  simp [bit, small]

/-! ### Looking through all words -/

private theorem mem_zipIdx_words {s : WordSet} {w : UInt64} {i : Nat} :
    (w, i) ∈ s.words.toList.zipIdx ↔ s.words[i]? = some w := by
  rw [List.mk_mem_zipIdx_iff_getElem?, Array.getElem?_toList]

private theorem word_of_getElem? {s : WordSet} {w : UInt64} {i : Nat} (there : s.words[i]? = some w) :
    s.word i = w := by
  simp [word, there]

theorem superset_iff (s t : WordSet) : s.superset t = true ↔ ∀ n, t.bit n = true → s.bit n = true := by
  simp only [superset, List.all_eq_true, beq_iff_eq, eq_zero_iff]
  constructor
  · intro covered n set
    have small : n % 64 < 64 := Nat.mod_lt _ (by decide)
    have there := Array.getElem?_eq_getElem (wordIndex_lt_size_of_bit set)
    have clear := covered _ (mem_zipIdx_words.mpr there) _ small
    rw [bit, word_of_getElem? there] at set
    simp only [UInt64.toBitVec_and, UInt64.toBitVec_not, BitVec.getLsbD_and, set, Bool.true_and,
      BitVec.getLsbD_not, small, decide_true, Bool.not_eq_false'] at clear
    exact clear
  · rintro covered ⟨w, i⟩ listed b inside
    have there := mem_zipIdx_words.mp listed
    have number := covered (64 * i + b)
    rw [bit_mul_add t i inside, bit_mul_add s i inside, word_of_getElem? there] at number
    cases set : w.toBitVec.getLsbD b <;> simp_all

theorem union_changed (s t : WordSet) :
    (s.union t).2 = true ↔ ∃ n, t.bit n = true ∧ s.bit n = false := by
  rw [show (s.union t).2 = !s.superset t from rfl, Bool.not_eq_true', Bool.eq_false_iff, ne_eq,
    superset_iff]
  simp

theorem subtract_changed (s t : WordSet) :
    (s.subtract t).2 = true ↔ ∃ n, s.bit n = true ∧ t.bit n = true := by
  simp only [subtract, List.any_eq_true, ne_zero_iff]
  constructor
  · rintro ⟨⟨w, i⟩, listed, b, inside, set⟩
    have there := mem_zipIdx_words.mp listed
    refine ⟨64 * i + b, ?_⟩
    rw [bit_mul_add s i inside, bit_mul_add t i inside, word_of_getElem? there]
    simpa using set
  · rintro ⟨n, ours, theirs⟩
    have small : n % 64 < 64 := Nat.mod_lt _ (by decide)
    have there := Array.getElem?_eq_getElem (wordIndex_lt_size_of_bit ours)
    refine ⟨_, mem_zipIdx_words.mpr there, n % 64, small, ?_⟩
    rw [bit, word_of_getElem? there] at ours
    rw [bit] at theirs
    simp [ours, theirs]

theorem isEmpty_iff (s : WordSet) : s.isEmpty = true ↔ ∀ n, s.bit n = false := by
  simp only [isEmpty, Array.all_eq_true, beq_iff_eq]
  constructor
  · intro zero n
    by_cases inside : wordIndex n < s.words.size
    · have there := Array.getElem?_eq_getElem inside
      rw [bit, word_of_getElem? there, zero _ inside]
      simp
    · have absent : s.words[wordIndex n]? = none := Array.getElem?_eq_none (by omega)
      simp [bit, word, absent]
  · intro clear i inside
    rw [eq_zero_iff]
    intro b small
    have number := clear (64 * i + b)
    rwa [bit_mul_add s i small, word_of_getElem? (Array.getElem?_eq_getElem inside)] at number

/-- The bits of all numbers and the number of words leave nothing open. -/
theorem eq_of_bit {s t : WordSet} (bits : ∀ n, s.bit n = t.bit n) (sizes : s.words.size = t.words.size) :
    s = t := by
  have words : s.words = t.words := by
    apply Array.ext sizes
    intro i inside inside'
    rw [← word_of_getElem? (Array.getElem?_eq_getElem inside),
      ← word_of_getElem? (Array.getElem?_eq_getElem inside'), ← UInt64.toBitVec_inj]
    apply BitVec.eq_of_getLsbD_eq
    intro b small
    rw [← bit_mul_add s i small, ← bit_mul_add t i small, bits]
  cases s
  exact congrArg mk words

/-! ### Members in order -/

theorem mem_bits {w : UInt64} {b : Nat} : b ∈ bits w ↔ b < 64 ∧ w.toBitVec.getLsbD b = true := by
  simp [bits]

theorem mem_toList {s : WordSet} {n : Nat} : n ∈ s.toList ↔ s.bit n = true := by
  simp only [toList, List.mem_flatMap, List.mem_map, Prod.exists]
  constructor
  · rintro ⟨w, i, listed, b, set, rfl⟩
    have place := mem_bits.mp set
    rw [bit_mul_add s i place.1, word_of_getElem? (mem_zipIdx_words.mp listed)]
    exact place.2
  · intro set
    have there := Array.getElem?_eq_getElem (wordIndex_lt_size_of_bit set)
    refine ⟨_, _, mem_zipIdx_words.mpr there, n % 64, mem_bits.mpr ⟨Nat.mod_lt _ (by decide), ?_⟩, ?_⟩
    · rwa [bit, word_of_getElem? there] at set
    · unfold wordIndex
      omega

/-- Later words hold larger numbers, and so do later bits of a word. -/
theorem toList_increasing (s : WordSet) : s.toList.Pairwise (· < ·) := by
  unfold toList
  rw [List.pairwise_flatMap]
  constructor
  · intro entry _
    refine (List.Pairwise.filter _ List.pairwise_lt_range).map _ ?_
    intro a b before
    omega
  · rw [List.pairwise_iff_getElem]
    intro i j _ _ before a first b second
    simp only [List.getElem_zipIdx, Nat.zero_add, List.mem_map] at first second
    obtain ⟨a, inFirst, rfl⟩ := first
    obtain ⟨b, inSecond, rfl⟩ := second
    have small := (mem_bits.mp inFirst).1
    omega

theorem nodup_toList (s : WordSet) : s.toList.Nodup :=
  s.toList_increasing.imp Nat.ne_of_lt

theorem count_eq_length (s : WordSet) : s.count = s.toList.length := by
  rw [count, toList, List.length_flatMap, List.length_flatMap]
  congr 1
  apply List.ext_getElem
  · simp
  · intro i _ _
    simp

theorem bit_ofList (l : List Nat) (n : Nat) : (ofList l).bit n = true ↔ n ∈ l := by
  have inserted : ∀ s : WordSet, (l.foldl (fun s n => (s.insert n).1) s).bit n = true ↔
      n ∈ l ∨ s.bit n = true := by
    induction l with
    | nil => simp
    | cons a l ih =>
      intro s
      rw [List.foldl_cons, ih, bit_insert, List.mem_cons, Bool.or_eq_true, decide_eq_true_eq]
      constructor
      · rintro (later | first | old)
        · exact .inl (.inr later)
        · exact .inl (.inl first)
        · exact .inr old
      · rintro ((first | later) | old)
        · exact .inr (.inl first)
        · exact .inl later
        · exact .inr (.inr old)
  rw [ofList, inserted, bit_empty]
  simp

end PointerAnalysis.WordSet
