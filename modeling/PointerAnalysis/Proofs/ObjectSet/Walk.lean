import Mathlib.Data.List.Sort
import PointerAnalysis.Proofs.ObjectSet.Words

/-! Walks along sets of words. Clearing the lowest bit of what is pending takes just the least member
away, and clear words hold none, so a walk meets the members in increasing order; once it has met them
all it answers that there is none, however often it is asked. -/
namespace PointerAnalysis.WordSet

/-! ### The lowest bit -/

/-- Taking one away from a number clears its lowest bit, sets those below and leaves those above. -/
private theorem testBit_and_pred {x t : Nat} (clear : ∀ i < t, x.testBit i = false)
    (set : x.testBit t = true) (i : Nat) :
    (x &&& (x - 1)).testBit i = (x.testBit i && decide (i ≠ t)) := by
  have low : x % 2 ^ (t + 1) = 2 ^ t := by
    apply Nat.eq_of_testBit_eq
    intro j
    rw [Nat.testBit_mod_two_pow, Nat.testBit_two_pow]
    rcases Nat.lt_trichotomy j t with below | rfl | above
    · simp [clear j below, Nat.ne_of_gt below]
    · simp [set]
    · simp [Nat.ne_of_lt above, Nat.not_lt_of_le (Nat.succ_le_of_lt above)]
  have positive : 0 < 2 ^ t := Nat.two_pow_pos t
  have double : 2 ^ (t + 1) = 2 * 2 ^ t := Nat.pow_succ'
  have pred : x - 1 = 2 ^ (t + 1) * (x / 2 ^ (t + 1)) + (2 ^ t - 1) := by
    have whole := Nat.div_add_mod x (2 ^ (t + 1))
    omega
  rw [Nat.testBit_and, pred, Nat.testBit_two_pow_mul_add _ (by omega), Nat.testBit_two_pow_sub_one,
    Nat.testBit_div_two_pow]
  by_cases below : i < t
  · simp [clear i below]
  · by_cases same : i = t
    · simp [same]
    · have above : ¬ i < t + 1 := by omega
      have back : i - (t + 1) + (t + 1) = i := by omega
      simp [above, same, back]

/-- Clearing the lowest bit clears no other. -/
private theorem getLsbD_clear {w : UInt64} (set : w ≠ 0) (i : Nat) :
    (w &&& (w - 1)).toBitVec.getLsbD i = (w.toBitVec.getLsbD i && decide (i ≠ lowestBit w)) := by
  have nonzero : w.toBitVec ≠ 0#64 := fun zero => set (UInt64.toBitVec_inj.mp zero)
  have one : (1 : UInt64) ≤ w :=
    UInt64.le_iff_toNat_le.mpr (Nat.pos_of_ne_zero fun zero => set (UInt64.toNat_inj.mp zero))
  have numbers : (w &&& (w - 1)).toNat = w.toNat &&& (w.toNat - 1) := by
    rw [UInt64.toNat_and, UInt64.toNat_sub_of_le _ _ one, UInt64.toNat_one]
  show (w &&& (w - 1)).toNat.testBit i = _
  rw [numbers]
  exact testBit_and_pred (fun _ below => BitVec.getLsbD_false_of_lt_ctz below)
    (BitVec.getLsbD_true_ctz_of_ne_zero nonzero) i

private theorem pairwise_bits (w : UInt64) : (bits w).Pairwise (· < ·) :=
  List.Pairwise.filter _ List.pairwise_lt_range

/-- The lowest bit comes first, and the others are left when it is cleared. -/
theorem bits_eq_cons {w : UInt64} (set : w ≠ 0) : bits w = lowestBit w :: bits (w &&& (w - 1)) := by
  have nonzero : w.toBitVec ≠ 0#64 := fun zero => set (UInt64.toBitVec_inj.mp zero)
  have lowest : lowestBit w ∈ bits w :=
    mem_bits.mpr ⟨BitVec.ctz_lt_iff_ne_zero.mpr nonzero, BitVec.getLsbD_true_ctz_of_ne_zero nonzero⟩
  have mem_others {i : Nat} : i ∈ bits (w &&& (w - 1)) ↔ i ∈ bits w ∧ i ≠ lowestBit w := by
    rw [mem_bits, mem_bits, getLsbD_clear set, Bool.and_eq_true, decide_eq_true_eq, and_assoc]
  have increasing : (lowestBit w :: bits (w &&& (w - 1))).Pairwise (· < ·) := by
    refine List.pairwise_cons.mpr ⟨fun i there => ?_, pairwise_bits _⟩
    obtain ⟨there, other⟩ := mem_others.mp there
    refine Nat.lt_of_le_of_ne (Nat.le_of_not_lt fun below => ?_) (Ne.symm other)
    have clear := BitVec.getLsbD_false_of_lt_ctz below
    exact Bool.false_ne_true (clear.symm.trans (mem_bits.mp there).2)
  have perm : (bits w).Perm (lowestBit w :: bits (w &&& (w - 1))) := by
    refine (List.perm_ext_iff_of_nodup ((pairwise_bits w).imp Nat.ne_of_lt)
      (increasing.imp Nat.ne_of_lt)).mpr fun i => ?_
    rw [List.mem_cons, mem_others]
    by_cases same : i = lowestBit w <;> simp [same, lowest]
  exact perm.eq_of_pairwise' (pairwise_bits w) increasing

theorem bits_zero : bits 0 = [] := by simp [bits]

/-! ### Walks -/

namespace Walk

/-- The members that a walk has not met yet, read off the words. -/
def ahead (w : Walk) : List Nat :=
  (bits w.pending).map (64 * w.position + ·) ++
    ((w.words.toList.drop (w.position + 1)).zipIdx (w.position + 1)).flatMap fun entry =>
      (bits entry.1).map (64 * entry.2 + ·)

theorem ahead_walk (s : WordSet) : s.walk.ahead = s.toList := by
  unfold ahead walk toList word
  rw [← Array.getElem?_toList]
  cases s.words.toList with
  | nil => simp [bits_zero]
  | cons first others => simp [List.zipIdx_cons]

/-- Each answer is the first of the members that are ahead, and the others stay ahead. -/
theorem next_spec (w : Walk) : w.next.1 = w.ahead.head? ∧ w.next.2.ahead = w.ahead.tail := by
  fun_induction next w with
  | case1 w clear inside ih =>
    have same : w.ahead = ahead { w with position := w.position + 1, pending := w.words[w.position + 1] } := by
      have there : w.position + 1 < w.words.toList.length := inside
      unfold ahead
      rw [clear, bits_zero, List.drop_eq_getElem_cons there, List.zipIdx_cons]
      simp
    rwa [same]
  | case2 w clear outside =>
    have none {position : Nat} (later : w.position ≤ position) : ahead { w with position } = [] := by
      have past : w.words.toList.length ≤ position + 1 := by
        rw [Array.length_toList]
        omega
      rw [ahead, clear, bits_zero, List.drop_eq_nil_of_le past]
      rfl
    rw [none (Nat.le_succ _), none (Nat.le_refl _)]
    exact ⟨rfl, rfl⟩
  | case3 w set =>
    have taken : w.ahead = (64 * w.position + lowestBit w.pending) ::
        ahead { w with pending := w.pending &&& (w.pending - 1) } := by
      rw [ahead, bits_eq_cons set]
      rfl
    rw [taken]
    exact ⟨rfl, rfl⟩

/-- The answer to the request for a member that comes after so many others. -/
def answer (w : Walk) : Nat → Option Nat
  | 0 => w.next.1
  | k + 1 => w.next.2.answer k

/-- The answers are the members in increasing order, and none from then on. -/
theorem answer_eq (w : Walk) (k : Nat) : w.answer k = w.ahead[k]? := by
  induction k generalizing w with
  | zero => rw [answer, w.next_spec.1, List.head?_eq_getElem?]
  | succ k ih => rw [answer, ih, w.next_spec.2, List.getElem?_tail]

/-- What a walk collects is what was ahead of it. -/
theorem rest_eq (w : Walk) : w.rest = w.ahead := by
  fun_induction rest w with
  | case1 w w' taken =>
    have first := w.next_spec.1
    rw [taken] at first
    exact (List.head?_eq_none_iff.mp first.symm).symm
  | case2 w n w' taken ih =>
    obtain ⟨first, others⟩ := w.next_spec
    rw [taken] at first others
    rw [ih, others]
    exact (List.cons_head?_tail (Option.mem_def.mpr first.symm))

end Walk

end PointerAnalysis.WordSet
