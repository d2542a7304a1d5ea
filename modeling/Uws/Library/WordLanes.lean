import Mathlib

/-! A machine word as lanes of equal width, and arithmetic on all of the lanes at once. -/

namespace Uws.WordLanes

variable {w : Nat}

def ofLanes : List (BitVec w) → Nat
  | [] => 0
  | lane :: lanes => lane.toNat + 2 ^ w * ofLanes lanes

theorem ofLanes_lt (lanes : List (BitVec w)) : ofLanes lanes < 2 ^ (w * lanes.length) := by
  induction lanes with
  | nil => exact Nat.one_pos
  | cons lane lanes ih =>
    have small := lane.isLt
    have scaled : 2 ^ w * (ofLanes lanes + 1) ≤ 2 ^ w * 2 ^ (w * lanes.length) := Nat.mul_le_mul_left _ ih
    rw [List.length_cons, Nat.mul_succ, Nat.add_comm (w * lanes.length) w, Nat.pow_add]
    show lane.toNat + 2 ^ w * ofLanes lanes < _
    rw [Nat.mul_succ] at scaled
    omega

theorem ofLanes_eq_zero (lanes : List (BitVec w)) : ofLanes lanes = 0 ↔ ∀ lane ∈ lanes, lane = 0#w := by
  induction lanes with
  | nil => exact ⟨fun _ _ absent => absurd absent List.not_mem_nil, fun _ => rfl⟩
  | cons lane lanes ih =>
    have lowest : lane.toNat = 0 ↔ lane = 0#w := by
      rw [BitVec.toNat_eq, BitVec.toNat_zero]
    rw [List.forall_mem_cons, ← ih, ← lowest]
    show lane.toNat + 2 ^ w * ofLanes lanes = 0 ↔ _
    rw [Nat.add_eq_zero_iff, Nat.mul_eq_zero]
    refine and_congr_right fun _ => or_iff_right ?_
    exact (Nat.two_pow_pos w).ne'

theorem lane_and (a b : BitVec w) (x y : Nat) :
    (a.toNat + 2 ^ w * x) &&& (b.toNat + 2 ^ w * y) = (a &&& b).toNat + 2 ^ w * (x &&& y) := by
  apply Nat.eq_of_testBit_eq
  intro i
  rw [Nat.testBit_and, Nat.add_comm, Nat.add_comm b.toNat, Nat.add_comm (a &&& b).toNat, Nat.testBit_two_pow_mul_add _ a.isLt,
    Nat.testBit_two_pow_mul_add _ b.isLt, Nat.testBit_two_pow_mul_add _ (a &&& b).isLt]
  split
  · rw [BitVec.toNat_and, Nat.testBit_and]
  · rw [Nat.testBit_and]

theorem ofLanes_and (a b : List (BitVec w)) : ofLanes a &&& ofLanes b = ofLanes (List.zipWith (· &&& ·) a b) := by
  induction a generalizing b with
  | nil => exact Nat.zero_and _
  | cons lane a ih =>
    cases b with
    | nil => exact Nat.and_zero _
    | cons other b =>
      rw [List.zipWith_cons_cons]
      show (lane.toNat + 2 ^ w * ofLanes a) &&& (other.toNat + 2 ^ w * ofLanes b) = _
      rw [lane_and, ih]
      rfl

theorem ofLanes_not (lanes : List (BitVec w)) : ofLanes (lanes.map (~~~ ·)) + ofLanes lanes + 1 = 2 ^ (w * lanes.length) := by
  induction lanes with
  | nil => rfl
  | cons lane lanes ih =>
    have small := lane.isLt
    have scaled := congrArg (2 ^ w * ·) ih
    rw [List.length_cons, Nat.mul_succ, Nat.add_comm (w * lanes.length) w, Nat.pow_add, ← scaled]
    show (~~~lane).toNat + 2 ^ w * ofLanes (lanes.map (~~~ ·)) + (lane.toNat + 2 ^ w * ofLanes lanes) + 1 = _
    rw [BitVec.toNat_not, Nat.mul_add, Nat.mul_add, Nat.mul_one]
    omega

def subtract (n : Nat) : Nat → List (BitVec w) → List (BitVec w)
  | _, [] => []
  | borrow, lane :: lanes =>
    BitVec.ofNat w (2 ^ w + lane.toNat - (n + borrow)) :: subtract n (if lane.toNat < n + borrow then 1 else 0) lanes

theorem subtract_length (n borrow : Nat) (lanes : List (BitVec w)) : (subtract n borrow lanes).length = lanes.length := by
  induction lanes generalizing borrow with
  | nil => rfl
  | cons lane lanes ih => exact congrArg Nat.succ (ih _)

theorem subtract_lanes (n borrow : Nat) (small : n < 2 ^ w) (bit : borrow ≤ 1) (lanes : List (BitVec w)) :
    ∃ out, ofLanes (subtract n borrow lanes) + ofLanes (List.replicate lanes.length (BitVec.ofNat w n)) + borrow =
      ofLanes lanes + 2 ^ (w * lanes.length) * out := by
  induction lanes generalizing borrow with
  | nil => exact ⟨borrow, by simp [subtract, ofLanes]⟩
  | cons lane lanes ih =>
    have fits := lane.isLt
    obtain ⟨out, rest⟩ := ih (if lane.toNat < n + borrow then 1 else 0) (by split <;> omega)
    have lowest : (2 ^ w + lane.toNat - (n + borrow)) % 2 ^ w + (n + borrow) =
        lane.toNat + 2 ^ w * (if lane.toNat < n + borrow then 1 else 0) := by
      split
      · rw [Nat.mod_eq_of_lt (by omega)]
        omega
      · rw [show 2 ^ w + lane.toNat - (n + borrow) = lane.toNat - (n + borrow) + 2 ^ w by omega, Nat.add_mod_right,
          Nat.mod_eq_of_lt (by omega)]
        omega
    have scaled := congrArg (2 ^ w * ·) rest
    refine ⟨out, ?_⟩
    rw [List.length_cons, List.replicate_succ, Nat.mul_succ, Nat.add_comm (w * lanes.length) w, Nat.pow_add, Nat.mul_assoc]
    show (BitVec.ofNat w (2 ^ w + lane.toNat - (n + borrow))).toNat + 2 ^ w * ofLanes (subtract n _ lanes) +
      ((BitVec.ofNat w n).toNat + 2 ^ w * ofLanes (List.replicate lanes.length (BitVec.ofNat w n))) + borrow =
        lane.toNat + 2 ^ w * ofLanes lanes + 2 ^ w * (2 ^ (w * lanes.length) * out)
    rw [Nat.mul_add, Nat.mul_add, Nat.mul_add] at scaled
    rw [BitVec.toNat_ofNat, BitVec.toNat_ofNat, Nat.mod_eq_of_lt small]
    omega

def marks (n borrow : Nat) (lanes : List (BitVec w)) : List (BitVec w) :=
  List.zipWith (fun left lane => left &&& (~~~lane &&& BitVec.intMin w)) (subtract n borrow lanes) lanes

theorem ofLanes_marks (n borrow : Nat) (lanes : List (BitVec w)) :
    ofLanes (subtract n borrow lanes) &&& (ofLanes (lanes.map (~~~ ·)) &&& ofLanes (List.replicate lanes.length (BitVec.intMin w))) =
      ofLanes (marks n borrow lanes) := by
  rw [ofLanes_and, ofLanes_and, marks]
  apply congrArg ofLanes
  generalize subtract n borrow lanes = left
  induction lanes generalizing left with
  | nil => cases left <;> rfl
  | cons lane lanes ih =>
    cases left with
    | nil => rfl
    | cons first left => exact congrArg (List.cons _) (ih left)

theorem and_intMin (wide : 0 < w) (left lane : BitVec w) :
    left &&& (~~~lane &&& BitVec.intMin w) ≠ 0#w ↔ 2 ^ (w - 1) ≤ left.toNat ∧ lane.toNat < 2 ^ (w - 1) := by
  have top : ∀ b : BitVec w, b.getLsbD (w - 1) = true ↔ 2 ^ (w - 1) ≤ b.toNat := by
    intro b
    rw [← BitVec.msb_eq_getLsbD_last, BitVec.msb_eq_decide, decide_eq_true_iff]
  have bits : ∀ i, (left &&& (~~~lane &&& BitVec.intMin w)).getLsbD i =
      (decide (w - 1 = i) && (left.getLsbD (w - 1) && !lane.getLsbD (w - 1))) := by
    intro i
    rw [BitVec.getLsbD_and, BitVec.getLsbD_and, BitVec.getLsbD_not, BitVec.intMin, BitVec.getLsbD_twoPow]
    by_cases last : w - 1 = i
    · subst last
      simp [wide]
    · simp [last]
  rw [← top, ← Nat.not_le, ← top]
  constructor
  · intro some_
    by_contra neither
    apply some_
    apply BitVec.eq_of_getLsbD_eq
    intro i _
    rw [bits, BitVec.getLsbD_zero, Bool.and_eq_false_iff]
    right
    rw [← Bool.not_eq_true, Bool.and_eq_true, Bool.not_eq_true', ← Bool.not_eq_true]
    exact neither
  · intro ⟨marked, unmarked⟩ zero
    have bit := bits (w - 1)
    rw [zero, marked, eq_false_of_ne_true unmarked, BitVec.getLsbD_zero] at bit
    simp at bit

/-- Of lanes without a borrow, one gets a mark exactly if one is less than what is subtracted. -/
theorem marks_iff (wide : 0 < w) (n : Nat) (half : n ≤ 2 ^ (w - 1)) (lanes : List (BitVec w)) :
    (∃ mark ∈ marks n 0 lanes, mark ≠ 0#w) ↔ ∃ lane ∈ lanes, lane.toNat < n := by
  have double : 2 ^ w = 2 ^ (w - 1) + 2 ^ (w - 1) := by
    obtain ⟨v, rfl⟩ : ∃ v, w = v + 1 := ⟨w - 1, by omega⟩
    rw [Nat.pow_succ, Nat.add_sub_cancel]
    omega
  induction lanes with
  | nil => simp [marks, subtract]
  | cons lane lanes ih =>
    have fits := lane.isLt
    unfold marks at ih ⊢
    rw [subtract, List.zipWith_cons_cons, List.exists_mem_cons_iff, List.exists_mem_cons_iff, and_intMin wide, BitVec.toNat_ofNat]
    by_cases less : lane.toNat < n
    · -- The first lane that is less borrows, and lands in the upper half.
      have marked : 2 ^ (w - 1) ≤ (2 ^ w + lane.toNat - (n + 0)) % 2 ^ w ∧ lane.toNat < 2 ^ (w - 1) := by
        rw [Nat.mod_eq_of_lt (by omega)]
        omega
      exact iff_of_true (Or.inl marked) (Or.inl less)
    · have unmarked : ¬ (2 ^ (w - 1) ≤ (2 ^ w + lane.toNat - (n + 0)) % 2 ^ w ∧ lane.toNat < 2 ^ (w - 1)) := by
        rw [show 2 ^ w + lane.toNat - (n + 0) = lane.toNat - n + 2 ^ w by omega, Nat.add_mod_right, Nat.mod_eq_of_lt (by omega)]
        omega
      rw [or_iff_right unmarked, or_iff_right less, Nat.add_zero, if_neg less]
      exact ih

end Uws.WordLanes
