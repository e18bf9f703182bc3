import Mathlib.Data.List.Basic
import RopeStore.RefCount

/-!
# Counts as numbers

* `bound` : one more than the largest number of references that a word can hold; `period` : how many
  references there are words for, half of them negative;
* `ofNat k` : the count of a mortal node with `k` references;
* `toInt_packed_ofNat`, `get_ofNat`, `isOne_ofNat`, `isImmortal_ofNat` : what such a count tells;
  `get_add_unit` : with one reference more, every count tells one more, up to the bound;
* `run_increment_ofNat`, `run_decrementExpectHigh_ofNat` : the operations add and take one;
  `run_decrementExpectHigh_ofNat_of_le` : also a count that is too high for a word gives one up, with
  a fault;
* `isImmortal_add_unit`, `isImmortal_sub_unit` : a reference does not touch the mark of an immortal count,
  also where the word wraps; `run_decrement_of_isImmortal`, `run_decrementExpectHigh_of_isImmortal` : such
  a count always gives one up.
-/

namespace RopeStore.RefCount

/-- One more than the largest number of references that a word can hold. A reference takes the place
of two units, and half of the words are negative. -/
def bound : Nat := UInt32.size / 4

theorem bound_eq : bound = 1073741824 := rfl

/-- How many references there are words for. The word of one reference more is that of one. -/
def period : Nat := UInt32.size / 2

theorem period_eq : period = 2147483648 := rfl

theorem le_period {k : Nat} (h : k < bound) : k ≤ period := by
  rw [bound_eq] at h
  rw [period_eq]
  omega

/-- The count of a mortal node with `k` references. -/
def ofNat (k : Nat) : RefCount := ⟨Int32.ofNat (2 * k)⟩

theorem fresh_eq_ofNat : fresh = ofNat 1 := rfl

/-! ## The word -/

theorem toInt_packed_ofNat {k : Nat} (h : k < bound) : (ofNat k).packed.toInt = 2 * k := by
  rw [bound_eq] at h
  rw [ofNat, Int32.toInt_ofNat_of_lt (by omega)]
  omega

theorem ofNat_succ (k : Nat) : ofNat (k + 1) = ⟨(ofNat k).packed + unit⟩ := by
  rw [ofNat, ofNat, show 2 * (k + 1) = 2 * k + 2 by omega, Int32.ofNat_add]
  rfl

theorem ofNat_eq_pred (k : Nat) : ofNat k = ⟨(ofNat (k + 1)).packed - unit⟩ := by
  rw [ofNat_succ, Int32.add_sub_cancel]

/-- The words come round. -/
theorem ofNat_add_period (k : Nat) : ofNat (k + period) = ofNat k := by
  rw [ofNat, ofNat, period_eq, RefCount.mk.injEq, ← Int32.toBitVec_inj, Int32.toBitVec_ofNat',
    Int32.toBitVec_ofNat', ← BitVec.toNat_inj, BitVec.toNat_ofNat, BitVec.toNat_ofNat]
  omega

theorem isImmortal_eq (c : RefCount) :
    c.isImmortal = decide (c.packed.toBitVec.toNat % 2 = 1) := by
  have h : c.packed &&& immortalBit = 0 ↔ c.packed.toBitVec.toNat % 2 = 0 := by
    rw [← Int32.toBitVec_inj, Int32.toBitVec_and, ← BitVec.toNat_inj, BitVec.toNat_and,
      show immortalBit.toBitVec.toNat = 1 from rfl, Nat.and_one_is_mod]
    rfl
  rw [isImmortal, bne, Bool.eq_iff_iff]
  simp [h]

/-! ## What a count tells -/

@[simp] theorem isImmortal_ofNat (k : Nat) : (ofNat k).isImmortal = false := by
  rw [isImmortal_eq, ofNat, Int32.toBitVec_ofNat', BitVec.toNat_ofNat]
  simp only [decide_eq_false_iff_not]
  omega

theorem isImmortal_immortal : immortal.isImmortal = true := by decide

/-- Up to the period, the word of one reference stands for nothing else. -/
theorem isOne_ofNat_of_le {k : Nat} (h : k ≤ period) : (ofNat k).isOne = decide (k = 1) := by
  rw [period_eq] at h
  rw [isOne, Bool.eq_iff_iff, beq_iff_eq, decide_eq_true_eq, ← Int32.toBitVec_inj, ofNat,
    Int32.toBitVec_ofNat', ← BitVec.toNat_inj, BitVec.toNat_ofNat,
    show unit.toBitVec.toNat = 2 from rfl]
  omega

theorem isOne_ofNat {k : Nat} (h : k < bound) : (ofNat k).isOne = decide (k = 1) :=
  isOne_ofNat_of_le (le_period h)

/-- One unit is an even word, so no immortal count holds it. -/
theorem isOne_of_isImmortal {c : RefCount} (h : c.isImmortal = true) : c.isOne = false := by
  rw [isImmortal_eq, decide_eq_true_eq] at h
  rw [isOne, beq_eq_false_iff_ne]
  intro hc
  rw [hc] at h
  exact absurd h (by decide)

/-- What is read is half of the word, rounded down, as an unsigned word. -/
theorem get_eq (c : RefCount) : c.get = (c.packed.toInt / 2 % wordBound).toNat := by
  have hshift : (c.packed >>> 1).toInt = c.packed.toInt / 2 := by
    rw [← Int32.toInt_toBitVec, Int32.toBitVec_shiftRight,
      show (1 : Int32).toBitVec.smod 32 = 1#32 from rfl, BitVec.sshiftRight',
      BitVec.toInt_sshiftRight, Int32.toInt_toBitVec, show (1#32).toNat = 1 from rfl,
      Int.shiftRight_eq_div_pow]
    rfl
  show (c.packed >>> 1).toInt64.toBitVec.toNat = _
  rw [← BitVec.ofInt_toInt (x := (c.packed >>> 1).toInt64.toBitVec), BitVec.toNat_ofInt,
    Int64.toInt_toBitVec, Int32.toInt_toInt64, hshift]
  rfl

theorem get_ofNat {k : Nat} (h : k < bound) : (ofNat k).get = k := by
  rw [get_eq, toInt_packed_ofNat h, wordBound_eq]
  rw [bound_eq] at h
  omega

@[simp] theorem run_increment_ofNat (k : Nat) :
    increment.run (ofNat k) = .ok () (ofNat (k + 1)) := by
  rw [run_increment, ← ofNat_succ]

theorem holds_packed_ofNat {k : Nat} (hpos : 0 < k) (h : k < bound) :
    holds (ofNat k).packed = true := by
  have hk := toInt_packed_ofNat h
  have hlt : (0 : Int32) < (ofNat k).packed := by
    rw [Int32.lt_iff_toInt_lt, hk]
    simp only [Int32.toInt_zero]
    omega
  simp [holds, hlt]

theorem packed_bne_unit {k : Nat} (h : k + 1 ≤ period) :
    ((ofNat (k + 1)).packed != unit) = decide (k ≠ 0) := by
  have hone := isOne_ofNat_of_le h
  rw [isOne] at hone
  rw [bne, hone, Bool.eq_iff_iff]
  simp

/-- Giving up one of `k + 1` references leaves `k`. The answer tells whether that is more than none,
and a word that was too high for an answer is a fault. -/
theorem run_decrementExpectHigh_ofNat_of_le {k : Nat} (h : k + 1 ≤ period) :
    decrementExpectHigh.run (ofNat (k + 1)) = .ok (decide (k ≠ 0)) (ofNat k) ∨
      bound ≤ k + 1 ∧
        decrementExpectHigh.run (ofNat (k + 1)) = .error (.assertion .countHeld) (ofNat k) := by
  rw [decrementExpectHigh, EStateM.run_bind, run_fetchSub, ← ofNat_eq_pred]
  cases hholds : holds (ofNat (k + 1)).packed with
  | true =>
    left
    simp only [hholds, require, packed_bne_unit h, if_true]
    rfl
  | false =>
    right
    refine ⟨Nat.le_of_not_lt fun hlt => ?_, ?_⟩
    · rw [holds_packed_ofNat (Nat.succ_pos k) hlt] at hholds
      cases hholds
    · simp only [hholds, require, Bool.false_eq_true, if_false]
      rfl

/-- Giving up one of `k + 1` references leaves `k`, and tells whether that is more than none. -/
theorem run_decrementExpectHigh_ofNat {k : Nat} (h : k + 1 < bound) :
    decrementExpectHigh.run (ofNat (k + 1)) = .ok (decide (k ≠ 0)) (ofNat k) :=
  (run_decrementExpectHigh_ofNat_of_le (le_period h)).resolve_right fun hhigh =>
    Nat.not_le_of_lt h hhigh.1

/-! ## Operations on immortal counts -/

/-- A reference is an even word, so it does not touch the mark, also where the word wraps. -/
theorem isImmortal_add_unit (c : RefCount) : isImmortal ⟨c.packed + unit⟩ = c.isImmortal := by
  rw [isImmortal_eq, isImmortal_eq, Int32.toBitVec_add, BitVec.toNat_add,
    show unit.toBitVec.toNat = 2 from rfl, decide_eq_decide]
  omega

theorem isImmortal_sub_unit (c : RefCount) : isImmortal ⟨c.packed - unit⟩ = c.isImmortal := by
  have hadd := isImmortal_add_unit ⟨c.packed - unit⟩
  rw [Int32.sub_add_cancel] at hadd
  exact hadd.symm

/-- An immortal count may give up a reference, and its word is not that of one reference. -/
theorem holds_and_ne_of_isImmortal {c : RefCount} (h : c.isImmortal = true) :
    holds c.packed = true ∧ c.packed ≠ unit := by
  refine ⟨?_, fun hunit => ?_⟩
  · rw [isImmortal] at h
    rw [holds, h, Bool.or_true]
  · have hone := isOne_of_isImmortal h
    rw [isOne, hunit] at hone
    cases hone

/-- An immortal count never reports its last reference. -/
theorem run_decrementExpectHigh_of_isImmortal {c : RefCount} (h : c.isImmortal = true) :
    decrementExpectHigh.run c = .ok true ⟨c.packed - unit⟩ := by
  obtain ⟨hholds, hne⟩ := holds_and_ne_of_isImmortal h
  rw [decrementExpectHigh, EStateM.run_bind, run_fetchSub]
  simp only [hholds, bne_iff_ne.2 hne, require, if_true]
  rfl

theorem run_decrement_of_isImmortal {c : RefCount} (h : c.isImmortal = true) :
    decrement.run c = .ok true ⟨c.packed - unit⟩ := by
  obtain ⟨hholds, hne⟩ := holds_and_ne_of_isImmortal h
  rw [decrement, EStateM.run_bind, run_load]
  simp only [hholds, require, if_true, if_neg hne]
  show (EStateM.Result.ok (c.packed != unit) _ : EStateM.Result Fault RefCount Bool) = _
  rw [bne_iff_ne.2 hne]

end RopeStore.RefCount
