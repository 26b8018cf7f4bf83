import Mathlib.Data.BitVec

/-!
# Bit fields

A field of a register is a row of its bits. Setting a field leaves the other bits alone.
-/
namespace KopalniaOS.Library

structure BitField where
  start : Nat
  width : Nat
deriving DecidableEq, Repr

variable {w : Nat}

/-- A bit of a mask. -/
theorem and_bit_ne_zero {x : BitVec w} {i : Nat} (inside : i < w) :
    x &&& 1#w <<< i ≠ 0#w ↔ x.getLsbD i = true := by
  rw [← BitVec.twoPow_eq, BitVec.and_twoPow]
  split
  · rename_i set
    simp only [set, iff_true]
    intro zero
    have bit := congrArg (BitVec.getLsbD · i) zero
    simp [inside] at bit
  · rename_i clear
    simp [clear]

theorem getLsbD_or_bit (x : BitVec w) (i : Nat) {j : Nat} (inside : j < w) :
    (x ||| 1#w <<< i).getLsbD j = true ↔ x.getLsbD j = true ∨ j = i := by
  rw [← BitVec.twoPow_eq, BitVec.getLsbD_or, BitVec.getLsbD_twoPow]
  by_cases here : j = i
  · subst here
    simp [inside]
  · simp [here, Ne.symm here]

namespace BitField

def get (f : BitField) (raw : BitVec w) : BitVec f.width := raw.extractLsb' f.start f.width

def mask (f : BitField) (w : Nat) : BitVec w := (BitVec.allOnes f.width).setWidth w <<< f.start

def set (f : BitField) (raw : BitVec w) (value : Nat) : BitVec w :=
  (raw &&& ~~~f.mask w) ||| (BitVec.ofNat f.width value).setWidth w <<< f.start

variable {f g : BitField} {raw : BitVec w} {value i : Nat}

theorem getLsbD_get (f : BitField) (raw : BitVec w) (i : Nat) :
    (f.get raw).getLsbD i = (decide (i < f.width) && raw.getLsbD (f.start + i)) :=
  BitVec.getLsbD_extractLsb' ..

theorem getLsbD_set (f : BitField) (raw : BitVec w) (value : Nat) (inside : i < w) :
    (f.set raw value).getLsbD i =
      if f.start ≤ i ∧ i < f.start + f.width then value.testBit (i - f.start) else raw.getLsbD i := by
  simp only [set, mask, BitVec.getLsbD_or, BitVec.getLsbD_and, BitVec.getLsbD_not,
    BitVec.getLsbD_shiftLeft, BitVec.getLsbD_setWidth, BitVec.getLsbD_allOnes, BitVec.getLsbD_ofNat]
  by_cases before : i < f.start
  · simp [inside, before, Nat.not_le.mpr before]
  · have from_start := Nat.not_lt.mp before
    have near : i - f.start < w := by omega
    by_cases within : i < f.start + f.width
    · have index : i - f.start < f.width := by omega
      simp [inside, before, near, index, from_start, within]
    · have index : ¬i - f.start < f.width := by omega
      simp [inside, before, near, index, within]

/-- A field reads what it was set to. -/
theorem get_set (fits : f.start + f.width ≤ w) (small : value < 2 ^ f.width) (raw : BitVec w) :
    (f.get (f.set raw value)).toNat = value := by
  have same : f.get (f.set raw value) = BitVec.ofNat f.width value := by
    refine BitVec.eq_of_getLsbD_eq fun i inside => ?_
    rw [getLsbD_get, getLsbD_set _ _ _ (by omega), if_pos (by omega), BitVec.getLsbD_ofNat,
      Nat.add_sub_cancel_left]
  rw [same, BitVec.toNat_ofNat, Nat.mod_eq_of_lt small]

/-- A part of the field reads the part of what the field was set to. -/
theorem get_set_of_within (starts : f.start ≤ g.start) (ends : g.start + g.width ≤ f.start + f.width)
    (fits : f.start + f.width ≤ w) (raw : BitVec w) (value : Nat) :
    g.get (f.set raw value) = (BitVec.ofNat f.width value).extractLsb' (g.start - f.start) g.width := by
  refine BitVec.eq_of_getLsbD_eq fun i inside => ?_
  rw [getLsbD_get, getLsbD_set _ _ _ (by omega), if_pos (by omega), BitVec.getLsbD_extractLsb',
    BitVec.getLsbD_ofNat]
  have index : g.start + i - f.start = g.start - f.start + i := by omega
  have within : g.start - f.start + i < f.width := by omega
  rw [index, decide_eq_true within, Bool.true_and]

/-- Setting a field does not change another one. -/
theorem get_set_of_disjoint (apart : f.start + f.width ≤ g.start ∨ g.start + g.width ≤ f.start)
    (raw : BitVec w) (value : Nat) : g.get (f.set raw value) = g.get raw := by
  refine BitVec.eq_of_getLsbD_eq fun i inside => ?_
  rw [getLsbD_get, getLsbD_get]
  by_cases within : g.start + i < w
  · rw [getLsbD_set _ _ _ within, if_neg (by omega)]
  · rw [BitVec.getLsbD_of_ge _ _ (Nat.not_lt.mp within), BitVec.getLsbD_of_ge _ _ (Nat.not_lt.mp within)]

end BitField

end KopalniaOS.Library
