import Mathlib.Algebra.Group.Int.Defs
import Mathlib.Algebra.GroupWithZero.Nat
import Mathlib.Data.Nat.Init

/-!
# 64-bit unsigned arithmetic on naturals

A machine word is a natural below `2 ^ 64`; an operation that can leave the range
is followed by `u64`, as the conversion of the language is.
-/
namespace KopalniaOS.Library

def u64 (x : Nat) : Nat := x % 2 ^ 64

/-- `a - b` on words, which wraps below zero. -/
def sub64 (a b : Nat) : Nat := u64 (a + (2 ^ 64 - b))

/-- `~a` on words. -/
def not64 (a : Nat) : Nat := 2 ^ 64 - 1 - a

theorem u64_lt (x : Nat) : u64 x < 2 ^ 64 := Nat.mod_lt _ (by decide)

theorem u64_of_lt {x : Nat} (small : x < 2 ^ 64) : u64 x = x := Nat.mod_eq_of_lt small

theorem sub64_lt (a b : Nat) : sub64 a b < 2 ^ 64 := u64_lt _

theorem sub64_of_le {a b : Nat} (small : a < 2 ^ 64) (le : b ≤ a) : sub64 a b = a - b := by
  unfold sub64 u64
  omega

/-- Subtracting and adding the same word gives the start back. -/
theorem u64_sub64_add {a b : Nat} (smallA : a < 2 ^ 64) (smallB : b < 2 ^ 64) :
    u64 (sub64 a b + b) = a := by
  unfold sub64 u64
  omega

/-- Clearing the low `k` bits rounds down to a multiple of `2 ^ k`. -/
theorem and_not64_two_pow_sub_one {x k : Nat} (small : x < 2 ^ 64) (bits : k ≤ 64) :
    x &&& not64 (2 ^ k - 1) = x / 2 ^ k * 2 ^ k := by
  apply Nat.eq_of_testBit_eq
  intro i
  have pow : 2 ^ k - 1 < 2 ^ 64 := by
    have : 2 ^ k ≤ 2 ^ 64 := Nat.pow_le_pow_right (by decide) bits
    have : 0 < 2 ^ k := Nat.two_pow_pos k
    omega
  have mask : not64 (2 ^ k - 1) = 2 ^ 64 - (2 ^ k - 1 + 1) := by
    unfold not64
    omega
  rw [Nat.testBit_and, mask, Nat.testBit_two_pow_sub_succ pow, Nat.testBit_two_pow_sub_one,
    ← Nat.shiftLeft_eq, ← Nat.shiftRight_eq_div_pow, Nat.testBit_shiftLeft, Nat.testBit_shiftRight]
  -- below bit `k` the mask clears, and from there on both sides have the bits of `x`
  by_cases low : i < k
  · simp [low, Nat.not_le.mpr low]
  · have shift : k + (i - k) = i := by omega
    by_cases high : i < 64
    · simp [low, high, Nat.not_lt.mp low, shift]
    · -- a word has no bits from 64 on
      have zero : x.testBit i = false := by
        apply Nat.testBit_lt_two_pow
        exact Nat.lt_of_lt_of_le small (Nat.pow_le_pow_right (by decide) (Nat.not_lt.mp high))
      simp [low, high, shift, zero]

/-- A word without low bits joined with a word of low bits only is their sum. -/
theorem or_eq_add {x y k : Nat} (aligned : x % 2 ^ k = 0) (low : y < 2 ^ k) :
    x ||| y = x + y := by
  have split : x = 2 ^ k * (x / 2 ^ k) := by
    have := Nat.div_add_mod x (2 ^ k)
    omega
  rw [split]
  exact (Nat.two_pow_add_eq_or_of_lt low (x / 2 ^ k)).symm

end KopalniaOS.Library
