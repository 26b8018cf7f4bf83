import Mathlib.Data.Nat.Digits.Lemmas

/-!
# Numerals

The digits of a number in any base, the most significant first, how many there are, and what a
reader that goes over them from the left computes. Decimal text in ASCII is an instance.
-/
namespace KopalniaOS.Library

/-- The canonical numeral. Only zero starts with a zero. -/
def numeral (b n : Nat) : List Nat := if n = 0 then [0] else (Nat.digits b n).reverse

/-- The lowest `k` digits, with leading zeros. -/
def places (b k n : Nat) : List Nat := ((List.range k).map fun i => n / b ^ i % b).reverse

/-- The value of digits that are read from the left. -/
def readDigits (b : Nat) (digits : List Nat) : Nat :=
  digits.foldl (fun value digit => value * b + digit) 0

variable {b k n : Nat}

theorem numeral_zero (b : Nat) : numeral b 0 = [0] := rfl

theorem numeral_pos (b : Nat) (pos : n ≠ 0) : numeral b n = (Nat.digits b n).reverse := if_neg pos

theorem numeral_ne_nil (b n : Nat) : numeral b n ≠ [] := by
  by_cases zero : n = 0
  · simp [zero, numeral_zero]
  · simpa [numeral_pos b zero, Nat.digits_eq_nil_iff_eq_zero] using zero

theorem lt_of_mem_numeral (base : 1 < b) {digit : Nat} (member : digit ∈ numeral b n) :
    digit < b := by
  by_cases zero : n = 0
  · rw [zero, numeral_zero, List.mem_singleton] at member
    omega
  · rw [numeral_pos b zero, List.mem_reverse] at member
    exact Nat.digits_lt_base base member

theorem length_numeral_le_iff (base : 1 < b) (pos : 0 < k) :
    (numeral b n).length ≤ k ↔ n < b ^ k := by
  by_cases zero : n = 0
  · have power : 0 < b ^ k := Nat.pow_pos (Nat.lt_of_succ_lt base)
    simp [zero, numeral_zero, power]
    omega
  · rw [numeral_pos b zero, List.length_reverse]
    exact Nat.digits_length_le_iff base n

/-- Reading a numeral gives the number back. -/
theorem readDigits_numeral (b n : Nat) : readDigits b (numeral b n) = n := by
  by_cases zero : n = 0
  · simp [zero, numeral_zero, readDigits]
  · have value := Nat.ofDigits_digits b n
    rw [Nat.ofDigits_eq_foldr] at value
    rw [numeral_pos b zero, readDigits, List.foldl_reverse]
    simpa [Nat.mul_comm, Nat.add_comm] using value

theorem places_succ (b k n : Nat) : places b (k + 1) n = n / b ^ k % b :: places b k n := by
  simp [places, List.range_succ]

/-- With the right number of places there are no leading zeros. -/
theorem numeral_eq_places (base : 1 < b) (lower : b ^ k ≤ n) (upper : n < b ^ (k + 1)) :
    numeral b n = places b (k + 1) n := by
  have pos : n ≠ 0 := by
    have power : 0 < b ^ k := Nat.pow_pos (Nat.lt_of_succ_lt base)
    omega
  have atMost := (Nat.digits_length_le_iff base n).mpr upper
  have atLeast := (Nat.lt_digits_length_iff base n).mpr lower
  have length : (Nat.digits b n).length = k + 1 := by omega
  rw [numeral_pos b pos, places, List.reverse_inj]
  refine List.ext_getElem (by simpa using length) fun i inside _ => ?_
  have digit := Nat.getD_digits n i base
  rw [List.getD_eq_getElem?_getD, List.getElem?_eq_getElem inside, Option.getD_some] at digit
  simpa using digit

/-- The first digit of a number with that many places. -/
theorem leading_place_ne_zero (lower : b ^ k ≤ n) (upper : n < b ^ (k + 1)) : n / b ^ k % b ≠ 0 := by
  rw [Nat.pow_succ] at upper
  have power : 0 < b ^ k := Nat.pos_of_ne_zero fun zero => by simp [zero] at upper
  have quotient : n / b ^ k < b := Nat.div_lt_of_lt_mul upper
  rw [Nat.mod_eq_of_lt quotient]
  exact Nat.pos_iff_ne_zero.mp (Nat.div_pos lower power)

/-! ### Decimal text -/

/-- The ASCII character of a decimal digit. -/
def digitChar (digit : Nat) : UInt8 := UInt8.ofNat (48 + digit)

def minusSign : UInt8 := 45

/-- The canonical decimal text of an integer. -/
def decimal (v : Int) : List UInt8 :=
  if v < 0 then minusSign :: (numeral 10 v.natAbs).map digitChar
  else (numeral 10 v.natAbs).map digitChar

theorem digitChar_toNat {digit : Nat} (small : digit < 10) :
    (digitChar digit).toNat = 48 + digit := by
  rw [digitChar, UInt8.toNat_ofNat', Nat.mod_eq_of_lt (by omega)]

theorem digitChar_ne_zero {digit : Nat} (small : digit < 10) : digitChar digit ≠ 0 := by
  intro zero
  have value := digitChar_toNat small
  rw [zero] at value
  simp at value
  omega

theorem digits_plain (n : Nat) : ∀ c ∈ (numeral 10 n).map digitChar, c ≠ 0 := by
  intro c member
  obtain ⟨digit, inside, rfl⟩ := List.mem_map.mp member
  exact digitChar_ne_zero (lt_of_mem_numeral (by decide) inside)

theorem decimal_plain (v : Int) : ∀ c ∈ decimal v, c ≠ 0 := by
  intro c member
  unfold decimal at member
  split at member
  · rcases List.mem_cons.mp member with rfl | member
    · decide
    · exact digits_plain _ c member
  · exact digits_plain _ c member

theorem length_decimal_le_iff (v : Int) (pos : 0 < k) :
    (decimal v).length ≤ k + 1 ↔ -10 ^ k < v ∧ v < 10 ^ (k + 1) := by
  have ten : (10 : Int) ^ k = (10 ^ k : Nat) := by simp
  have ten' : (10 : Int) ^ (k + 1) = (10 ^ (k + 1) : Nat) := by simp
  have larger : 0 < (10 : Nat) ^ (k + 1) := Nat.pow_pos (by decide)
  have larger' : 0 < (10 : Nat) ^ k := Nat.pow_pos (by decide)
  unfold decimal
  rw [ten, ten']
  split
  · rw [List.length_cons, List.length_map, Nat.add_le_add_iff_right,
      length_numeral_le_iff (by decide) pos]
    omega
  · rw [List.length_map, length_numeral_le_iff (by decide) (Nat.succ_pos k)]
    omega

end KopalniaOS.Library
