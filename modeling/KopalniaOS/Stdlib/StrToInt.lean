import KopalniaOS.Stdlib.IntegerText

/-!
# Text as integers

`str_to_int` adds up the digits of a string in an `int`, although it returns 64 bits.
-/
namespace KopalniaOS.Stdlib

open Library

/-- `while (str[i])`: adds digits to an `int`, up to the first other character. -/
def addDigits : List UInt8 → (result : Int) → Int
  | [], result => result
  | c :: rest, result =>
    if c = 0 then result
    else if c < 48 ∨ 57 < c then result
    else addDigits rest (IntType.int.wrap (IntType.int.wrap (result * 10) + (c.toNat - 48 : Nat)))

/-- `str_to_int`; the `int` is widened when it is returned. -/
def strToInt (str : List UInt8) : Int :=
  let negative := str.headD 0 == minusSign
  let result := addDigits (if negative then str.drop 1 else str) 0
  if negative then IntType.int.wrap (-result) else result

/-! ### Strings with a number -/

def IsDigit (c : UInt8) : Prop := 48 ≤ c ∧ c ≤ 57

instance (c : UInt8) : Decidable (IsDigit c) := inferInstanceAs (Decidable (_ ∧ _))

/-- The number that decimal digits stand for. -/
def digitsValue (digits : List UInt8) : Nat := readDigits 10 (digits.map fun c => c.toNat - 48)

/-- A string that starts with a number, and the number. -/
def numberText (negative : Bool) (digits rest : List UInt8) : List UInt8 :=
  (if negative then [minusSign] else []) ++ digits ++ rest

def numberValue (negative : Bool) (digits : List UInt8) : Int :=
  if negative then -(digitsValue digits : Int) else digitsValue digits

/-- One more digit, with the range of an `int` after every operation. -/
theorem wrap_step (value digit : Int) :
    IntType.int.wrap (IntType.int.wrap (IntType.int.wrap value * 10) + digit) =
      IntType.int.wrap (value * 10 + digit) := by
  simp [IntType.wrap, IntType.signed, IntType.width]
  omega

theorem addDigits_stops {rest : List UInt8} (stops : ∀ c, rest.head? = some c → ¬IsDigit c)
    (result : Int) : addDigits rest result = result := by
  cases rest with
  | nil => rfl
  | cons c rest =>
    have other : ¬IsDigit c := stops c rfl
    rw [IsDigit, not_and_or, UInt8.not_le, UInt8.not_le] at other
    rw [addDigits, if_pos other, ite_self]

/-- The loop computes the value as an `int`: what is left is its residue. -/
theorem addDigits_append {digits rest : List UInt8} (all : ∀ c ∈ digits, IsDigit c)
    (stops : ∀ c, rest.head? = some c → ¬IsDigit c) (value : Nat) :
    addDigits (digits ++ rest) (IntType.int.wrap value) =
      IntType.int.wrap ((digits.foldl (fun v c => v * 10 + (c.toNat - 48)) value : Nat) : Int) := by
  induction digits generalizing value with
  | nil => exact addDigits_stops stops _
  | cons c digits ih =>
    obtain ⟨lower, upper⟩ := all c (List.mem_cons_self ..)
    have plain : c ≠ 0 := by
      rintro rfl
      exact absurd lower (by decide)
    have inside : ¬(c < 48 ∨ 57 < c) := by
      simp [not_or, UInt8.not_lt, lower, upper]
    -- one turn wraps three times, which is as good as once
    rw [List.cons_append, addDigits, if_neg plain, if_neg inside, wrap_step]
    have step := ih (fun d member => all d (List.mem_cons_of_mem c member))
      (value * 10 + (c.toNat - 48))
    simpa using step

theorem strToInt_numberText (negative : Bool) {digits rest : List UInt8} (nonempty : digits ≠ [])
    (all : ∀ c ∈ digits, IsDigit c) (stops : ∀ c, rest.head? = some c → ¬IsDigit c) :
    strToInt (numberText negative digits rest) =
      if negative then IntType.int.wrap (-IntType.int.wrap (digitsValue digits))
      else IntType.int.wrap (digitsValue digits) := by
  have value := addDigits_append all stops 0
  rw [show IntType.int.wrap ((0 : Nat) : Int) = 0 from rfl] at value
  have folded : digitsValue digits = digits.foldl (fun v c => v * 10 + (c.toNat - 48)) 0 := by
    rw [digitsValue, readDigits, List.foldl_map]
  rw [← folded] at value
  cases negative with
  | true => simp [strToInt, numberText, value]
  | false =>
    -- the first character is a digit, and so no minus sign
    obtain ⟨c, digits, rfl⟩ := List.exists_cons_of_ne_nil nonempty
    have unsigned : c ≠ minusSign := by
      rintro rfl
      exact absurd (all _ (List.mem_cons_self ..)).1 (by decide)
    simp [strToInt, numberText, unsigned, ← value]

/-- A number is read exactly if it is one that an `int` can hold. -/
theorem strToInt_eq_iff (negative : Bool) {digits rest : List UInt8} (nonempty : digits ≠ [])
    (all : ∀ c ∈ digits, IsDigit c) (stops : ∀ c, rest.head? = some c → ¬IsDigit c) :
    strToInt (numberText negative digits rest) = numberValue negative digits ↔
      IntType.int.min ≤ numberValue negative digits ∧
        numberValue negative digits ≤ IntType.int.max := by
  rw [strToInt_numberText negative nonempty all stops]
  cases negative <;>
    simp [numberValue, IntType.wrap, IntType.min, IntType.max, IntType.signed, IntType.width] <;>
    omega

theorem isDigit_digitChar {digit : Nat} (small : digit < 10) : IsDigit (digitChar digit) := by
  have value := digitChar_toNat small
  constructor
  · apply UInt8.le_iff_toNat_le.mpr
    simp [value]
  · apply UInt8.le_iff_toNat_le.mpr
    simp [value]
    omega

/-- The canonical text of a number is a string of this kind. -/
theorem numberText_decimal (v : Int) :
    numberText (decide (v < 0)) ((numeral 10 v.natAbs).map digitChar) [] = decimal v := by
  by_cases negative : v < 0 <;> simp [numberText, decimal, negative]

theorem digitsValue_numeral (n : Nat) : digitsValue ((numeral 10 n).map digitChar) = n := by
  have back : ((numeral 10 n).map digitChar).map (fun c => c.toNat - 48) = numeral 10 n := by
    rw [List.map_map]
    refine (List.map_congr_left fun digit member => ?_).trans (List.map_id _)
    simp [digitChar_toNat (lt_of_mem_numeral (by decide) member)]
  rw [digitsValue, back, readDigits_numeral]

theorem numberValue_decimal (v : Int) :
    numberValue (decide (v < 0)) ((numeral 10 v.natAbs).map digitChar) = v := by
  rw [numberValue, digitsValue_numeral]
  by_cases negative : v < 0
  · rw [if_pos (decide_eq_true negative)]
    omega
  · rw [if_neg (by simpa using negative)]
    omega

theorem strToInt_decimal_iff (v : Int) :
    strToInt (decimal v) = v ↔ IntType.int.min ≤ v ∧ v ≤ IntType.int.max := by
  have digits : ∀ c ∈ (numeral 10 v.natAbs).map digitChar, IsDigit c := by
    intro c member
    obtain ⟨digit, inside, rfl⟩ := List.mem_map.mp member
    exact isDigit_digitChar (lt_of_mem_numeral (by decide) inside)
  have ended : ∀ c, ([] : List UInt8).head? = some c → ¬IsDigit c := by simp
  have read := strToInt_eq_iff (decide (v < 0)) (by simpa using numeral_ne_nil 10 v.natAbs) digits
    ended
  rwa [numberText_decimal, numberValue_decimal] at read

/-- Both for every string with a number and for what `to_str` should write. -/
theorem strToInt_exact_iff (negative : Bool) {digits rest : List UInt8} (nonempty : digits ≠ [])
    (all : ∀ c ∈ digits, IsDigit c) (stops : ∀ c, rest.head? = some c → ¬IsDigit c)
    (v : IntType.longLong.Value) :
    (strToInt (numberText negative digits rest) = numberValue negative digits ↔
      IntType.int.min ≤ numberValue negative digits ∧
        numberValue negative digits ≤ IntType.int.max) ∧
    (strToInt (decimal v.val) = v.val ↔ IntType.int.min ≤ v.val ∧ v.val ≤ IntType.int.max) :=
  ⟨strToInt_eq_iff negative nonempty all stops, strToInt_decimal_iff v.val⟩

/-- A number at the front of other text. -/
theorem strToInt_exact_seventeen : strToInt (numberText true [49, 55] [32, 120]) = -17 :=
  (strToInt_exact_iff true (by decide) (by simp [IsDigit]) (by simp [IsDigit]) ⟨-17, by decide⟩).1.mpr
    (by decide)

/-- `2147483648` is read as a negative number. -/
theorem two_pow_31_not_read : ¬∀ (negative : Bool) (digits rest : List UInt8), digits ≠ [] →
    (∀ c ∈ digits, IsDigit c) → (∀ c, rest.head? = some c → ¬IsDigit c) →
    IntType.longLong.min ≤ numberValue negative digits →
    numberValue negative digits ≤ IntType.longLong.max →
    strToInt (numberText negative digits rest) = numberValue negative digits := fun reads =>
  absurd (reads false [50, 49, 52, 55, 52, 56, 51, 54, 52, 56] [] (by decide)
    (by simp [IsDigit]) (by simp) (by decide) (by decide)) (by decide +kernel)

end KopalniaOS.Stdlib
