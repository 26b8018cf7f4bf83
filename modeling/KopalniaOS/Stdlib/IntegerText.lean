import KopalniaOS.Library.CString
import KopalniaOS.Library.Numeral
import KopalniaOS.Library.Program
import Mathlib.Order.Lattice

/-!
# Integers as text

`to_str` and `to_hex_str`. Decimal digits come out of a division loop in the wrong order and are
then reversed in place; a minus sign is the last character of the first pass.
-/
namespace KopalniaOS.Stdlib

open Library

/-! ### Integer types -/

/-- The types that `to_str` is used with. -/
inductive IntType where
  | int
  | unsignedInt
  | longLong
deriving DecidableEq, Repr

namespace IntType

def width : IntType → Nat
  | .int => 32
  | .unsignedInt => 32
  | .longLong => 64

def signed : IntType → Bool
  | .int => true
  | .unsignedInt => false
  | .longLong => true

def min (T : IntType) : Int := if T.signed then -2 ^ (T.width - 1) else 0

def max (T : IntType) : Int := if T.signed then 2 ^ (T.width - 1) - 1 else 2 ^ T.width - 1

/-- A value has the range of its type. -/
abbrev Value (T : IntType) := {v : Int // T.min ≤ v ∧ v ≤ T.max}

/-- Arithmetic that leaves the range comes back at its other end. -/
def wrap (T : IntType) (x : Int) : Int :=
  if T.signed then (x + 2 ^ (T.width - 1)) % 2 ^ T.width - 2 ^ (T.width - 1)
  else x % 2 ^ T.width

end IntType

/-! ### The buffer -/

/-- Accesses to the `char` buffer that a number is written to. -/
inductive BufferOp where
  | load (index : Nat)
  | store (index : Nat) (value : UInt8)

abbrev BufferOp.Answer : BufferOp → Type
  | .load _ => UInt8
  | .store .. => Unit

abbrev BufferProgram := Program BufferOp BufferOp.Answer

def bufferHandler : Handler BufferOp BufferOp.Answer Memory
  | .load index, m => some (m index, m)
  | .store index value, m => some ((), Function.update m index value)

def loadChar (index : Nat) : BufferProgram UInt8 := Program.perform (BufferOp.load index)

def storeChar (index : Nat) (value : UInt8) : BufferProgram Unit :=
  Program.perform (BufferOp.store index value)

/-! ### The conversions -/

/-- `while (0 < value)`: the lowest digit first; gives the next index. -/
def writeDigits : (left : Nat) → (value : Int) → (i : Nat) → BufferProgram Nat
  | 0, _, _ => .stuck
  | left + 1, value, i =>
    if 0 < value then do
      storeChar i (digitChar (value.tmod 10).toNat)
      writeDigits left (value.tdiv 10) (i + 1)
    else pure i

/-- Swaps the `j`-th character with the `j`-th from the end, in the first half. -/
def reverseChars (i : Nat) : (left j : Nat) → BufferProgram Unit
  | 0, _ => pure ()
  | left + 1, j => do
    let tmp ← loadChar j
    let c ← loadChar (i - j - 1)
    storeChar j c
    storeChar (i - j - 1) tmp
    reverseChars i left (j + 1)

/-- The digits of a value without a sign, in reverse. A value has fewer digits than bits. -/
def writeMagnitude (T : IntType) (value : Int) : BufferProgram Nat :=
  if value = 0 then do
    storeChar 0 (digitChar 0)
    pure 1
  else writeDigits T.width value 0

def writeSign (isNegative : Bool) (i : Nat) : BufferProgram Nat :=
  if isNegative = true then do
    storeChar i minusSign
    pure (i + 1)
  else pure i

/-- All characters in reverse; gives their number. -/
def writeReversed (T : IntType) (value : Int) : BufferProgram Nat := do
  let isNegative := decide (value < 0)
  let i ← writeMagnitude T (if isNegative = true then T.wrap (-value) else value)
  writeSign isNegative i

/-- `to_str` for an integer type. -/
def toStr (T : IntType) (value : Int) : BufferProgram Unit := do
  let i ← writeReversed T value
  reverseChars i (i / 2) 0
  storeChar i 0

/-- `"0123456789ABCDEF"[nibble]` -/
def hexChar (nibble : Nat) : UInt8 :=
  if nibble < 10 then UInt8.ofNat (48 + nibble) else UInt8.ofNat (55 + nibble)

/-- From the nibble at bit `4 * (left - 1)` down; gives the next index and whether there was a digit. -/
def writeNibbles (value : Nat) : (left ptr : Nat) → (started : Bool) → BufferProgram (Nat × Bool)
  | 0, ptr, started => pure (ptr, started)
  | left + 1, ptr, started =>
    let nibble := (value >>> (4 * left)) &&& 0xF
    if started = false ∧ nibble = 0 then writeNibbles value left ptr started
    else do
      storeChar ptr (hexChar nibble)
      writeNibbles value left (ptr + 1) true

/-- `if (!started) *ptr++ = '0'` -/
def writeZero (ptr : Nat) (started : Bool) : BufferProgram Nat :=
  if started = false then do
    storeChar ptr 48
    pure (ptr + 1)
  else pure ptr

/-- `to_hex_str` for `unsigned long long`. -/
def toHexStr (value : Nat) : BufferProgram Unit := do
  storeChar 0 48
  storeChar 1 120
  let (ptr, started) ← writeNibbles value 16 2 false
  let ptr ← writeZero ptr started
  storeChar ptr 0

/-! ### Arithmetic of a type -/

variable {T : IntType}

theorem IntType.wrap_of_mem {x : Int} (lower : T.min ≤ x) (upper : x ≤ T.max) : T.wrap x = x := by
  cases T <;> simp [min, max, wrap, signed, width] at lower upper ⊢ <;> omega

/-- Only the least value of a signed type has no negative in the type, and it is its own. -/
theorem IntType.wrap_neg (v : T.Value) (noNegative : T.max < -v.val) : T.wrap (-v.val) < 0 := by
  obtain ⟨v, lower, upper⟩ := v
  cases T <;> simp [min, max, wrap, signed, width] at lower upper noNegative ⊢ <;> omega

theorem IntType.max_nonneg (T : IntType) : 0 ≤ T.max := by cases T <;> decide

/-- What becomes of the sign: it cannot be taken off, it is taken off, or there is none. -/
theorem IntType.sign_cases (v : T.Value) :
    (v.val < 0 ∧ T.max < -v.val ∧ T.wrap (-v.val) < 0) ∨
      (v.val < 0 ∧ -v.val ≤ T.max ∧ T.wrap (-v.val) = v.val.natAbs) ∨
      (¬v.val < 0 ∧ -v.val ≤ T.max ∧ v.val = v.val.natAbs) := by
  have nonneg := T.max_nonneg
  obtain ⟨lower, upper⟩ := v.property
  by_cases negative : v.val < 0
  · rcases lt_or_ge T.max (-v.val) with noNegative | fits
    · exact .inl ⟨negative, noNegative, IntType.wrap_neg v noNegative⟩
    · refine .inr (.inl ⟨negative, fits, ?_⟩)
      rw [IntType.wrap_of_mem (by omega) fits]
      omega
  · exact .inr (.inr ⟨negative, by omega, by omega⟩)

/-! ### The loops of `to_str` -/

variable {m : Memory}

@[simp] theorem run_loadChar (index : Nat) (m : Memory) :
    (loadChar index).run bufferHandler m = some (m index, m) :=
  Program.run_perform bufferHandler (BufferOp.load index) m

@[simp] theorem run_storeChar (index : Nat) (value : UInt8) (m : Memory) :
    (storeChar index value).run bufferHandler m = some ((), Function.update m index value) :=
  Program.run_perform bufferHandler (BufferOp.store index value) m

/-- The loop writes the digits of the number, the lowest first. -/
theorem run_writeDigits (left n i : Nat) (enough : n < 10 ^ left) (m : Memory) :
    (writeDigits (left + 1) n i).run bufferHandler m =
      some (i + (Nat.digits 10 n).length, m.splice i ((Nat.digits 10 n).map digitChar)) := by
  induction left generalizing n i m with
  | zero =>
    have zero : n = 0 := by simpa using enough
    simp [writeDigits, zero]
  | succ left ih =>
    rw [writeDigits]
    by_cases zero : n = 0
    · simp [zero]
    · have pos : 0 < n := Nat.pos_of_ne_zero zero
      have rest : n / 10 < 10 ^ left := by
        rw [Nat.pow_succ] at enough
        omega
      -- C++ remainder and division truncate, which is the same for what is not negative
      have digit : ((n : Int).tmod 10).toNat = n % 10 := by
        rw [Int.tmod_eq_emod_of_nonneg (Int.natCast_nonneg n)]
        omega
      have quotient : (n : Int).tdiv 10 = (n / 10 : Nat) := by
        rw [Int.tdiv_eq_ediv_of_nonneg (Int.natCast_nonneg n)]
        simp
      have digits := Nat.digits_def' (b := 10) (by decide) pos
      rw [if_pos (by omega), digit, quotient, Program.run_bind, run_storeChar, Option.bind_some,
        ih (n / 10) (i + 1) rest, digits, List.map_cons, List.length_cons, Memory.splice_update]
      congr 2
      omega

/-- The memory when `j` pairs of the first `i` characters are swapped. -/
def swapped (m : Memory) (i j : Nat) : Memory := fun x =>
  if x < i ∧ (x < j ∨ i ≤ x + j) then m (i - x - 1) else m x

theorem swapped_zero (m : Memory) (i : Nat) : swapped m i 0 = m := by
  funext x
  rw [swapped, if_neg (by omega)]

/-- One turn of the loop swaps one more pair. -/
theorem swapped_succ (m : Memory) {i j : Nat} (before : 2 * j + 2 ≤ i) :
    Function.update (Function.update (swapped m i j) j (swapped m i j (i - j - 1))) (i - j - 1)
      (swapped m i j j) = swapped m i (j + 1) := by
  have first : swapped m i j j = m j := if_neg (by omega)
  have last : swapped m i j (i - j - 1) = m (i - j - 1) := if_neg (by omega)
  funext x
  rw [first, last]
  by_cases atLast : x = i - j - 1
  · have mirrored : i - x - 1 = j := by omega
    rw [atLast, Function.update_self, swapped, if_pos (by omega), ← atLast, mirrored]
  · rw [Function.update_of_ne atLast]
    by_cases atFirst : x = j
    · rw [atFirst, Function.update_self, swapped, if_pos (by omega)]
    · rw [Function.update_of_ne atFirst, swapped, swapped]
      -- anywhere else the same pairs are swapped
      have same : x < i ∧ (x < j ∨ i ≤ x + j) ↔ x < i ∧ (x < j + 1 ∨ i ≤ x + (j + 1)) := by omega
      rw [if_congr same rfl rfl]

theorem run_reverseChars (left : Nat) {i j : Nat} (half : 2 * (j + left) ≤ i) (m : Memory) :
    (reverseChars i left j).run bufferHandler (swapped m i j) =
      some ((), swapped m i (j + left)) := by
  induction left generalizing j with
  | zero => rfl
  | succ left ih =>
    have next := swapped_succ m (show 2 * j + 2 ≤ i by omega)
    simp only [reverseChars, Program.run_bind, run_loadChar, run_storeChar, Option.bind_some, next]
    rw [ih (by omega)]
    congr 3
    omega

/-- The first half swapped with the second is the text from its end. -/
theorem swapped_splice (m : Memory) (text : List UInt8) :
    swapped (m.splice 0 text) text.length (text.length / 2) = m.splice 0 text.reverse := by
  funext x
  by_cases inside : x < text.length
  · have mirrored : text.length - x - 1 < text.length := by omega
    rw [Memory.splice_inside (by simpa using inside), List.getElem_reverse]
    by_cases moved : x < text.length / 2 ∨ text.length ≤ x + text.length / 2
    · rw [swapped, if_pos ⟨inside, moved⟩, Memory.splice_inside mirrored]
      congr 1
      omega
    · -- only the middle of an odd number of characters stays
      rw [swapped, if_neg (by omega), Memory.splice_inside inside]
      congr 1
      omega
  · rw [swapped, if_neg (by omega), Memory.splice_outside (Nat.le_of_not_lt inside),
      Memory.splice_outside (by simpa using Nat.le_of_not_lt inside)]

theorem run_reverse (m : Memory) (text : List UInt8) :
    (reverseChars text.length (text.length / 2) 0).run bufferHandler (m.splice 0 text) =
      some ((), m.splice 0 text.reverse) := by
  have run := run_reverseChars (text.length / 2) (i := text.length) (j := 0) (by omega)
    (m.splice 0 text)
  rwa [swapped_zero, Nat.zero_add, swapped_splice] at run

/-! ### `to_str` -/

/-- What `to_str` writes. A value without a negative in its type has no digit in its text. -/
def toStrText (T : IntType) (v : Int) : List UInt8 :=
  if -v ≤ T.max then decimal v else [minusSign]

/-- Both bounds of a type have fewer digits than bits. -/
theorem IntType.natAbs_lt (v : T.Value) : v.val.natAbs < 10 ^ (T.width - 1) := by
  obtain ⟨v, lower, upper⟩ := v
  cases T <;> simp [min, max, signed, width] at lower upper ⊢ <;> omega

theorem IntType.width_pos (T : IntType) : T.width = T.width - 1 + 1 := by
  cases T <;> rfl

/-- The first pass leaves the digits in reverse. -/
theorem run_writeMagnitude (T : IntType) {n : Nat} (enough : n < 10 ^ (T.width - 1)) (m : Memory) :
    (writeMagnitude T n).run bufferHandler m =
      some ((numeral 10 n).length, m.splice 0 ((numeral 10 n).map digitChar).reverse) := by
  rw [writeMagnitude]
  by_cases zero : n = 0
  · simp [zero, numeral_zero, Memory.splice_singleton]
  · rw [if_neg (by omega), T.width_pos, run_writeDigits _ _ _ enough, numeral_pos 10 zero]
    simp

theorem run_writeSign (text : List UInt8) (m : Memory) :
    (writeSign true text.length).run bufferHandler (m.splice 0 text) =
      some ((text ++ [minusSign]).length, m.splice 0 (text ++ [minusSign])) := by
  have behind := Memory.splice_splice m 0 text [minusSign]
  rw [Nat.zero_add, Memory.splice_singleton] at behind
  simp [writeSign, behind]

/-- Where the value is still negative the loop over the digits does not start. -/
theorem writeMagnitude_negative {value : Int} (negative : value < 0) :
    writeMagnitude T value = pure 0 := by
  rw [writeMagnitude, if_neg (Int.ne_of_lt negative), T.width_pos, writeDigits,
    if_neg (Int.not_lt.mpr (Int.le_of_lt negative))]

theorem run_writeReversed (T : IntType) (v : T.Value) (m : Memory) :
    (writeReversed T v.val).run bufferHandler m =
      some ((toStrText T v.val).reverse.length, m.splice 0 (toStrText T v.val).reverse) := by
  have digits := run_writeMagnitude T (IntType.natAbs_lt v) m
  rw [← List.length_map digitChar, ← List.length_reverse] at digits
  unfold writeReversed
  rcases IntType.sign_cases v with
    ⟨negative, noNegative, still⟩ | ⟨negative, fits, magnitude⟩ | ⟨positive, fits, magnitude⟩
  · -- only the minus sign is written
    have sign := run_writeSign [] m
    rw [Memory.splice_nil, List.nil_append, List.length_nil] at sign
    simp only [negative, decide_true, if_true]
    rw [writeMagnitude_negative still, Program.pure_eq, Program.ret_bind, sign, toStrText,
      if_neg (Int.not_le.mpr noNegative)]
    rfl
  · simp only [negative, decide_true, if_true]
    rw [magnitude, Program.run_bind, digits, Option.bind_some, run_writeSign, toStrText,
      if_pos fits, decimal, if_pos negative, List.reverse_cons]
  · simp only [positive, decide_false, Bool.false_eq_true, if_false]
    rw [← magnitude] at digits
    rw [Program.run_bind, digits, Option.bind_some, writeSign, if_neg Bool.false_ne_true, toStrText,
      if_pos fits, decimal, if_neg positive]
    rfl

/-- The second pass turns the characters around, and the terminator follows them. -/
theorem run_finish (text : List UInt8) (m : Memory) :
    (reverseChars text.length (text.length / 2) 0 >>= fun _ => storeChar text.length 0).run
      bufferHandler (m.splice 0 text) = some ((), m.splice 0 (text.reverse ++ [0])) := by
  have terminator := Memory.splice_splice m 0 text.reverse [0]
  rw [List.length_reverse, Nat.zero_add, Memory.splice_singleton] at terminator
  rw [Program.run_bind, run_reverse, Option.bind_some, run_storeChar, terminator]

theorem run_toStr (T : IntType) (v : T.Value) (m : Memory) :
    (toStr T v.val).run bufferHandler m = some ((), m.splice 0 (toStrText T v.val ++ [0])) := by
  rw [toStr, Program.run_bind, run_writeReversed, Option.bind_some, run_finish, List.reverse_reverse]

/-! ### When the text is the number -/

/-- `to_str` leaves the canonical text with its terminator in the buffer, and every byte behind
as it was. -/
def Exact (T : IntType) (v : T.Value) : Prop :=
  ∀ m : Memory, ∃ m', (toStr T v.val).run bufferHandler m = some ((), m') ∧
    m'.Spells (decimal v.val) ∧ ∀ x, (decimal v.val).length < x → m' x = m x

theorem minusSign_ne_decimal (v : Int) : decimal v ≠ [minusSign] := by
  intro same
  unfold decimal at same
  split at same
  · rw [List.cons_inj_right, List.map_eq_nil_iff] at same
    exact numeral_ne_nil 10 _ same
  · -- no digit is a minus sign
    obtain ⟨digit, one⟩ := List.length_eq_one_iff.mp (by simpa using congrArg List.length same)
    have small : digit < 10 := lt_of_mem_numeral (by decide) (one ▸ List.mem_singleton_self digit)
    rw [one] at same
    have value := digitChar_toNat small
    rw [List.singleton_inj.mp same] at value
    simp [minusSign] at value
    omega

/-- Where negation leaves the range there are no digits. -/
theorem Exact.fits {T : IntType} {v : T.Value} (exact : Exact T v) : -v.val ≤ T.max := by
  by_contra noNegative
  obtain ⟨m', ran, spells, -⟩ := exact fun _ => 0
  rw [run_toStr] at ran
  cases ran
  rw [toStrText, if_neg noNegative] at spells
  have plain : ∀ c ∈ [minusSign], c ≠ 0 := by simp [minusSign]
  exact minusSign_ne_decimal v.val
    (spells.unique (Memory.spells_splice _ _) (decimal_plain v.val) plain)

/-- A value is printed exactly unless it is the one that has no negative in its type. -/
theorem toStr_exact_iff (T : IntType) (v : T.Value) : Exact T v ↔ -v.val ≤ T.max := by
  refine ⟨Exact.fits, fun fits m => ⟨_, run_toStr T v m, ?_, fun x behind => ?_⟩⟩
  · rw [toStrText, if_pos fits]
    exact Memory.spells_splice m _
  · rw [toStrText, if_pos fits]
    apply Memory.splice_outside
    simpa using behind

/-- The least `int` comes out as a minus sign. -/
theorem int_min_not_exact : ¬∀ (T : IntType) (v : T.Value), Exact T v := fun exact =>
  absurd (exact .int ⟨-2 ^ 31, by decide⟩).fits (by decide)

/-! ### `to_hex_str` -/

/-- The text of a number with its prefix. -/
def hexText (value : Nat) : List UInt8 := [48, 120] ++ (numeral 16 value).map hexChar

theorem nibble_eq (value left : Nat) : (value >>> (4 * left)) &&& 0xF = value / 16 ^ left % 16 := by
  rw [Nat.shiftRight_eq_div_pow, Nat.pow_mul]
  exact Nat.and_two_pow_sub_one_eq_mod _ 4

/-- Behind the first digit every nibble is written. -/
theorem run_writeNibbles_started (value left ptr : Nat) (m : Memory) :
    (writeNibbles value left ptr true).run bufferHandler m =
      some ((ptr + left, true), m.splice ptr ((places 16 left value).map hexChar)) := by
  induction left generalizing ptr m with
  | zero => simp [writeNibbles, places]
  | succ left ih =>
    rw [writeNibbles, if_neg (by simp), Program.run_bind, run_storeChar, Option.bind_some, ih,
      nibble_eq, Memory.splice_update, places_succ, List.map_cons]
    congr 3
    omega

/-- In front of it only zeros are left out. -/
theorem run_writeNibbles {value : Nat} (pos : value ≠ 0) (left ptr : Nat)
    (small : value < 16 ^ left) (m : Memory) :
    (writeNibbles value left ptr false).run bufferHandler m =
      some ((ptr + (numeral 16 value).length, true),
        m.splice ptr ((numeral 16 value).map hexChar)) := by
  induction left with
  | zero => omega
  | succ left ih =>
    rw [writeNibbles, nibble_eq]
    -- zeros in front are skipped; behind the first digit nothing is
    rcases Nat.lt_or_ge value (16 ^ left) with zeros | first
    · rw [Nat.div_eq_of_lt zeros, if_pos ⟨rfl, rfl⟩]
      exact ih zeros
    · have digits := numeral_eq_places (b := 16) (by decide) first small
      have digit := leading_place_ne_zero first small
      have length : (numeral 16 value).length = left + 1 := by simp [digits, places]
      rw [if_neg fun both => digit both.2, Program.run_bind, run_storeChar, Option.bind_some,
        run_writeNibbles_started, Memory.splice_update, length, digits, places_succ, List.map_cons]
      congr 3
      omega

theorem run_writeNibbles_zero (left ptr : Nat) (m : Memory) :
    (writeNibbles 0 left ptr false).run bufferHandler m = some ((ptr, false), m) := by
  induction left with
  | zero => rfl
  | succ left ih =>
    rw [writeNibbles, nibble_eq, Nat.zero_div, if_pos ⟨rfl, rfl⟩]
    exact ih

/-- Every 64-bit number is written in full. -/
theorem run_toHexStr {value : Nat} (small : value < 2 ^ 64) (m : Memory) :
    (toHexStr value).run bufferHandler m = some ((), m.splice 0 (hexText value ++ [0])) := by
  have digits := Memory.splice_splice m 0 [48, 120]
    ((numeral 16 value).map hexChar)
  have all := Memory.splice_splice m 0 (hexText value) [0]
  have start : Function.update (Function.update m 0 48) 1 120 = m.splice 0 [48, 120] := by
    rw [← Memory.splice_update, ← Memory.splice_update, Memory.splice_nil]
  rw [Memory.splice_singleton, Nat.zero_add] at all
  rw [Nat.zero_add, ← hexText] at digits
  simp only [toHexStr, Program.run_bind, run_storeChar, Option.bind_some, start]
  -- zero has no digit that is not skipped, and is written afterwards
  by_cases zero : value = 0
  · subst zero
    rw [run_writeNibbles_zero]
    have zero : Function.update (m.splice 0 [48, 120]) 2 48 = m.splice 0 (hexText 0) := by
      rw [← Memory.splice_singleton, ← digits]
      rfl
    simp only [Option.bind_some, writeZero, if_true, Program.run_bind, run_storeChar, zero,
      Program.pure_eq, Program.run_ret]
    exact congrArg _ (congrArg _ all)
  · rw [run_writeNibbles zero 16 2 small]
    have length : 2 + (numeral 16 value).length = (hexText value).length := by
      simp only [hexText, List.length_append, List.length_cons, List.length_nil, List.length_map]
    simp only [Option.bind_some, writeZero, Bool.true_eq_false, if_false, Program.pure_eq,
      Program.run_ret]
    rw [length, ← all, ← digits]
    rfl

end KopalniaOS.Stdlib
