import Mathlib.Algebra.CharP.Two
import Mathlib.Algebra.Field.ZMod
import Mathlib.Algebra.Polynomial.Div
import Mathlib.Algebra.Polynomial.RingDivision
import Mathlib.Data.ZMod.Basic
import Mathlib.RingTheory.Coprime.Lemmas
import Mathlib.Tactic.LinearCombination

/-!
# Remainders over GF(2) in a shift register

A word is a polynomial over the field of two elements, bit `i` being the coefficient of `X ^ i`.
A register that shifts to the right holds a remainder the other way round, with its lowest bit for
the highest power. Shifting bits in multiplies by powers of `X`, and the bit that leaves the
register selects whether the divisor is subtracted.
-/
namespace KopalniaOS.Library

open Polynomial

noncomputable section

def bit (b : Bool) : ZMod 2 := if b then 1 else 0

theorem bit_xor (a b : Bool) : bit (a ^^ b) = bit a + bit b := by
  cases a <;> cases b <;> decide

theorem bit_injective : Function.Injective bit := by decide

/-- Adding a polynomial twice adds nothing. -/
theorem add_twice (p : (ZMod 2)[X]) : p + p = 0 := CharTwo.add_self_eq_zero p

/-! ### Words -/

section Words

variable {w : Nat}

def toPoly (r : BitVec w) : (ZMod 2)[X] := ∑ i ∈ Finset.range w, C (bit (r.getLsbD i)) * X ^ i

theorem coeff_toPoly (r : BitVec w) (i : Nat) : (toPoly r).coeff i = bit (r.getLsbD i) := by
  simp only [toPoly, finsetSum_coeff, coeff_C_mul, coeff_X_pow, mul_ite, mul_one, mul_zero]
  rw [Finset.sum_ite_eq]
  split
  · rfl
  next outside =>
    rw [BitVec.getLsbD_of_ge r i (by simpa using outside)]
    rfl

theorem degree_toPoly_lt (r : BitVec w) : (toPoly r).degree < w := by
  rw [degree_lt_iff_coeff_zero]
  intro i high
  rw [coeff_toPoly, BitVec.getLsbD_of_ge r i high]
  rfl

/-- The polynomial of a register that shifts to the right. -/
def reflected (r : BitVec w) : (ZMod 2)[X] := toPoly r.reverse

theorem coeff_reflected (r : BitVec w) (i : Nat) : (reflected r).coeff i = bit (r.getMsbD i) := by
  rw [reflected, coeff_toPoly, BitVec.getLsbD_reverse]

theorem reflected_xor (a b : BitVec w) : reflected (a ^^^ b) = reflected a + reflected b := by
  ext i
  rw [coeff_add, coeff_reflected, coeff_reflected, coeff_reflected, BitVec.getMsbD_xor, bit_xor]

theorem degree_reflected_lt (r : BitVec w) : (reflected r).degree < w := degree_toPoly_lt r.reverse

end Words

/-! ### Strings of bits -/

/-- The first bit is the coefficient of the highest power. -/
def bitPoly : List Bool → (ZMod 2)[X]
  | [] => 0
  | b :: rest => C (bit b) * X ^ rest.length + bitPoly rest

theorem coeff_bitPoly (bits : List Bool) (i : Nat) :
    (bitPoly bits).coeff i = bit (bits.reverse.getD i false) := by
  induction bits with
  | nil => simp [bitPoly, bit]
  | cons b rest ih =>
    rw [bitPoly, coeff_add, ih, coeff_C_mul, coeff_X_pow, List.reverse_cons]
    by_cases inside : i < rest.length
    · simp [List.getElem?_append, inside, Nat.ne_of_lt inside]
    · by_cases last : i = rest.length
      · simp [last, bit]
      · have past : ¬ i - rest.length < 1 := by omega
        simp [List.getElem?_append, inside, last, past, bit]

theorem degree_bitPoly_lt (bits : List Bool) : (bitPoly bits).degree < bits.length := by
  rw [degree_lt_iff_coeff_zero]
  intro i high
  have none : bits.reverse[i]? = none := by simpa using high
  simp [coeff_bitPoly, none, bit]

theorem bitPoly_append (xs ys : List Bool) :
    bitPoly (xs ++ ys) = X ^ ys.length * bitPoly xs + bitPoly ys := by
  induction xs with
  | nil => simp [bitPoly]
  | cons b rest ih =>
    rw [List.cons_append, bitPoly, ih, bitPoly, List.length_append, pow_add]
    ring

theorem bitPoly_inj {xs ys : List Bool} (length : xs.length = ys.length)
    (same : bitPoly xs = bitPoly ys) : xs = ys := by
  apply List.reverse_injective
  apply List.ext_getElem (by simpa using length)
  intro i inside inside'
  have coefficient := congrArg (fun p => p.coeff i) same
  simp only [coeff_bitPoly] at coefficient
  have equal := bit_injective coefficient
  rwa [List.getD_eq_getElem?_getD, List.getD_eq_getElem?_getD, List.getElem?_eq_getElem inside,
    List.getElem?_eq_getElem inside', Option.getD_some, Option.getD_some] at equal

/-- The low `n` bits of a number, the lowest first. -/
def lsbFirst (n chunk : Nat) : List Bool := (List.range n).map chunk.testBit

theorem length_lsbFirst (n chunk : Nat) : (lsbFirst n chunk).length = n := by simp [lsbFirst]

theorem lsbFirst_inj {n chunk chunk' : Nat} (small : chunk < 2 ^ n) (small' : chunk' < 2 ^ n)
    (same : lsbFirst n chunk = lsbFirst n chunk') : chunk = chunk' := by
  apply Nat.eq_of_testBit_eq
  intro i
  by_cases inside : i < n
  · have equal := congrArg (fun bits => bits[i]?) same
    simpa [lsbFirst, inside] using equal
  · have high : 2 ^ n ≤ 2 ^ i := Nat.pow_le_pow_right (by decide) (Nat.not_lt.mp inside)
    rw [Nat.testBit_lt_two_pow (Nat.lt_of_lt_of_le small high),
      Nat.testBit_lt_two_pow (Nat.lt_of_lt_of_le small' high)]

/-- A chunk comes to lie at the low end of the register, which has the highest powers. -/
theorem reflected_ofNat {w n chunk : Nat} (fits : n ≤ w) (small : chunk < 2 ^ n) :
    reflected (BitVec.ofNat w chunk) = X ^ (w - n) * bitPoly (lsbFirst n chunk) := by
  ext i
  rw [coeff_reflected, coeff_X_pow_mul', coeff_bitPoly, BitVec.getMsbD_eq_getLsbD,
    BitVec.getLsbD_ofNat]
  -- the chunk is in the low bits, which are the high coefficients
  by_cases low : w - n ≤ i
  · rw [if_pos low]
    by_cases inside : i < w
    · have place : n - 1 - (i - (w - n)) = w - 1 - i := by omega
      have index : i - (w - n) < n := by omega
      have bound : w - 1 - i < w := by omega
      simp [lsbFirst, inside, place, index, bound]
    · have past : ¬ i - (w - n) < n := by omega
      have none : (lsbFirst n chunk).reverse[i - (w - n)]? = none := by
        simpa [length_lsbFirst] using past
      simp [inside, none]
  · have high : chunk.testBit (w - 1 - i) = false :=
      Nat.testBit_lt_two_pow (Nat.lt_of_lt_of_le small (Nat.pow_le_pow_right (by decide) (by omega)))
    rw [if_neg low, high]
    simp [bit]

/-! ### The register -/

section Register

variable {w : Nat} (g : BitVec w)

/-- One shift; the divisor, without its leading term, is subtracted if a one has left the register. -/
def shiftOut (r : BitVec w) : BitVec w := r >>> 1 ^^^ if r.getLsbD 0 then g else 0

def divisor : (ZMod 2)[X] := X ^ w + reflected g

theorem divisor_monic : (divisor g).Monic := monic_X_pow_add (degree_reflected_lt g)

theorem degree_divisor : (divisor g).degree = w := by
  rw [divisor, degree_add_eq_left_of_degree_lt]
  · exact degree_X_pow w
  · rw [degree_X_pow]
    exact degree_reflected_lt g

variable {g}

theorem X_mul_reflected (r : BitVec w) :
    X * reflected r = reflected (r >>> 1) + C (bit (r.getLsbD 0)) * X ^ w := by
  ext i
  rw [coeff_add, coeff_C_mul, coeff_X_pow, coeff_reflected, BitVec.getMsbD_eq_getLsbD,
    BitVec.getLsbD_ushiftRight]
  cases i with
  | zero =>
    rw [coeff_X_mul_zero]
    by_cases empty : w = 0
    · subst empty
      simp [bit]
    · have top : r.getLsbD (1 + (w - 1)) = false := BitVec.getLsbD_of_ge r _ (by omega)
      simp [top, bit, Ne.symm empty]
  | succ i =>
    rw [coeff_X_mul, coeff_reflected, BitVec.getMsbD_eq_getLsbD]
    -- a shift moves every coefficient up by one, and the last one out
    by_cases inside : i + 1 < w
    · have place : 1 + (w - 1 - (i + 1)) = w - 1 - i := by omega
      have before : i < w := by omega
      simp [inside, place, before, Nat.ne_of_lt inside]
    · by_cases last : i + 1 = w
      · have place : w - 1 - i = 0 := by omega
        have before : i < w := by omega
        simp [last, place, before, bit]
      · have past : ¬ i < w := by omega
        simp [inside, last, past, bit]

/-- One shift multiplies by `X`, up to a multiple of the divisor. -/
theorem X_mul_reflected_shiftOut (r : BitVec w) :
    X * reflected r = reflected (shiftOut g r) + C (bit (r.getLsbD 0)) * divisor g := by
  have shifted : reflected (shiftOut g r) = reflected (r >>> 1) + C (bit (r.getLsbD 0)) * reflected g := by
    rw [shiftOut, reflected_xor]
    cases r.getLsbD 0 with
    | false =>
      have zero : reflected 0#w = 0 := by
        have twice := reflected_xor 0#w 0#w
        rw [BitVec.xor_self] at twice
        simpa using twice
      simp [bit, zero]
    | true => simp [bit]
  rw [shifted, X_mul_reflected, divisor]
  linear_combination -add_twice (C (bit (r.getLsbD 0)) * reflected g)

theorem dvd_shiftOut (n : Nat) (r : BitVec w) :
    divisor g ∣ X ^ n * reflected r + reflected ((shiftOut g)^[n] r) := by
  induction n generalizing r with
  | zero =>
    rw [Function.iterate_zero, id_eq, pow_zero, one_mul, add_twice]
    exact dvd_zero _
  | succ n ih =>
    obtain ⟨q, rest⟩ := ih (shiftOut g r)
    have step := X_mul_reflected_shiftOut (g := g) r
    rw [Function.iterate_succ_apply]
    refine ⟨X ^ n * C (bit (r.getLsbD 0)) + q, ?_⟩
    linear_combination rest + X ^ n * step

/-- A chunk of `n` bits enters at the low end, and is shifted through. -/
def absorb (g : BitVec w) (n : Nat) (r : BitVec w) (chunk : Nat) : BitVec w :=
  (shiftOut g)^[n] (r ^^^ BitVec.ofNat w chunk)

theorem dvd_absorb {n chunk : Nat} (fits : n ≤ w) (small : chunk < 2 ^ n) (r : BitVec w) :
    divisor g ∣ X ^ n * reflected r + X ^ w * bitPoly (lsbFirst n chunk) +
      reflected (absorb g n r chunk) := by
  have shifted := dvd_shiftOut (g := g) n (r ^^^ BitVec.ofNat w chunk)
  have powers : (X : (ZMod 2)[X]) ^ w = X ^ n * X ^ (w - n) := by
    rw [← pow_add, Nat.add_sub_cancel' fits]
  rw [reflected_xor, reflected_ofNat fits small, mul_add, ← mul_assoc, ← powers] at shifted
  exact shifted

/-- A message in chunks. -/
def absorbAll (g : BitVec w) (n : Nat) (r : BitVec w) (chunks : List Nat) : BitVec w :=
  chunks.foldl (absorb g n) r

/-- The bits of a message in the order in which they are absorbed. -/
def messageBits (n : Nat) (chunks : List Nat) : List Bool := chunks.flatMap (lsbFirst n)

theorem length_messageBits (n : Nat) (chunks : List Nat) :
    (messageBits n chunks).length = chunks.length * n := by
  simp [messageBits, List.length_flatMap, length_lsbFirst]

theorem messageBits_inj {n : Nat} (pos : 0 < n) {chunks chunks' : List Nat}
    (small : ∀ c ∈ chunks, c < 2 ^ n) (small' : ∀ c ∈ chunks', c < 2 ^ n)
    (same : messageBits n chunks = messageBits n chunks') : chunks = chunks' := by
  have count : chunks.length = chunks'.length := by
    have length := congrArg List.length same
    rw [length_messageBits, length_messageBits] at length
    exact Nat.eq_of_mul_eq_mul_right pos length
  induction chunks generalizing chunks' with
  | nil => exact (List.length_eq_zero_iff.mp count.symm).symm
  | cons chunk rest ih =>
    cases chunks' with
    | nil => cases count
    | cons chunk' rest' =>
      -- the first chunks have the same number of bits, so the messages split at the same place
      rw [messageBits, messageBits, List.flatMap_cons, List.flatMap_cons] at same
      obtain ⟨first, others⟩ := List.append_inj same (by simp [length_lsbFirst])
      have equal := lsbFirst_inj (small chunk (by simp)) (small' chunk' (by simp)) first
      have tails := ih (fun c member => small c (by simp [member]))
        (fun c member => small' c (by simp [member])) others (Nat.succ.inj count)
      rw [equal, tails]

/-- What the register is to hold before it is reduced: the message behind what was in it. -/
def dividend (n : Nat) (r : BitVec w) (chunks : List Nat) : (ZMod 2)[X] :=
  X ^ (chunks.length * n) * reflected r + X ^ w * bitPoly (messageBits n chunks)

theorem dvd_absorbAll {n : Nat} {chunks : List Nat} (fits : n ≤ w) (small : ∀ c ∈ chunks, c < 2 ^ n)
    (r : BitVec w) : divisor g ∣ dividend n r chunks + reflected (absorbAll g n r chunks) := by
  induction chunks generalizing r with
  | nil => simp [dividend, absorbAll, messageBits, bitPoly, add_twice]
  | cons chunk rest ih =>
    obtain ⟨q, first⟩ := dvd_absorb (g := g) fits (small chunk (by simp)) r
    obtain ⟨q', others⟩ := ih (fun c member => small c (by simp [member])) (absorb g n r chunk)
    have bits : bitPoly (messageBits n (chunk :: rest)) =
        X ^ (rest.length * n) * bitPoly (lsbFirst n chunk) + bitPoly (messageBits n rest) := by
      rw [messageBits, List.flatMap_cons, bitPoly_append]
      exact congrArg (fun l => X ^ l * _ + _) (length_messageBits n rest)
    have powers : (X : (ZMod 2)[X]) ^ ((rest.length + 1) * n) = X ^ (rest.length * n) * X ^ n := by
      rw [← pow_add, Nat.succ_mul]
    -- the quotient of the first chunk stands before the bits that follow
    refine ⟨X ^ (rest.length * n) * q + q', ?_⟩
    rw [dividend] at others
    rw [dividend, bits, List.length_cons, powers, absorbAll, List.foldl_cons]
    change _ + reflected (absorbAll g n (absorb g n r chunk) rest) = _
    linear_combination others + X ^ (rest.length * n) * first -
      add_twice (X ^ (rest.length * n) * reflected (absorb g n r chunk))

/-- The register ends with the remainder. -/
theorem reflected_absorbAll {n : Nat} {chunks : List Nat} (fits : n ≤ w)
    (small : ∀ c ∈ chunks, c < 2 ^ n) (r : BitVec w) :
    reflected (absorbAll g n r chunks) = dividend n r chunks %ₘ divisor g := by
  obtain ⟨q, same⟩ := dvd_absorbAll (g := g) fits small r
  have degree : (reflected (absorbAll g n r chunks)).degree < (divisor g).degree := by
    rw [degree_divisor]
    exact degree_reflected_lt _
  refine (div_modByMonic_unique q _ (divisor_monic g) ⟨?_, degree⟩).2.symm
  linear_combination add_twice (reflected (absorbAll g n r chunks)) - same

/-! ### Bursts -/

theorem isCoprime_divisor (odd : g.getMsbD 0 = true) (pos : 0 < w) : IsCoprime (divisor g) X := by
  -- the constant term is one, so the rest is a multiple of `X`
  have constant : (divisor g).coeff 0 = 1 := by
    rw [divisor, coeff_add, coeff_X_pow, coeff_reflected, odd, if_neg (Nat.ne_of_lt pos)]
    simp [bit]
  have split := X_mul_divX_add (divisor g)
  rw [constant, map_one] at split
  exact ⟨1, -divX (divisor g), by linear_combination -split⟩

/-- Messages that differ only in a window no longer than the register leave different remainders. -/
theorem absorbAll_ne {n : Nat} {chunks chunks' : List Nat} (fits : n ≤ w)
    (small : ∀ c ∈ chunks, c < 2 ^ n) (small' : ∀ c ∈ chunks', c < 2 ^ n) (r : BitVec w)
    (odd : g.getMsbD 0 = true) (pos : 0 < w) (length : chunks.length = chunks'.length)
    {before inside inside' after : List Bool} (window : inside.length ≤ w)
    (window' : inside'.length = inside.length)
    (bits : messageBits n chunks = before ++ inside ++ after)
    (bits' : messageBits n chunks' = before ++ inside' ++ after) (differ : inside ≠ inside') :
    absorbAll g n r chunks ≠ absorbAll g n r chunks' := by
  intro same
  obtain ⟨q, first⟩ := dvd_absorbAll (g := g) fits small r
  obtain ⟨q', second⟩ := dvd_absorbAll (g := g) fits small' r
  rw [dividend, bits, bitPoly_append, bitPoly_append] at first
  rw [dividend, bits', bitPoly_append, bitPoly_append, ← length, window', ← same] at second
  -- what the messages differ in, moved up, is a multiple of the divisor
  have multiple : divisor g ∣ X ^ (w + after.length) * (bitPoly inside + bitPoly inside') := by
    refine ⟨q + q', ?_⟩
    rw [pow_add]
    linear_combination first + second - add_twice (X ^ (chunks.length * n) * reflected r) -
      add_twice (reflected (absorbAll g n r chunks)) - X ^ w * add_twice (bitPoly after) -
      X ^ w * X ^ after.length * X ^ inside.length * add_twice (bitPoly before)
  have divides := (isCoprime_divisor odd pos).pow_right.dvd_of_dvd_mul_left multiple
  have degree : (bitPoly inside + bitPoly inside').degree < (divisor g).degree := by
    rw [degree_divisor]
    apply lt_of_le_of_lt (degree_add_le _ _)
    apply max_lt
    · exact lt_of_lt_of_le (degree_bitPoly_lt inside) (by exact_mod_cast window)
    · exact lt_of_lt_of_le (degree_bitPoly_lt inside') (by exact_mod_cast window' ▸ window)
  have zero : bitPoly inside + bitPoly inside' = 0 := by
    by_contra nonzero
    exact (divisor_monic g).not_dvd_of_degree_lt nonzero degree divides
  apply differ
  apply bitPoly_inj window'.symm
  linear_combination zero - add_twice (bitPoly inside')

end Register

end

end KopalniaOS.Library
