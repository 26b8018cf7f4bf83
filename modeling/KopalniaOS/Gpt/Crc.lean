import KopalniaOS.Gpt.Bounds
import KopalniaOS.Library.BinaryRemainder

/-!
# `crc32` as a remainder

The two loops of `crc32` are the shift register of the library with the polynomial of IEEE 802.3,
eight bits at a time. Everything that is known of remainders holds of its result.
-/
namespace KopalniaOS.Gpt

open Library Polynomial

/-! ### The loops -/

/-- The constant of the inner loop, which is the polynomial with its bits in reverse. -/
def crc32Generator : BitVec 32 := 0xEDB88320#32

theorem reverse_crc32Generator : crc32Generator.reverse = 0x04C11DB7#32 := by decide +kernel

/-- The mask is all ones or all zeros. -/
theorem crc32Bit_eq (crc : BitVec 32) : crc32Bit crc = shiftOut crc32Generator crc := by
  have low : crc &&& 1#32 = if crc.getLsbD 0 then 1#32 else 0#32 := by
    rw [BitVec.and_one_eq_setWidth_ofBool_getLsbD]
    cases crc.getLsbD 0 <;> decide
  rw [crc32Bit, shiftOut, low, crc32Generator]
  cases crc.getLsbD 0 <;> rfl

theorem crc32Byte_eq (crc : BitVec 32) (byte : Nat) :
    crc32Byte crc byte = absorb crc32Generator 8 crc byte := by
  have shift : crc32Bit = shiftOut crc32Generator := funext crc32Bit_eq
  rw [crc32Byte, absorb, shift]

def chunksOf (bytes : List UInt8) : List Nat := bytes.map UInt8.toNat

theorem chunksOf_lt (bytes : List UInt8) : ∀ c ∈ chunksOf bytes, c < 2 ^ 8 := by
  intro c member
  obtain ⟨byte, -, rfl⟩ := List.mem_map.mp member
  exact byte.toNat_lt

theorem crc32Bytes_eq (crc : BitVec 32) (bytes : List UInt8) :
    crc32Bytes crc bytes = absorbAll crc32Generator 8 crc (chunksOf bytes) := by
  rw [absorbAll, chunksOf, List.foldl_map, crc32Bytes]
  simp only [crc32Byte_eq]

/-! ### The checksum of IEEE 802.3 -/

/-- The bits of the bytes, each byte from its lowest bit on. -/
def bitsOf (bytes : List UInt8) : List Bool := messageBits 8 (chunksOf bytes)

noncomputable section

/-- The polynomial 0x04C11DB7, with its leading term. -/
def ieeePolynomial : (ZMod 2)[X] := X ^ 32 + toPoly 0x04C11DB7#32

/-- 0xFFFFFFFF -/
def allOnes : (ZMod 2)[X] := toPoly 0xFFFFFFFF#32

/-- The remainder of the reflected message with its initial value, and the final exclusive or. -/
def ieeeCrc (bytes : List UInt8) : (ZMod 2)[X] :=
  (X ^ (8 * bytes.length) * allOnes + X ^ 32 * bitPoly (bitsOf bytes)) %ₘ ieeePolynomial + allOnes

theorem divisor_crc32Generator : divisor crc32Generator = ieeePolynomial := by
  rw [divisor, reflected, reverse_crc32Generator, ieeePolynomial]

theorem reflected_allOnes : reflected 0xFFFFFFFF#32 = allOnes := by
  have reversed : (0xFFFFFFFF#32).reverse = 0xFFFFFFFF#32 := by decide +kernel
  rw [reflected, reversed, allOnes]

theorem ofNat_crc32Of (bytes : List UInt8) :
    BitVec.ofNat 32 (crc32Of bytes) = crc32Bytes 0xFFFFFFFF#32 bytes ^^^ 0xFFFFFFFF#32 := by
  have ones : (0xFFFFFFFF#32) = BitVec.allOnes 32 := by decide
  rw [crc32Of, BitVec.ofNat_toNat, BitVec.setWidth_eq, ones, BitVec.xor_allOnes]

/-- What `crc32` returns, read from its highest bit down, is the checksum. -/
theorem reflected_crc32Of (bytes : List UInt8) :
    reflected (BitVec.ofNat 32 (crc32Of bytes)) = ieeeCrc bytes := by
  have remainder := reflected_absorbAll (g := crc32Generator) (n := 8) (by decide) (chunksOf_lt bytes)
    0xFFFFFFFF#32
  have length : (chunksOf bytes).length * 8 = 8 * bytes.length := by
    rw [chunksOf, List.length_map, Nat.mul_comm]
  rw [dividend, length, reflected_allOnes, divisor_crc32Generator] at remainder
  rw [ofNat_crc32Of, reflected_xor, reflected_allOnes, crc32Bytes_eq, remainder, ieeeCrc, bitsOf]

end

theorem crc32Of_lt (bytes : List UInt8) : crc32Of bytes < 2 ^ 32 := BitVec.isLt _

theorem bitsOf_injective : Function.Injective bitsOf := by
  intro bytes bytes' same
  have chunks := messageBits_inj (by decide) (chunksOf_lt bytes) (chunksOf_lt bytes') same
  exact (List.map_injective_iff.mpr fun _ _ equal => UInt8.toNat_inj.mp equal) chunks

/-- Two messages of one length whose bits differ only in a window of at most this many. -/
def DifferWithin (window : Nat) (bytes bytes' : List UInt8) : Prop :=
  bytes.length = bytes'.length ∧ bytes ≠ bytes' ∧ ∃ before inside inside' after : List Bool,
    inside.length ≤ window ∧ inside'.length = inside.length ∧
      bitsOf bytes = before ++ inside ++ after ∧ bitsOf bytes' = before ++ inside' ++ after

theorem crc32Of_ne {bytes bytes' : List UInt8} (burst : DifferWithin 32 bytes bytes') :
    crc32Of bytes ≠ crc32Of bytes' := by
  obtain ⟨length, differ, before, inside, inside', after, window, window', bits, bits'⟩ := burst
  have insides : inside ≠ inside' := by
    rintro rfl
    exact differ (bitsOf_injective (bits.trans bits'.symm))
  have chunks : (chunksOf bytes).length = (chunksOf bytes').length := by
    rw [chunksOf, chunksOf, List.length_map, List.length_map, length]
  have registers := absorbAll_ne (g := crc32Generator) (n := 8) (by decide) (chunksOf_lt bytes)
    (chunksOf_lt bytes') 0xFFFFFFFF#32 (by decide) (by decide) chunks window window' bits bits' insides
  rw [← crc32Bytes_eq, ← crc32Bytes_eq] at registers
  intro same
  apply registers
  exact BitVec.not_inj.mp (BitVec.toNat_inj.mp same)

/-- `crc32` is the checksum of IEEE 802.3, and finds every burst of at most 32 bits. -/
theorem crc32_isIeee (dev : Device) (st : GptState) (b : Buffer) (len : Nat) :
    ∃ crc, (crc32 b len).run (gptHandler dev) st = some (crc, st) ∧ crc < 2 ^ 32 ∧
      reflected (BitVec.ofNat 32 crc) = ieeeCrc (firstBytes (st.mem b) len) ∧
      ∀ st' crc', (crc32 b len).run (gptHandler dev) st' = some (crc', st') →
        DifferWithin 32 (firstBytes (st.mem b) len) (firstBytes (st'.mem b) len) → crc ≠ crc' := by
  refine ⟨_, run_crc32 b len, crc32Of_lt _, reflected_crc32Of _, ?_⟩
  intro st' crc' ran burst
  rw [run_crc32] at ran
  cases ran
  exact crc32Of_ne burst

end KopalniaOS.Gpt
