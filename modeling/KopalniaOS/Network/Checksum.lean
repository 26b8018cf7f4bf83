import KopalniaOS.Library.OnesComplement
import KopalniaOS.Library.Word
import KopalniaOS.Network.Responder

/-!
# The Internet checksum

`checksum` adds the 16-bit words as the machine reads them, and folds the carries at the end. That
is the one's-complement sum, and the order of the bytes in a word only exchanges the bytes of it.
-/
namespace KopalniaOS.Network

open Library

/-- Folding goes on until the sum is a word, and keeps what it stands for. -/
theorem foldSum_eq (sum : Nat) : foldSum sum = residue sum := by
  induction sum using foldSum.induct with
  | case1 sum word =>
    rw [foldSum, if_pos word, residue_of_lt (by omega)]
  | case2 sum carry ih =>
    rw [foldSum, if_neg carry, ih, residue_fold]

/-- The loop adds the words up; two bytes a turn. -/
theorem sumWords_eq (m : Memory) (ptr n sum : Nat)
    (fits : sum + (wordsLE (m.bytes ptr n)).sum < 2 ^ 32) :
    sumWords m ptr n sum = sum + (wordsLE (m.bytes ptr n)).sum := by
  induction n using Nat.twoStepInduction generalizing ptr sum with
  | zero =>
    rw [sumWords, if_neg (by decide), if_neg (by decide)]
    rfl
  | one =>
    rw [wordsLE_bytes_one, List.sum_singleton] at fits ⊢
    rw [sumWords, if_neg (by decide), if_pos (by decide), Nat.mod_eq_of_lt fits]
  | more n ih =>
    have split : (wordsLE (m.bytes ptr (n + 2))).sum =
        m.load 2 ptr + (wordsLE (m.bytes (ptr + 2) n)).sum := by
      rw [Nat.add_comm n 2, wordsLE_bytes_append m ptr (by decide), wordsLE_bytes_two,
        List.sum_append, List.sum_singleton]
    -- the counter is an `int` that goes down by two
    have rest : ((n + 2 : Nat) : Int) - 2 = n := by omega
    rw [split] at fits ⊢
    rw [sumWords, if_pos (by omega), Nat.mod_eq_of_lt (by omega), rest, ih _ _ (by omega)]
    omega

/-- The accumulator holds the words of any buffer whose length is a 16-bit number. -/
theorem sum_wordsLE_lt (m : Memory) (data : Nat) {len : Nat} (small : len ≤ 65535) :
    (wordsLE (m.bytes data len)).sum < 2 ^ 32 := by
  have bound : (wordsLE (m.bytes data len)).sum ≤ _ := sum_words_le littleEndian_lt _
  rw [Memory.length_bytes] at bound
  omega

theorem checksumOf_eq (m : Memory) (data : Nat) {len : Nat} (small : len ≤ 65535) :
    checksumOf m data len = 65535 - onesSum (wordsLE (m.bytes data len)) := by
  have fits := sum_wordsLE_lt m data small
  rw [checksumOf, sumWords_eq m data len 0 (by omega), foldSum_eq, Nat.zero_add, onesSum_wordsLE]
  have word := residue_lt (wordsLE (m.bytes data len)).sum
  omega

/-- A checksum in its field, which was zero, makes the sum all ones. -/
theorem onesSum_store_checksumOf (m : Memory) (data : Nat) {off len : Nat} (small : len ≤ 65535)
    (even : off % 2 = 0) (inside : off + 2 ≤ len) (zero : m.load 2 (data + off) = 0) :
    onesSum (wordsLE ((m.store 2 (data + off) (checksumOf m data len)).bytes data len)) = 65535 := by
  rw [checksumOf_eq m data small]
  exact onesSum_store_complement m data even inside zero

theorem bswap16_eq {x : Nat} (word : x < 2 ^ 16) : bswap16 x = swapBytes x := by
  have joined : x <<< 8 ||| x >>> 8 = x * 2 ^ 8 + x / 2 ^ 8 := by
    rw [Nat.shiftLeft_eq, Nat.shiftRight_eq_div_pow]
    exact or_eq_add (k := 8) (Nat.mul_mod_left x (2 ^ 8)) (by omega)
  rw [bswap16, joined, swapBytes]
  omega

/-- The loop adds without overflow, what it gives is the complement of the one's-complement sum of
the words, in the other byte order the same with its bytes exchanged, and stored in a field that was
zero it makes the checksum zero. -/
theorem checksum_complement (st : NetState) (b : Buffer) (data len : Nat) (small : len ≤ 65535) :
    (wordsLE ((st.mem b).bytes data len)).sum < 2 ^ 32 ∧
      (checksumLoop b data len 0).run netHandler st =
        some ((wordsLE ((st.mem b).bytes data len)).sum, st) ∧
      ∃ sum, (checksum b data len).run netHandler st = some (sum, st) ∧
        sum = 65535 - onesSum (wordsLE ((st.mem b).bytes data len)) ∧
        65535 - onesSum (wordsBE ((st.mem b).bytes data len)) = bswap16 sum ∧
        ∀ off, off % 2 = 0 → off + 2 ≤ len → (st.mem b).load 2 (data + off) = 0 →
          (checksum b data len).run netHandler (st.write b 2 (data + off) sum) =
            some (0, st.write b 2 (data + off) sum) := by
  have fits := sum_wordsLE_lt (st.mem b) data small
  have value := checksumOf_eq (st.mem b) data small
  refine ⟨fits, ?_, _, run_checksum st b data len, value, ?_, fun off even inside zero => ?_⟩
  · rw [run_checksumLoop b data len 0 (len : Int).toNat (Nat.le_refl _),
      sumWords_eq _ _ _ _ (by omega), Nat.zero_add]
  -- in the other byte order the sum has its two bytes swapped
  · have word : onesSum (wordsLE ((st.mem b).bytes data len)) < 2 ^ 16 := by
      rw [onesSum_wordsLE]
      exact residue_lt _
    rw [value, bswap16_eq (by omega), onesSum_wordsBE, swapBytes, swapBytes]
    omega
  · rw [run_checksum, mem_write, checksumOf_eq _ _ small,
      onesSum_store_checksumOf _ _ small even inside zero]

/-- Three bytes, of which the first two are the field. -/
def threeBytes : NetState where
  mem _ i := if i = 2 then 0xAB else 0
  sent := []

theorem checksum_complement_threeBytes : (threeBytes.mem .received).load 2 (0 + 0) = 0 ∧
    ∃ sum, (checksum .received 0 3).run netHandler threeBytes = some (sum, threeBytes) ∧
      sum = 65535 - onesSum (wordsLE ((threeBytes.mem .received).bytes 0 3)) ∧
      (checksum .received 0 3).run netHandler (threeBytes.write .received 2 (0 + 0) sum) =
        some (0, threeBytes.write .received 2 (0 + 0) sum) := by
  have zero : (threeBytes.mem .received).load 2 (0 + 0) = 0 := by decide
  obtain ⟨-, -, sum, ran, value, -, stored⟩ := checksum_complement threeBytes .received 0 3 (by decide)
  exact ⟨zero, sum, ran, value, stored 0 rfl (by decide) zero⟩

end KopalniaOS.Network
