import KopalniaOS.Library.ByteMemory

/-!
# One's-complement sums of 16-bit words

Addition with end-around carry, of the words of a byte string. Such a sum is determined by the
plain sum modulo `2 ^ 16 - 1`, but for the two representations of zero: it is only zero when all
words are.
-/
namespace KopalniaOS.Library

/-- The 16-bit words of a byte string; an odd last byte is padded with zero. -/
def words (pair : UInt8 → UInt8 → Nat) : List UInt8 → List Nat
  | [] => []
  | [a] => [pair a 0]
  | a :: b :: bs => pair a b :: words pair bs

/-- The word of two bytes, low byte first. -/
def littleEndian (a b : UInt8) : Nat := a.toNat + 256 * b.toNat

/-- The word of two bytes, high byte first. -/
def bigEndian (a b : UInt8) : Nat := 256 * a.toNat + b.toNat

abbrev wordsLE : List UInt8 → List Nat := words littleEndian

abbrev wordsBE : List UInt8 → List Nat := words bigEndian

/-- Addition of 16-bit words with end-around carry. -/
def addCarry (x y : Nat) : Nat := if x + y < 2 ^ 16 then x + y else x + y - (2 ^ 16 - 1)

def onesSum (ws : List Nat) : Nat := ws.foldl addCarry 0

/-- The word a plain sum stands for. -/
def residue (s : Nat) : Nat := if s = 0 then 0 else (s - 1) % 65535 + 1

/-! ### Sums -/

theorem residue_zero : residue 0 = 0 := rfl

theorem residue_of_lt {s : Nat} (word : s < 2 ^ 16) : residue s = s := by
  unfold residue
  split <;> omega

theorem residue_lt (s : Nat) : residue s < 2 ^ 16 := by
  unfold residue
  split <;> omega

theorem residue_pos {s : Nat} (pos : 0 < s) : 0 < residue s := by
  rw [residue, if_neg (by omega)]
  exact Nat.succ_pos _

/-- Multiples of `2 ^ 16 - 1` do not count, unless there is nothing else. -/
theorem residue_add_mul {s : Nat} (pos : 0 < s) (k : Nat) : residue (s + 65535 * k) = residue s := by
  rw [residue, residue, if_neg (by omega), if_neg (by omega)]
  have shift : s + 65535 * k - 1 = s - 1 + 65535 * k := by omega
  rw [shift, Nat.add_mul_mod_self_left]

theorem exists_eq_residue (s : Nat) : ∃ k, s = residue s + 65535 * k := by
  refine ⟨(s - 1) / 65535, ?_⟩
  unfold residue
  split <;> omega

theorem addCarry_residue (s : Nat) {w : Nat} (word : w < 2 ^ 16) :
    addCarry (residue s) w = residue (s + w) := by
  unfold addCarry residue
  split <;> split <;> split <;> omega

theorem onesSum_eq {ws : List Nat} (words : ∀ w ∈ ws, w < 2 ^ 16) : onesSum ws = residue ws.sum := by
  have from_ (s : Nat) : ws.foldl addCarry (residue s) = residue (s + ws.sum) := by
    induction ws generalizing s with
    | nil => rfl
    | cons w ws ih =>
      rw [List.foldl_cons, addCarry_residue s (words w List.mem_cons_self),
        ih (fun v member => words v (List.mem_cons_of_mem w member)), List.sum_cons, Nat.add_assoc]
  have all := from_ 0
  rwa [residue_zero, Nat.zero_add] at all

/-- Folding the upper half of a sum onto the lower one. -/
theorem residue_fold (s : Nat) : residue (s % 2 ^ 16 + s / 2 ^ 16) = residue s := by
  by_cases zero : s = 0
  · subst zero
    rfl
  · have split : s = s % 2 ^ 16 + s / 2 ^ 16 + 65535 * (s / 2 ^ 16) := by omega
    conv => rhs; rw [split]
    exact (residue_add_mul (by omega) _).symm

/-- A sum and its complement add up to all ones. -/
theorem residue_add_complement (s : Nat) : residue (s + (65535 - residue s)) = 65535 := by
  obtain ⟨k, split⟩ := exists_eq_residue s
  have word := residue_lt s
  have whole : s + (65535 - residue s) = 65535 + 65535 * k := by omega
  rw [whole, residue_add_mul (by decide)]
  rfl

/-! ### The words of a byte string -/

theorem littleEndian_lt (a b : UInt8) : littleEndian a b < 2 ^ 16 := by
  have low := a.toNat_lt
  have high := b.toNat_lt
  unfold littleEndian
  omega

theorem bigEndian_lt (a b : UInt8) : bigEndian a b < 2 ^ 16 := by
  have high := a.toNat_lt
  have low := b.toNat_lt
  unfold bigEndian
  omega

section Words

variable {pair : UInt8 → UInt8 → Nat}

theorem words_lt (word : ∀ a b, pair a b < 2 ^ 16) (bs : List UInt8) :
    ∀ w ∈ words pair bs, w < 2 ^ 16 := by
  induction bs using words.induct with
  | case1 => nofun
  | case2 a =>
    intro w member
    obtain rfl := List.mem_singleton.mp member
    exact word a 0
  | case3 a b bs ih =>
    intro w member
    rcases List.mem_cons.mp member with rfl | later
    · exact word a b
    · exact ih w later

theorem words_append {xs : List UInt8} (even : xs.length % 2 = 0) (ys : List UInt8) :
    words pair (xs ++ ys) = words pair xs ++ words pair ys := by
  induction xs using words.induct with
  | case1 => rfl
  | case2 a => simp at even
  | case3 a b xs ih =>
    have rest : xs.length % 2 = 0 := by
      simp only [List.length_cons] at even
      omega
    exact congrArg (_ :: ·) (ih rest)

theorem sum_words_le (word : ∀ a b, pair a b < 2 ^ 16) (bs : List UInt8) :
    (words pair bs).sum ≤ 65535 * ((bs.length + 1) / 2) := by
  induction bs using words.induct with
  | case1 => simp [words]
  | case2 a =>
    have last := word a 0
    simp only [words, List.sum_singleton, List.length_singleton]
    omega
  | case3 a b bs ih =>
    have first := word a b
    simp only [words, List.sum_cons, List.length_cons]
    omega

end Words

theorem onesSum_wordsLE (bs : List UInt8) : onesSum (wordsLE bs) = residue (wordsLE bs).sum :=
  onesSum_eq (words_lt littleEndian_lt bs)

/-! ### The order of the bytes -/

/-- The two bytes of a word exchanged. -/
def swapBytes (w : Nat) : Nat := w % 256 * 256 + w / 256

/-- The words of both orders, up to multiples of `2 ^ 16 - 1`. -/
theorem sum_wordsBE (bs : List UInt8) :
    (∃ k, 256 * (wordsLE bs).sum = (wordsBE bs).sum + 65535 * k) ∧
      ((wordsLE bs).sum = 0 ↔ (wordsBE bs).sum = 0) := by
  induction bs using words.induct with
  | case1 => exact ⟨⟨0, rfl⟩, Iff.rfl⟩
  | case2 a =>
    simp only [wordsLE, wordsBE, words, littleEndian, bigEndian, List.sum_singleton,
      UInt8.toNat_zero]
    exact ⟨⟨0, by omega⟩, by omega⟩
  | case3 a b bs ih =>
    -- 256 times a word is the other word, and `2 ^ 16 - 1` times its high byte
    obtain ⟨⟨k, split⟩, zero⟩ := ih
    simp only [wordsLE, wordsBE, words, littleEndian, bigEndian, List.sum_cons] at split zero ⊢
    exact ⟨⟨b.toNat + k, by omega⟩, by omega⟩

theorem residue_mul_256 (s : Nat) : residue (256 * s) = swapBytes (residue s) := by
  by_cases zero : s = 0
  · subst zero
    rfl
  · obtain ⟨k, split⟩ := exists_eq_residue s
    have pos := residue_pos (Nat.pos_of_ne_zero zero)
    have word := residue_lt s
    have swapped : 256 * s = swapBytes (residue s) + 65535 * (residue s / 256 + 256 * k) := by
      unfold swapBytes
      omega
    have some : 0 < swapBytes (residue s) := by
      unfold swapBytes
      omega
    have small : swapBytes (residue s) < 2 ^ 16 := by
      unfold swapBytes
      omega
    rw [swapped, residue_add_mul some, residue_of_lt small]

/-- Summing the words in the other byte order exchanges the bytes of the sum. -/
theorem onesSum_wordsBE (bs : List UInt8) : onesSum (wordsBE bs) = swapBytes (onesSum (wordsLE bs)) := by
  rw [onesSum_eq (words_lt bigEndian_lt bs), onesSum_wordsLE bs]
  obtain ⟨⟨k, split⟩, zero⟩ := sum_wordsBE bs
  by_cases none : (wordsBE bs).sum = 0
  · rw [none, zero.mpr none]
    rfl
  · rw [← residue_mul_256, split, residue_add_mul (Nat.pos_of_ne_zero none)]

/-! ### The words of a range of memory -/

theorem wordsLE_bytes_two (m : Memory) (a : Nat) : wordsLE (m.bytes a 2) = [m.load 2 a] := by
  have two : m.bytes a 2 = [m a, m (a + 1)] := rfl
  rw [two]
  simp [wordsLE, words, littleEndian, Memory.load]

theorem wordsLE_bytes_one (m : Memory) (a : Nat) : wordsLE (m.bytes a 1) = [m.load 1 a] := by
  have one : m.bytes a 1 = [m a] := rfl
  rw [one]
  simp [wordsLE, words, littleEndian, Memory.load]

theorem wordsLE_bytes_append (m : Memory) (a : Nat) {n : Nat} (even : n % 2 = 0) (k : Nat) :
    wordsLE (m.bytes a (n + k)) = wordsLE (m.bytes a n) ++ wordsLE (m.bytes (a + n) k) := by
  rw [Memory.bytes_append, wordsLE, words_append (by simpa using even)]

/-- A word at an even offset, and the words around it. -/
theorem sum_wordsLE_bytes (m : Memory) (a : Nat) {off n : Nat} (even : off % 2 = 0)
    (inside : off + 2 ≤ n) :
    (wordsLE (m.bytes a n)).sum = (wordsLE (m.bytes a off)).sum + m.load 2 (a + off) +
      (wordsLE (m.bytes (a + (off + 2)) (n - (off + 2)))).sum := by
  obtain ⟨rest, rfl⟩ := Nat.exists_eq_add_of_le inside
  rw [wordsLE_bytes_append m a (by omega), wordsLE_bytes_append m a even, wordsLE_bytes_two,
    List.sum_append, List.sum_append, List.sum_singleton, Nat.add_sub_cancel_left]

/-- The complement of the sum, stored among the words that are summed, makes the sum all ones. -/
theorem onesSum_store_complement (m : Memory) (a : Nat) {off n : Nat} (even : off % 2 = 0)
    (inside : off + 2 ≤ n) (zero : m.load 2 (a + off) = 0) :
    onesSum (wordsLE ((m.store 2 (a + off) (65535 - onesSum (wordsLE (m.bytes a n)))).bytes a n)) =
      65535 := by
  have before := sum_wordsLE_bytes m a even inside
  rw [zero, Nat.add_zero] at before
  generalize complement : 65535 - onesSum (wordsLE (m.bytes a n)) = c
  have word : c < 256 ^ 2 := by omega
  -- the store changes one word of the sum and no other
  have front : (m.store 2 (a + off) c).bytes a off = m.bytes a off :=
    Memory.bytes_congr fun i below => Memory.store_outside _ _ _ _ _ (by omega)
  have back : (m.store 2 (a + off) c).bytes (a + (off + 2)) (n - (off + 2)) =
      m.bytes (a + (off + 2)) (n - (off + 2)) :=
    Memory.bytes_congr fun i below => Memory.store_outside _ _ _ _ _ (by omega)
  have after := sum_wordsLE_bytes (m.store 2 (a + off) c) a even inside
  rw [front, back, Memory.load_store_same m word] at after
  rw [onesSum_wordsLE] at complement
  have whole : (wordsLE ((m.store 2 (a + off) c).bytes a n)).sum =
      (wordsLE (m.bytes a n)).sum + (65535 - residue (wordsLE (m.bytes a n)).sum) := by
    omega
  rw [onesSum_wordsLE, whole, residue_add_complement]

end KopalniaOS.Library
