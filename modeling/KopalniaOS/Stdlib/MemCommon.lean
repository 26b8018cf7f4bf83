import KopalniaOS.Library.ByteMemory

/-!
# `mem_common.cpp`

`memcpy` goes forward, in words of eight bytes as long as more than one is left. That is right for
objects that do not overlap, and for overlapping ones when the destination is the lower one.
`memmove` chooses its direction and is right for all. Sizes and addresses are such that no sum wraps.
-/
namespace KopalniaOS.Stdlib

open Library

/-- The loop over words; it gives its index. -/
def memcpyWords (dst src size i : Nat) : MemProgram Nat :=
  if i + 8 < size then do
    let word ← loadBytes 8 (src + i)
    storeBytes 8 (dst + i) word
    memcpyWords dst src size (i + 8)
  else pure i
termination_by size - i

def memcpyBytes (dst src size i : Nat) : MemProgram Unit :=
  if i < size then do
    let byte ← loadBytes 1 (src + i)
    storeBytes 1 (dst + i) byte
    memcpyBytes dst src size (i + 1)
  else pure ()
termination_by size - i

def memcpy (dst src size : Nat) : MemProgram Unit := do
  let i ← memcpyWords dst src size 0
  memcpyBytes dst src size i

/-- The loop from the last byte down. -/
def memmoveDown (dst src : Nat) : (i : Nat) → MemProgram Unit
  | 0 => pure ()
  | i + 1 => do
    let byte ← loadBytes 1 (src + i)
    storeBytes 1 (dst + i) byte
    memmoveDown dst src i

/-- The loop upwards is the one over bytes of `memcpy`. -/
def memmove (dst src size : Nat) : MemProgram Unit :=
  if dst < src then memcpyBytes dst src size 0 else memmoveDown dst src size

/-- The loop over pairs of values; it gives its index. -/
def memset32Pairs (dst value count i : Nat) : MemProgram Nat :=
  if i + 2 ≤ count then do
    storeBytes 8 (dst + 4 * i) (value <<< 32 ||| value)
    memset32Pairs dst value count (i + 2)
  else pure i
termination_by count - i

def memset32Rest (dst value count i : Nat) : MemProgram Unit :=
  if i < count then do
    storeBytes 4 (dst + 4 * i) value
    memset32Rest dst value count (i + 1)
  else pure ()
termination_by count - i

def memset32 (dst value count : Nat) : MemProgram Unit := do
  let i ← memset32Pairs dst value count 0
  memset32Rest dst value count i

/-! ### Copies -/

/-- Reads of `size` bytes at `src`, and writes of as many at `dst`. -/
def CopyRange (dst src size : Nat) : MemOp → Memory → Prop
  | .load w a, _ => src ≤ a ∧ a + w ≤ src + size
  | .store w a _, _ => dst ≤ a ∧ a + w ≤ dst + size

section Copies

variable {m : Memory} {dst src size i : Nat}

/-- A turn of either loop copies what was in the source at first. -/
theorem copy_turn (apart : dst ≤ src ∨ src + size ≤ dst) (w : Nat) (inside : i + w ≤ size) :
    (m.copyFrom m dst src i).store w (dst + i) ((m.copyFrom m dst src i).load w (src + i)) =
      m.copyFrom m dst src (i + w) := by
  rw [Memory.load_copyFrom_disjoint _ _ (by omega), Memory.store_load_eq, Memory.copyFrom_append]

theorem memcpyBytes_ensures (apart : dst ≤ src ∨ src + size ≤ dst) (left : Nat)
    (ahead : size = i + left) :
    (memcpyBytes dst src size i).Ensures memHandler (CopyRange dst src size)
      (m.copyFrom m dst src i) fun _ m' => m' = m.copyFrom m dst src size := by
  induction left generalizing i with
  | zero =>
    rw [memcpyBytes, if_neg (by omega), ahead]
    rfl
  | succ left ih =>
    rw [memcpyBytes, if_pos (by omega)]
    refine Program.ensures_perform (memHandler_load _ _ _) ⟨by omega, by omega⟩ ?_
    refine Program.ensures_perform (memHandler_store _ _ _ _) ⟨by omega, by omega⟩ ?_
    rw [copy_turn apart 1 (by omega)]
    exact ih (by omega)

theorem memcpyWords_ensures (apart : dst ≤ src ∨ src + size ≤ dst) (left : Nat)
    (enough : size - i ≤ left) (inside : i ≤ size) :
    (memcpyWords dst src size i).Ensures memHandler (CopyRange dst src size)
      (m.copyFrom m dst src i) fun j m' => j ≤ size ∧ m' = m.copyFrom m dst src j := by
  induction left generalizing i with
  | zero =>
    rw [memcpyWords, if_neg (by omega)]
    exact ⟨inside, rfl⟩
  | succ left ih =>
    rw [memcpyWords]
    -- the last word is left to the loop over bytes, also when it is complete
    split
    · refine Program.ensures_perform (memHandler_load _ _ _) ⟨by omega, by omega⟩ ?_
      refine Program.ensures_perform (memHandler_store _ _ _ _) ⟨by omega, by omega⟩ ?_
      rw [copy_turn apart 8 (by omega)]
      exact ih (by omega) (by omega)
    · exact ⟨inside, rfl⟩

theorem memcpy_ensures (m : Memory) (apart : dst ≤ src ∨ src + size ≤ dst) :
    (memcpy dst src size).Ensures memHandler (CopyRange dst src size) m
      fun _ m' => m' = m.copyFrom m dst src size := by
  have words := memcpyWords_ensures (m := m) apart size (Nat.sub_le size 0) (Nat.zero_le size)
  rw [Memory.copyFrom_zero] at words
  refine Program.ensures_bind words ?_
  rintro j m' ⟨inside, rfl⟩
  exact memcpyBytes_ensures apart (size - j) (by omega)

/-- Downwards, a byte is read before a store reaches it when the source is not the higher one. -/
theorem memmoveDown_ensures (higher : src ≤ dst) (inside : i ≤ size) :
    (memmoveDown dst src i).Ensures memHandler (CopyRange dst src size)
      (m.copyFrom m (dst + i) (src + i) (size - i)) fun _ m' => m' = m.copyFrom m dst src size := by
  induction i with
  | zero => rfl
  | succ i ih =>
    -- the copied part grows at its lower end
    have front : (m.copyFrom m (dst + (i + 1)) (src + (i + 1)) (size - (i + 1))).store 1 (dst + i)
        ((m.copyFrom m (dst + (i + 1)) (src + (i + 1)) (size - (i + 1))).load 1 (src + i)) =
        m.copyFrom m (dst + i) (src + i) (size - i) := by
      have parts : 1 + (size - (i + 1)) = size - i := by omega
      rw [Memory.load_copyFrom_disjoint _ _ (by omega), Memory.store_load_eq, ← Nat.add_assoc,
        ← Nat.add_assoc, Memory.copyFrom_prepend, parts]
    rw [memmoveDown]
    refine Program.ensures_perform (memHandler_load _ _ _) ⟨by omega, by omega⟩ ?_
    refine Program.ensures_perform (memHandler_store _ _ _ _) ⟨by omega, by omega⟩ ?_
    rw [front]
    exact ih (Nat.le_of_succ_le inside)

theorem memmove_ensures (m : Memory) (dst src size : Nat) :
    (memmove dst src size).Ensures memHandler (CopyRange dst src size) m
      fun _ m' => m' = m.copyFrom m dst src size := by
  rw [memmove]
  split
  · rename_i lower
    have up := @memcpyBytes_ensures m dst src size 0 (.inl (Nat.le_of_lt lower)) size
      (Nat.zero_add size).symm
    rwa [Memory.copyFrom_zero] at up
  · rename_i higher
    have down := memmoveDown_ensures (m := m) (Nat.le_of_not_lt higher) (Nat.le_refl size)
    rwa [Nat.sub_self, Memory.copyFrom_zero] at down

end Copies

/-! ### Fills -/

/-- Writes of `count` words at `dst`. -/
def FillRange (dst count : Nat) : MemOp → Memory → Prop
  | .load .., _ => False
  | .store w a _, _ => dst ≤ a ∧ a + w ≤ dst + 4 * count

/-- `m'` is `m` with `count` words at `dst` that have the value. -/
structure Filled (m m' : Memory) (dst value count : Nat) : Prop where
  inside : ∀ k < count, m'.load 4 (dst + 4 * k) = value
  outside : ∀ x, x < dst ∨ dst + 4 * count ≤ x → m' x = m x

section Fills

variable {m m' : Memory} {dst value count i : Nat}

theorem filled_zero (m : Memory) (dst value : Nat) : Filled m m dst value 0 :=
  ⟨fun k below => (Nat.not_lt_zero k below).elim, fun _ _ => rfl⟩

theorem Filled.next (filled : Filled m m' dst value i) {v : Nat} (low : v % 256 ^ 4 = value) :
    Filled m (m'.store 4 (dst + 4 * i) v) dst value (i + 1) := by
  constructor
  · intro k below
    rcases Nat.lt_succ_iff_lt_or_eq.mp below with before | rfl
    · rw [Memory.load_store_disjoint _ (by omega)]
      exact filled.inside k before
    · rw [Memory.load_store, low]
  · intro x outside
    rw [Memory.store_outside _ _ _ _ _ (by omega)]
    exact filled.outside x (by omega)

/-- One store of the value twice is two stores of it. -/
theorem Filled.pair (filled : Filled m m' dst value i) (word : value < 256 ^ 4) :
    Filled m (m'.store 8 (dst + 4 * i) (value <<< 32 ||| value)) dst value (i + 2) := by
  have doubled : value <<< 32 ||| value = 256 ^ 4 * value + value := by
    rw [← Nat.shiftLeft_add_eq_or_of_lt (show value < 2 ^ 32 from word), Nat.shiftLeft_eq]
    omega
  have low : (value <<< 32 ||| value) % 256 ^ 4 = value := by
    rw [doubled, Nat.mul_add_mod, Nat.mod_eq_of_lt word]
  have high : (value <<< 32 ||| value) / 256 ^ 4 % 256 ^ 4 = value := by
    rw [doubled, Nat.mul_add_div (by decide), Nat.div_eq_of_lt word, Nat.add_zero,
      Nat.mod_eq_of_lt word]
  rw [Memory.store_append m' 4 4]
  exact (filled.next low).next high

theorem memset32Rest_ensures (word : value < 256 ^ 4) (left : Nat) (ahead : count = i + left)
    (filled : Filled m m' dst value i) :
    (memset32Rest dst value count i).Ensures memHandler (FillRange dst count) m'
      fun _ m'' => Filled m m'' dst value count := by
  induction left generalizing i m' with
  | zero =>
    rw [memset32Rest, if_neg (by omega), ahead]
    exact filled
  | succ left ih =>
    rw [memset32Rest, if_pos (by omega)]
    refine Program.ensures_perform (memHandler_store _ _ _ _) ⟨by omega, by omega⟩ ?_
    exact ih (by omega) (filled.next (Nat.mod_eq_of_lt word))

theorem memset32Pairs_ensures (word : value < 256 ^ 4) (left : Nat) (enough : count - i ≤ left)
    (inside : i ≤ count) (filled : Filled m m' dst value i) :
    (memset32Pairs dst value count i).Ensures memHandler (FillRange dst count) m'
      fun j m'' => j ≤ count ∧ Filled m m'' dst value j := by
  induction left generalizing i m' with
  | zero =>
    rw [memset32Pairs, if_neg (by omega)]
    exact ⟨inside, filled⟩
  | succ left ih =>
    rw [memset32Pairs]
    split
    · refine Program.ensures_perform (memHandler_store _ _ _ _) ⟨by omega, by omega⟩ ?_
      exact ih (by omega) (by omega) (filled.pair word)
    · exact ⟨inside, filled⟩

theorem memset32_ensures (m : Memory) (dst : Nat) (word : value < 256 ^ 4) (count : Nat) :
    (memset32 dst value count).Ensures memHandler (FillRange dst count) m
      fun _ m' => Filled m m' dst value count := by
  refine Program.ensures_bind (memset32Pairs_ensures word count (Nat.sub_le count 0)
    (Nat.zero_le count) (filled_zero m dst value)) ?_
  rintro j m' ⟨inside, filled⟩
  exact memset32Rest_ensures word (count - j) (by omega) filled

end Fills

/-! ### All of them -/

/-- `m'` is `m` with `size` bytes at `dst` that were at `src`. -/
structure Copied (m m' : Memory) (dst src size : Nat) : Prop where
  inside : ∀ i < size, m' (dst + i) = m (src + i)
  outside : ∀ x, x < dst ∨ dst + size ≤ x → m' x = m x

theorem copied_copyFrom (m : Memory) (dst src size : Nat) :
    Copied m (m.copyFrom m dst src size) dst src size :=
  ⟨fun _ inside => Memory.copyFrom_inside m m inside, fun _ outside =>
    Memory.copyFrom_outside m m outside⟩

/-- `memmove` copies whatever the overlap is, `memcpy` unless the destination starts inside the
source, and `memset32` fills. They return, and access nothing but their ranges. -/
theorem memory_primitives (m : Memory) (dst src size : Nat) (value : UInt32) (count : Nat) :
    (memmove dst src size).Ensures memHandler (CopyRange dst src size) m
        (fun _ m' => Copied m m' dst src size) ∧
      (dst ≤ src ∨ src + size ≤ dst →
        (memcpy dst src size).Ensures memHandler (CopyRange dst src size) m
          fun _ m' => Copied m m' dst src size) ∧
      (memset32 dst value.toNat count).Ensures memHandler (FillRange dst count) m
        fun _ m' => Filled m m' dst value.toNat count := by
  refine ⟨?_, fun apart => ?_, memset32_ensures m dst value.toNat_lt count⟩
  · apply (memmove_ensures m dst src size).mono
    rintro _ m' rfl
    exact copied_copyFrom m dst src size
  · apply (memcpy_ensures m apart).mono
    rintro _ m' rfl
    exact copied_copyFrom m dst src size

end KopalniaOS.Stdlib
