import KopalniaOS.Library.Program
import Mathlib.Logic.Function.Basic

/-!
# Byte-addressed memory

Little-endian loads and stores of any width, and the two facts every later proof
uses: a load sees the store at its own address, and does not see a store that
does not overlap it.
-/
namespace KopalniaOS.Library

abbrev Memory := Nat → UInt8

namespace Memory

def load (m : Memory) : Nat → Nat → Nat
  | 0, _ => 0
  | w + 1, a => (m a).toNat + 256 * load m w (a + 1)

def store (m : Memory) : Nat → Nat → Nat → Memory
  | 0, _, _ => m
  | w + 1, a, v => store (Function.update m a (UInt8.ofNat v)) w (a + 1) (v / 256)

theorem load_one (m : Memory) (a : Nat) : m.load 1 a = (m a).toNat := by
  simp [load]

/-- A load depends on the bytes it covers only. -/
theorem load_congr {m m' : Memory} (w a : Nat)
    (same : ∀ x, a ≤ x → x < a + w → m' x = m x) : m'.load w a = m.load w a := by
  induction w generalizing a with
  | zero => rfl
  | succ w ih =>
    simp only [load]
    rw [same a (Nat.le_refl a) (by omega),
      ih (a + 1) (fun x lower upper => same x (by omega) (by omega))]

/-- The same bytes at another place. -/
theorem load_shift {m m' : Memory} (w a b : Nat) (same : ∀ i < w, m' (a + i) = m (b + i)) :
    m'.load w a = m.load w b := by
  induction w generalizing a b with
  | zero => rfl
  | succ w ih =>
    have first := same 0 (Nat.succ_pos w)
    rw [Nat.add_zero, Nat.add_zero] at first
    rw [load, load, first, ih (a + 1) (b + 1) fun i inside => ?_]
    have next := same (i + 1) (by omega)
    rwa [Nat.add_comm i 1, ← Nat.add_assoc, ← Nat.add_assoc] at next

theorem load_zero (m : Memory) (w a : Nat) (zero : ∀ x, a ≤ x → x < a + w → m x = 0) :
    m.load w a = 0 := by
  induction w generalizing a with
  | zero => rfl
  | succ w ih =>
    rw [load, zero a (Nat.le_refl a) (by omega),
      ih (a + 1) fun x lower upper => zero x (by omega) (by omega)]
    rfl

theorem load_lt (m : Memory) (w a : Nat) : m.load w a < 256 ^ w := by
  induction w generalizing a with
  | zero => exact Nat.one_pos
  | succ w ih =>
    have low := (m a).toNat_lt
    have high := ih (a + 1)
    rw [load, Nat.pow_succ]
    omega

/-- A store changes nothing outside its range. -/
theorem store_outside (m : Memory) (w a v x : Nat) (outside : x < a ∨ a + w ≤ x) :
    m.store w a v x = m x := by
  induction w generalizing m a v with
  | zero => rfl
  | succ w ih =>
    rw [store, ih _ _ _ (by omega), Function.update_of_ne (by omega)]

theorem load_store (m : Memory) (w a v : Nat) : (m.store w a v).load w a = v % 256 ^ w := by
  induction w generalizing m a v with
  | zero => simp [load, Nat.mod_one]
  | succ w ih =>
    -- the low byte goes to `a`, and the rest of the store does not reach it
    rw [load, store, ih, store_outside _ _ _ _ _ (by omega), Function.update_self,
      UInt8.toNat_ofNat', Nat.pow_succ 256 w, Nat.mul_comm (256 ^ w) 256, Nat.mod_mul]

/-- A store in two parts, the low bytes first. -/
theorem store_append (m : Memory) (w w' a v : Nat) :
    m.store (w + w') a v = (m.store w a v).store w' (a + w) (v / 256 ^ w) := by
  induction w generalizing m a v with
  | zero => simp [store]
  | succ w ih =>
    rw [Nat.add_right_comm w 1 w', store, store, ih, Nat.div_div_eq_div_mul, Nat.pow_succ',
      Nat.add_right_comm a 1 w]
    rfl

/-- Two memories that agree where a store does not reach agree after it. -/
theorem store_congr {m m' : Memory} (w a v : Nat) {x : Nat}
    (same : x < a ∨ a + w ≤ x → m x = m' x) : m.store w a v x = m'.store w a v x := by
  induction w generalizing m m' a v with
  | zero => exact same (by omega)
  | succ w ih =>
    apply ih
    intro outside
    by_cases here : x = a
    · rw [here, Function.update_self, Function.update_self]
    · rw [Function.update_of_ne here, Function.update_of_ne here]
      exact same (by omega)

/-- Storing what was loaded elsewhere copies it byte by byte. -/
theorem store_load (m m' : Memory) (w a b : Nat) {i : Nat} (inside : i < w) :
    m'.store w a (m.load w b) (a + i) = m (b + i) := by
  induction w generalizing m' a b i with
  | zero => cases inside
  | succ w ih =>
    -- a number is its lowest byte and what is above it
    have low : (m.load (w + 1) b) / 256 = m.load w (b + 1) := by
      rw [load]
      have := (m b).toNat_lt
      omega
    rw [store, low]
    cases i with
    | zero =>
      rw [store_outside _ _ _ _ _ (by omega), Nat.add_zero a, Nat.add_zero b, Function.update_self, load]
      apply UInt8.toNat_inj.mp
      rw [UInt8.toNat_ofNat', Nat.add_mul_mod_self_left]
      exact Nat.mod_eq_of_lt (m b).toNat_lt
    | succ i =>
      rw [Nat.add_comm i 1, ← Nat.add_assoc, ← Nat.add_assoc]
      exact ih _ _ _ (by omega)

/-- `m` with `n` bytes of `src` from `b` on placed at `a`. -/
def copyFrom (m src : Memory) (a b n : Nat) : Memory :=
  fun x => if a ≤ x ∧ x < a + n then src (b + (x - a)) else m x

@[simp] theorem copyFrom_zero (m src : Memory) (a b : Nat) : m.copyFrom src a b 0 = m := by
  funext x
  exact if_neg (by omega)

theorem copyFrom_inside (m src : Memory) {a b n i : Nat} (inside : i < n) :
    m.copyFrom src a b n (a + i) = src (b + i) := by
  rw [copyFrom, if_pos (by omega), Nat.add_sub_cancel_left]

theorem copyFrom_outside (m src : Memory) {a b n x : Nat} (outside : x < a ∨ a + n ≤ x) :
    m.copyFrom src a b n x = m x :=
  if_neg (by omega)

theorem store_load_eq (m src : Memory) (w a b : Nat) :
    m.store w a (src.load w b) = m.copyFrom src a b w := by
  funext x
  by_cases inside : a ≤ x ∧ x < a + w
  · obtain ⟨i, rfl⟩ := Nat.exists_eq_add_of_le inside.1
    rw [store_load _ _ _ _ _ (by omega), copyFrom_inside _ _ (by omega)]
  · rw [store_outside _ _ _ _ _ (by omega), copyFrom_outside _ _ (by omega)]

theorem load_copyFrom_disjoint (m src : Memory) {a b n w c : Nat} (disjoint : c + w ≤ a ∨ a + n ≤ c) :
    (m.copyFrom src a b n).load w c = m.load w c :=
  load_congr _ _ fun x _ _ => copyFrom_outside m src (by omega)

/-- A copy depends on the bytes it copies only. -/
theorem copyFrom_congr (m : Memory) {src src' : Memory} {a b n : Nat}
    (same : ∀ i < n, src (b + i) = src' (b + i)) : m.copyFrom src a b n = m.copyFrom src' a b n := by
  funext x
  unfold copyFrom
  split
  · exact same (x - a) (by omega)
  · rfl

/-- Copying goes on where it stopped. -/
theorem copyFrom_append (m src : Memory) (a b n k : Nat) :
    (m.copyFrom src a b n).copyFrom src (a + n) (b + n) k = m.copyFrom src a b (n + k) := by
  funext x
  by_cases later : a + n ≤ x ∧ x < a + n + k
  · obtain ⟨i, rfl⟩ := Nat.exists_eq_add_of_le later.1
    rw [copyFrom_inside _ _ (by omega), Nat.add_assoc a n i, copyFrom_inside _ _ (by omega),
      Nat.add_assoc]
  · rw [copyFrom_outside _ _ (by omega)]
    unfold copyFrom
    by_cases earlier : a ≤ x ∧ x < a + n
    · rw [if_pos earlier, if_pos (by omega)]
    · rw [if_neg earlier, if_neg (by omega)]

/-- The bytes in front of what was copied. -/
theorem copyFrom_prepend (m src : Memory) (a b n k : Nat) :
    (m.copyFrom src (a + k) (b + k) n).copyFrom src a b k = m.copyFrom src a b (k + n) := by
  funext x
  by_cases first : a ≤ x ∧ x < a + k
  · obtain ⟨i, rfl⟩ := Nat.exists_eq_add_of_le first.1
    rw [copyFrom_inside _ _ (by omega), copyFrom_inside _ _ (by omega)]
  · rw [copyFrom_outside _ _ (by omega)]
    by_cases later : a + k ≤ x ∧ x < a + k + n
    · obtain ⟨i, rfl⟩ := Nat.exists_eq_add_of_le later.1
      rw [copyFrom_inside _ _ (by omega), Nat.add_assoc a k i, copyFrom_inside _ _ (by omega),
        Nat.add_assoc]
    · rw [copyFrom_outside _ _ (by omega), copyFrom_outside _ _ (by omega)]

theorem load_store_same (m : Memory) {w a v : Nat} (fits : v < 256 ^ w) :
    (m.store w a v).load w a = v := by
  rw [load_store, Nat.mod_eq_of_lt fits]

theorem load_store_disjoint (m : Memory) {w a v w' b : Nat} (disjoint : b + w' ≤ a ∨ a + w ≤ b) :
    (m.store w a v).load w' b = m.load w' b :=
  load_congr _ _ fun x _ _ => store_outside m w a v x (by omega)

/-- The `n` bytes from `a` on. -/
def bytes (m : Memory) (a n : Nat) : List UInt8 := (List.range n).map fun i => m (a + i)

@[simp] theorem length_bytes (m : Memory) (a n : Nat) : (m.bytes a n).length = n := by
  simp [bytes]

theorem bytes_congr {m m' : Memory} {a b n : Nat} (same : ∀ i < n, m' (a + i) = m (b + i)) :
    m'.bytes a n = m.bytes b n :=
  List.map_congr_left fun i inside => same i (List.mem_range.mp inside)

theorem bytes_append (m : Memory) (a n k : Nat) :
    m.bytes a (n + k) = m.bytes a n ++ m.bytes (a + n) k := by
  simp [bytes, List.range_add, Nat.add_assoc]

/-- The low bytes of a number, the lowest first. -/
def lowBytes : Nat → Nat → List UInt8
  | 0, _ => []
  | w + 1, v => UInt8.ofNat v :: lowBytes w (v / 256)

theorem bytes_copyFrom (m src : Memory) (a b n : Nat) :
    (m.copyFrom src a b n).bytes a n = src.bytes b n :=
  bytes_congr fun _ inside => copyFrom_inside m src inside

theorem bytes_copyFrom_disjoint (m src : Memory) {a b n c k : Nat}
    (disjoint : c + k ≤ a ∨ a + n ≤ c) : (m.copyFrom src a b n).bytes c k = m.bytes c k :=
  bytes_congr fun _ _ => copyFrom_outside m src (by omega)

end Memory

/-! ### Memory operations -/

inductive MemOp where
  | load (width addr : Nat)
  | store (width addr value : Nat)

abbrev MemOp.Answer : MemOp → Type
  | .load .. => Nat
  | .store .. => Unit

/-- A program over memory alone. -/
abbrev MemProgram := Program MemOp MemOp.Answer

def memHandler : Handler MemOp MemOp.Answer Memory
  | .load w a, m => some (m.load w a, m)
  | .store w a v, m => some ((), m.store w a v)

@[simp] theorem memHandler_load (m : Memory) (w a : Nat) :
    memHandler (.load w a) m = some (m.load w a, m) := rfl

@[simp] theorem memHandler_store (m : Memory) (w a v : Nat) :
    memHandler (.store w a v) m = some ((), m.store w a v) := rfl

/-- Read `w` bytes at `a`. -/
def loadBytes (w a : Nat) : MemProgram Nat := Program.perform (MemOp.load w a)

/-- Write the low `w` bytes of `v` at `a`. -/
def storeBytes (w a v : Nat) : MemProgram Unit := Program.perform (MemOp.store w a v)

@[simp] theorem run_storeBytes (w a v : Nat) (m : Memory) :
    (storeBytes w a v).run memHandler m = some ((), m.store w a v) := rfl

end KopalniaOS.Library
