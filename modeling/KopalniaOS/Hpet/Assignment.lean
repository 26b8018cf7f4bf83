import KopalniaOS.Hpet.Model
import KopalniaOS.Library.FirstFit

/-!
# Which timer gets which line

The driver assigns lines first fit, by the bits that its view of the registers calls the supported
vectors.
-/
namespace KopalniaOS.Hpet

open Library

variable {ι : Type} {timerHandler : ι} {registers : Nat → BitVec 64} {table : HandlerTable ι}
  {s : State ι} {config : BitVec 64} {num n i k vector : Nat}

/-- The bit of timer `k` that the driver takes for line `i`. -/
def offers (registers : Nat → BitVec 64) (k i : Nat) : Bool :=
  (registers (timerRegister k)).getLsbD (17 + i)

/-- The lines of the first `n` timers. -/
abbrev lines (registers : Nat → BitVec 64) (n : Nat) : List (Option Nat) :=
  firstFit (offers registers) 30 n

/-! ### Installing a handler -/

/-- Only the row of the line can change. -/
theorem installHandler_other (handler : Option ι) (t : HandlerTable ι) (other : vector ≠ i + 32) :
    (installHandler handler i t).handlers vector = t.handlers vector ∧
      (installHandler handler i t).count vector = t.count vector := by
  rw [installHandler]
  split
  · exact ⟨rfl, rfl⟩
  · split
    · exact ⟨rfl, rfl⟩
    · dsimp only
      split
      · exact ⟨rfl, rfl⟩
      · simp only [Function.update_of_ne other]
        split <;> exact ⟨rfl, rfl⟩

/-- A handler is in its row if it was before, or if there was room in the row of a line below 24. -/
theorem registered_installHandler (t : HandlerTable ι) :
    Registered timerHandler (i + 32) (installHandler (some timerHandler) i t) ↔
      Registered timerHandler (i + 32) t ∨ i < 24 ∧ t.count (i + 32) < 4 := by
  rw [installHandler, if_neg (by simp)]
  by_cases low : 24 ≤ i
  · simp [low, Nat.not_lt.mpr low]
  · by_cases full : 4 ≤ t.count (i + 32)
    · simp [low, full, Nat.not_lt.mpr full]
    · have added : i < 24 ∧ t.count (i + 32) < 4 := ⟨Nat.lt_of_not_le low, Nat.lt_of_not_le full⟩
      rw [if_neg low]
      dsimp only
      rw [if_neg full]
      refine iff_of_true ⟨t.count (i + 32), ?_, ?_⟩ (.inr added)
      · split <;> simp
      · split <;> simp

/-! ### One timer -/

/-- None of the bits that are set beforehand is one of the vectors. -/
theorem supported_prepare (config : BitVec 64) (inside : i < 32) :
    (supported (prepare config)).getLsbD i = config.getLsbD (17 + i) := by
  have same : supported (prepare config) = supported config := by
    unfold supported prepare
    rw [BitField.get_set_of_disjoint (by decide), BitField.get_set_of_disjoint (by decide),
      BitField.get_set_of_disjoint (by decide), BitField.get_set_of_disjoint (by decide),
      BitField.get_set_of_disjoint (by decide)]
  have bit : (supported config).getLsbD i = (decide (i < 32) && config.getLsbD (17 + i)) :=
    BitField.getLsbD_get supportedInterruptVectors config i
  rw [same, bit, decide_eq_true inside, Bool.true_and]

/-- The state when the loop has found a line. -/
def taken (timerHandler : ι) (num i : Nat) (s : State ι) : State ι :=
  { s with
    usedVectors := s.usedVectors ||| 1#32 <<< i
    timers := Function.update s.timers num { s.timers num with vec := i }
    table := installHandler (some timerHandler) i s.table }

/-- A line that the loop takes. -/
def available (config : BitVec 64) (s : State ι) (i : Nat) : Bool :=
  (supported config).getLsbD i && !s.usedVectors.getLsbD i

theorem selectVector_eq (timerHandler : ι) (num : Nat) (config : BitVec 64) (s : State ι) (left i : Nat)
    (inside : i + left ≤ 32) :
    selectVector timerHandler num left i config s =
      match (List.range' i left).find? (available config s) with
      | none => (config, s)
      | some i => (ioapicRoute.set config i, taken timerHandler num i s) := by
  induction left generalizing i with
  | zero => rfl
  | succ left ih =>
    have word : i < 32 := by omega
    have condition : (supported config &&& 1#32 <<< i ≠ 0#32 ∧
        s.usedVectors &&& 1#32 <<< i = 0#32) ↔ available config s i = true := by
      have free : s.usedVectors &&& 1#32 <<< i = 0#32 ↔ ¬s.usedVectors.getLsbD i = true := by
        rw [← and_bit_ne_zero word, Classical.not_not]
      rw [and_bit_ne_zero word, free]
      simp [available]
    -- the loop breaks at the first line that is available
    rw [selectVector, List.range'_succ, List.find?_cons]
    by_cases here : available config s i = true
    · rw [if_pos (condition.mpr here), here]
      rfl
    · rw [if_neg (condition.not.mpr here), Bool.eq_false_iff.mpr here]
      exact ih (i + 1) (by omega)

/-- What `timer::init` does. -/
theorem initTimer_eq (unset : s.timers num = .unset) :
    initTimer timerHandler num s =
      match (List.range 30).find? (available (prepare (s.registers (timerRegister num))) s) with
      | none => { s with timers := Function.update s.timers num ⟨0xFF, num, false⟩ }
      | some i => { s with
          registers := Function.update s.registers (timerRegister num)
            (ioapicRoute.set (prepare (s.registers (timerRegister num))) i)
          usedVectors := s.usedVectors ||| 1#32 <<< i
          timers := Function.update s.timers num ⟨i, num, true⟩
          table := installHandler (some timerHandler) i s.table } := by
  have same : available (prepare (s.registers (timerRegister num)))
      { s with timers := Function.update s.timers num { s.timers num with timerNum := num } } =
        available (prepare (s.registers (timerRegister num))) s := rfl
  rw [initTimer]
  dsimp only
  rw [selectVector_eq _ _ _ _ 30 0 (by decide), same, ← List.range_eq_range']
  cases found : (List.range 30).find? (available (prepare (s.registers (timerRegister num))) s) with
  | none => simp [unset, Timer.unset]
  | some i =>
    have inside := List.mem_range.mp (List.mem_of_find?_eq_some found)
    -- a line is never taken for the mark of a timer without one
    have other : i ≠ 0xFF := by omega
    simp [taken, unset, Timer.unset, other, State.write]

end KopalniaOS.Hpet
