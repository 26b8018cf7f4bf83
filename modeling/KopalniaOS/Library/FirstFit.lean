import Mathlib.Data.List.Basic

/-!
# First fit

Numbered parties come one after the other, and each gets the first slot that it can use and that no
party before it got.
-/
namespace KopalniaOS.Library

variable (usable : Nat → Nat → Bool) (slots : Nat)

/-- What the first `n` parties get. -/
def firstFit : Nat → List (Option Nat)
  | 0 => []
  | n + 1 =>
    firstFit n ++ [(List.range slots).find? fun i => usable n i && !(firstFit n).contains (some i)]

theorem length_firstFit (n : Nat) : (firstFit usable slots n).length = n := by
  induction n with
  | zero => rfl
  | succ n ih => simp [firstFit, ih]

variable {usable slots} {n k i : Nat}

/-- The slot of the next party. -/
theorem firstFit_last (n : Nat) :
    (firstFit usable slots (n + 1))[n]? = some ((List.range slots).find? fun i =>
      usable n i && !(firstFit usable slots n).contains (some i)) := by
  rw [firstFit, List.getElem?_append_right (Nat.le_of_eq (length_firstFit ..)), length_firstFit,
    Nat.sub_self]
  rfl

/-- Later parties change nothing. -/
theorem firstFit_earlier (before : k < n) :
    (firstFit usable slots (n + 1))[k]? = (firstFit usable slots n)[k]? := by
  rw [firstFit, List.getElem?_append_left]
  rwa [length_firstFit]

theorem firstFit_known {slot : Option Nat} (got : (firstFit usable slots n)[k]? = some slot) :
    k < n := by
  have inside := (List.getElem?_eq_some_iff.mp got).1
  rwa [length_firstFit] at inside

theorem firstFit_other (other : k ≠ n) :
    (firstFit usable slots (n + 1))[k]? = (firstFit usable slots n)[k]? := by
  rcases Nat.lt_or_gt_of_ne other with before | later
  · exact firstFit_earlier before
  · have length : ∀ n ≤ k, (firstFit usable slots n).length ≤ k := fun n le => by
      rwa [length_firstFit]
    rw [List.getElem?_eq_none (length (n + 1) later),
      List.getElem?_eq_none (length n (Nat.le_of_lt later))]

/-- A slot that the next party gets. -/
theorem firstFit_new (got : (firstFit usable slots (n + 1))[n]? = some (some i)) :
    i < slots ∧ usable n i = true ∧ some i ∉ firstFit usable slots n := by
  rw [firstFit_last, Option.some.injEq] at got
  have inside := List.mem_range.mp (List.mem_of_find?_eq_some got)
  have free := List.find?_some got
  simp only [Bool.and_eq_true, Bool.not_eq_true', List.contains_eq_mem, decide_eq_false_iff_not]
    at free
  exact ⟨inside, free⟩

/-- What a party gets it can use, and nobody else gets it. -/
theorem firstFit_spec (got : (firstFit usable slots n)[k]? = some (some i)) :
    i < slots ∧ usable k i = true ∧
      ∀ j, (firstFit usable slots n)[j]? = some (some i) → j = k := by
  induction n generalizing k with
  | zero => simp [firstFit] at got
  | succ n ih =>
    -- a user before the last one keeps its slot, and the last one takes a free slot
    rcases Nat.lt_succ_iff_lt_or_eq.mp (firstFit_known got) with before | rfl
    · rw [firstFit_earlier before] at got
      obtain ⟨inside, use, only⟩ := ih got
      refine ⟨inside, use, fun j found => ?_⟩
      rcases Nat.lt_succ_iff_lt_or_eq.mp (firstFit_known found) with earlier | rfl
      · exact only j (firstFit_earlier earlier ▸ found)
      · exact ((firstFit_new found).2.2 (List.mem_of_getElem? got)).elim
    · obtain ⟨inside, use, free⟩ := firstFit_new got
      refine ⟨inside, use, fun j found => ?_⟩
      rcases Nat.lt_succ_iff_lt_or_eq.mp (firstFit_known found) with earlier | rfl
      · rw [firstFit_earlier earlier] at found
        exact (free (List.mem_of_getElem? found)).elim
      · rfl

theorem mem_firstFit_succ (n i : Nat) :
    some i ∈ firstFit usable slots (n + 1) ↔
      some i ∈ firstFit usable slots n ∨ (firstFit usable slots (n + 1))[n]? = some (some i) := by
  rw [firstFit_last, firstFit, List.mem_append, List.mem_singleton, Option.some.injEq]
  exact or_congr Iff.rfl eq_comm

end KopalniaOS.Library
