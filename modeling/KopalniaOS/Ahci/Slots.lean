import KopalniaOS.Ahci.Handler
import KopalniaOS.Library.BitField

/-!
# The last command slot

The field of the capabilities that tells how many slots there are holds one less than their
number, and `configure` stores it as the number. The search for a free slot and the recovery
both stop before the last slot.
-/
namespace KopalniaOS.Ahci

open Library

variable {num : Nat} {s : PortState} {i : Slot}

/-- `num_command_slots` of `capabilities` -/
def numCommandSlots : BitField := ⟨8, 5⟩

/-- The member `num_command_slots` as `configure` sets it. -/
def configuredSlots (cap : BitVec 32) : Nat := (numCommandSlots.get cap).toNat

/-- Neither active nor issued. -/
def PortState.free (s : PortState) (i : Slot) : Bool := !(s.sact i || s.issue i)

/-- `found` is the lowest free slot up to `n`, if there is one. -/
structure LowestFree (n : Nat) (s : PortState) (found : Option Slot) : Prop where
  lowest : ∀ i, found = some i →
    i.val ≤ n ∧ s.free i = true ∧ ∀ j < i, s.free j = false
  full : found = none → ∀ i : Slot, i.val ≤ n → s.free i = false

/-- What was pending in the slots up to `n` has been issued again, but for the one that failed. -/
def Reissued (n : Nat) (s t : PortState) : Prop :=
  ∀ i : Slot, i.val ≤ n → (t.issue i = true ↔ s.issue i = true ∧ i ≠ s.current)

/-! ### The search -/

theorem pairwise_slots (num : Nat) : (slots num).Pairwise (· < ·) :=
  (List.pairwise_lt_finRange 32).filter _

/-- The search gives the lowest free slot below `num`. -/
theorem lowest_of_getCommandSlot (found : getCommandSlot num s = some i) :
    i.val < num ∧ s.free i = true ∧ ∀ j < i, s.free j = false := by
  obtain ⟨free, before, after, split, busy⟩ := List.find?_eq_some_iff_append.mp found
  have inside : i ∈ slots num := by
    rw [split]
    exact List.mem_append_right _ (List.mem_cons_self ..)
  refine ⟨mem_slots.mp inside, free, fun j lower => ?_⟩
  have member : j ∈ slots num := mem_slots.mpr (Nat.lt_trans lower (mem_slots.mp inside))
  have sorted := pairwise_slots num
  rw [split] at member sorted
  -- the slots are in order, so a lower one was looked at earlier
  rcases List.mem_append.mp member with earlier | later
  · exact Bool.not_eq_true' _ |>.mp (busy j earlier)
  · rcases List.mem_cons.mp later with rfl | later
    · exact absurd lower (lt_irrefl _)
    · have higher := List.rel_of_pairwise_cons (List.pairwise_append.mp sorted).2.1 later
      exact absurd lower (lt_asymm higher)

theorem full_of_getCommandSlot (found : getCommandSlot num s = none) (inside : i.val < num) :
    s.free i = false := by
  have busy := List.find?_eq_none.mp found i (mem_slots.mpr inside)
  exact Bool.not_eq_true _ |>.mp busy

/-- The search misses a slot exactly if it is the last one and the only one that is free. -/
theorem lowestFree_iff (n : Nat) (word : n < 32) :
    LowestFree n s (getCommandSlot n s) ↔
      (∃ i : Slot, i.val < n ∧ s.free i = true) ∨ s.free ⟨n, word⟩ = false := by
  constructor
  · intro right
    cases found : getCommandSlot n s with
    | none => exact .inr (right.full found _ (Nat.le_refl n))
    | some i =>
      obtain ⟨inside, free, -⟩ := lowest_of_getCommandSlot found
      exact .inl ⟨i, inside, free⟩
  · intro enough
    refine ⟨fun i found => ?_, fun found i inside => ?_⟩
    · obtain ⟨below, free, busy⟩ := lowest_of_getCommandSlot found
      exact ⟨Nat.le_of_lt below, free, busy⟩
    · rcases Nat.lt_or_eq_of_le inside with below | last
      · exact full_of_getCommandSlot found below
      · -- none of the lower slots is free, so the last one must not be
        obtain ⟨j, below, free⟩ | busy := enough
        · rw [full_of_getCommandSlot found below] at free
          cases free
        · rwa [show i = ⟨n, word⟩ from Fin.ext last]

/-! ### The recovery -/

/-- The recovery misses a slot exactly if it is the last one. -/
theorem reissued_handled_iff (n : Nat) (word : n < 32) (fatal : fatalStatus s.status = true) :
    Reissued n s (s.handled n) ↔ (s.issue ⟨n, word⟩ = true → s.current = ⟨n, word⟩) := by
  have after : (s.handled n).issue = again n s.issue s.current := by
    unfold PortState.handled
    rw [if_pos fatal]
  unfold Reissued
  rw [after]
  -- the loop stops below `n`
  have issued (i : Slot) : again n s.issue s.current i = true ↔
      (s.issue i = true ∧ i ≠ s.current) ∧ i.val < n := by
    simp only [again, Bool.and_eq_true, decide_eq_true_eq]
    exact and_right_comm
  simp only [issued]
  constructor
  · intro all pending
    by_contra other
    have below := ((all ⟨n, word⟩ (Nat.le_refl n)).mpr ⟨pending, Ne.symm other⟩).2
    exact Nat.lt_irrefl n below
  -- only the last slot is not below `n`, and it was not pending or has failed
  · intro last i inside
    refine ⟨fun both => both.1, fun wanted => ⟨wanted, Nat.lt_of_le_of_ne inside ?_⟩⟩
    intro here
    obtain rfl : i = ⟨n, word⟩ := Fin.ext here
    exact wanted.2 (last wanted.1).symm

/-- Every run of the handler issues again what it should; without a fatal status it issues
nothing. -/
def RecoversAll (n : Nat) (num : Nat) (s : PortState) : Prop :=
  fatalStatus s.status = true →
    ∀ t, (onInterrupt num).run portHandler s = some ((), t) → Reissued n s t

theorem recoversAll_iff (n : Nat) (word : n < 32) :
    RecoversAll n n s ↔
      (fatalStatus s.status = true → s.issue ⟨n, word⟩ = true → s.current = ⟨n, word⟩) := by
  unfold RecoversAll
  refine forall_congr' fun fatal => ?_
  rw [← reissued_handled_iff n word fatal]
  constructor
  · intro every
    exact every _ run_onInterrupt
  · intro reissued t ran
    rw [run_onInterrupt] at ran
    cases ran
    exact reissued

/-- For every value of the capabilities and every state of the port: the slots up to the last one
are all searched and all recovered exactly if nothing depends on the last one. -/
theorem all_slots_used_iff (cap : BitVec 32) (s : PortState) :
    let n := (numCommandSlots.get cap).toNat
    LowestFree n s (getCommandSlot (configuredSlots cap) s) ∧ RecoversAll n (configuredSlots cap) s ↔
      ((∃ i : Slot, i.val < n ∧ s.free i = true) ∨ ∀ i : Slot, i.val = n → s.free i = false) ∧
      (fatalStatus s.status = true → ∀ i : Slot, i.val = n → s.issue i = true → s.current = i) := by
  intro n
  have word : n < 32 := (numCommandSlots.get cap).isLt
  have last (p : Slot → Prop) : (∀ i : Slot, i.val = n → p i) ↔ p ⟨n, word⟩ := by
    refine ⟨fun all => all _ rfl, fun holds i here => ?_⟩
    rwa [show i = ⟨n, word⟩ from Fin.ext here]
  rw [last, last, ← lowestFree_iff n word, ← recoversAll_iff n word]
  rfl

/-- A port on which nothing happens. -/
def idlePort : PortState where
  status _ := false
  issue _ := false
  sact _ := false
  current := 0
  busy := false
  running := true
  halted := false
  interruptFlag := true
  error _ := false
  hasErrored := false
  hasReceivedCommandData := false
  fate _ := .pending
  log := []

/-- The field is zero, so there is one slot, and it is free. -/
theorem single_slot_not_found :
    ¬∀ (cap : BitVec 32) (s : PortState),
      LowestFree (numCommandSlots.get cap).toNat s (getCommandSlot (configuredSlots cap) s) ∧
        RecoversAll (numCommandSlots.get cap).toNat (configuredSlots cap) s := by
  intro all
  have nothing : getCommandSlot (configuredSlots 0) idlePort = none := by decide
  have busy := (all 0 idlePort).1.full nothing 0 (Nat.zero_le _)
  cases busy

end KopalniaOS.Ahci
