import KopalniaOS.Apic.Model
import Mathlib.Tactic.IntervalCases

/-!
# The redirection table

What the methods of `IOAPIC` do to the lines. A method names a line by an interrupt number of eight bits,
and the register of that line is cut to eight bits again.
-/
namespace KopalniaOS.Apic

open Library

variable {c c' : Chip} {a : IOAPIC} {index offset : BitVec 8} {data entry : BitVec 64}

/-! ### Entries -/

/-- What a line says, apart from what the controller reports in it. -/
structure Line where
  vector : BitVec 8
  delivery : BitVec 3
  logical : Bool
  activeLow : Bool
  level : Bool
  masked : Bool
  dest : BitVec 8
deriving DecidableEq, Repr

def Line.of (raw : BitVec 64) : Line where
  vector := entryVector.get raw
  delivery := deliveryMode.get raw
  logical := raw.getLsbD 11
  activeLow := raw.getLsbD 13
  level := raw.getLsbD 15
  masked := raw.getLsbD 16
  dest := Apic.dest.get raw

/-- The bits of a line that can be written. -/
def lineWritable : BitVec 64 := 0xFF0000000001AFFF

theorem lineWritable_eq : lineWritable = (0xFF000000 : BitVec 32) ++ (0x0001AFFF : BitVec 32) := by
  decide

theorem Line.of_congr {x y : BitVec 64}
    (same : ∀ i, lineWritable.getLsbD i = true → x.getLsbD i = y.getLsbD i) : Line.of x = Line.of y := by
  have field : ∀ f : BitField, (∀ i < f.width, lineWritable.getLsbD (f.start + i) = true) →
      f.get x = f.get y := by
    intro f writable
    refine BitVec.eq_of_getLsbD_eq fun i inside => ?_
    rw [BitField.getLsbD_get, BitField.getLsbD_get, same _ (writable i inside)]
  rw [Line.of, Line.of, field entryVector (by decide), field deliveryMode (by decide),
    field Apic.dest (by decide), same 11 (by decide), same 13 (by decide), same 15 (by decide),
    same 16 (by decide)]

/-- A field of one bit. -/
theorem getLsbD_set_bit (n value : Nat) (inside : n < 64) :
    (BitField.set ⟨n, 1⟩ entry value).getLsbD n = value.testBit 0 := by
  rw [BitField.getLsbD_set _ _ _ inside, if_pos ⟨Nat.le_refl n, Nat.lt_succ_self n⟩, Nat.sub_self]

theorem getLsbD_set_apart (f : BitField) (value : Nat) {i : Nat} (inside : i < 64)
    (apart : i < f.start ∨ f.start + f.width ≤ i) : (f.set entry value).getLsbD i = entry.getLsbD i := by
  rw [BitField.getLsbD_set _ _ _ inside, if_neg (by omega)]

theorem get_set_toNat (f : BitField) (fits : f.start + f.width ≤ 64) (value : BitVec f.width) :
    f.get (f.set entry value.toNat) = value :=
  BitVec.eq_of_toNat_eq (BitField.get_set fits value.isLt entry)

theorem testBit_toNat (b : Bool) : b.toNat.testBit 0 = b := by
  cases b <;> rfl

/-- Only the mask of a line changes. -/
theorem Line.of_setMask (value : Nat) :
    Line.of (entryMask.set entry value) = { Line.of entry with masked := value.testBit 0 } := by
  have kept : ∀ f : BitField, f.start + f.width ≤ 16 ∨ 17 ≤ f.start →
      f.get (entryMask.set entry value) = f.get entry := by
    intro f apart
    exact BitField.get_set_of_disjoint (Or.symm apart) entry value
  have bit : ∀ i < 16, (entryMask.set entry value).getLsbD i = entry.getLsbD i := by
    intro i below
    exact getLsbD_set_apart entryMask value (by omega) (.inl below)
  rw [Line.of, Line.of, kept entryVector (by decide), kept deliveryMode (by decide),
    kept Apic.dest (by decide), bit 11 (by decide), bit 13 (by decide), bit 15 (by decide), entryMask,
    getLsbD_set_bit 16 value (by decide)]

/-- The line that `route` asks for. -/
def routed (vector : BitVec 8) (delivery : DeliveryMode) (trigger : TriggerMode)
    (activeLow masked : Bool) : Line where
  vector
  delivery := BitVec.ofNat 3 delivery.value
  logical := false
  activeLow
  level := decide (trigger = .level)
  masked
  dest := 0

theorem Line.of_redirection (vector : BitVec 8) (delivery : DeliveryMode) (trigger : TriggerMode)
    (activeLow masked : Bool) :
    Line.of (redirection vector delivery trigger activeLow masked) =
      routed vector delivery trigger activeLow masked := by
  have far : ∀ {f g : BitField} {x : BitVec 64} {v : Nat},
      f.start + f.width ≤ g.start ∨ g.start + g.width ≤ f.start → g.get (f.set x v) = g.get x :=
    fun apart => BitField.get_set_of_disjoint apart _ _
  -- every field is set once, and the settings after it leave it alone
  have vectorIs : entryVector.get (redirection vector delivery trigger activeLow masked) = vector := by
    unfold redirection
    rw [far (by decide), far (by decide), far (by decide), far (by decide), far (by decide)]
    exact get_set_toNat entryVector (by decide) vector
  have deliveryIs : deliveryMode.get (redirection vector delivery trigger activeLow masked) =
      BitVec.ofNat 3 delivery.value := by
    unfold redirection
    rw [far (by decide), far (by decide), far (by decide), far (by decide)]
    apply BitVec.eq_of_toNat_eq
    rw [BitField.get_set (by decide) (by cases delivery <;> decide)]
    cases delivery <;> rfl
  have destIs : Apic.dest.get (redirection vector delivery trigger activeLow masked) = 0 := by
    apply BitVec.eq_of_toNat_eq
    unfold redirection
    rw [BitField.get_set (by decide) (by decide)]
    rfl
  have logicalIs : (redirection vector delivery trigger activeLow masked).getLsbD 11 = false := by
    unfold redirection
    iterate 6 rw [getLsbD_set_apart _ _ (by decide) (by decide)]
    exact BitVec.getLsbD_zero
  have levelIs : (redirection vector delivery trigger activeLow masked).getLsbD 15 =
      decide (trigger = .level) := by
    unfold redirection
    iterate 3 rw [getLsbD_set_apart _ _ (by decide) (by decide)]
    rw [triggerMode, getLsbD_set_bit 15 _ (by decide)]
    cases trigger <;> rfl
  have polarityIs : (redirection vector delivery trigger activeLow masked).getLsbD 13 = activeLow := by
    unfold redirection
    iterate 2 rw [getLsbD_set_apart _ _ (by decide) (by decide)]
    rw [pinPolarity, getLsbD_set_bit 13 _ (by decide), testBit_toNat]
  have maskIs : (redirection vector delivery trigger activeLow masked).getLsbD 16 = masked := by
    unfold redirection
    rw [getLsbD_set_apart _ _ (by decide) (by decide), entryMask, getLsbD_set_bit 16 _ (by decide),
      testBit_toNat]
  rw [Line.of, vectorIs, deliveryIs, destIs, logicalIs, levelIs, polarityIs, maskIs]
  rfl

/-! ### Registers -/

/-- The two registers of a line. -/
def lowOf (i : Nat) : BitVec 8 := BitVec.ofNat 8 (0x10 + 2 * i)

def highOf (i : Nat) : BitVec 8 := BitVec.ofNat 8 (0x11 + 2 * i)

def Chip.raw (c : Chip) (i : Nat) : BitVec 64 := c.registers (highOf i) ++ c.registers (lowOf i)

def Chip.line (c : Chip) (i : Nat) : Line := Line.of (c.raw i)

/-- The number that the controller goes by. -/
def Chip.identity (c : Chip) : BitVec 4 := idField.get (c.registers 0)

theorem getLsbD_identity (c : Chip) (i : Nat) :
    c.identity.getLsbD i = (decide (i < 4) && (c.registers 0).getLsbD (24 + i)) :=
  BitField.getLsbD_get idField (c.registers 0) i

theorem getLsbD_merge (old data writable : BitVec 32) (i : Nat) :
    (merge old data writable).getLsbD i =
      if writable.getLsbD i = true then data.getLsbD i else old.getLsbD i := by
  rw [merge, BitVec.getLsbD_or, BitVec.getLsbD_and, BitVec.getLsbD_and, BitVec.getLsbD_not]
  by_cases inside : i < 32
  · cases writable.getLsbD i <;> simp [inside]
  · simp [BitVec.getLsbD_of_ge _ _ (Nat.not_lt.mp inside)]

/-- `data` has been written to the register at `offset` and the next one. -/
structure Stored (c c' : Chip) (offset : BitVec 8) (data : BitVec 64) : Prop where
  lines : c'.lines = c.lines
  low : c'.registers offset = merge (c.registers offset) (data.setWidth 32) (c.writable offset)
  high : c'.registers (offset + 1) =
    merge (c.registers (offset + 1)) ((data >>> 32).setWidth 32) (c.writable (offset + 1))
  others : ∀ o, o ≠ offset → o ≠ offset + 1 → c'.registers o = c.registers o

def Chip.written (c : Chip) (offset : BitVec 8) (data : BitVec 32) : Chip where
  lines := c.lines
  select := offset
  registers := Function.update c.registers offset (merge (c.registers offset) data (c.writable offset))

theorem run_write (offset : BitVec 8) (data : BitVec 32) :
    (write offset data).run apicHandler c = some ((), c.written offset data) := rfl

theorem run_read (offset : BitVec 8) :
    (read offset).run apicHandler c = some (c.registers offset, { c with select := offset }) := rfl

theorem registers_written_self (offset : BitVec 8) (data : BitVec 32) :
    (c.written offset data).registers offset = merge (c.registers offset) data (c.writable offset) :=
  Function.update_self ..

theorem registers_written_other {o : BitVec 8} (other : o ≠ offset) (data : BitVec 32) :
    (c.written offset data).registers o = c.registers o :=
  Function.update_of_ne other ..

theorem next_ne (offset : BitVec 8) : offset + 1 ≠ offset := by
  intro same
  have zero := BitVec.add_left_eq_self.mp ((BitVec.add_comm 1 offset).trans same)
  revert zero
  decide

/-- The order of the two writes does not matter. -/
theorem stored_low_first (offset : BitVec 8) (data : BitVec 64) :
    Stored c ((c.written offset (data.setWidth 32)).written (offset + 1) ((data >>> 32).setWidth 32))
      offset data := by
  have ne := next_ne offset
  refine ⟨rfl, ?_, ?_, fun o first second => ?_⟩
  · rw [registers_written_other ne.symm, registers_written_self]
  · rw [registers_written_self, registers_written_other ne]
    rfl
  · rw [registers_written_other second, registers_written_other first]

theorem stored_high_first (offset : BitVec 8) (data : BitVec 64) :
    Stored c ((c.written (offset + 1) ((data >>> 32).setWidth 32)).written offset (data.setWidth 32))
      offset data := by
  have ne := next_ne offset
  refine ⟨rfl, ?_, ?_, fun o first second => ?_⟩
  · rw [registers_written_self, registers_written_other ne.symm]
    rfl
  · rw [registers_written_other ne, registers_written_self]
  · rw [registers_written_other first, registers_written_other second]

/-! ### Which line -/

/-- The line that a method reaches. -/
def slot (index : BitVec 8) : Nat := index.toNat % 128

theorem toNat_lineRegister (index : BitVec 8) : (lineRegister index).toNat = (0x10 + 2 * index.toNat) % 256 := by
  rw [lineRegister, BitVec.toNat_setWidth, BitVec.toNat_add, BitVec.toNat_mul, BitVec.toNat_setWidth]
  have small := index.isLt
  simp
  omega

theorem toNat_lowOf {i : Nat} (inside : i < 120) : (lowOf i).toNat = 0x10 + 2 * i := by
  rw [lowOf, BitVec.toNat_ofNat]
  omega

theorem toNat_highOf {i : Nat} (inside : i < 120) : (highOf i).toNat = 0x11 + 2 * i := by
  rw [highOf, BitVec.toNat_ofNat]
  omega

theorem highOf_eq (i : Nat) : highOf i = lowOf i + 1 := by
  apply BitVec.eq_of_toNat_eq
  rw [BitVec.toNat_add, highOf, lowOf, BitVec.toNat_ofNat, BitVec.toNat_ofNat]
  simp
  omega

theorem lowOf_eq_lineRegister {i : Nat} (inside : i < 120) : lowOf i = lineRegister index ↔ i = slot index := by
  have small := index.isLt
  rw [← BitVec.toNat_inj, toNat_lowOf inside, toNat_lineRegister, slot]
  omega

/-- The lower registers are even and the upper ones are odd. -/
theorem lowOf_ne_next {i : Nat} (inside : i < 120) : lowOf i ≠ lineRegister index + 1 := by
  intro same
  have value := congrArg BitVec.toNat same
  rw [BitVec.toNat_add, toNat_lowOf inside, toNat_lineRegister] at value
  simp at value
  omega

theorem highOf_ne_lineRegister {i : Nat} (inside : i < 120) : highOf i ≠ lineRegister index := by
  intro same
  have value := congrArg BitVec.toNat same
  rw [toNat_highOf inside, toNat_lineRegister] at value
  omega

theorem writable_lowOf {i : Nat} (inside : i < c.lines) (few : c.lines ≤ 120) :
    c.writable (lowOf i) = 0x0001AFFF := by
  have value := toNat_lowOf (i := i) (by omega)
  have nonzero : lowOf i ≠ 0 := by
    intro zero
    rw [zero] at value
    simp at value
    omega
  rw [Chip.writable, if_neg nonzero, if_pos (by omega), if_pos (by omega)]

theorem writable_highOf {i : Nat} (inside : i < c.lines) (few : c.lines ≤ 120) :
    c.writable (highOf i) = 0xFF000000 := by
  have value := toNat_highOf (i := i) (by omega)
  have nonzero : highOf i ≠ 0 := by
    intro zero
    rw [zero] at value
    simp at value
    omega
  rw [Chip.writable, if_neg nonzero, if_pos (by omega), if_neg (by omega)]

/-- What is stored in a line is what the line says afterwards; the other lines keep what they say. -/
theorem Stored.line (stored : Stored c c' (lineRegister index) data) (few : c.lines ≤ 120) {i : Nat}
    (inside : i < c.lines) : c'.line i = if i = slot index then Line.of data else c.line i := by
  have near : i < 120 := by omega
  split
  · rename_i here
    have low : lowOf i = lineRegister index := (lowOf_eq_lineRegister near).mpr here
    have high : highOf i = lineRegister index + 1 := by rw [highOf_eq, low]
    refine Line.of_congr fun j writable => ?_
    rw [Chip.raw, BitVec.getLsbD_append, high, ← low, ← highOf_eq]
    have lowIs := stored.low
    have highIs := stored.high
    rw [← low, ← highOf_eq] at highIs
    rw [← low] at lowIs
    rw [lowIs, highIs, writable_lowOf inside few, writable_highOf inside few, getLsbD_merge, getLsbD_merge]
    rw [lineWritable_eq, BitVec.getLsbD_append] at writable
    by_cases lower : j < 32
    · rw [if_pos lower] at writable
      rw [if_pos lower, if_pos writable, BitVec.getLsbD_setWidth, decide_eq_true lower, Bool.true_and]
    · rw [if_neg lower] at writable
      have upper := BitVec.lt_of_getLsbD writable
      rw [if_neg lower, if_pos writable, BitVec.getLsbD_setWidth, decide_eq_true upper, Bool.true_and,
        BitVec.getLsbD_ushiftRight, Nat.add_sub_cancel' (Nat.not_lt.mp lower)]
  · rename_i elsewhere
    have low : lowOf i ≠ lineRegister index := fun same => elsewhere ((lowOf_eq_lineRegister near).mp same)
    have high : highOf i ≠ lineRegister index + 1 := by
      rw [highOf_eq]
      exact fun same => low ((BitVec.add_left_inj 1).mp same)
    rw [Chip.line, Chip.line, Chip.raw, Chip.raw, stored.others _ low (lowOf_ne_next near),
      stored.others _ (highOf_ne_lineRegister near) high]

/-- The number of the controller is where line 120 would be. -/
theorem lineRegister_of_slot (here : slot index = 120) : lineRegister index = 0 := by
  have small := index.isLt
  apply BitVec.eq_of_toNat_eq
  rw [toNat_lineRegister]
  unfold slot at here
  simp
  omega

theorem Stored.identity_written (stored : Stored c c' (lineRegister index) data) (here : slot index = 120) :
    c'.identity = idField.get (data.setWidth 32) := by
  have zero := lineRegister_of_slot here
  have low := stored.low
  have writable : c.writable 0 = 0x0F000000 := rfl
  rw [zero, writable] at low
  rw [Chip.identity, low]
  refine BitVec.eq_of_getLsbD_eq fun i inside => ?_
  have bit : ∀ k < 4, (0x0F000000 : BitVec 32).getLsbD (24 + k) = true := by decide
  rw [BitField.getLsbD_get, BitField.getLsbD_get, getLsbD_merge, idField]
  dsimp only
  rw [if_pos (bit i inside)]

theorem Stored.identity_kept (stored : Stored c c' (lineRegister index) data) (elsewhere : slot index ≠ 120) :
    c'.identity = c.identity := by
  have small := index.isLt
  have value := toNat_lineRegister index
  have low : (0 : BitVec 8) ≠ lineRegister index := by
    intro same
    rw [← same] at value
    unfold slot at elsewhere
    simp at value
    omega
  have high : (0 : BitVec 8) ≠ lineRegister index + 1 := by
    intro same
    have odd := congrArg BitVec.toNat same
    rw [BitVec.toNat_add, value] at odd
    simp at odd
    omega
  rw [Chip.identity, stored.others 0 low high, Chip.identity]

/-! ### The methods -/

theorem run_route (gsi vector : BitVec 8) (delivery : DeliveryMode) (trigger : TriggerMode)
    (activeLow masked : Bool) :
    ∃ c', (a.route gsi vector delivery trigger activeLow masked).run apicHandler c = some ((), c') ∧
      Stored c c' (lineRegister (gsi - a.globalIntrBase))
        (redirection vector delivery trigger activeLow masked) :=
  ⟨_, rfl, stored_low_first ..⟩

theorem shiftLeft_or_eq_append (hi lo : BitVec 32) : hi.setWidth 64 <<< 32 ||| lo.setWidth 64 = hi ++ lo := by
  refine BitVec.eq_of_getLsbD_eq fun i inside => ?_
  rw [BitVec.getLsbD_append, BitVec.getLsbD_or, BitVec.getLsbD_shiftLeft, BitVec.getLsbD_setWidth,
    BitVec.getLsbD_setWidth, decide_eq_true inside]
  by_cases lower : i < 32
  · simp [lower]
  · have upper : i - 32 < 64 := by omega
    simp [lower, upper, BitVec.getLsbD_of_ge lo i (Nat.not_lt.mp lower)]

theorem run_read64 (offset : BitVec 8) :
    (read64 offset).run apicHandler c =
      some (c.registers (offset + 1) ++ c.registers offset, { c with select := offset }) := by
  rw [← shiftLeft_or_eq_append, read64, Program.run_bind, run_read, Option.bind_some, Program.run_bind,
    run_read]
  rfl

theorem run_write64 (offset : BitVec 8) (data : BitVec 64) :
    ∃ c', (write64 offset data).run apicHandler c = some ((), c') ∧ Stored c c' offset data := by
  refine ⟨_, ?_, stored_high_first ..⟩
  rw [write64, Program.run_bind, run_write, Option.bind_some, run_write]

theorem run_setMask (value : Nat) (gsi : BitVec 8) :
    ∃ c', (a.setMask value gsi).run apicHandler c = some ((), c') ∧
      Stored c c' (lineRegister (gsi - a.globalIntrBase))
        (entryMask.set (c.registers (lineRegister (gsi - a.globalIntrBase) + 1) ++
          c.registers (lineRegister (gsi - a.globalIntrBase))) value) := by
  obtain ⟨c', ran, stored⟩ := run_write64 (c := { c with select := lineRegister (gsi - a.globalIntrBase) })
    (lineRegister (gsi - a.globalIntrBase)) (entryMask.set
      (c.registers (lineRegister (gsi - a.globalIntrBase) + 1) ++
        c.registers (lineRegister (gsi - a.globalIntrBase))) value)
  refine ⟨c', ?_, stored.lines, stored.low, stored.high, stored.others⟩
  rw [IOAPIC.setMask, Program.run_bind, run_read64]
  exact ran

/-! ### Runs of the driver -/

/-- The calls of the three methods. -/
inductive Method where
  | route (gsi vector : BitVec 8) (delivery : DeliveryMode) (trigger : TriggerMode) (activeLow masked : Bool)
  | mask (gsi : BitVec 8)
  | unmask (gsi : BitVec 8)

def Method.program (a : IOAPIC) : Method → ApicProgram Unit
  | .route gsi vector delivery trigger activeLow masked =>
    a.route gsi vector delivery trigger activeLow masked
  | .mask gsi => a.mask gsi
  | .unmask gsi => a.unmask gsi

def Method.gsi : Method → BitVec 8
  | .route gsi _ _ _ _ _ => gsi
  | .mask gsi => gsi
  | .unmask gsi => gsi

/-- The line that a method is about. -/
def Method.slot (a : IOAPIC) (m : Method) : Nat := Apic.slot (m.gsi - a.globalIntrBase)

/-- What a method does to its line. -/
def Method.apply : Method → Line → Line
  | .route _ vector delivery trigger activeLow masked, _ => routed vector delivery trigger activeLow masked
  | .mask _, line => { line with masked := true }
  | .unmask _, line => { line with masked := false }

/-- Only `route` overwrites what is not a line. -/
def Method.clears (a : IOAPIC) : Method → Bool
  | .route gsi _ _ _ _ _ => decide (Apic.slot (gsi - a.globalIntrBase) = 120)
  | _ => false

def callMethods (a : IOAPIC) : List Method → ApicProgram Unit
  | [] => pure ()
  | m :: methods => do
    m.program a
    callMethods a methods

/-- Where the number of the controller is, an entry has no field. -/
theorem idField_set (f : BitField) (apart : f.start + f.width ≤ 24 ∨ 28 ≤ f.start) (value : Nat) :
    idField.get ((f.set entry value).setWidth 32) = idField.get (entry.setWidth 32) := by
  refine BitVec.eq_of_getLsbD_eq fun i inside => ?_
  have small : i < 4 := inside
  have start : idField.start = 24 := rfl
  rw [BitField.getLsbD_get, BitField.getLsbD_get, BitVec.getLsbD_setWidth, BitVec.getLsbD_setWidth, start,
    getLsbD_set_apart f value (by omega) (by omega)]

theorem idField_redirection (vector : BitVec 8) (delivery : DeliveryMode) (trigger : TriggerMode)
    (activeLow masked : Bool) :
    idField.get ((redirection vector delivery trigger activeLow masked).setWidth 32) = 0 := by
  unfold redirection
  rw [idField_set dest (by decide), idField_set entryMask (by decide), idField_set pinPolarity (by decide),
    idField_set triggerMode (by decide), idField_set deliveryMode (by decide),
    idField_set entryVector (by decide)]
  decide

/-- Setting the mask of what is not a line does not change the number of the controller. -/
theorem idField_setMask (value : Nat) (hi lo : BitVec 32) :
    idField.get ((entryMask.set (hi ++ lo) value).setWidth 32) = idField.get lo := by
  have low : (hi ++ lo).setWidth 32 = lo := BitVec.setWidth_append_eq_right
  rw [idField_set entryMask (by decide), low]

theorem setMask_changes (few : c.lines ≤ 120) (value : Nat) (gsi : BitVec 8) :
    ∃ c', (a.setMask value gsi).run apicHandler c = some ((), c') ∧ c'.lines = c.lines ∧
      c'.identity = c.identity ∧ ∀ i < c.lines, c'.line i =
        if i = slot (gsi - a.globalIntrBase) then { c.line i with masked := value.testBit 0 }
        else c.line i := by
  obtain ⟨c', ran, stored⟩ := run_setMask (c := c) (a := a) value gsi
  refine ⟨c', ran, stored.lines, ?_, fun i inside => ?_⟩
  · by_cases here : slot (gsi - a.globalIntrBase) = 120
    · have zero := lineRegister_of_slot here
      rw [stored.identity_written here, idField_setMask, zero, Chip.identity]
    · exact stored.identity_kept here
  · rw [stored.line few inside]
    split
    · rename_i here
      have low : lowOf i = lineRegister (gsi - a.globalIntrBase) :=
        (lowOf_eq_lineRegister (by omega)).mpr here
      rw [Line.of_setMask, ← low, ← highOf_eq]
      rfl
    · rfl

/-- One method: its line changes, the others do not, and only `route` for line 120 changes the number of
the controller. -/
theorem method_changes (few : c.lines ≤ 120) (m : Method) :
    ∃ c', (m.program a).run apicHandler c = some ((), c') ∧ c'.lines = c.lines ∧
      c'.identity = (if m.clears a = true then 0 else c.identity) ∧
      ∀ i < c.lines, c'.line i = if i = m.slot a then m.apply (c.line i) else c.line i := by
  cases m with
  | route gsi vector delivery trigger activeLow masked =>
    obtain ⟨c', ran, stored⟩ := run_route (c := c) (a := a) gsi vector delivery trigger activeLow masked
    refine ⟨c', ran, stored.lines, ?_, fun i inside => ?_⟩
    · simp only [Method.clears, decide_eq_true_iff]
      split
      · rename_i here
        exact (stored.identity_written here).trans (idField_redirection ..)
      · rename_i elsewhere
        exact stored.identity_kept elsewhere
    · rw [stored.line few inside, Line.of_redirection]
      rfl
  | mask gsi =>
    obtain ⟨c', ran, lines, identity, line⟩ := setMask_changes (a := a) few 1 gsi
    exact ⟨c', ran, lines, identity, line⟩
  | unmask gsi =>
    obtain ⟨c', ran, lines, identity, line⟩ := setMask_changes (a := a) few 0 gsi
    exact ⟨c', ran, lines, identity, line⟩

theorem run_callMethods (few : c.lines ≤ 120) (methods : List Method) :
    ∃ c', (callMethods a methods).run apicHandler c = some ((), c') ∧ c'.lines = c.lines ∧
      c'.identity = (if methods.any (Method.clears a) = true then 0 else c.identity) ∧
      ∀ i < c.lines, c'.line i =
        (methods.filter fun m => m.slot a = i).foldl (fun line m => m.apply line) (c.line i) := by
  induction methods generalizing c with
  | nil => exact ⟨c, rfl, rfl, rfl, fun _ _ => rfl⟩
  | cons m methods ih =>
    obtain ⟨c', ran, lines, identity, line⟩ := method_changes (a := a) few m
    obtain ⟨c'', ran', lines', identity', line'⟩ := ih (c := c') (by rw [lines]; exact few)
    refine ⟨c'', ?_, lines'.trans lines, ?_, fun i inside => ?_⟩
    · rw [callMethods, Program.run_bind, ran]
      exact ran'
    · rw [identity', identity, List.any_cons]
      cases m.clears a <;> simp
    · rw [line' i (by rw [lines]; exact inside), line i inside]
      by_cases here : m.slot a = i
      · have kept : (m :: methods).filter (fun m => m.slot a = i) =
            m :: methods.filter fun m => m.slot a = i :=
          List.filter_cons_of_pos (decide_eq_true here)
        rw [if_pos here.symm, kept, List.foldl_cons]
      · have dropped : (m :: methods).filter (fun m => m.slot a = i) =
            methods.filter fun m => m.slot a = i :=
          List.filter_cons_of_neg (by simpa using here)
        rw [if_neg (Ne.symm here), dropped]

/-- The lines do not depend on the number of the controller and on what is selected. -/
theorem line_written_zero {data : BitVec 32} (few : c.lines ≤ 120) {i : Nat} (inside : i < c.lines) :
    (c.written 0 data).line i = c.line i := by
  have low : lowOf i ≠ 0 := by
    intro zero
    have value := toNat_lowOf (i := i) (by omega)
    rw [zero] at value
    simp at value
    omega
  have high : highOf i ≠ 0 := by
    intro zero
    have value := toNat_highOf (i := i) (by omega)
    rw [zero] at value
    simp at value
    omega
  rw [Chip.line, Chip.line, Chip.raw, Chip.raw, registers_written_other low, registers_written_other high]

/-- `init` gives the controller the number that the MADT has for it, as far as that has four bits. -/
theorem run_initRegisters (few : c.lines ≤ 120) (id : BitVec 8) (gsiBase : BitVec 32) :
    ∃ a c', (initRegisters id gsiBase).run apicHandler c = some (a, c') ∧ a.apicId = id ∧
      a.globalIntrBase = gsiBase.setWidth 8 ∧
      a.redirectEntryCount = (maxRedirEntry.get (c.registers 1)).setWidth 8 + 1 ∧
      c'.lines = c.lines ∧ c'.identity = id.setWidth 4 ∧ ∀ i < c.lines, c'.line i = c.line i := by
  have other : (1 : BitVec 8) ≠ 0 := by decide
  by_cases same : (idField.get (c.registers 0)).setWidth 8 = id
  · refine ⟨⟨id, versionField.get (c.registers 1), (maxRedirEntry.get (c.registers 1)).setWidth 8 + 1,
      gsiBase.setWidth 8⟩, { c with select := 1 }, ?_, rfl, rfl, rfl, rfl, ?_, fun _ _ => rfl⟩
    · rw [initRegisters, Program.run_bind, run_read, Option.bind_some]
      dsimp only
      rw [if_neg (not_not.mpr same)]
      rfl
    · have narrow : ∀ x : BitVec 4, (x.setWidth 8).setWidth 4 = x := by decide
      rw [← same]
      exact (narrow _).symm
  · refine ⟨⟨id, versionField.get (c.registers 1), (maxRedirEntry.get (c.registers 1)).setWidth 8 + 1,
      gsiBase.setWidth 8⟩, { c.written 0 (idField.set (c.registers 0) id.toNat) with select := 1 }, ?_,
      rfl, rfl, rfl, rfl, ?_, fun i inside => line_written_zero few inside⟩
    · rw [initRegisters, Program.run_bind, run_read, Option.bind_some]
      dsimp only
      rw [if_pos same, ← registers_written_other other (idField.set (c.registers 0) id.toNat)]
      rfl
    · refine BitVec.eq_of_getLsbD_eq fun i inside => ?_
      have bit : ∀ k < 4, (0x0F000000 : BitVec 32).getLsbD (24 + k) = true := by decide
      have register : (c.written 0 (idField.set (c.registers 0) id.toNat)).registers 0 =
          merge (c.registers 0) (idField.set (c.registers 0) id.toNat) 0x0F000000 :=
        registers_written_self 0 _
      have within : idField.start ≤ 24 + i ∧ 24 + i < idField.start + idField.width :=
        ⟨Nat.le_add_right .., Nat.add_lt_add_left inside 24⟩
      have index : 24 + i - idField.start = i := Nat.add_sub_cancel_left ..
      rw [getLsbD_identity, register, getLsbD_merge, if_pos (bit i inside),
        BitField.getLsbD_set _ _ _ (by omega), if_pos within, index, BitVec.getLsbD_setWidth]
      rfl

/-- A controller that `init` found in the MADT, and any calls of the methods after it: every line says
what the methods for it made of it, and the number of the controller is the one in the MADT unless
`route` was called for line 120. -/
theorem initialised_table (few : c.lines ≤ 120) {entries : List Subtable} {id : BitVec 8}
    {address gsiBase : BitVec 32} (found : entries.findSome? Subtable.isIoapic = some (id, address, gsiBase))
    (methods : List Method) :
    ∃ a c₀ c', (IOAPIC.init (some entries)).run apicHandler c = some (some a, c₀) ∧
      (callMethods a methods).run apicHandler c₀ = some ((), c') ∧
      a.apicId = id ∧ a.globalIntrBase = gsiBase.setWidth 8 ∧
      a.redirectEntryCount = (maxRedirEntry.get (c.registers 1)).setWidth 8 + 1 ∧ c'.lines = c.lines ∧
      c'.identity = (if methods.any (Method.clears a) = true then 0 else id.setWidth 4) ∧
      ∀ i < c.lines, c'.line i =
        (methods.filter fun m => m.slot a = i).foldl (fun line m => m.apply line) (c.line i) := by
  obtain ⟨a, c₀, ran, apicId, base, count, lines, identity, line⟩ := run_initRegisters few id gsiBase
  obtain ⟨c', ran', lines', identity', line'⟩ :=
    run_callMethods (c := c₀) (a := a) (by rw [lines]; exact few) methods
  refine ⟨a, c₀, c', ?_, ran', apicId, base, count, lines'.trans lines, ?_, fun i inside => ?_⟩
  · rw [IOAPIC.init, Option.bind_some, found]
    dsimp only
    rw [Program.run_bind, ran]
    rfl
  · rw [identity', identity]
  · rw [line' i (by rw [lines]; exact inside), line i inside]

/-- The timer is routed to pin 2 and masked; the other line stays as it was. -/
theorem initialised_table_timer :
    ∃ a c', (callMethods a [.route 2 32 .fixed .edge false false, .mask 2]).run apicHandler
        { lines := 24, select := 1, registers := fun _ => 0x00010000 } = some ((), c') ∧
      c'.line 2 = ⟨32, 0, false, false, false, true, 0⟩ := by
  obtain ⟨a, c₀, c', found, ran, -, base, -, -, -, lines⟩ := initialised_table
    (c := { lines := 24, select := 0, registers := fun _ => 0x00010000 }) (by decide)
    (show [Subtable.other 0, .ioapic 0 0xFEC00000 0].findSome? Subtable.isIoapic = _ from rfl)
    [.route 2 32 .fixed .edge false false, .mask 2]
  cases found
  refine ⟨_, c', ran, ?_⟩
  rw [lines 2 (by decide)]
  rfl

end KopalniaOS.Apic
