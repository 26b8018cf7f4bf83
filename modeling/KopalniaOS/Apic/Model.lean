import KopalniaOS.Idt.Model

/-!
# The interrupt controller

`IOAPIC` reaches the registers of its controller through two others: one selects a register and one is
a window to it. A line of the redirection table has two registers.
-/
namespace KopalniaOS.Apic

open Library

/-! ### The controller -/

/-- A controller with `lines` lines. -/
structure Chip where
  lines : Nat
  select : BitVec 8
  registers : BitVec 8 → BitVec 32

/-- The bits of a register that can be written. In a line they leave out the delivery status and the
remote request, which the controller sets itself. -/
def Chip.writable (c : Chip) (offset : BitVec 8) : BitVec 32 :=
  if offset = 0x00 then 0x0F000000
  else if 0x10 ≤ offset.toNat ∧ offset.toNat < 0x10 + 2 * c.lines then
    if offset.toNat % 2 = 0 then 0x0001AFFF else 0xFF000000
  else 0

/-- What a register holds after a write. -/
def merge (old data writable : BitVec 32) : BitVec 32 := old &&& ~~~writable ||| data &&& writable

/-- The accesses to `REG_SELECT` and `IOWIN`. -/
inductive ApicOp where
  | select (offset : BitVec 8)
  | readWindow
  | writeWindow (data : BitVec 32)

abbrev ApicOp.Answer : ApicOp → Type
  | .readWindow => BitVec 32
  | _ => Unit

abbrev ApicProgram := Program ApicOp ApicOp.Answer

def perform (o : ApicOp) : ApicProgram o.Answer := Program.perform o

def apicHandler : Handler ApicOp ApicOp.Answer Chip
  | .select offset, c => some ((), { c with select := offset })
  | .readWindow, c => some (c.registers c.select, c)
  | .writeWindow data, c =>
    let value := merge (c.registers c.select) data (c.writable c.select)
    some ((), { c with registers := Function.update c.registers c.select value })

/-! ### Access -/

def read (offset : BitVec 8) : ApicProgram (BitVec 32) := do
  perform (.select offset)
  perform .readWindow

def write (offset : BitVec 8) (data : BitVec 32) : ApicProgram Unit := do
  perform (.select offset)
  perform (.writeWindow data)

def read64 (offset : BitVec 8) : ApicProgram (BitVec 64) := do
  let hi ← read (offset + 1)
  let lo ← read offset
  pure (hi.setWidth 64 <<< 32 ||| lo.setWidth 64)

def write64 (offset : BitVec 8) (data : BitVec 64) : ApicProgram Unit := do
  write (offset + 1) ((data >>> 32).setWidth 32)
  write offset (data.setWidth 32)

/-! ### Lines -/

/-- `redirection_entry` -/
def entryVector : BitField := ⟨0, 8⟩
def deliveryMode : BitField := ⟨8, 3⟩
def pinPolarity : BitField := ⟨13, 1⟩
def triggerMode : BitField := ⟨15, 1⟩
def entryMask : BitField := ⟨16, 1⟩
def dest : BitField := ⟨56, 8⟩

inductive TriggerMode where
  | edge
  | level
deriving DecidableEq, Repr

def TriggerMode.value : TriggerMode → Nat
  | .edge => 0
  | .level => 1

inductive DeliveryMode where
  | fixed
  | lowPriority
  | smi
  | nmi
  | init
  | extInt
deriving DecidableEq, Repr

def DeliveryMode.value : DeliveryMode → Nat
  | .fixed => 0
  | .lowPriority => 1
  | .smi => 2
  | .nmi => 3
  | .init => 4
  | .extInt => 5

/-- The object that the methods use; `phys_regs` and `virt_address` are where the registers are. -/
structure IOAPIC where
  apicId : BitVec 8
  apicVersion : BitVec 8
  redirectEntryCount : BitVec 8
  globalIntrBase : BitVec 8
deriving DecidableEq, Repr

/-- The register of the lower half of a line, cut to eight bits when it is passed on. -/
def lineRegister (index : BitVec 8) : BitVec 8 := (0x10 + index.setWidth 32 * 2).setWidth 8

/-- The entry that `route` writes. -/
def redirection (vector : BitVec 8) (delivery : DeliveryMode) (trigger : TriggerMode)
    (activeLow masked : Bool) : BitVec 64 :=
  let entry := entryVector.set 0 vector.toNat
  let entry := deliveryMode.set entry delivery.value
  let entry := triggerMode.set entry trigger.value
  let entry := pinPolarity.set entry activeLow.toNat
  let entry := entryMask.set entry masked.toNat
  dest.set entry 0

def IOAPIC.route (a : IOAPIC) (gsi vector : BitVec 8) (delivery : DeliveryMode) (trigger : TriggerMode)
    (activeLow masked : Bool) : ApicProgram Unit := do
  let index := gsi - a.globalIntrBase
  let entry := redirection vector delivery trigger activeLow masked
  write (lineRegister index) (entry.setWidth 32)
  write (lineRegister index + 1) ((entry >>> 32).setWidth 32)

def IOAPIC.setMask (a : IOAPIC) (value : Nat) (gsi : BitVec 8) : ApicProgram Unit := do
  let index := gsi - a.globalIntrBase
  let raw ← read64 (lineRegister index)
  write64 (lineRegister index) (entryMask.set raw value)

def IOAPIC.mask (a : IOAPIC) (gsi : BitVec 8) : ApicProgram Unit := a.setMask 1 gsi

def IOAPIC.unmask (a : IOAPIC) (gsi : BitVec 8) : ApicProgram Unit := a.setMask 0 gsi

/-! ### What the tables of the machine say -/

/-- The parts of the MADT, in the order in which they are visited. -/
inductive Subtable where
  | ioapic (id : BitVec 8) (address gsiBase : BitVec 32)
  | interruptSourceOverride (source : BitVec 8) (gsi : BitVec 32) (flags : BitVec 16)
  | other (type : BitVec 8)
deriving DecidableEq, Repr

/-- `ioapic_entry` in `init` -/
def Subtable.isIoapic : Subtable → Option (BitVec 8 × BitVec 32 × BitVec 32)
  | .ioapic id address gsiBase => some (id, address, gsiBase)
  | _ => none

/-- `id_register` and `version_register` -/
def idField : BitField := ⟨24, 4⟩
def versionField : BitField := ⟨0, 8⟩
def maxRedirEntry : BitField := ⟨16, 8⟩

/-- `IOAPIC::init`, from where the registers are mapped; `none` stands for the result `false`. -/
def initRegisters (id : BitVec 8) (gsiBase : BitVec 32) : ApicProgram IOAPIC := do
  let idReg ← read 0x00
  if (idField.get idReg).setWidth 8 ≠ id then write 0x00 (idField.set idReg id.toNat) else pure ()
  let verReg ← read 0x01
  pure {
    apicId := id
    apicVersion := versionField.get verReg
    redirectEntryCount := (maxRedirEntry.get verReg).setWidth 8 + 1
    globalIntrBase := gsiBase.setWidth 8 }

def IOAPIC.init (madt : Option (List Subtable)) : ApicProgram (Option IOAPIC) :=
  match madt.bind fun entries => entries.findSome? Subtable.isIoapic with
  | none => pure none
  | some (id, _, gsiBase) => do
    let a ← initRegisters id gsiBase
    pure (some a)

structure IsoInfo where
  gsi : BitVec 32
  activeLow : Bool
  levelTriggered : Bool
deriving DecidableEq, Repr

/-- The override of a line, as `resolve_irq` looks for it. -/
def Subtable.overrides (irq : BitVec 8) : Subtable → Option IsoInfo
  | .interruptSourceOverride source gsi flags =>
    if source ≠ irq then none else some ⟨gsi, flags &&& 0x3 = 0x3, flags &&& 0xC = 0xC⟩
  | _ => none

def resolveIrq (madt : Option (List Subtable)) (irq : BitVec 8) : IsoInfo :=
  let identity : IsoInfo := ⟨irq.setWidth 32, false, false⟩
  match madt with
  | none => identity
  | some entries => (entries.findSome? (Subtable.overrides irq)).getD identity

end KopalniaOS.Apic
