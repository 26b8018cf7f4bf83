import KopalniaOS.Hpet.Model
import KopalniaOS.Library.Program

/-!
# PCI configuration space

The 256 bytes of a function are reached through two ports: one takes an address, the other moves the
double word there. Narrower accesses are made of these.
-/
namespace KopalniaOS.Pci

open Library
open Hpet (HandlerTable installHandler)

/-! ### The devices -/

abbrev Offset := BitVec 8

/-- The configuration space of one function. -/
abbrev Space := Offset → BitVec 8

/-- The bytes of the Status register. -/
def IsStatus (i : Offset) : Prop := i = 6 ∨ i = 7

instance (i : Offset) : Decidable (IsStatus i) := inferInstanceAs (Decidable (_ ∨ _))

/-- A byte of a double word. -/
def byteOf (v : BitVec 32) (k : Nat) : BitVec 8 := v.extractLsb' (8 * k) 8

/-- What a byte becomes when `b` is written to it: in the Status register ones clear. -/
def Space.store (c : Space) (i : Offset) (b : BitVec 8) : BitVec 8 :=
  if IsStatus i then c i &&& ~~~b else b

def Space.read32 (c : Space) (d : Offset) : BitVec 32 := c (d + 3) ++ c (d + 2) ++ c (d + 1) ++ c d

/-- All bytes of a double word are written together. -/
def Space.write32 (c : Space) (d : Offset) (v : BitVec 32) : Space := fun i =>
  if i &&& 0xFC = d then c.store i (byteOf v (i &&& 3).toNat) else c i

/-! ### Ports -/

inductive PciOp (ι : Type) where
  | outl (port : Nat) (value : BitVec 32)
  | inl (port : Nat)
  | rdmsr (msr : Nat)
  | installHandler (handler : Option ι) (irq : Nat)
  | info (text : String)

variable {ι : Type}

abbrev PciOp.Answer : PciOp ι → Type
  | .inl _ => BitVec 32
  | .rdmsr _ => BitVec 64
  | _ => Unit

abbrev PciProgram (ι : Type) := Program (PciOp ι) PciOp.Answer

def perform (o : PciOp ι) : PciProgram ι o.Answer := Program.perform o

/-- `configAddress` is what the port `0xCF8` holds; a function has its space at the sixteen bits of
its address that are above the offset. -/
structure PciState (ι : Type) where
  configAddress : BitVec 32
  space : BitVec 16 → Space
  msr : Nat → BitVec 64
  table : HandlerTable ι

/-- The function that an address names. -/
def functionOf (address : BitVec 32) : BitVec 16 := address.extractLsb' 8 16

/-- The double word that an address names. -/
def registerOf (address : BitVec 32) : Offset := address.setWidth 8 &&& 0xFC

/-- The data port is only open to addresses with the highest bit set. -/
def PciState.inl (s : PciState ι) (port : Nat) : BitVec 32 :=
  if port = 0xCFC ∧ s.configAddress.msb = true then
    (s.space (functionOf s.configAddress)).read32 (registerOf s.configAddress)
  else BitVec.allOnes 32

def PciState.outl (s : PciState ι) (port : Nat) (value : BitVec 32) : PciState ι :=
  if port = 0xCF8 then { s with configAddress := value }
  else if port = 0xCFC ∧ s.configAddress.msb = true then
    let f := functionOf s.configAddress
    let written := (s.space f).write32 (registerOf s.configAddress) value
    { s with space := Function.update s.space f written }
  else s

def pciHandler : Handler (PciOp ι) PciOp.Answer (PciState ι)
  | .outl port value, s => some ((), s.outl port value)
  | .inl port, s => some (s.inl port, s)
  | .rdmsr msr, s => some (s.msr msr, s)
  | .installHandler handler irq, s =>
    some ((), { s with table := Hpet.installHandler handler irq s.table })
  | .info _, s => some ((), s)

/-! ### Accesses -/

/-- `bus`, `device` and `function` of a `PCI_Device`. -/
structure PciDevice where
  bus : BitVec 8
  device : BitVec 8
  function : BitVec 8
deriving DecidableEq, Repr

def configAddress (dev : PciDevice) (offset : Offset) : BitVec 32 :=
  1#32 <<< 31 ||| dev.bus.setWidth 32 <<< 16 ||| dev.device.setWidth 32 <<< 11 |||
    dev.function.setWidth 32 <<< 8 ||| (offset &&& 0xFC).setWidth 32

def pciRead32 (dev : PciDevice) (offset : Offset) : PciProgram ι (BitVec 32) := do
  perform (.outl 0xCF8 (configAddress dev offset))
  perform (.inl 0xCFC)

def pciRead16 (dev : PciDevice) (offset : Offset) : PciProgram ι (BitVec 16) := do
  let val ← pciRead32 dev offset
  pure (((val >>> ((offset &&& 2).toNat * 8)) &&& 0xFFFF).setWidth 16)

def pciRead8 (dev : PciDevice) (offset : Offset) : PciProgram ι (BitVec 8) := do
  let val ← pciRead32 dev offset
  pure (((val >>> ((offset &&& 3).toNat * 8)) &&& 0xFF).setWidth 8)

def pciWrite32 (dev : PciDevice) (offset : Offset) (value : BitVec 32) : PciProgram ι Unit := do
  perform (.outl 0xCF8 (configAddress dev offset))
  perform (.outl 0xCFC value)

def pciWrite16 (dev : PciDevice) (offset : Offset) (value : BitVec 16) : PciProgram ι Unit := do
  let current ← pciRead32 dev (offset &&& 0xFC)
  let shift := (offset &&& 2).toNat * 8
  let current := current &&& ~~~(0xFFFF#32 <<< shift)
  let current := current ||| value.setWidth 32 <<< shift
  pciWrite32 dev (offset &&& 0xFC) current

def pciWrite8 (dev : PciDevice) (offset : Offset) (value : BitVec 8) : PciProgram ι Unit := do
  let current ← pciRead32 dev (offset &&& 0xFC)
  let shift := (offset &&& 3).toNat * 8
  let current := current &&& ~~~(0xFF#32 <<< shift)
  let current := current ||| value.setWidth 32 <<< shift
  pciWrite32 dev (offset &&& 0xFC) current

/-! ### Interrupts -/

/-- The loop of `get_msi_offset`. -/
def followCapabilities (dev : PciDevice) : (safety : Nat) → (capPtr : Offset) → PciProgram ι Offset
  | 0, _ => pure 0
  | safety + 1, capPtr => do
    if capPtr = 0 then pure 0
    else do
      let id ← pciRead8 dev capPtr
      let next ← pciRead8 dev (capPtr + 1)
      if id = 0x05 then pure capPtr else followCapabilities dev safety next

def getMsiOffset (dev : PciDevice) : PciProgram ι Offset := do
  let capPtr ← pciRead8 dev 0x34
  followCapabilities dev 32 capPtr

/-- What `install_interrupt` and `RTL8139::Reset_Device` do to the Command register. -/
def updateCommand (dev : PciDevice) (bits : BitVec 16) : PciProgram ι Unit := do
  let cmd ← pciRead16 dev 0x04
  pciWrite16 dev 0x04 (cmd ||| bits)

def disableIntx (dev : PciDevice) : PciProgram ι Unit := updateCommand dev (1#16 <<< 10)

/-- The first lines of `RTL8139::Reset_Device`: bus master and IO space. -/
def enableBusMaster (dev : PciDevice) : PciProgram ι Unit :=
  updateCommand dev (1#16 <<< 2 ||| 1#16 <<< 0)

def writeMessage (dev : PciDevice) (msiOffset : Offset) (control data : BitVec 16) :
    PciProgram ι Unit := do
  let msr ← perform (.rdmsr 0x1B)
  pciWrite32 dev (msiOffset + 0x04) ((msr &&& 0xFFFFF000).setWidth 32)
  if control &&& 1#16 <<< 7 ≠ 0 then do
    pciWrite32 dev (msiOffset + 0x08) 0
    pciWrite16 dev (msiOffset + 0x0C) data
  else pciWrite16 dev (msiOffset + 0x08) data

def installMsi (dev : PciDevice) (handler : Option ι) (irq : BitVec 8) (msiOffset : Offset) :
    PciProgram ι Unit := do
  let control ← pciRead16 dev (msiOffset + 0x02)
  let control := control &&& ~~~1#16
  pciWrite16 dev (msiOffset + 0x02) control
  let vector := irq + 32
  let control := control &&& ~~~(0b111#16 <<< 4)
  writeMessage dev msiOffset control (vector.setWidth 16)
  disableIntx dev
  perform (.installHandler handler irq.toNat)
  pciWrite16 dev (msiOffset + 0x02) (control ||| 1#16)
  perform (.info "[ PCI ] Installed MSI interrupt")

def installInterrupt (dev : PciDevice) (handler : Option ι) (irq : BitVec 8) : PciProgram ι Unit := do
  let msiOffset ← getMsiOffset dev
  if msiOffset ≠ 0 then installMsi dev handler irq msiOffset
  else do
    let irq ← pciRead8 dev 0x3C
    perform (.installHandler handler irq.toNat)
    perform (.info "[ PCI ] Installed INTX interrupt")

end KopalniaOS.Pci
