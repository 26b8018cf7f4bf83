import KopalniaOS.Ahci.Model
import KopalniaOS.Library.Word

/-!
# Reading and writing sectors

`read` and `write` describe a transfer in the command header and the command table of a free slot,
and issue it. They are one function but for the direction. Other code does not touch the two
structures, so a call is run on its own here.
-/
namespace KopalniaOS.Ahci

open Library

/-! ### The structures of a slot -/

/-- The fields of a header that a transfer sets. -/
structure CommandHeader where
  fisLength : Nat
  write : Bool
  prefetchable : Bool
  clear : Bool
  prdTableLength : Nat
deriving DecidableEq, Repr

structure PrdtEntry where
  dataBaseAddress : Nat
  dataBaseAddressUpper : Nat
  dataByteCount : Nat
  interruptOnComplete : Bool
deriving DecidableEq, Repr

/-- A command FIS; what is not given is as `memset` leaves it. -/
structure RegH2d where
  fisType : Nat := 0
  portMultPort : Nat := 0
  commandControl : Bool := false
  command : Nat := 0
  featureLo : Nat := 0
  lba0 : Nat := 0
  lba1 : Nat := 0
  lba2 : Nat := 0
  device : Nat := 0
  lba3 : Nat := 0
  lba4 : Nat := 0
  lba5 : Nat := 0
  featureHi : Nat := 0
  countLo : Nat := 0
  countHi : Nat := 0
  icc : Nat := 0
  control : Nat := 0
deriving DecidableEq, Repr

/-- `prdt` has the entries that were written since the table was last cleared, at the index that
was used for them. -/
structure CommandTable where
  fis : RegH2d
  prdt : Int → Option PrdtEntry

/-! ### Operations -/

inductive TransferOp where
  | port (o : PortOp)
  | readSact
  | divide (a b : Nat)
  | writeHeader (slot : Slot) (header : CommandHeader)
  | clearTable (slot : Slot)
  | writePrdt (slot : Slot) (i : Int) (entry : PrdtEntry)
  | writeFis (slot : Slot) (fis : RegH2d)

abbrev TransferOp.Answer : TransferOp → Type
  | .port o => o.Answer
  | .readSact => Register
  | .divide _ _ => Nat
  | _ => Unit

abbrev TransferProgram := Program TransferOp TransferOp.Answer

structure TransferState where
  port : PortState
  header : Slot → CommandHeader
  table : Slot → CommandTable

/-- A division by zero does not return. -/
def transferHandler : Handler TransferOp TransferOp.Answer TransferState
  | .port o, s => (portHandler o s.port).map fun r => (r.1, { s with port := r.2 })
  | .readSact, s => some (s.port.sact, s)
  | .divide a b, s => if b = 0 then none else some (a / b, s)
  | .writeHeader slot header, s => some ((), { s with header := Function.update s.header slot header })
  | .clearTable slot, s =>
    some ((), { s with table := Function.update s.table slot ⟨{}, fun _ => none⟩ })
  | .writePrdt slot i entry, s =>
    some ((), { s with table := Function.update s.table slot { s.table slot with
      prdt := Function.update (s.table slot).prdt i (some entry) } })
  | .writeFis slot fis, s =>
    some ((), { s with table := Function.update s.table slot { s.table slot with fis } })

def step (o : TransferOp) : TransferProgram o.Answer := Program.perform o

/-- Code that only accesses the port. -/
def onPort {α : Type} (p : PortProgram α) : TransferProgram α := p.interp fun o => step (.port o)

/-! ### `ahci_port::read` and `write` -/

/-- The members of a port that a transfer reads, and `hhdm_offset`. -/
structure PortConfig where
  numCommandSlots : Nat
  bitsIs64 : Bool
  hhdm : Nat

/-- What `read` and `write` differ in. -/
structure Direction where
  write : Bool
  prefetchable : Bool
  command : Nat

def sub32 (a b : Nat) : Nat := (a + (2 ^ 32 - b)) % 2 ^ 32

def maxPrdtSize : Nat := 8

def toPhysical (c : PortConfig) (address : Nat) : Nat := sub64 address c.hhdm

/-- An entry for `bytes + 1` bytes at a virtual address; the byte count has 22 bits. -/
def prdtEntry (c : PortConfig) (buffer bytes : Nat) : PrdtEntry where
  dataBaseAddress := toPhysical c buffer % 2 ^ 32
  dataBaseAddressUpper := if c.bitsIs64 then toPhysical c buffer >>> 32 % 2 ^ 32 else 0
  dataByteCount := bytes % 2 ^ 22
  interruptOnComplete := true

def commandFis (command start count : Nat) : RegH2d :=
  let startLo := start % 2 ^ 32
  let startHi := start >>> 32 % 2 ^ 32
  { fisType := 0x27
    commandControl := true
    command := command
    lba0 := startLo % 256
    lba1 := startLo >>> 8 % 256
    lba2 := startLo >>> 16 % 256
    device := 1 <<< 6
    lba3 := startLo >>> 24 % 256
    lba4 := startHi % 256
    lba5 := startHi >>> 8 % 256
    countLo := count &&& 0xFF
    countHi := count >>> 8 &&& 0xFF }

/-- `get_command_slot`, which reads the two registers. -/
def readCommandSlot (num : Nat) : TransferProgram (Option Slot) := do
  let sact ← step .readSact
  let issue ← step (.port .readIssue)
  match (slots num).find? fun i => !(sact i || issue i) with
  | some slot => pure (some slot)
  | none => do
    step (.port (.log "Failed to find free command slot."))
    pure none

/-- The entries before the last one; it gives the `buffer` and the `count` that are left. -/
def fillPrdt (c : PortConfig) (slot : Slot) (sectorsPerPrdt : Nat) :
    Nat → Nat → Nat → Nat → TransferProgram (Nat × Nat)
  | 0, _, buffer, count => pure (buffer, count)
  | left + 1, i, buffer, count => do
    step (.writePrdt slot i (prdtEntry c buffer (8 * 1024 - 1)))
    fillPrdt c slot sectorsPerPrdt left (i + 1) (u64 (buffer + 2 * (4 * 1024)))
      (sub32 count sectorsPerPrdt)

/-- The command table; `length` is `header.prd_table_length`. -/
def buildTable (d : Direction) (c : PortConfig) (slot : Slot)
    (start count buffer sectorSize sectorsPerPrdt length : Nat) : TransferProgram Unit := do
  step (.clearTable slot)
  let (buffer, left) ← fillPrdt c slot sectorsPerPrdt (length - 1) 0 buffer count
  step (.writePrdt slot ((length : Int) - 1)
    (prdtEntry c buffer (sub32 (left * sectorSize % 2 ^ 32) 1)))
  step (.writeFis slot (commandFis d.command start count))

/-- `count` is an `u32` and `sectorSize` an `u16`. -/
def transfer (d : Direction) (c : PortConfig) (start count buffer sectorSize : Nat) :
    TransferProgram Bool := do
  onPort clearInterruptErrors
  let slot ← readCommandSlot c.numCommandSlots
  match slot with
  | none => pure false
  | some slot => do
    let sectorsPerPrdt ← step (.divide (8 * 1024) sectorSize)
    let entries ← step (.divide (sub32 count 1) sectorsPerPrdt)
    let length := (entries % 2 ^ 16 + 1) % 2 ^ 16
    step (.writeHeader slot ⟨5, d.write, d.prefetchable, true, length⟩)
    if maxPrdtSize < length then pure false
    else do
      buildTable d c slot start count buffer sectorSize sectorsPerPrdt length
      let outcome ← onPort (issueCommand slot)
      pure (decide (outcome = .completed))

def reading : Direction where
  write := false
  prefetchable := true
  command := 0x25

def writing : Direction where
  write := true
  prefetchable := false
  command := 0x35

def read : PortConfig → Nat → Nat → Nat → Nat → TransferProgram Bool := transfer reading

def write : PortConfig → Nat → Nat → Nat → Nat → TransferProgram Bool := transfer writing

end KopalniaOS.Ahci
