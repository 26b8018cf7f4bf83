import KopalniaOS.Library.Interrupts
import Mathlib.Data.Fin.Basic
import Mathlib.Data.List.FinRange

/-!
# Bringing up the ports

`probe_ports` configures every implemented port that has a disk. A port may still be running when that
begins, as the firmware has left it. Its registers may only be given new addresses once its two engines
have stopped, and they stop when they want to.
-/
namespace KopalniaOS.Ahci

open Library

/-! ### Registers -/

/-- `hba_port`, as far as it is used here. -/
structure HbaPort where
  commandListBase : Nat
  commandListBaseUpper : Nat
  fisBaseAddress : Nat
  fisBaseAddressUpper : Nat
  interruptsEnabled : BitVec 32
  commandStatus : BitVec 32
  sig : Nat
  ssts : Nat

/-- The bits ST, FRE, FR and CR of `command_status`. The last two are the adapter's. -/
def HbaPort.st (p : HbaPort) : Bool := p.commandStatus.getLsbD 0
def HbaPort.fre (p : HbaPort) : Bool := p.commandStatus.getLsbD 4
def HbaPort.fr (p : HbaPort) : Bool := p.commandStatus.getLsbD 14
def HbaPort.cr (p : HbaPort) : Bool := p.commandStatus.getLsbD 15

def cmdST : BitVec 32 := 0x0001
def cmdFRE : BitVec 32 := 0x0010
def cmdFR : BitVec 32 := 0x4000
def cmdCR : BitVec 32 := 0x8000

/-- What is in `command_status` when `value` was written. -/
def HbaPort.commanded (p : HbaPort) (value : BitVec 32) : BitVec 32 :=
  (value &&& ~~~(cmdFR ||| cmdCR)) ||| (p.commandStatus &&& (cmdFR ||| cmdCR))

/-- `command_header`, without the fields that stay zero. -/
structure ListEntry where
  prdTableLength : Nat
  cmdTableBaseAddress : Nat
  cmdTableBaseAddressUpper : Nat

/-- `heap` gives the address of an allocation by its number, size and alignment. -/
structure Machine where
  portsImplemented : BitVec 32
  numCommandSlots : Nat
  supports64 : Bool
  hhdmOffset : BitVec 64
  heap : Nat → Nat → Nat → BitVec 64

/-- `lists` are the command lists of the ports. `clashes` collects the ports whose registers were
written while an engine that uses them was on. -/
structure HbaState where
  ports : Fin 32 → HbaPort
  lists : Fin 32 → Fin 32 → ListEntry
  allocations : Nat
  clashes : List (Fin 32)

inductive HbaOp where
  | readPortsImplemented
  | readCapabilities
  | readSsts (i : Fin 32)
  | readSig (i : Fin 32)
  | readCommand (i : Fin 32)
  | writeCommand (i : Fin 32) (value : BitVec 32)
  | writeListBase (i : Fin 32) (value : Nat)
  | writeListUpper (i : Fin 32) (value : Nat)
  | writeFisBase (i : Fin 32) (value : Nat)
  | writeFisUpper (i : Fin 32) (value : Nat)
  | clearInterrupts (i : Fin 32)
  | clearErrors (i : Fin 32)
  | enableInterrupt (i : Fin 32) (bit : Nat)
  | allocate (size alignment : Nat)
  | writeEntry (i slot : Fin 32) (entry : ListEntry)
  | log (text : String)

abbrev HbaOp.Answer : HbaOp → Type
  | .readPortsImplemented => BitVec 32
  | .readCapabilities => Nat × Bool
  | .readSsts _ | .readSig _ => Nat
  | .readCommand _ => BitVec 32
  | .allocate .. => BitVec 64
  | _ => Unit

abbrev HbaProgram := Program HbaOp HbaOp.Answer

def HbaState.put (s : HbaState) (i : Fin 32) (p : HbaPort) : HbaState :=
  { s with ports := Function.update s.ports i p }

/-- A write that must not be made if this is so. -/
def HbaState.clash (s : HbaState) (i : Fin 32) (bad : Bool) : HbaState :=
  if bad = true then { s with clashes := i :: s.clashes } else s

/-- ST is set only while the command engine is off, and FRE cleared only then; the address of the list
is written while that engine is off, and the address for received data while the other one is. -/
def hbaHandler (hw : Machine) : Handler HbaOp HbaOp.Answer HbaState
  | .readPortsImplemented, s => some (hw.portsImplemented, s)
  | .readCapabilities, s => some ((hw.numCommandSlots, hw.supports64), s)
  | .readSsts i, s => some ((s.ports i).ssts, s)
  | .readSig i, s => some ((s.ports i).sig, s)
  | .readCommand i, s => some ((s.ports i).commandStatus, s)
  | .writeCommand i value, s =>
    let p := s.ports i
    let starts := value.getLsbD 0 && !p.st
    let cuts := p.fre && !value.getLsbD 4
    some ((), (s.clash i (p.cr && (starts || cuts))).put i
      { p with commandStatus := p.commanded value })
  | .writeListBase i value, s =>
    some ((), (s.clash i ((s.ports i).st || (s.ports i).cr)).put i
      { s.ports i with commandListBase := value })
  | .writeListUpper i value, s =>
    some ((), (s.clash i ((s.ports i).st || (s.ports i).cr)).put i
      { s.ports i with commandListBaseUpper := value })
  | .writeFisBase i value, s =>
    some ((), (s.clash i ((s.ports i).fre || (s.ports i).fr)).put i
      { s.ports i with fisBaseAddress := value })
  | .writeFisUpper i value, s =>
    some ((), (s.clash i ((s.ports i).fre || (s.ports i).fr)).put i
      { s.ports i with fisBaseAddressUpper := value })
  | .clearInterrupts _, s => some ((), s)
  | .clearErrors _, s => some ((), s)
  | .enableInterrupt i bit, s =>
    some ((), s.put i { s.ports i with
      interruptsEnabled := (s.ports i).interruptsEnabled ||| (1#32 <<< bit) })
  | .allocate size alignment, s =>
    some (hw.heap s.allocations size alignment, { s with allocations := s.allocations + 1 })
  | .writeEntry i slot entry, s =>
    some ((), { s with
      lists := Function.update s.lists i (Function.update (s.lists i) slot entry) })
  | .log _, s => some ((), s)

/-- The adapter turns its engines on only while ST or FRE is set, and off at any time. -/
structure Moves (p q : HbaPort) : Prop where
  rest : q = { p with commandStatus := q.commandStatus }
  bits : ∀ k, k ≠ 14 → k ≠ 15 → q.commandStatus.getLsbD k = p.commandStatus.getLsbD k
  cr : q.cr = true → p.cr = true ∨ p.st = true
  fr : q.fr = true → p.fr = true ∨ p.fre = true

inductive Engines (s : HbaState) : HbaState → Prop where
  | move (ports : Fin 32 → HbaPort) : (∀ i, Moves (s.ports i) (ports i)) →
      Engines s { s with ports }

/-! ### The driver -/

def hbaPerform (o : HbaOp) : HbaProgram o.Answer := Program.perform o

/-- `while (port->command_status & bits) {}`, with a bound for its turns. -/
def awaitClear (i : Fin 32) (bits : BitVec 32) : (turns : Nat) → HbaProgram Unit
  | 0 => .stuck
  | turns + 1 => do
    let command ← hbaPerform (.readCommand i)
    if command &&& bits ≠ 0 then awaitClear i bits turns else pure ()

/-- `ahci_port::stop` -/
def stopPort (turns : Nat) (i : Fin 32) : HbaProgram Unit := do
  let command ← hbaPerform (.readCommand i)
  hbaPerform (.writeCommand i (command &&& ~~~cmdST))
  awaitClear i cmdCR turns
  let command ← hbaPerform (.readCommand i)
  hbaPerform (.writeCommand i (command &&& ~~~cmdFRE))
  awaitClear i cmdFR turns

/-- `ahci_port::start` -/
def startPort (turns : Nat) (i : Fin 32) : HbaProgram Unit := do
  awaitClear i cmdCR turns
  let command ← hbaPerform (.readCommand i)
  hbaPerform (.writeCommand i (command ||| (cmdFRE ||| cmdST)))

/-- `allocate_virtual_memory`, whose memory is zero. -/
def allocateVirtualMemory (size alignment : Nat) : HbaProgram (BitVec 64) :=
  hbaPerform (.allocate size alignment)

inductive PortType where
  | none
  | sata
  | semb
  | pm
  | satapi
deriving DecidableEq, Repr

/-- What `configure` writes into the members of `ahci_port`. -/
structure PortRecord where
  type : PortType
  portNum : Fin 32
  numCommandSlots : Nat
  bitsIs64 : Bool
  active : Bool
  commandList : BitVec 64
  received : BitVec 64
  tables : Fin 32 → BitVec 64
  complete : Fin 32 → Bool
  error : Fin 32 → Bool
  hasErrored : Bool

def sizeofCommandHeader : Nat := 32
def sizeofReceivedFis : Nat := 256
def sizeofCommandTable : Nat := 256

def Machine.toPhysical (hw : Machine) (address : BitVec 64) : BitVec 64 := address - hw.hhdmOffset

def lowHalf (address : BitVec 64) : Nat := address.toNat % 2 ^ 32

/-- The upper half, which an adapter without 64-bit addresses does not have. -/
def upperHalf (bitsIs64 : Bool) (address : BitVec 64) : Nat :=
  if bitsIs64 then address.toNat / 2 ^ 32 else 0

/-- The entry that `configure` makes for a table. -/
def tableEntry (hw : Machine) (bitsIs64 : Bool) (table : BitVec 64) : ListEntry :=
  ⟨0, lowHalf (hw.toPhysical table), upperHalf bitsIs64 (hw.toPhysical table)⟩

/-- The loop over the command slots. -/
def makeTables (hw : Machine) (i : Fin 32) (bitsIs64 : Bool) :
    List (Fin 32) → (Fin 32 → BitVec 64) → HbaProgram (Fin 32 → BitVec 64)
  | [], tables => pure tables
  | slot :: rest, tables => do
    let table ← allocateVirtualMemory sizeofCommandTable 128
    hbaPerform (.writeEntry i slot (tableEntry hw bitsIs64 table))
    makeTables hw i bitsIs64 rest (Function.update tables slot table)

/-- Cold port detect, task file, host bus fatal and data, interface fatal, overflow, port multiplier,
unknown FIS, connect change, and device to host. -/
def enabledInterrupts : List Nat := [31, 30, 29, 28, 27, 24, 23, 4, 6, 0]

def enableInterrupts (i : Fin 32) : List Nat → HbaProgram Unit
  | [] => pure ()
  | bit :: rest => do
    hbaPerform (.enableInterrupt i bit)
    enableInterrupts i rest

/-- `ahci_port::configure` -/
def configure (hw : Machine) (turns : Nat) (type : PortType) (i : Fin 32) : HbaProgram PortRecord := do
  let capabilities ← hbaPerform .readCapabilities
  let bitsIs64 := capabilities.2
  stopPort turns i
  let commandList ← allocateVirtualMemory (sizeofCommandHeader * 32) 1024
  hbaPerform (.writeListBase i (lowHalf (hw.toPhysical commandList)))
  hbaPerform (.writeListUpper i (upperHalf bitsIs64 (hw.toPhysical commandList)))
  let received ← allocateVirtualMemory sizeofReceivedFis 256
  hbaPerform (.writeFisBase i (lowHalf (hw.toPhysical received)))
  hbaPerform (.writeFisUpper i (upperHalf bitsIs64 (hw.toPhysical received)))
  let tables ← makeTables hw i bitsIs64 (List.finRange 32) fun _ => 0
  startPort turns i
  hbaPerform (.clearInterrupts i)
  hbaPerform (.clearErrors i)
  enableInterrupts i enabledInterrupts
  pure ⟨type, i, capabilities.1, bitsIs64, true, commandList, received, tables, fun _ => false,
    fun _ => false, false⟩

/-- What `get_port_type` makes of the two registers. -/
def portType (ssts sig : Nat) : PortType :=
  if ssts &&& 0x7 ≠ 0x03 ∨ (ssts >>> 8) &&& 0x0F ≠ 0x1 then .none
  else if sig = 0xEB140101 then .satapi
  else if sig = 0x00000101 then .sata
  else if sig = 0xC33C0101 then .semb
  else if sig = 0x96690101 then .pm
  else .none

def logUnknown (type : PortType) : HbaProgram Unit :=
  if type = .none then hbaPerform (.log "&4Unknown port type %x") else pure ()

/-- `get_port_type` -/
def getPortType (i : Fin 32) : HbaProgram PortType := do
  let ssts ← hbaPerform (.readSsts i)
  if ssts &&& 0x7 ≠ 0x03 ∨ (ssts >>> 8) &&& 0x0F ≠ 0x1 then pure .none
  else do
    let sig ← hbaPerform (.readSig i)
    logUnknown (portType ssts sig)
    pure (portType ssts sig)

/-- The loop of `probe_ports`, with the ports configured so far. -/
def probePorts (hw : Machine) (turns : Nat) (implemented : BitVec 32) :
    List (Fin 32) → (Fin 32 → Option PortRecord) → HbaProgram (Fin 32 → Option PortRecord)
  | [], records => pure records
  | i :: rest, records =>
    if implemented.getLsbD i = true then do
      let type ← getPortType i
      if type = .sata ∨ type = .satapi then do
        let record ← configure hw turns type i
        probePorts hw turns implemented rest (Function.update records i (some record))
      else probePorts hw turns implemented rest records
    else probePorts hw turns implemented rest records

/-- `ahci::probe_ports`; no port is active before. -/
def probeAll (hw : Machine) (turns : Nat) : HbaProgram (Fin 32 → Option PortRecord) := do
  let implemented ← hbaPerform .readPortsImplemented
  probePorts hw turns implemented (List.finRange 32) fun _ => none

/-! ### Bits of `command_status` -/

variable {p q : HbaPort} {i : Fin 32}

/-! ### Assertions -/

/-- Of one port and its command list. -/
abbrev PortAssertion := HbaPort → (Fin 32 → ListEntry) → Prop

/-- The engines keep it. -/
def Steady (Q : PortAssertion) : Prop := ∀ p q l, Q p l → Moves p q → Q q l

/-- Nothing has clashed, `Q` holds of port `i` and `F` of the others. -/
structure Has (F : Fin 32 → PortAssertion) (i : Fin 32) (Q : PortAssertion) (s : HbaState) : Prop where
  clean : s.clashes = []
  here : Q (s.ports i) (s.lists i)
  others : ∀ j ≠ i, F j (s.ports j) (s.lists j)

variable {F : Fin 32 → PortAssertion} {Q Q' : PortAssertion} {s t : HbaState}

/-- From every state in `P`, whatever the engines do, nothing clashes at any time, and if `p` returns
then in `post`. -/
def Upholds {α : Type} (hw : Machine) (P : HbaState → Prop) (p : HbaProgram α)
    (post : α → HbaState → Prop) : Prop :=
  ∀ tr s, P s → p.Robust (hbaHandler hw) (fun _ => Engines) (fun _ s => s.clashes = []) tr s
    fun _ a t => post a t

variable {hw : Machine} {α β : Type} {P : HbaState → Prop}

section Operations

variable (steadyF : ∀ j, Steady (F j))
include steadyF

end Operations

/-! ### What the engines keep -/

/-- Does not speak of `command_status`. -/
def Fixed (Q : PortAssertion) : Prop := ∀ p l c, Q p l → Q { p with commandStatus := c } l

/-- ST is off, and so is its engine. -/
def Stopped : PortAssertion := fun p _ => p.st = false ∧ p.cr = false

/-- Both engines are off. -/
def Halted : PortAssertion := fun p _ => (p.st = false ∧ p.cr = false) ∧ p.fre = false ∧ p.fr = false

/-- Apart from the adapter's own bits, this is what is in `command_status`. -/
def Reads (v : BitVec 32) : PortAssertion := fun p _ =>
  ∀ k, k ≠ 14 → k ≠ 15 → p.commandStatus.getLsbD k = v.getLsbD k

/-! ### Stopping and starting -/

/-! ### One port -/

/-- The registers hold the addresses of these objects. -/
structure Addressed (hw : Machine) (bitsIs64 : Bool) (commandList received : BitVec 64) (p : HbaPort) :
    Prop where
  listBase : p.commandListBase = lowHalf (hw.toPhysical commandList)
  listUpper : p.commandListBaseUpper = upperHalf bitsIs64 (hw.toPhysical commandList)
  fisBase : p.fisBaseAddress = lowHalf (hw.toPhysical received)
  fisUpper : p.fisBaseAddressUpper = upperHalf bitsIs64 (hw.toPhysical received)

/-- The port runs with the objects of this record. -/
structure Serves (hw : Machine) (r : PortRecord) (p : HbaPort) (l : Fin 32 → ListEntry) : Prop
    extends Addressed hw r.bitsIs64 r.commandList r.received p where
  st : p.st = true
  fre : p.fre = true
  entries : ∀ slot, l slot = tableEntry hw r.bitsIs64 (r.tables slot)
  enabled : ∀ bit ∈ enabledInterrupts, p.interruptsEnabled.getLsbD bit = true

/-- What the record says of the adapter, and where its objects come from. -/
structure Made (hw : Machine) (type : PortType) (i : Fin 32) (r : PortRecord) : Prop where
  type : r.type = type
  portNum : r.portNum = i
  numCommandSlots : r.numCommandSlots = hw.numCommandSlots
  bitsIs64 : r.bitsIs64 = hw.supports64
  active : r.active = true
  idle : ∀ slot, r.complete slot = false ∧ r.error slot = false
  unharmed : r.hasErrored = false
  commandList : ∃ n, r.commandList = hw.heap n 1024 1024
  received : ∃ n, r.received = hw.heap n 256 256
  tables : ∀ slot, ∃ n, r.tables slot = hw.heap n 256 128

section Port

variable (steadyF : ∀ j, Steady (F j))
include steadyF

end Port

/-! ### All ports -/

/-- How `probe_ports` finds the adapter. -/
structure Found where
  ports : Fin 32 → HbaPort
  lists : Fin 32 → Fin 32 → ListEntry

def Found.start (found : Found) : HbaState := ⟨found.ports, found.lists, 0, []⟩

def Found.type (found : Found) (i : Fin 32) : PortType :=
  portType (found.ports i).ssts (found.ports i).sig

/-- There is a disk at an implemented port. -/
def Found.disk (found : Found) (implemented : BitVec 32) (i : Fin 32) : Prop :=
  implemented.getLsbD i = true ∧ (found.type i = .sata ∨ found.type i = .satapi)

/-- What a port is like with and without a record. -/
def Found.Outcome (found : Found) (hw : Machine) (i : Fin 32) : Option PortRecord → PortAssertion
  | none, p, l => Moves (found.ports i) p ∧ l = found.lists i
  | some r, p, l => Made hw (found.type i) i r ∧ Serves hw r p l

variable {found : Found}

/-- The ports of these records are configured, and the others as they were. -/
def Found.Sorted (found : Found) (hw : Machine) (records : Fin 32 → Option PortRecord) (s : HbaState) :
    Prop :=
  s.clashes = [] ∧ ∀ j, found.Outcome hw j (records j) (s.ports j) (s.lists j)

/-! ### Engines that are off -/

/-- No port has an engine on. -/
def Idle (s : HbaState) : Prop := ∀ i, (s.ports i).cr = false ∧ (s.ports i).fr = false

/-- While the engines are off, `p` returns and leaves them off. -/
def Returns (hw : Machine) (p : HbaProgram α) : Prop :=
  ∀ s, Idle s → ∃ r, p.run (hbaHandler hw) s = some r ∧ Idle r.2

/-! ### The run -/

def emptyPort : HbaPort := ⟨0, 0, 0, 0, 0, 0, 0, 0⟩

/-- A disk at port 0 and nothing at port 1. -/
def oneDisk : Found where
  ports i := if i = 0 then { emptyPort with sig := 0x101, ssts := 0x123 } else emptyPort
  lists _ _ := ⟨0, 0, 0⟩

/-- An adapter with two ports, whose allocations are 0x1000 bytes apart. -/
def twoPorts : Machine := ⟨0x3, 31, true, 0xFFFF800000000000, fun n _ _ =>
  0xFFFF800000100000 + BitVec.ofNat 64 (n * 0x1000)⟩

end KopalniaOS.Ahci
