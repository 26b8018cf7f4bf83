import KopalniaOS.Library.BitField
import KopalniaOS.Library.Rely

/-!
# Finding the keyboard

`probe` sets up the controller of the keyboard and the mouse and what is connected to it. All of that
goes through two ports, and the answers take their time.
-/
namespace KopalniaOS.Ps2

open Library

/-! ### The machine -/

/-- `uacpi_resource`, as `find_irq` looks at it; `irqs[0]` is the line of an interrupt. -/
inductive Resource where
  | irq (line : BitVec 8)
  | other
deriving DecidableEq, Repr

/-- The warnings and errors. What is only reported is left out. -/
inductive Message where
  | noResources
  | selfTest (value : BitVec 8)
  | scanning
  | identify (value : BitVec 8)
  | enableScanning (value : BitVec 8)
  | setScancode (value : BitVec 8)
  | noIrq
  | unknownDevice (id1 id2 : BitVec 8)
  | commandTimedOut
  | readTimedOut
  | resetFailed (device : Int)
deriving DecidableEq, Repr

/-- `findFadt` answers with `iapc_boot_arch`, if the table is there. -/
inductive Ps2Op where
  | inb (port : Nat)
  | outb (port : Nat) (value : BitVec 8)
  | setIntFlag (flag : Bool)
  | findFadt
  | getCurrentResources
  | freeResources
  | installHandler (irqNo : BitVec 8)
  | log (message : Message)
deriving DecidableEq

abbrev Ps2Op.Answer : Ps2Op → Type
  | .inb _ => BitVec 8
  | .findFadt => Option (BitVec 16)
  | .getCurrentResources => Option (List Resource)
  | _ => Unit

abbrev Ps2Program := Program Ps2Op Ps2Op.Answer

def perform (o : Ps2Op) : Ps2Program o.Answer := Program.perform o

/-- What answers at the ports. -/
structure Hardware (H : Type) where
  inb : Nat → H → BitVec 8 × H
  outb : Nat → BitVec 8 → H → H

/-- `held` counts the lists of resources that have not been freed, `installed` are the lines on which
`keyboard_interrupt` was installed, and `received` is what it has read. -/
structure Machine (H : Type) where
  hw : H
  intFlag : Bool
  fadt : Option (BitVec 16)
  resources : Option (List Resource)
  held : Nat
  installed : List (BitVec 8)
  received : List (BitVec 8)

variable {H : Type}

def ps2Handler (hardware : Hardware H) : Handler Ps2Op Ps2Op.Answer (Machine H)
  | .inb port, m =>
    let r := hardware.inb port m.hw
    some (r.1, { m with hw := r.2 })
  | .outb port value, m => some ((), { m with hw := hardware.outb port value m.hw })
  | .setIntFlag flag, m => some ((), { m with intFlag := flag })
  | .findFadt, m => some (m.fadt, m)
  | .getCurrentResources, m =>
    some (m.resources, { m with held := m.held + if m.resources.isSome = true then 1 else 0 })
  | .freeResources, m => some ((), { m with held := m.held - 1 })
  | .installHandler irqNo, m => some ((), { m with installed := m.installed ++ [irqNo] })
  | .log _, m => some ((), m)

/-! ### Registers -/

def inputPort : Nat := 0x64
def dataPort : Nat := 0x60
def outputPort : Nat := 0x60

/-- `status_register` -/
def outputBufferStatus (status : BitVec 8) : Bool := status.getLsbD 0

def inputBufferStatus (status : BitVec 8) : Bool := status.getLsbD 1

/-- `config_register` -/
def firstPortInterrupt : BitField := ⟨0, 1⟩
def secondPortInterrupt : BitField := ⟨1, 1⟩
def firstPortClock : BitField := ⟨4, 1⟩
def secondPortClock : BitField := ⟨5, 1⟩
def firstPortTranslation : BitField := ⟨6, 1⟩

def readStatus : Ps2Program (BitVec 8) := perform (.inb inputPort)

def commandPolls : Nat := 1000000
def readPolls : Nat := 10000000

def waitForCommandCompletion : Ps2Program Unit :=
  Program.poll (do
    let status ← readStatus
    pure (!inputBufferStatus status)) (perform (.log .commandTimedOut)) commandPolls

def waitForRead : Ps2Program Unit :=
  Program.poll (do
    let status ← readStatus
    pure (outputBufferStatus status)) (perform (.log .readTimedOut)) readPolls

/-- A byte written to the first port, and the wait that follows all but one of these writes. -/
def command (value : BitVec 8) : Ps2Program Unit := do
  perform (.outb inputPort value)
  waitForCommandCompletion

/-- A byte that is waited for. -/
def receive : Ps2Program (BitVec 8) := do
  waitForRead
  perform (.inb outputPort)

def readConfig : Ps2Program (BitVec 8) := do
  perform (.outb inputPort 0x20)
  receive

/-- The data follow the command without a wait. -/
def writeConfig (config : BitVec 8) : Ps2Program Unit := do
  perform (.outb inputPort 0x60)
  perform (.outb dataPort config)
  waitForCommandCompletion

/-- The loop that empties the output buffer, with the turns that it may take. -/
def flush : (turns : Nat) → Ps2Program Unit
  | 0 => .stuck
  | turns + 1 => do
    let status ← readStatus
    if outputBufferStatus status = true then do
      let _ ← perform (.inb outputPort)
      flush turns
    else pure ()

def sendDataToDevice (device : Int) (data : BitVec 8) : Ps2Program Unit :=
  if device = 1 then do
    waitForCommandCompletion
    perform (.outb dataPort data)
    waitForCommandCompletion
  else if device = 2 then do
    perform (.outb inputPort 0xD4)
    waitForCommandCompletion
    perform (.outb dataPort data)
    waitForCommandCompletion
  else pure ()

def resetDevice (device : Int) : Ps2Program Bool := do
  sendDataToDevice device 0xFF
  let byte1 ← receive
  let byte2 ← receive
  let bat := if byte1 = 0xFA then byte2 else byte1
  if bat = 0xFC then do
    perform (.log (.resetFailed device))
    pure false
  else pure true

/-! ### The parts of `probe` -/

def disablePorts : Ps2Program Unit := do
  command 0xAD
  command 0xA7

def configure : Ps2Program Unit := do
  let config ← readConfig
  let config := firstPortInterrupt.set config 0
  let config := secondPortInterrupt.set config 0
  let config := firstPortTranslation.set config 0
  let config := firstPortClock.set config 0
  writeConfig config

/-- The test resets the configuration on some controllers. -/
def selfTest : Ps2Program Bool := do
  let savedConfig ← readConfig
  command 0xAA
  let selfTest ← receive
  if selfTest ≠ 0x55 then do
    perform (.log (.selfTest selfTest))
    pure false
  else do
    writeConfig savedConfig
    pure true

/-- Whether there is a second port. -/
def checkPortCount : Ps2Program Bool := do
  command 0xA8
  let config ← readConfig
  if secondPortClock.get config = 0 then do
    command 0xA7
    let config := secondPortInterrupt.set config 0
    let config := secondPortClock.set config 0
    writeConfig config
    pure true
  else pure false

def enablePorts (dualChannel : Bool) : Ps2Program Unit := do
  let finalConfig ← readConfig
  command 0xAE
  let finalConfig := firstPortInterrupt.set finalConfig 1
  let finalConfig := firstPortClock.set finalConfig 0
  if dualChannel = true then do
    command 0xA8
    let finalConfig := secondPortInterrupt.set finalConfig 1
    let finalConfig := secondPortClock.set finalConfig 0
    writeConfig finalConfig
  else writeConfig finalConfig

def ack : BitVec 8 := 0xFA

/-- A warning about a device that did not acknowledge what it was told. -/
def expectAck (value : BitVec 8) (message : Message) : Ps2Program Unit :=
  if value ≠ ack then perform (.log message) else pure ()

/-- What the device on the first port is told, and what it says that it is. -/
def setUpDevice : Ps2Program (BitVec 8 × BitVec 8) := do
  let _ ← resetDevice 1
  sendDataToDevice 1 0xF5
  let disableAck ← receive
  expectAck disableAck .scanning
  sendDataToDevice 1 0xF2
  let identifyAck ← receive
  expectAck identifyAck (.identify identifyAck)
  let id1 ← receive
  let id2 ← receive
  sendDataToDevice 1 0xF4
  let enableAck ← receive
  expectAck enableAck (.enableScanning enableAck)
  sendDataToDevice 1 0xF0
  sendDataToDevice 1 1
  let setScancodeAck ← receive
  expectAck setScancodeAck (.setScancode setScancodeAck)
  pure (id1, id2)

/-- `find_irq` on every resource, until there is one -/
def findIrq (kbRes : List Resource) : Option (BitVec 8) :=
  kbRes.findSome? fun
    | .irq line => some line
    | .other => none

def installKeyboard (kbRes : List Resource) (id1 id2 : BitVec 8) : Ps2Program Unit :=
  if id1 = 0xAB then
    match findIrq kbRes with
    | some line => perform (.installHandler line)
    | none => do
      perform (.log .noIrq)
      perform (.installHandler 1)
  else if id1 = 0x00 ∨ id1 = 0x03 ∨ id1 = 0x04 then pure ()
  else perform (.log (.unknownDevice id1 id2))

def resetSecond (dualChannel : Bool) : Ps2Program Unit :=
  if dualChannel = true then do
    let _ ← resetDevice 2
    pure ()
  else pure ()

def enodev : Int := 19

def statusOk : Int := 0

def probeController (turns : Nat) (kbRes : List Resource) : Ps2Program Int := do
  disablePorts
  flush turns
  configure
  let passed ← selfTest
  if passed = false then do
    perform (.setIntFlag true)
    pure (-enodev)
  else do
    let dualChannel ← checkPortCount
    enablePorts dualChannel
    let id ← setUpDevice
    installKeyboard kbRes id.1 id.2
    resetSecond dualChannel
    perform .freeResources
    perform (.setIntFlag true)
    flush turns
    pure statusOk

def probe (turns : Nat) : Ps2Program Int := do
  perform (.setIntFlag false)
  let fadt ← perform .findFadt
  match fadt with
  | none => do
    perform (.setIntFlag true)
    pure (-enodev)
  | some iapcBootArch => do
    let resources ← perform .getCurrentResources
    match resources with
    | none => do
      perform (.log .noResources)
      perform (.setIntFlag true)
      pure (-enodev)
    | some kbRes =>
      -- the list is not freed where the probe fails from here on
      if iapcBootArch &&& 0x2 = 0 then do
        perform (.setIntFlag true)
        pure (-enodev)
      else probeController turns kbRes

end KopalniaOS.Ps2
