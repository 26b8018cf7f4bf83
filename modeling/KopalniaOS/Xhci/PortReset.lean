import KopalniaOS.Library.Program
import KopalniaOS.Xhci.ExtendedCapabilities

/-!
# Resetting a port

`_reset_port` writes back values of PORTSC that it has read before, with some bits set. The
register has bits that a write of a one clears, and PED, which enables the port, is one of them.
-/
namespace KopalniaOS.Xhci

open Library

/-! ### The register -/

/-- `xhci_portsc_register`, as its member `raw`. -/
abbrev Portsc := BitVec 32

/-- The bit fields of the register that the driver uses, all one bit wide. -/
inductive PortscField where
  | ccs
  | ped
  | pr
  | pp
  | csc
  | pec
  | wrc
  | prc
  | wpr
deriving DecidableEq, Repr

def PortscField.position : PortscField → Nat
  | .ccs => 0
  | .ped => 1
  | .pr => 4
  | .pp => 9
  | .csc => 17
  | .pec => 18
  | .wrc => 19
  | .prc => 21
  | .wpr => 31

theorem PortscField.position_lt (field : PortscField) : field.position < 32 := by
  cases field <;> decide

theorem PortscField.position_inj {field other : PortscField} :
    field.position = other.position ↔ field = other := by
  cases field <;> cases other <;> decide

namespace Portsc

def get (portsc : Portsc) (field : PortscField) : Bool := portsc.getLsbD field.position

/-- Assignment to a bit field. -/
def set (portsc : Portsc) (field : PortscField) (value : Bool) : Portsc :=
  if value then portsc ||| BitVec.twoPow 32 field.position
  else portsc &&& ~~~BitVec.twoPow 32 field.position

@[simp] theorem get_set (portsc : Portsc) (field other : PortscField) (value : Bool) :
    (portsc.set field value).get other = if field = other then value else portsc.get other := by
  have small := other.position_lt
  by_cases same : field = other
  · rw [same]
    cases value <;> simp [get, set, small]
  · have apart : other.position ≠ field.position := fun equal =>
      same (PortscField.position_inj.mp equal).symm
    cases value <;> simp [get, set, small, same, apart]

end Portsc

/-! ### The function -/

inductive PortOp where
  | load (address : Nat)
  | store (address : Nat) (value : Portsc)
  | sleep (milliseconds : Nat)
  | log (text : String) (port : UInt8)

abbrev PortOp.Answer : PortOp → Type
  | .load _ => Portsc
  | _ => Unit

abbrev PortProgram := Program PortOp PortOp.Answer

def readPortscReg (opRegs : Nat) (portNum : UInt8) : PortProgram Portsc :=
  Program.perform (PortOp.load (opRegs + (0x400 + 0x10 * portNum.toNat)))

def writePortscReg (opRegs : Nat) (reg : Portsc) (portNum : UInt8) : PortProgram Unit :=
  Program.perform (PortOp.store (opRegs + (0x400 + 0x10 * portNum.toNat)) reg)

def sleep (milliseconds : Nat) : PortProgram Unit := Program.perform (PortOp.sleep milliseconds)

def logPort (text : String) (port : UInt8) : PortProgram Unit := Program.perform (PortOp.log text port)

/-- The polling loop: what is left of `timeout`, and the last value read. -/
def awaitReset (opRegs : Nat) (portNum : UInt8) (isUsb3 : Bool) :
    Nat → Portsc → PortProgram (Nat × Portsc)
  | 0, portsc => pure (0, portsc)
  | timeout + 1, _ => do
    let portsc ← readPortscReg opRegs portNum
    if (isUsb3 && portsc.get .wrc) || (!isUsb3 && portsc.get .prc) then pure (timeout + 1, portsc)
    else do
      sleep 10
      awaitReset opRegs portNum isUsb3 timeout portsc

/-- `_reset_port` after the reset has been asked for. -/
def finishReset (opRegs : Nat) (portNum : UInt8) (isUsb3 : Bool) (portsc : Portsc) :
    PortProgram Bool := do
  let (timeout, portsc) ← awaitReset opRegs portNum isUsb3 10 portsc
  if timeout = 0 then do
    logPort "Port #%au Port reset failed timed out" portNum
    pure false
  else do
    sleep 10
    let portsc := ((((portsc.set .prc true).set .wrc true).set .csc true).set .pec true).set .ped false
    writePortscReg opRegs portsc portNum
    sleep 10
    let portsc ← readPortscReg opRegs portNum
    pure (portsc.get .ped)

/-- `_reset_port` from where the port has power. -/
def resetPowered (opRegs : Nat) (portNum : UInt8) (isUsb3 : Bool) (portsc : Portsc) :
    PortProgram Bool := do
  let portsc := ((portsc.set .csc true).set .pec true).set .prc true
  writePortscReg opRegs portsc portNum
  let portsc := if isUsb3 then portsc.set .wpr true else portsc.set .pr true
  writePortscReg opRegs portsc portNum
  finishReset opRegs portNum isUsb3 portsc

def resetPort (opRegs : Nat) (usb3Ports : List UInt8) (portNum : UInt8) : PortProgram Bool := do
  let portsc ← readPortscReg opRegs portNum
  let isUsb3 := isUsb3Port usb3Ports portNum
  if portsc.get .pp = false then do
    writePortscReg opRegs (portsc.set .pp true) portNum
    sleep 20
    let portsc ← readPortscReg opRegs portNum
    if portsc.get .pp = false then do
      logPort "&cPort #&a%u &cFailed to power" portNum
      pure false
    else resetPowered opRegs portNum isUsb3 portsc
  else resetPowered opRegs portNum isUsb3 portsc

/-! ### What it writes -/

/-- The register answers read number `i` with `reads i`; the state counts the reads. -/
def portHandler (reads : Nat → Portsc) : Handler PortOp PortOp.Answer Nat
  | .load _, count => some (reads count, count + 1)
  | .store .., count => some ((), count)
  | .sleep _, count => some ((), count)
  | .log .., count => some ((), count)

/-- Whatever this operation writes leaves PED alone: a one there disables the port. -/
def LeavesEnabled (o : PortOp) : Prop := ∀ address value, o = .store address value → value.get .ped = false

theorem leavesEnabled_store (address : Nat) (value : Portsc) :
    LeavesEnabled (.store address value) ↔ value.get .ped = false := by
  constructor
  · intro leaves
    exact leaves address value rfl
  · rintro clear _ _ ⟨⟩
    exact clear

theorem leavesEnabled_load (address : Nat) : LeavesEnabled (.load address) :=
  fun _ _ isStore => by cases isStore

theorem leavesEnabled_sleep (milliseconds : Nat) : LeavesEnabled (.sleep milliseconds) :=
  fun _ _ isStore => by cases isStore

theorem leavesEnabled_log (text : String) (port : UInt8) : LeavesEnabled (.log text port) :=
  fun _ _ isStore => by cases isStore

section Reset

variable (opRegs : Nat) (portNum : UInt8) (isUsb3 : Bool)

theorem awaitReset_leavesEnabled (timeout : Nat) (portsc : Portsc) :
    (awaitReset opRegs portNum isUsb3 timeout portsc).Always LeavesEnabled := by
  induction timeout generalizing portsc with
  | zero => trivial
  | succ timeout ih =>
    rw [awaitReset, readPortscReg, Program.always_perform_bind]
    refine ⟨leavesEnabled_load _, fun portsc => ?_⟩
    split
    · trivial
    · exact ⟨leavesEnabled_sleep _, fun _ => ih portsc⟩

/-- The last write has PED cleared in what was read. -/
theorem finishReset_leavesEnabled (portsc : Portsc) :
    (finishReset opRegs portNum isUsb3 portsc).Always LeavesEnabled := by
  apply (awaitReset_leavesEnabled opRegs portNum isUsb3 10 portsc).bind
  rintro ⟨timeout, portsc⟩
  show (if timeout = 0 then _ else _ : PortProgram Bool).Always _
  split
  · exact ⟨leavesEnabled_log _ _, fun _ => trivial⟩
  · refine ⟨leavesEnabled_sleep _, fun _ => ⟨?_, fun _ => ⟨leavesEnabled_sleep _, fun _ =>
      ⟨leavesEnabled_load _, fun _ => trivial⟩⟩⟩⟩
    rw [leavesEnabled_store]
    simp

variable (reads : Nat → Portsc)

theorem all_writePortscReg {α : Type} (reg : Portsc) (f : Unit → PortProgram α) (count : Nat) :
    (writePortscReg opRegs reg portNum >>= f).All (portHandler reads) (fun o _ => LeavesEnabled o) count ↔
      reg.get .ped = false ∧ (f ()).All (portHandler reads) (fun o _ => LeavesEnabled o) count := by
  rw [writePortscReg, Program.all_perform_bind, leavesEnabled_store]
  apply and_congr_right
  intro _
  exact ⟨fun rest => rest ((), count) rfl, fun rest r answer => by cases answer; exact rest⟩

theorem all_readPortscReg {α : Type} (f : Portsc → PortProgram α) (count : Nat) :
    (readPortscReg opRegs portNum >>= f).All (portHandler reads) (fun o _ => LeavesEnabled o) count ↔
      (f (reads count)).All (portHandler reads) (fun o _ => LeavesEnabled o) (count + 1) := by
  rw [readPortscReg, Program.all_perform_bind]
  constructor
  · intro all
    exact all.2 (reads count, count + 1) rfl
  · intro rest
    refine ⟨leavesEnabled_load _, fun r answer => ?_⟩
    cases answer
    exact rest

/-- The two writes that ask for the reset have PED as it was read. -/
theorem resetPowered_leavesEnabled_iff (portsc : Portsc) (count : Nat) :
    (resetPowered opRegs portNum isUsb3 portsc).All (portHandler reads) (fun o _ => LeavesEnabled o)
      count ↔ portsc.get .ped = false := by
  have rest : ∀ portsc count, (finishReset opRegs portNum isUsb3 portsc).All (portHandler reads)
      (fun o _ => LeavesEnabled o) count :=
    fun portsc count =>
      (finishReset_leavesEnabled opRegs portNum isUsb3 portsc).all (fun _ _ leaves => leaves) count
  rw [resetPowered, all_writePortscReg, all_writePortscReg]
  cases isUsb3 <;> simp [rest]

/-- PED is clear in the values of PORTSC that are written back: the first one read, and the one
read after a successful power-on. -/
def ReadsDisabled (reads : Nat → Portsc) : Prop :=
  (reads 0).get .ped = false ∧
    ((reads 0).get .pp = false → (reads 1).get .pp = true → (reads 1).get .ped = false)

/-- Resetting a port disables it unless it was not enabled. -/
theorem resetPort_leavesEnabled_iff (usb3Ports : List UInt8) :
    (resetPort opRegs usb3Ports portNum).All (portHandler reads) (fun o _ => LeavesEnabled o) 0 ↔
      ReadsDisabled reads := by
  rw [resetPort, all_readPortscReg]
  cases power : (reads 0).get .pp with
  | true =>
    rw [if_neg Bool.noConfusion, resetPowered_leavesEnabled_iff]
    simp [ReadsDisabled, power]
  | false =>
    have sleeps : ∀ f : Unit → PortProgram Bool,
        (sleep 20 >>= f).All (portHandler reads) (fun o _ => LeavesEnabled o) 1 ↔
          (f ()).All (portHandler reads) (fun o _ => LeavesEnabled o) 1 := by
      intro f
      rw [sleep, Program.all_perform_bind]
      exact ⟨fun all => all.2 ((), 1) rfl,
        fun rest => ⟨leavesEnabled_sleep _, fun r answer => by cases answer; exact rest⟩⟩
    rw [if_pos rfl, all_writePortscReg, sleeps, all_readPortscReg]
    cases again : (reads 1).get .pp with
    | true =>
      rw [if_neg Bool.noConfusion, resetPowered_leavesEnabled_iff]
      simp [ReadsDisabled, power, again]
    | false =>
      -- the port has no power, and nothing more is written
      have fails : (logPort "&cPort #&a%u &cFailed to power" portNum >>= fun _ =>
          (pure false : PortProgram Bool)).All (portHandler reads) (fun o _ => LeavesEnabled o) 2 :=
        (Program.all_perform_bind _ _ _).mpr ⟨leavesEnabled_log _ _, fun r _ => Program.all_ret _ _⟩
      have disabled : ReadsDisabled reads ↔ (reads 0).get .ped = false := by
        simp [ReadsDisabled, power, again]
      have kept : ((reads 0).set .pp true).get .ped = (reads 0).get .ped := by simp
      rw [if_pos rfl, disabled, kept]
      exact and_iff_left fails

/-- A USB 3 port that is connected, enabled and powered. -/
def enabledPort : Portsc := (((0 : Portsc).set .ccs true).set .ped true).set .pp true

/-- The first write after reading an enabled port disables it. -/
theorem not_leavesEnabled_enabledPort :
    ¬ (resetPort 0x1000 [0] 0).All (portHandler fun _ => enabledPort) (fun o _ => LeavesEnabled o) 0 := by
  intro all
  have power : enabledPort.get .pp = true := by simp [enabledPort]
  simp only [resetPort, readPortscReg, Program.all_perform_bind] at all
  have powered := all.2 (enabledPort, 1) rfl
  rw [power, if_neg Bool.noConfusion, resetPowered_leavesEnabled_iff] at powered
  simp [enabledPort] at powered

end Reset

end KopalniaOS.Xhci
