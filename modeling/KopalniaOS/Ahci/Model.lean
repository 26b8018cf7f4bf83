import KopalniaOS.Library.Interrupts
import Mathlib.Data.Fin.Basic
import Mathlib.Data.List.FinRange

/-!
# The AHCI port

Issuing a command and polling for its completion, the interrupt handler, and the host bus
adapter that executes what was issued. The handler is a program of register accesses that
runs in one step; the poller is one that anything can interrupt.
-/
namespace KopalniaOS.Ahci

open Library

/-! ### Registers and state -/

abbrev Slot := Fin 32

/-- There is a lowest bit, which is what the literals of a `Slot` need. -/
scoped instance slots_nonempty : NeZero 32 := ⟨by decide⟩

/-- A register of 32 bits. -/
abbrev Register := Fin 32 → Bool

def bit (slot : Slot) : Register := fun i => i = slot

/-- What has become of the last command of a slot; no code reads it. -/
inductive Fate where
  | pending
  | completed
  | failed
deriving DecidableEq, Repr

/-- How `issue_command` ends: it returns true for `completed` and false for the others. -/
inductive Outcome where
  | completed
  | failed
  | timedOut
  | hung
deriving DecidableEq, Repr

/-- A call that has returned, with the fate of its command at that time. -/
structure Report where
  slot : Slot
  outcome : Outcome
  fate : Fate
deriving DecidableEq, Repr

/-- `current` is the slot field of `command_status`, `busy` says that `tfd` shows BSY or DRQ,
and `halted` that the adapter waits for ST to be cleared. -/
structure PortState where
  status : Register
  issue : Register
  sact : Register
  current : Slot
  busy : Bool
  running : Bool
  halted : Bool
  interruptFlag : Bool
  error : Slot → Bool
  hasErrored : Bool
  hasReceivedCommandData : Bool
  fate : Slot → Fate
  log : List Report

inductive PortOp where
  | readStatus
  | writeStatus (w : Register)
  | readIssue
  | writeIssue (w : Register)
  | readBusy
  | readCurrent
  | stop
  | start
  | comreset
  | setInterruptFlag (b : Bool)
  | readError (slot : Slot)
  | writeError (slot : Slot) (b : Bool)
  | readHasErrored
  | writeHasErrored (b : Bool)
  | readReceived
  | writeReceived (b : Bool)
  | log (text : String)

abbrev PortOp.Answer : PortOp → Type
  | .readStatus => Register
  | .readIssue => Register
  | .readBusy => Bool
  | .readCurrent => Slot
  | .readError _ => Bool
  | .readHasErrored => Bool
  | .readReceived => Bool
  | _ => Unit

abbrev PortProgram := Program PortOp PortOp.Answer

/-- Ones issue commands, and zeros change nothing. -/
def PortState.issued (s : PortState) (w : Register) : PortState :=
  { s with
    issue := fun i => s.issue i || w i
    fate := fun i => if w i && !s.issue i then .pending else s.fate i }

/-- The status is cleared by writing ones, and clearing ST clears what was issued. What
`comreset` does to the device is left to the adapter's own steps. -/
def portHandler : Handler PortOp PortOp.Answer PortState
  | .readStatus, s => some (s.status, s)
  | .writeStatus w, s => some ((), { s with status := fun i => s.status i && !w i })
  | .readIssue, s => some (s.issue, s)
  | .writeIssue w, s => some ((), s.issued w)
  | .readBusy, s => some (s.busy, s)
  | .readCurrent, s => some (s.current, s)
  | .stop, s => some ((), { s with running := false, halted := false, issue := fun _ => false })
  | .start, s => some ((), { s with running := true })
  | .comreset, s => some ((), s)
  | .setInterruptFlag b, s => some ((), { s with interruptFlag := b })
  | .readError slot, s => some (s.error slot, s)
  | .writeError slot b, s => some ((), { s with error := Function.update s.error slot b })
  | .readHasErrored, s => some (s.hasErrored, s)
  | .writeHasErrored b, s => some ((), { s with hasErrored := b })
  | .readReceived, s => some (s.hasReceivedCommandData, s)
  | .writeReceived b, s => some ((), { s with hasReceivedCommandData := b })
  | .log _, s => some ((), s)

def perform (o : PortOp) : PortProgram o.Answer := Program.perform o

/-! ### The poller -/

def waitForPort : Nat → PortProgram Bool
  | 0 => do
    perform (.log "Port is hung.")
    pure false
  | count + 1 => do
    let busy ← perform .readBusy
    if busy then waitForPort count else pure true

def waitForPortCompletion (slot : Slot) : Nat → PortProgram Outcome
  | 0 => do
    perform (.log "Command timed out.")
    perform (.writeError slot false)
    pure .timedOut
  | count + 1 => do
    let error ← perform (.readError slot)
    if error then do
      perform (.log "&4Command failed.")
      perform (.writeError slot false)
      pure .failed
    else do
      let issue ← perform .readIssue
      if issue slot = false then pure .completed
      else waitForPortCompletion slot count

/-- The last loop of `issue_command`. -/
def awaitData : Nat → PortProgram Unit
  | 0 => pure ()
  | count + 1 => do
    let received ← perform .readReceived
    if received then perform (.writeReceived false) else awaitData count

def portPolls : Nat := 100000000

def completionPolls : Nat := 100000000

def dataPolls : Nat := 10000000

def issueCommand (slot : Slot) : PortProgram Outcome := do
  let ready ← waitForPort portPolls
  if ready = false then pure .hung
  else do
    perform (.setInterruptFlag false)
    perform (.writeIssue (bit slot))
    perform (.setInterruptFlag true)
    let outcome ← waitForPortCompletion slot completionPolls
    if outcome ≠ .completed then pure outcome
    else do
      awaitData dataPolls
      pure .completed

/-! ### The interrupt handler -/

/-- Writing `serr` has no effect on anything modelled here. -/
def clearInterruptErrors : PortProgram Unit := do
  perform (.writeStatus fun _ => true)
  perform (.writeHasErrored false)

/-- A cause that is only reported. -/
def warnCause (is : Register) (cause : Slot) (text : String) : PortProgram Unit :=
  if is cause then perform (.log text) else pure ()

/-- A cause that asks for recovery. -/
def fatalCause (is : Register) (cause : Slot) (text : String) : PortProgram Unit :=
  if is cause then do
    perform (.log text)
    perform (.writeHasErrored true)
  else pure ()

def receivedCause (is : Register) : PortProgram Unit :=
  if is 0 then perform (.writeReceived true) else pure ()

/-- Issue what was pending again, but for the slot that failed. -/
def reissue (pending : Register) (errorSlot : Slot) : List Slot → PortProgram Unit
  | [] => pure ()
  | i :: is => do
    (if pending i && decide (i ≠ errorSlot) then do
        let issue ← perform .readIssue
        perform (.writeIssue fun j => issue j || bit i j)
      else pure ())
    reissue pending errorSlot is

/-- The slots below `num_command_slots`. -/
def slots (num : Nat) : List Slot := (List.finRange 32).filter fun i => i.val < num

def recover (num : Nat) : PortProgram Unit := do
  -- u8 error_slot = (port->command_status >> 8) & 0x1F
  let errorSlot ← perform .readCurrent
  let pending ← perform .readIssue
  perform .stop
  clearInterruptErrors
  let busy ← perform .readBusy
  (if busy then do
      perform .comreset
      perform (.log "Doing a comreset...")
    else pure ())
  perform .start
  perform (.writeError errorSlot true)
  reissue pending errorSlot (slots num)

def onInterrupt (num : Nat) : PortProgram Unit := do
  let is ← perform .readStatus
  clearInterruptErrors
  warnCause is 31 "AHCI: Device on port %i has been removed or unable to be detected!"
  fatalCause is 30 "AHCI: task file error (tfd: %x)"
  fatalCause is 29 "AHCI: host bus fatal error"
  fatalCause is 28 "AHCI: host bus data error"
  fatalCause is 27 "AHCI: interface fatal error (serr: %x)"
  warnCause is 26 "AHCI: interface non-fatal error (serr: %x)"
  warnCause is 24 "AHCI: overflow error"
  warnCause is 23 "AHCI: incorrect port multiplier"
  warnCause is 22 "AHCI: PHY ready change"
  warnCause is 6 "AHCI: device connected/disconnected on port %i"
  receivedCause is
  let errored ← perform .readHasErrored
  if errored then recover num else pure ()

/-! ### The adapter -/

/-- The status bits of fatal errors. -/
def Fatal (cause : Slot) : Prop := 27 ≤ cause.val ∧ cause.val ≤ 30

instance (cause : Slot) : Decidable (Fatal cause) := inferInstanceAs (Decidable (_ ∧ _))

/-- What the adapter does on its own. It works on issued slots while ST is set, and after a
fatal error not before ST has been cleared. -/
inductive HbaStep : PortState → PortState → Prop where
  | complete {s slot} : s.running = true → s.halted = false → s.issue slot = true →
      HbaStep s { s with
        issue := Function.update s.issue slot false
        fate := Function.update s.fate slot .completed }
  | fail {s slot cause} : s.running = true → s.halted = false → s.issue slot = true →
      Fatal cause →
      HbaStep s { s with
        status := Function.update s.status cause true
        current := slot
        halted := true
        fate := Function.update s.fate slot .failed }
  | fetch {s slot} : s.running = true → s.halted = false → s.issue slot = true →
      HbaStep s { s with current := slot }
  | raise {s cause} : ¬Fatal cause →
      HbaStep s { s with status := Function.update s.status cause true }
  | device {s} (busy : Bool) : HbaStep s { s with busy := busy }

/-- The handler runs, when the processor takes interrupts. -/
def Interrupt (num : Nat) (s t : PortState) : Prop :=
  s.interruptFlag = true ∧ (onInterrupt num).run portHandler s = some ((), t)

/-! ### Sequences of commands -/

/-- `get_command_slot` -/
def getCommandSlot (num : Nat) (s : PortState) : Option Slot :=
  (slots num).find? fun i => !(s.sact i || s.issue i)

/-- The latest thing the poller did was to read the error flag and find it clear, so the read of
what is issued is still to come in this round. -/
def Between (slot : Slot) : History PortOp PortOp.Answer → Prop
  | ⟨.readError polled, error⟩ :: _ => polled = slot ∧ error = false
  | _ => False

/-- The handler would recover from a failure of `slot`. -/
def Recovers (slot : Slot) (s : PortState) : Prop :=
  s.current = slot ∧ ∃ cause, Fatal cause ∧ s.status cause = true

/-- Commands one after the other, each on a slot that `get_command_slot` gave, with the
adapter and the handler at work all the time. `read`, `write` and `identify` clear the status
before they ask for a slot. A careful run has only slots without an old error flag, and no
recovery of the polled slot between the two reads of one round. -/
def session (num : Nat) (careful : Prop) :
    Session PortOp PortOp.Answer PortState Slot fun _ => Outcome where
  handler := portHandler
  enter slot s t :=
    getCommandSlot num s = some slot ∧ (careful → s.error slot = false) ∧ t = s
  code slot _ := issueCommand slot
  leave slot outcome s := { s with log := ⟨slot, outcome, s.fate slot⟩ :: s.log }
  busyEnv slot tr s t :=
    HbaStep s t ∨ (Interrupt num s t ∧ (careful → ¬(Between slot tr ∧ Recovers slot s)))
  idleEnv s t :=
    HbaStep s t ∨ Interrupt num s t ∨ clearInterruptErrors.run portHandler s = some ((), t)

/-- The port as `configure` leaves it. -/
structure Configured (s : PortState) : Prop where
  status : ∀ i, s.status i = false
  issue : ∀ i, s.issue i = false
  error : ∀ i, s.error i = false
  halted : s.halted = false
  log : s.log = []

/-- True is returned for commands that completed, and the error flag is only answered for by
commands that failed. -/
def Honest (r : Report) : Prop :=
  (r.outcome = .completed → r.fate = .completed) ∧ (r.outcome = .failed → r.fate = .failed)

end KopalniaOS.Ahci
