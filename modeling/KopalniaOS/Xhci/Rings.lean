import KopalniaOS.Library.Interrupts
import KopalniaOS.Library.Ring
import KopalniaOS.Library.Word

/-!
# The rings of the xHCI driver

Command and transfer rings, which the driver writes and the controller reads, and the event
ring, where it is the other way round. The driver's private fields are values that its
functions take and return; the memory both sides see is behind operations.
-/
namespace KopalniaOS.Xhci

open Library

/-! ### Transfer request blocks -/

/-- `xhci_trb_t`: the last four fields are the members of `control`. -/
structure Trb where
  parameter : Nat
  status : Nat
  cycleBit : Bool
  rsvd : Nat
  trbType : Nat
  rsvd1 : Nat
deriving DecidableEq, Repr

def sizeofTrb : Nat := 16

/-- `XHCI_TRB_TYPE_LINK` -/
def typeLink : Nat := 6

/-- `XHCI_TRB_TYPE_CMD_COMPLETION_EVENT` -/
def typeCommandCompletionEvent : Nat := 33

namespace Trb

def zero : Trb := ⟨0, 0, false, 0, 0, 0⟩

/-- Assignment to the member `control`, which covers the four bit fields. -/
def withControl (trb : Trb) (control : Nat) : Trb :=
  { trb with
    cycleBit := control.testBit 0
    rsvd := control / 2 % 2 ^ 9
    trbType := control / 2 ^ 10 % 2 ^ 6
    rsvd1 := control / 2 ^ 16 % 2 ^ 16 }

/-- Everything but the cycle bit. -/
def body (trb : Trb) : Trb := { trb with cycleBit := false }

/-- The toggle-cycle bit of a link TRB. -/
def toggleCycle (trb : Trb) : Bool := trb.rsvd.testBit 0

/-- `completion_code` of a command completion event. -/
def completionCode (trb : Trb) : Nat := trb.status / 2 ^ 24 % 2 ^ 8

end Trb

/-- `(XHCI_TRB_TYPE_LINK << XHCI_TRB_TYPE_SHIFT) | XHCI_LINK_TRB_TC_BIT | m_rcs_bit` -/
def linkControl (rcsBit : Bool) : Nat := typeLink <<< 10 ||| 1 <<< 1 ||| rcsBit.toNat

/-! ### Rings that the driver writes -/

/-- Accesses to `m_trbs`. -/
inductive RingOp where
  | storeTrb (index : Nat) (trb : Trb)
  | storeParameter (index value : Nat)
  | storeControl (index value : Nat)

abbrev RingOp.Answer : RingOp → Type := fun _ => Unit

abbrev RingProgram := Program RingOp RingOp.Answer

def storeTrb (index : Nat) (trb : Trb) : RingProgram Unit :=
  Program.perform (RingOp.storeTrb index trb)

def storeParameter (index value : Nat) : RingProgram Unit :=
  Program.perform (RingOp.storeParameter index value)

def storeControl (index value : Nat) : RingProgram Unit :=
  Program.perform (RingOp.storeControl index value)

/-- The fields that both kinds of rings have. -/
structure TrbRing where
  maxTrbCount : Nat
  enqueuePtr : Nat
  physicalBase : Nat
  rcsBit : Bool
deriving DecidableEq, Repr

namespace TrbRing

/-- The constructor and `init` end with the last TRB as a link to the first one. -/
def setUpLink (ring : TrbRing) : RingProgram Unit := do
  storeParameter (ring.maxTrbCount - 1) ring.physicalBase
  storeControl (ring.maxTrbCount - 1) (linkControl ring.rcsBit)

def enqueue (ring : TrbRing) (trb : Trb) : RingProgram TrbRing := do
  let trb := { trb with cycleBit := ring.rcsBit }
  storeTrb ring.enqueuePtr trb
  let enqueuePtr := ring.enqueuePtr + 1
  if enqueuePtr = ring.maxTrbCount - 1 then do
    storeControl (ring.maxTrbCount - 1) (linkControl ring.rcsBit)
    pure { ring with enqueuePtr := 0, rcsBit := !ring.rcsBit }
  else pure { ring with enqueuePtr := enqueuePtr }

end TrbRing

/-- `xhci_command_ring` -/
structure CommandRing extends TrbRing
deriving DecidableEq, Repr

/-- `physicalBase` is where the zeroed memory of the ring was allocated. -/
def CommandRing.create (maxTrbs physicalBase : Nat) : RingProgram CommandRing := do
  let ring : CommandRing :=
    { maxTrbCount := maxTrbs, enqueuePtr := 0, physicalBase := physicalBase, rcsBit := true }
  ring.setUpLink
  pure ring

def CommandRing.enqueue (ring : CommandRing) (trb : Trb) : RingProgram CommandRing := do
  let fields ← ring.toTrbRing.enqueue trb
  pure ⟨fields⟩

/-- `xhci_transfer_ring` -/
structure TransferRing extends TrbRing where
  dequeuePtr : Nat
  doorbellId : Nat
deriving DecidableEq, Repr

/-- `init` returns -1 when there is no memory; `alloc_xhci_memory` waits for ever then. -/
def TransferRing.init (maxTrbs doorbellId physicalBase : Nat) : RingProgram TransferRing := do
  let ring : TransferRing :=
    { maxTrbCount := maxTrbs, rcsBit := true, dequeuePtr := 0, enqueuePtr := 0,
      doorbellId := doorbellId, physicalBase := physicalBase }
  ring.setUpLink
  pure ring

def TransferRing.enqueue (ring : TransferRing) (trb : Trb) : RingProgram TransferRing := do
  let fields ← ring.toTrbRing.enqueue trb
  pure { ring with toTrbRing := fields }

/-! ### The event ring -/

/-- Accesses to `m_trbs`, to the vector that `dequeue_events` fills, to the segment table and
to the registers of the interrupter. -/
inductive EventOp where
  | loadTrb (index : Nat)
  | pushBack (index : Nat)
  | storeEntry (ringSegmentBaseAddress ringSegmentSize : Nat)
  | writeErstsz (value : Nat)
  | writeErstba (value : Nat)
  | readErdp
  | writeErdp (value : Nat)
  | log (text : String)

abbrev EventOp.Answer : EventOp → Type
  | .loadTrb _ => Trb
  | .readErdp => Nat
  | _ => Unit

abbrev EventProgram := Program EventOp EventOp.Answer

def loadTrb (index : Nat) : EventProgram Trb := Program.perform (EventOp.loadTrb index)

def pushBack (index : Nat) : EventProgram Unit := Program.perform (EventOp.pushBack index)

def readErdp : EventProgram Nat := Program.perform EventOp.readErdp

def writeErdp (value : Nat) : EventProgram Unit := Program.perform (EventOp.writeErdp value)

def log (text : String) : EventProgram Unit := Program.perform (EventOp.log text)

/-- `xhci_event_ring` -/
structure EventRing where
  segmentTrbCount : Nat
  physicalBase : Nat
  dequeuePtr : Nat
  rcsBit : Bool
deriving DecidableEq, Repr

/-- `XHCI_ERDP_EHB` -/
def erdpEhb : Nat := 1 <<< 3

namespace EventRing

def updateErdp (ring : EventRing) : EventProgram Unit :=
  writeErdp (u64 (ring.physicalBase + ring.dequeuePtr * sizeofTrb))

/-- The constructor; the ring and its segment table are at `physicalBase` and `tableBase`. -/
def create (maxTrbs physicalBase tableBase : Nat) : EventProgram EventRing := do
  let ring : EventRing :=
    { segmentTrbCount := maxTrbs, rcsBit := true, dequeuePtr := 0, physicalBase := physicalBase }
  Program.perform (EventOp.storeEntry ring.physicalBase (ring.segmentTrbCount % 2 ^ 32))
  Program.perform (EventOp.writeErstsz 1)
  ring.updateErdp
  Program.perform (EventOp.writeErstba tableBase)
  pure ring

def hasUnprocessedEvents (ring : EventRing) : EventProgram Bool := do
  let trb ← loadTrb ring.dequeuePtr
  pure (trb.cycleBit == ring.rcsBit)

/-- The pointer that `_dequeue_trb` returns is the index of the TRB. -/
def dequeueTrb (ring : EventRing) : EventProgram (Option Nat × EventRing) := do
  let trb ← loadTrb ring.dequeuePtr
  if trb.cycleBit ≠ ring.rcsBit then do
    log "Event Ring attempted to dequeue an invalid TRB, returning nullptr!\n"
    pure (none, ring)
  else
    let ret := ring.dequeuePtr
    if ring.dequeuePtr + 1 = ring.segmentTrbCount then
      pure (some ret, { ring with dequeuePtr := 0, rcsBit := !ring.rcsBit })
    else pure (some ret, { ring with dequeuePtr := ring.dequeuePtr + 1 })

/-- The loop of `dequeue_events`, for at most `bound` events. -/
def drain : Nat → EventRing → EventProgram EventRing
  | 0, _ => .stuck
  | bound + 1, ring => do
    let more ← ring.hasUnprocessedEvents
    if more then do
      let (trb, ring) ← ring.dequeueTrb
      match trb with
      | none => pure ring
      | some index => do
        pushBack index
        drain bound ring
    else pure ring

def dequeueEvents (bound : Nat) (ring : EventRing) : EventProgram EventRing := do
  let ring ← ring.drain bound
  ring.updateErdp
  let erdp ← readErdp
  writeErdp (erdp ||| erdpEhb)
  pure ring

/-- The fields of a ring of `n` slots after `count` TRBs. -/
def placed (n base count : Nat) : EventRing := ⟨n, base, count % n, lapBit n count⟩

/-- `_dequeue_trb` leaves the fields as they are after one TRB more. -/
theorem dequeueTrb_placed {n : Nat} (pos : 0 < n) (base count : Nat) :
    (placed n base count).dequeueTrb = (do
      let trb ← loadTrb (count % n)
      if trb.cycleBit ≠ lapBit n count then do
        log "Event Ring attempted to dequeue an invalid TRB, returning nullptr!\n"
        pure (none, placed n base count)
      else pure (some (count % n), placed n base (count + 1))) := by
  -- behind the last entry of the segment the index starts over and the bit changes
  rcases succ_lap pos count with ⟨wraps, index, lap⟩ | ⟨inside, index, lap⟩
  · have ring : placed n base (count + 1) = ⟨n, base, 0, !lapBit n count⟩ := by
      rw [placed, index, lapBit, lap, succ_even]
      rfl
    have last : (placed n base count).dequeuePtr + 1 = (placed n base count).segmentTrbCount := wraps
    simp only [dequeueTrb, last, if_true, ring]
    rfl
  · have ring : placed n base (count + 1) = ⟨n, base, count % n + 1, lapBit n count⟩ := by
      rw [placed, index, lapBit, lap]
      rfl
    have notLast : (placed n base count).dequeuePtr + 1 ≠ (placed n base count).segmentTrbCount :=
      Nat.ne_of_lt inside
    simp only [dequeueTrb, notLast, if_false, ring]
    rfl

end EventRing

end KopalniaOS.Xhci
