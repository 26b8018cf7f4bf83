import KopalniaOS.Library.Interrupts
import KopalniaOS.Network.Responder
import KopalniaOS.Paging.Model

/-!
# Transmission by the RTL8139

`send` copies a frame into the next of four buffers and hands the buffer to the device. The device
fetches the bytes whenever it wants to and then gives the buffer back; `send` does not ask.
-/
namespace KopalniaOS.Rtl8139

open Library Network
open Paging (toPhysical)

/-! ### Operations -/

/-- `store` goes to the buffer of a slot. -/
inductive TxOp where
  | store (slot width offset value : Nat)
  | writeTsad (slot address : Nat)
  | writeTsd (slot value : Nat)
  | logError (text : String) (value : Nat)

abbrev TxOp.Answer : TxOp → Type := fun _ => Unit

abbrev TxProgram := Program TxOp TxOp.Answer

def perform (o : TxOp) : TxProgram Unit := Program.perform o

/-- A frame that the device works on: what was passed to the call of `send` that started it, the
length in `TSD`, and the bytes fetched so far. -/
structure Transfer where
  data : List UInt8
  length : Nat
  fetched : List UInt8
deriving DecidableEq, Repr

/-- `txBuffers` are the pointers to the buffers, and `buffers` is what they contain. `owned` are the
transfers of the slots that the device owns, `transmitted` those that are complete. `sending` is the
frame of the last call of `send`, and `clobbered` the slots that were written while the device owned
them. -/
structure TxState where
  hhdmOffset : Nat
  txSlot : Nat
  txBuffers : Nat → Nat
  buffers : Nat → Memory
  tsad : Nat → Nat
  owned : Nat → Option Transfer
  sending : List UInt8
  transmitted : List Transfer
  clobbered : List Nat

/-- The driver writes something that belongs to this slot. -/
def TxState.touch (s : TxState) (slot : Nat) : TxState :=
  if (s.owned slot).isSome = true then { s with clobbered := slot :: s.clobbered } else s

def txHandler : Handler TxOp TxOp.Answer TxState
  | .store slot width offset value, s =>
    some ((), { s.touch slot with
      buffers := Function.update s.buffers slot ((s.buffers slot).store width offset value) })
  | .writeTsad slot address, s =>
    some ((), { s.touch slot with tsad := Function.update s.tsad slot address })
  | .writeTsd slot value, s =>
    some ((), { s.touch slot with
      owned := Function.update s.owned slot (some ⟨s.sending, value, []⟩) })
  | .logError _ _, s => some ((), s)

/-! ### `RTL8139::send` -/

/-- The loop over words of `mem::memcpy`; it gives its index. -/
def copyWords (slot : Nat) (data : Memory) (size i : Nat) : TxProgram Nat :=
  if i + 8 < size then do
    perform (.store slot 8 i (data.load 8 i))
    copyWords slot data size (i + 8)
  else pure i
termination_by size - i

def copyBytes (slot : Nat) (data : Memory) (size i : Nat) : TxProgram Unit :=
  if i < size then do
    perform (.store slot 1 i (data.load 1 i))
    copyBytes slot data size (i + 1)
  else pure ()
termination_by size - i

/-- `mem::memcpy` into the buffer of a slot. -/
def copyFrame (slot : Nat) (data : Memory) (size : Nat) : TxProgram Unit := do
  let i ← copyWords slot data size 0
  copyBytes slot data size i

/-- Gives the result and the next `tx_slot`. -/
def send (hhdmOffset : Nat) (txBuffers : Nat → Nat) (txSlot : Nat) (data : Memory) (length : Nat) :
    TxProgram (Bool × Nat) :=
  if 1500 < length then do
    perform (.logError "[ NET ] RTL8139 Packet too large: %u" length)
    pure (false, txSlot)
  else do
    copyFrame txSlot data length
    let physTx := toPhysical hhdmOffset (txBuffers txSlot)
    perform (.writeTsad txSlot (physTx % 2 ^ 32))
    perform (.writeTsd txSlot (length &&& 0x1FFF))
    pure (true, (txSlot + 1) % 4)

/-! ### Runs -/

/-- What `TSAD` has room for of the physical address of a buffer. -/
def TxState.address (s : TxState) (slot : Nat) : Nat :=
  toPhysical s.hhdmOffset (s.txBuffers slot) % 2 ^ 32

/-- The device fetches the next byte of a frame, or gives the slot of a complete one back. It knows a
buffer by what `TSAD` says; at any other address there may be anything. -/
inductive NicStep (s : TxState) : TxState → Prop where
  | fetch (slot : Nat) (transfer : Transfer) (byte : UInt8) : s.owned slot = some transfer →
      transfer.fetched.length < transfer.length →
      (∀ k < 4, s.tsad slot = s.address k → byte = s.buffers k transfer.fetched.length) →
      NicStep s { s with
        owned := Function.update s.owned slot (some { transfer with
          fetched := transfer.fetched ++ [byte] }) }
  | release (slot : Nat) (transfer : Transfer) : s.owned slot = some transfer →
      transfer.fetched.length = transfer.length →
      NicStep s { s with
        owned := Function.update s.owned slot none
        transmitted := s.transmitted ++ [transfer] }

/-- The arguments of `send`; `length` is an `uint16_t`. -/
structure SendCall where
  data : Memory
  length : Nat
  length_lt : length < 2 ^ 16

/-- Calls of `send` one after the other, and the device at any time. If they are careful, a frame
is only sent when its slot is not owned. -/
def transmitter (careful : Prop) :
    Session TxOp TxOp.Answer TxState SendCall fun _ => Bool × Nat where
  handler := txHandler
  enter c s t :=
    t = { s with sending := frameOf c.data c.length } ∧
      (careful → c.length ≤ 1500 → s.owned s.txSlot = none)
  code c s := send s.hhdmOffset s.txBuffers s.txSlot c.data c.length
  leave _ a s := { s with txSlot := a.2 }
  busyEnv _ _ := NicStep
  idleEnv := NicStep

/-- After `Configure_Device`, wherever the buffers are and whatever is in them. -/
def configured (hhdmOffset txBase : Nat) (buffers : Nat → Memory) : TxState where
  hhdmOffset := hhdmOffset
  txSlot := 0
  txBuffers slot := txBase + 2048 * slot
  buffers := buffers
  tsad _ := 0
  owned _ := none
  sending := []
  transmitted := []
  clobbered := []

end KopalniaOS.Rtl8139
