import KopalniaOS.Library.Interrupts
import KopalniaOS.Network.Bounds

/-!
# Reception by the RTL8139

The device stores packets one behind the other in a ring of 8192 bytes, and a packet that starts
in the ring is never split. `RX_handler` passes on what it finds at its own offset and tells the
device how far it has come.
-/
namespace KopalniaOS.Rtl8139

open Library Network

/-! ### Packets -/

/-- A good packet, that is, with ROK set, which fits the buffer wherever it starts. -/
structure Packet where
  status : Nat
  bytes : List UInt8
  status_lt : status < 2 ^ 16
  rok : status &&& 0x1 ≠ 0
  short : bytes.length ≤ 1516

def Packet.length (p : Packet) : Nat := p.bytes.length

/-- The packet, without what is behind it. -/
def Packet.memory (p : Packet) : Memory := fun i => p.bytes.getD i 0

/-- What the packet takes up in the ring: four bytes more, rounded up to a multiple of four. -/
def Packet.room (p : Packet) : Nat := (p.length + 4 + 3) / 4 * 4

/-- `dev->get_ipv4()` is 10.0.0.2. -/
def ipv4 : Nat := 0x0A000002

/-- An ICMP packet to the driver's address with a stated IP header after which the ICMP header does
not fit the room of the packet. If its type is still within the packet, it is an echo request. -/
def Packet.Overruns (p : Packet) : Prop :=
  bswap16 (p.memory.load 2 12) = ipv4EtherType ∧ p.memory.load 4 30 = bswap32 ipv4 ∧
    p.memory.load 1 23 = protocolICMP ∧ 42 ≤ p.length ∧
    (14 + ihl p.memory < p.length → p.memory.load 1 (14 + ihl p.memory) = 8) ∧
    p.room < 22 + ihl p.memory

/-! ### Operations -/

/-- Registers of the device, the buffer, `driver.rx_offset`, the call of `receive_ethernet` and the
operations in it, on the packet at this address. -/
inductive RxOp where
  | inIsr
  | outIsr (value : Nat)
  | inCmd
  | outCapr (value : Nat)
  | load (width addr : Nat)
  | readOffset
  | writeOffset (value : Nat)
  | handOver (packet length : Nat)
  | net (packet : Nat) (o : NetOp)
  | logInfo (text : String)

abbrev RxOp.Answer : RxOp → Type
  | .inIsr | .inCmd | .load .. | .readOffset => Nat
  | .net _ o => o.Answer
  | _ => Unit

abbrev RxProgram := Program RxOp RxOp.Answer

def issue (o : RxOp) : RxProgram o.Answer := Program.perform o

/-- A packet and where the device has stored it. -/
structure Arrival where
  offset : Nat
  packet : Packet

/-- The device has its write offset, and the number of bytes that it takes for unread. `arrived` is
what it has stored, `passed` what was given to `receive_ethernet`; while a packet is handled, the
device does not know yet that it was read. -/
structure RxState where
  mem : Memory
  rxOffset : Nat
  isr : Nat
  capr : Nat
  writeOffset : Nat
  unread : Nat
  net : NetState
  arrived : List Arrival
  passed : List (List UInt8)
  handling : Bool

/-- The state for `receive_ethernet`, with the received frame at this address. -/
def RxState.view (s : RxState) (packet : Nat) : NetState :=
  { s.net with mem := Function.update s.net.mem .received fun i => s.mem (packet + i) }

def RxState.withView (s : RxState) (packet : Nat) (t : NetState) : RxState :=
  { s with
    mem := fun x => if packet ≤ x then t.mem .received (x - packet) else s.mem x
    net := { t with mem := Function.update t.mem .received (s.net.mem .received) } }

/-- The offset of the packet that the device takes for the next unread one. -/
def RxState.readOffset (s : RxState) : Nat := (s.capr + 16) % 8192

/-- Receiver and transmitter are on, and bit 0 tells that nothing is unread. -/
def RxState.cmd (s : RxState) : Nat := 0x0C ||| if s.unread = 0 then 1 else 0

def rxHandlerOps : Handler RxOp RxOp.Answer RxState
  | .inIsr, s => some (s.isr, s)
  | .outIsr value, s => some ((), { s with isr := s.isr &&& (2 ^ 16 - 1 - value) })
  | .inCmd, s => some (s.cmd, s)
  | .outCapr value, s =>
    some ((), { s with
      capr := value
      unread := s.unread - ((value + 16) % 8192 + 8192 - s.readOffset) % 8192
      handling := false })
  | .load width addr, s => some (s.mem.load width addr, s)
  | .readOffset, s => some (s.rxOffset, s)
  | .writeOffset value, s => some ((), { s with rxOffset := value })
  | .handOver packet length, s =>
    some ((), { s with
      passed := s.passed ++ [(List.range length).map fun i => s.mem (packet + i)]
      handling := true })
  | .net packet o, s => (netHandler o (s.view packet)).map fun r => (r.1, s.withView packet r.2)
  | .logInfo _, s => some ((), s)

/-! ### `RTL8139::RX_handler` -/

/-- A part of `receive_ethernet`, with the frame at this address. -/
def inRing {α : Type} (packet : Nat) (p : NetProgram α) : RxProgram α :=
  p.interp fun o => issue (.net packet o)

def logIf (status bit : Nat) (text : String) : RxProgram Unit :=
  if status &&& (1 <<< bit) ≠ 0 then issue (.logInfo text) else pure ()

/-- The body of the loop, once ROK was found; `& ~3` on an `int` that is not negative. -/
def handlePacket (status length : Nat) : RxProgram Unit := do
  logIf status 1 "[ NET ] RTL8139 Frame alignment error"
  logIf status 2 "[ NET ] RTL8139 CRC error"
  logIf status 3 "[ NET ] RTL8139 Packet too long"
  logIf status 4 "[ NET ] RTL8139 Runt packet"
  let offset ← issue .readOffset
  issue (.handOver (offset + 4) length)
  inRing (offset + 4) (receiveEthernet ipv4 length)
  let offset ← issue .readOffset
  issue (.writeOffset ((offset + length + 4 + 3) / 4 * 4 % 2 ^ 16))
  let offset ← issue .readOffset
  issue (.writeOffset (offset % 8192))
  let offset ← issue .readOffset
  issue (.outCapr (((offset : Int) - 16) % 2 ^ 16).toNat)

/-- The loop, with a bound for its turns. -/
def rxLoop : (turns : Nat) → RxProgram Unit
  | 0 => .stuck
  | turns + 1 => do
    let cmd ← issue .inCmd
    if cmd &&& 0x01 ≠ 0 then pure ()
    else do
      let offset ← issue .readOffset
      let status ← issue (.load 2 offset)
      let length ← issue (.load 2 (offset + 2))
      if status &&& 0x1 = 0 then issue (.logInfo "[ NET ] RTL8139 ROK not set")
      else do
        handlePacket status length
        rxLoop turns

def rxHandler (turns : Nat) : RxProgram Unit := do
  let isr ← issue .inIsr
  issue (.outIsr isr)
  rxLoop turns

/-! ### Runs -/

/-- The device stores a packet and asks for an interrupt. -/
def RxState.arrive (s : RxState) (p : Packet) : RxState :=
  { s with
    mem := ((s.mem.store 2 s.writeOffset p.status).store 2 (s.writeOffset + 2) p.length).copyFrom
      p.memory (s.writeOffset + 4) 0 p.length
    isr := s.isr ||| 1
    writeOffset := (s.writeOffset + p.room) % 8192
    unread := s.unread + p.room
    arrived := s.arrived ++ [⟨s.writeOffset, p⟩] }

/-- Unread data never exceeds the ring. If senders are careful, no packet overruns. -/
inductive Arrive (careful : Prop) (s : RxState) : RxState → Prop where
  | packet (p : Packet) : s.unread + p.room ≤ 8192 → (careful → ¬p.Overruns) →
      Arrive careful s (s.arrive p)

/-- Calls of the handler, each with a bound for its turns; packets arrive at any time. -/
def receiver (careful : Prop) : Session RxOp RxOp.Answer RxState Nat fun _ => Unit where
  handler := rxHandlerOps
  enter _ s t := t = s
  code turns _ := rxHandler turns
  leave _ _ s := s
  busyEnv _ _ := Arrive careful
  idleEnv := Arrive careful

/-- After `Configure_Device`, whatever is in the memory. -/
def listening (mem : Memory) (net : NetState) : RxState where
  mem := mem
  rxOffset := 0
  isr := 0
  capr := 0xFFF0
  writeOffset := 0
  unread := 0
  net := net
  arrived := []
  passed := []
  handling := false

end KopalniaOS.Rtl8139
