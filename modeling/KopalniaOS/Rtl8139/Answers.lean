import KopalniaOS.Rtl8139.InStep
import KopalniaOS.Rtl8139.Reply

/-!
# The host answers what it receives

The stack works on frames where they lie in the ring, and writes to them, while the device stores the
next ones. What is sent are nevertheless the answers to the packets by themselves, in the order in
which they came. A packet is handled as it would be alone, because it is only accessed inside its
bounds and the device stores others elsewhere.
-/
namespace KopalniaOS.Rtl8139

open Library Network

/-- The answer of this host to a packet. -/
def answer (mac : Memory) (bytes : List UInt8) : Option (List UInt8) :=
  answerFrame ipv4 bytes.length mac fun i => bytes.getD i 0

def answers (mac : Memory) (packets : List (List UInt8)) : List (List UInt8) :=
  packets.filterMap (answer mac)

/-- The lengths that the packet states lie in it. -/
def Packet.Fits (p : Packet) : Prop := FrameFits ipv4 p.length p.memory

/-- Packets that fit may arrive while there is room for them. -/
inductive Deliver (s : RxState) : RxState → Prop where
  | packet (p : Packet) : s.unread + p.room ≤ 8192 → p.Fits → Deliver s (s.arrive p)

/-- Calls of the handler, while packets arrive at any time. -/
def host : Session RxOp RxOp.Answer RxState Nat fun _ => Unit where
  handler := rxHandlerOps
  enter _ s t := t = s
  code turns _ := rxHandler turns
  leave _ _ s := s
  busyEnv _ _ := Deliver
  idleEnv := Deliver

/-- Nothing is sent but answers, in order and each once; only that to the packet that is being handled
may be missing. -/
structure Answering (mac : Memory) (s : RxState) : Prop where
  passed : s.passed = contents (s.arrived.take s.passed.length)
  sound : s.net.sent.reverse <+: answers mac s.passed
  complete : answers mac s.passed.dropLast <+: s.net.sent.reverse
  idle : s.handling = false → s.net.sent.reverse = answers mac s.passed

variable {s t : RxState} {pos offset : Nat} {older : List Arrival} {first p : Packet} {mac : Memory}

/-! ### The frame by itself -/

/-- Both states have the same frame, up to its length, and the same other buffers. -/
structure Agrees (len : Nat) (u v : NetState) : Prop where
  frame : ∀ i < len, u.mem .received i = v.mem .received i
  others : ∀ b, b ≠ .received → u.mem b = v.mem b
  sent : u.sent = v.sent

variable {len : Nat} {u v v' : NetState}

/-! ### Between packets -/

/-- Everything that was passed on is answered, and what is still to come fits. -/
structure Settled (mac : Memory) (s : RxState) : Prop where
  own : s.net.mem .mac = mac
  sent : s.net.sent.reverse = answers mac s.passed
  fits : ∀ a ∈ s.arrived, a.packet.Fits

/-! ### Within a packet -/

/-- The packet is being handled, and would be in this state if it were handled alone. -/
structure Mirrors (mac : Memory) (pos : Nat) (older : List Arrival) (first : Packet) (v : NetState)
    (s : RxState) : Prop where
  handled : Handled pos older first (pos % 8192) s
  agrees : Agrees first.length (s.view (pos % 8192 + 4)) v
  fits : ∀ a ∈ s.arrived, a.packet.Fits

/-- Up to its answer, which may be missing, what was sent are the answers. -/
def Between (mac : Memory) (older : List Arrival) (first : Packet) (v : NetState) : Prop :=
  answers mac (contents older) <+: v.sent.reverse ∧
    v.sent.reverse <+: answers mac (contents older ++ [first.bytes])

/-! ### Operations -/

abbrev HostRobust {α : Type} (mac : Memory) (tr : History RxOp RxOp.Answer) (p : RxProgram α)
    (s : RxState) (post : History RxOp RxOp.Answer → α → RxState → Prop) : Prop :=
  p.Robust rxHandlerOps (fun _ => Deliver) (fun _ => Answering mac) tr s post

variable {α : Type} {tr : History RxOp RxOp.Answer}
variable {post : History RxOp RxOp.Answer → α → RxState → Prop}

/-- Packets that arrive keep `P`, in which only answers were sent. -/
structure Steady (mac : Memory) (P : RxState → Prop) : Prop where
  deliver : ∀ s t, P s → Deliver s t → P t
  answering : ∀ s, P s → Answering mac s

/-! ### One packet -/

/-- The packet by itself, in front of what else the stack has. -/
def RxState.alone (s : RxState) (p : Packet) : NetState :=
  { s.net with mem := Function.update s.net.mem .received p.memory }

/-! ### The handler -/

/-! ### Every run -/

/-- A broadcast with an ARP request from 10.0.0.1, padded to 60 bytes. -/
def whoHas : Packet where
  status := 0x2001
  bytes := [255, 255, 255, 255, 255, 255, 82, 84, 0, 0, 0, 1, 8, 6,
    0, 1, 8, 0, 6, 4, 0, 1, 82, 84, 0, 0, 0, 1, 10, 0, 0, 1, 0, 0, 0, 0, 0, 0, 10, 0, 0, 2] ++
      List.replicate 18 0
  status_lt := by decide
  rok := by decide
  short := by decide

/-- The buffers of a host with this address. -/
def ownBuffers : Buffer → Memory
  | .mac => fun i => [82, 84, 0, 18, 52, 86].getD i 0
  | _ => fun _ => 0

def asked : RxState := (listening (fun _ => 0) ⟨ownBuffers, []⟩).arrive whoHas

end KopalniaOS.Rtl8139
