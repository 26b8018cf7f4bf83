import KopalniaOS.Network.Writes
import KopalniaOS.Rtl8139.Transmission

/-!
# `send_ethernet` on the RTL8139

Two limits apply to one packet: `send_ethernet` accepts payloads of up to 1500 bytes, and the driver
frames of up to 1500 bytes, which have the Ethernet header in front of the payload. The packets in
between are made and then dropped. And of a buffer above 4 GiB the device gets another address.
-/
namespace KopalniaOS.Rtl8139

open Library Network
open Paging (toPhysical)

/-- The stack and its device. `results` are what the calls of `RTL8139::send` gave, the latest
first. -/
structure LinkState where
  net : NetState
  tx : TxState
  results : List Bool

/-- `dev->send` is `RTL8139::send`, everything else is as without a device. -/
def linkHandler : Handler NetOp NetOp.Answer LinkState
  | .send len, s =>
    ((send s.tx.hhdmOffset s.tx.txBuffers s.tx.txSlot (s.net.mem .outgoing) len).run txHandler
      { s.tx with sending := frameOf (s.net.mem .outgoing) len }).map fun r =>
        ((), { s with tx := { r.2 with txSlot := r.1.2 }, results := r.1.1 :: s.results })
  | o, s => (netHandler o s.net).map fun r => (r.1, { s with net := r.2 })

/-- What is written is the local `frame`, inside its bounds. -/
def InLocalFrame : NetOp → Prop
  | .store b width offset _ => b = .outgoing ∧ offset + width ≤ sizeofEthernet + 1500
  | _ => True

/-- A frame as it goes out: destination, source, type and payload. -/
def ethernetFrame (dst : Memory) (dstMac : Nat) (mac : Memory) (ethertype : Nat) (payload : Memory)
    (off len : Nat) : List UInt8 :=
  dst.bytes dstMac 6 ++ mac.bytes 0 6 ++ [UInt8.ofNat ethertype, UInt8.ofNat (ethertype / 256)] ++
    payload.bytes off len

/-- The driver has accepted a frame: it is in the buffer of the current slot, which has room for it,
and the device owns the slot with the length of the frame. -/
structure Transmitted (frame : List UInt8) (s t : LinkState) : Prop where
  accepted : t.results = true :: s.results
  room : frame.length ≤ 2048
  buffer : (t.tx.buffers s.tx.txSlot).bytes 0 frame.length = frame
  rest : ∀ slot i, slot ≠ s.tx.txSlot ∨ frame.length ≤ i →
    t.tx.buffers slot i = s.tx.buffers slot i
  address : t.tx.tsad s.tx.txSlot = toPhysical s.tx.hhdmOffset (s.tx.txBuffers s.tx.txSlot)
  length : t.tx.owned s.tx.txSlot = some ⟨frame, frame.length, []⟩

variable {dstBuf payloadBuf : Buffer} {len : Nat}

/-! ### The frame -/

/-- Copying into the local frame up to its end. -/
theorem inLocalFrame_memcpy {dstOff size : Nat} (fits : dstOff + size ≤ sizeofEthernet + 1500)
    (src : Buffer) (srcOff : Nat) : (memcpy .outgoing dstOff src srcOff size).Always InLocalFrame :=
  always_memcpy (fun _ _ _ => trivial) (fun _ _ _ _ inside => ⟨rfl, by omega⟩) src srcOff

theorem inLocalFrame_sendEthernet (dstBuf payloadBuf : Buffer) (dstMac ethertype payload len : Nat) :
    (sendEthernet dstBuf dstMac ethertype payloadBuf payload len).Always InLocalFrame := by
  have header : sizeofEthernet = 14 := rfl
  rw [sendEthernet]
  split
  · exact ⟨trivial, fun _ => trivial⟩
  · refine (inLocalFrame_memcpy (by omega) _ _).bind fun _ =>
      (inLocalFrame_memcpy (by omega) _ _).bind fun _ => ⟨⟨rfl, by omega⟩, fun _ =>
        (inLocalFrame_memcpy (by omega) _ _).bind fun _ => ⟨trivial, fun _ => trivial⟩⟩

/-- `send_ethernet` up to the call of the device. -/
def makeFrame (dstBuf : Buffer) (dstMac ethertype : Nat) (payloadBuf : Buffer) (payload len : Nat) :
    NetProgram Unit := do
  memcpy .outgoing 0 dstBuf dstMac 6
  memcpy .outgoing 6 .mac 0 6
  Network.store .outgoing 2 12 ethertype
  memcpy .outgoing sizeofEthernet payloadBuf payload len

theorem sendEthernet_eq (dstMac ethertype payload : Nat) (small : len ≤ 1500) :
    sendEthernet dstBuf dstMac ethertype payloadBuf payload len =
      makeFrame dstBuf dstMac ethertype payloadBuf payload len >>= fun _ =>
        Network.send (len + sizeofEthernet) := by
  rw [sendEthernet, if_neg (by omega), makeFrame]
  simp only [bind_assoc]

theorem run_makeFrame (st : NetState) (dstMac ethertype payload len : Nat) (other : dstBuf ≠ .outgoing)
    (other' : payloadBuf ≠ .outgoing) :
    ∃ u, (makeFrame dstBuf dstMac ethertype payloadBuf payload len).run netHandler st = some ((), u) ∧
      u.mem .outgoing = framedIn (st.mem .outgoing) (st.mem dstBuf) dstMac (st.mem .mac) ethertype
        (st.mem payloadBuf) payload len := by
  rw [makeFrame, run_memcpy_bind other, run_memcpy_bind (by decide), Network.run_store_bind,
    ← bind_pure (memcpy _ _ _ _ len), run_memcpy_bind other']
  refine ⟨_, rfl, ?_⟩
  rw [mem_copy, mem_write_of_ne other', mem_copy_of_ne other', mem_copy_of_ne other', mem_write,
    mem_copy, mem_copy, mem_copy_of_ne (by decide)]
  rfl

/-- Everything but the call of the device. -/
def Local (o : NetOp) : Prop := ∀ len, o ≠ .send len

theorem local_makeFrame (dstBuf payloadBuf : Buffer) (dstMac ethertype payload len : Nat) :
    (makeFrame dstBuf dstMac ethertype payloadBuf payload len).Always Local := by
  have copies (dst src : Buffer) (dstOff srcOff size : Nat) :
      (memcpy dst dstOff src srcOff size).Always Local :=
    always_memcpy (fun _ _ _ => nofun) (fun _ _ _ _ _ => nofun) src srcOff
  exact (copies ..).bind fun _ => (copies ..).bind fun _ => ⟨nofun, fun _ => copies ..⟩

theorem run_linkHandler {α : Type} {p : NetProgram α} (inside : p.Always Local) (s : LinkState) :
    p.run linkHandler s = (p.run netHandler s.net).map fun r => (r.1, { s with net := r.2 }) := by
  refine Program.run_embed LinkState.net (fun s net => { s with net }) (fun _ => rfl)
    (fun _ _ => rfl) (fun _ _ _ => rfl) ?_ inside s
  intro o s here
  cases o with
  | send len => exact (here len rfl).elim
  | _ => rfl

/-- The bytes of the local frame once it is made. -/
theorem bytes_framedIn (frame dst : Memory) (dstMac : Nat) (mac : Memory) (ethertype : Nat)
    (payload : Memory) (off len : Nat) :
    (framedIn frame dst dstMac mac ethertype payload off len).bytes 0 (14 + len) =
      ethernetFrame dst dstMac mac ethertype payload off len := by
  have framed := framed_framedIn frame dst dstMac mac ethertype payload off len
  have type : (framedIn frame dst dstMac mac ethertype payload off len).bytes 12 2 =
      [UInt8.ofNat ethertype, UInt8.ofNat (ethertype / 256)] := by
    -- the payload is behind the type and does not touch it
    have inner : (framedIn frame dst dstMac mac ethertype payload off len).bytes 12 2 =
        (((frame.copyFrom dst 0 dstMac 6).copyFrom mac 6 0 6).store 2 12 ethertype).bytes 12 2 :=
      Memory.bytes_congr fun i inside => Memory.copyFrom_outside _ _ (by omega)
    rw [inner]
    rfl
  have split : 14 + len = 6 + 6 + 2 + len := rfl
  rw [split, Memory.bytes_append, Memory.bytes_append, Memory.bytes_append, type, ethernetFrame,
    Memory.bytes_congr framed.payload,
    Memory.bytes_congr fun i inside => (by
      rw [framedIn_source _ _ _ _ _ _ _ _ inside, Nat.zero_add] :
        framedIn frame dst dstMac mac ethertype payload off len (0 + 6 + i) = mac (0 + i)),
    Memory.bytes_congr fun i inside => (by rw [Nat.zero_add, framed.destination i inside] :
        framedIn frame dst dstMac mac ethertype payload off len (0 + i) = dst (dstMac + i))]

/-! ### Both limits -/

/-- `send_ethernet` makes its frame and hands it to the driver. -/
theorem run_sendEthernet_link (s : LinkState) (dstMac ethertype payload : Nat)
    (small : len ≤ 1500) (other : dstBuf ≠ .outgoing)
    (other' : payloadBuf ≠ .outgoing) :
    ∃ frame net, (frame : Memory).bytes 0 (14 + len) = ethernetFrame (s.net.mem dstBuf) dstMac
        (s.net.mem .mac) ethertype (s.net.mem payloadBuf) payload len ∧
      (sendEthernet dstBuf dstMac ethertype payloadBuf payload len).run linkHandler s =
        ((send s.tx.hhdmOffset s.tx.txBuffers s.tx.txSlot frame (14 + len)).run txHandler
          { s.tx with sending := frame.bytes 0 (14 + len) }).map fun r =>
            ((), ⟨net, { r.2 with txSlot := r.1.2 }, r.1.1 :: s.results⟩) := by
  obtain ⟨u, made, frame⟩ := run_makeFrame s.net dstMac ethertype payload len other other'
  refine ⟨u.mem .outgoing, u, ?_, ?_⟩
  · rw [frame, bytes_framedIn]
  · rw [sendEthernet_eq dstMac ethertype payload small, Program.run_bind,
      run_linkHandler (local_makeFrame ..), made, Option.map_some, Option.bind_some, Network.send,
      Program.run_perform, Nat.add_comm len]
    simp [linkHandler, frameOf, Memory.bytes, sizeofEthernet]

/-- Up to the limit of the driver everything is as it should be but the address, of which there may be
a part only. -/
theorem run_sendEthernet_small (s : LinkState) (dstMac ethertype payload : Nat)
    (small : len ≤ 1486) (other : dstBuf ≠ .outgoing) (other' : payloadBuf ≠ .outgoing) :
    ∃ t, (sendEthernet dstBuf dstMac ethertype payloadBuf payload len).run linkHandler s =
        some ((), t) ∧ t.tx.tsad s.tx.txSlot = s.tx.address s.tx.txSlot ∧
      (toPhysical s.tx.hhdmOffset (s.tx.txBuffers s.tx.txSlot) < 2 ^ 32 →
        Transmitted (ethernetFrame (s.net.mem dstBuf) dstMac (s.net.mem .mac) ethertype
          (s.net.mem payloadBuf) payload len) s t) := by
  obtain ⟨frame, net, bytes, ran⟩ := run_sendEthernet_link s dstMac ethertype payload
    (by omega : len ≤ 1500) other other'
  obtain ⟨k, -, sent⟩ := run_send_of_le s.tx.txSlot frame
    { s.tx with sending := frame.bytes 0 (14 + len) } (by omega : 14 + len ≤ 1500)
  dsimp only at sent
  rw [sent, Option.map_some] at ran
  refine ⟨_, ran, Function.update_self .., fun below => ?_⟩
  rw [← bytes]
  constructor
  case accepted => rfl
  case room =>
    rw [Memory.length_bytes]
    omega
  case buffer =>
    rw [Memory.length_bytes]
    refine Memory.bytes_congr fun i inside => ?_
    simp only [TxState.started, TxState.copied, Function.update_self]
    exact Memory.copyFrom_inside _ _ inside
  case rest =>
    intro slot i outside
    rw [Memory.length_bytes] at outside
    by_cases same : slot = s.tx.txSlot
    · -- the rest of the buffer that is used
      subst same
      simp only [TxState.started, TxState.copied, Function.update_self]
      exact Memory.copyFrom_outside _ _ (by omega)
    · simp [TxState.started, TxState.copied, same]
  case address => exact (Function.update_self ..).trans (Nat.mod_eq_of_lt below)
  case length => simp [TxState.started]

/-- The driver refuses a frame whose header makes it too long. -/
theorem run_sendEthernet_large (s : LinkState) (dstMac ethertype payload : Nat)
    (small : len ≤ 1500) (large : 1486 < len)
    (other : dstBuf ≠ .outgoing) (other' : payloadBuf ≠ .outgoing) :
    ∃ t, (sendEthernet dstBuf dstMac ethertype payloadBuf payload len).run linkHandler s =
        some ((), t) ∧ t.results = false :: s.results := by
  obtain ⟨frame, net, -, ran⟩ := run_sendEthernet_link s dstMac ethertype payload small other other'
  rw [send, if_pos (by omega)] at ran
  exact ⟨_, ran, rfl⟩

/-- Of the payloads that `send_ethernet` accepts, those that leave room for the header within the
limit of the driver are transmitted, if the buffer has an address that the device can be told. -/
theorem sendEthernet_transmitted (s : LinkState) (dstMac ethertype payload : Nat)
    (small : len ≤ 1500) (other : dstBuf ≠ .outgoing) (other' : payloadBuf ≠ .outgoing) :
    ((sendEthernet dstBuf dstMac ethertype payloadBuf payload len).Always InLocalFrame ∧
      ∃ t, (sendEthernet dstBuf dstMac ethertype payloadBuf payload len).run linkHandler s =
          some ((), t) ∧
        Transmitted (ethernetFrame (s.net.mem dstBuf) dstMac (s.net.mem .mac) ethertype
          (s.net.mem payloadBuf) payload len) s t) ↔
      len ≤ 1486 ∧ toPhysical s.tx.hhdmOffset (s.tx.txBuffers s.tx.txSlot) < 2 ^ 32 := by
  constructor
  · rintro ⟨-, t, ran, transmitted⟩
    have fits : len ≤ 1486 := by
      by_contra large
      -- both runs are the same, and the driver has answered with false
      obtain ⟨t', ran', refused⟩ := run_sendEthernet_large s dstMac ethertype payload small
        (Nat.not_le.mp large) other other'
      rw [ran] at ran'
      cases ran'
      have accepted := transmitted.accepted
      rw [refused] at accepted
      cases accepted
    obtain ⟨t', ran', named, -⟩ := run_sendEthernet_small s dstMac ethertype payload fits other other'
    rw [ran] at ran'
    cases ran'
    -- what the device was told has 32 bits
    refine ⟨fits, ?_⟩
    rw [← transmitted.address, named]
    exact Nat.mod_lt _ (by decide)
  · rintro ⟨fits, below⟩
    obtain ⟨t, ran, -, transmitted⟩ :=
      run_sendEthernet_small s dstMac ethertype payload fits other other'
    exact ⟨inLocalFrame_sendEthernet .., t, ran, transmitted below⟩

/-- Nothing was sent yet. -/
def quietLink : LinkState where
  net := { mem := fun _ _ => 0, sent := [] }
  tx := freshNic
  results := []

theorem sendEthernet_transmitted_arp : (28 ≤ 1500 ∧ Buffer.reply ≠ .outgoing) ∧
    ∃ t, (sendEthernet .reply 18 (bswap16 arpEtherType) .reply 0 28).run linkHandler quietLink =
        some ((), t) ∧
      Transmitted (ethernetFrame (quietLink.net.mem .reply) 18 (quietLink.net.mem .mac)
        (bswap16 arpEtherType) (quietLink.net.mem .reply) 0 28) quietLink t :=
  ⟨by decide, ((sendEthernet_transmitted quietLink 18 (bswap16 arpEtherType) 0 (by decide) (by decide)
    (by decide)).mpr (by decide)).2⟩

/-- A payload of 1500 bytes is accepted and then dropped. -/
theorem sendEthernet_drops :
    ¬∃ t, (sendEthernet .reply 18 (bswap16 ipv4EtherType) .reply 0 1500).run linkHandler quietLink =
        some ((), t) ∧
      Transmitted (ethernetFrame (quietLink.net.mem .reply) 18 (quietLink.net.mem .mac)
        (bswap16 ipv4EtherType) (quietLink.net.mem .reply) 0 1500) quietLink t := by
  rintro ⟨t, ran, transmitted⟩
  obtain ⟨t', ran', refused⟩ := run_sendEthernet_large quietLink 18
    (bswap16 ipv4EtherType) 0 (by decide : 1500 ≤ 1500)
    (by decide) (by decide : Buffer.reply ≠ .outgoing) (by decide : Buffer.reply ≠ .outgoing)
  rw [ran] at ran'
  cases ran'
  have accepted := transmitted.accepted
  rw [refused] at accepted
  cases accepted

end KopalniaOS.Rtl8139
