import KopalniaOS.Network.Checksum

/-!
# Echo replies

The reply to an echo request is a complete packet: it goes from the address that was asked to the
one that asked, carries the data of the request, and both its checksums hold.
-/
namespace KopalniaOS.Network

open Library

/-- A frame of `len` bytes with an echo request to this address in it. -/
structure EchoRequest (ipv4 len : Nat) (m : Memory) : Prop where
  type : bswap16 (m.load 2 12) = ipv4EtherType
  destination : m.load 4 30 = bswap32 ipv4
  protocol : m.load 1 23 = protocolICMP
  words : 5 ≤ m.load 1 14 &&& 0x0F
  message : ihl m + 8 ≤ totalLength m
  size : totalLength m ≤ 1500
  inside : 14 + totalLength m ≤ len
  echo : m.load 1 (14 + ihl m) = 8

/-- The reply of a host with this MAC address to a request. The sums are over words in network
order. -/
structure EchoReply (request mac reply : Memory) : Prop where
  destination : ∀ i < 6, reply i = request (6 + i)
  source : ∀ i < 6, reply (6 + i) = mac i
  type : reply 12 = 0x08 ∧ reply 13 = 0x00
  header : ∀ i < ihl request, (i < 10 ∨ 20 ≤ i) → reply (14 + i) = request (14 + i)
  from_ : ∀ i < 4, reply (26 + i) = request (30 + i)
  to_ : ∀ i < 4, reply (30 + i) = request (26 + i)
  headerSum : onesSum (wordsBE (reply.bytes 14 (ihl request))) = 0xFFFF
  icmpType : reply (14 + ihl request) = 0
  icmpCode : reply (15 + ihl request) = 0
  data : ∀ i, ihl request + 4 ≤ i → i < totalLength request → reply (14 + i) = request (14 + i)
  messageSum : onesSum (wordsBE
    (reply.bytes (14 + ihl request) (totalLength request - ihl request))) = 0xFFFF

variable {m : Memory} {ipv4 len : Nat}

theorem EchoRequest.header_le (request : EchoRequest ipv4 len m) : 20 ≤ ihl m := by
  have words := request.words
  unfold ihl headerLength
  omega

/-! ### Checksums -/

/-- All ones are all ones in either byte order. -/
theorem onesSum_wordsBE_eq {bs : List UInt8} (ones : onesSum (wordsLE bs) = 65535) :
    onesSum (wordsBE bs) = 0xFFFF := by
  rw [onesSum_wordsBE, ones]
  rfl

theorem onesSum_withChecksum (m : Memory) (data off : Nat) {len : Nat} (small : len ≤ 65535)
    (even : off % 2 = 0) (inside : off + 2 ≤ len) :
    onesSum (wordsBE ((withChecksum m data len (data + off)).bytes data len)) = 0xFFFF := by
  apply onesSum_wordsBE_eq
  exact onesSum_store_checksumOf _ data small even inside (Memory.load_store_same m (by decide))

/-! ### The parts of the reply -/

theorem swapAddresses_from (m : Memory) {i : Nat} (inside : i < 4) :
    swapAddresses m (26 + i) = m (30 + i) := by
  unfold swapAddresses
  rw [Memory.store_outside _ _ _ _ _ (by omega), Memory.store_load _ _ _ _ _ inside]

theorem swapAddresses_to (m : Memory) {i : Nat} (inside : i < 4) :
    swapAddresses m (30 + i) = m (26 + i) := by
  unfold swapAddresses
  rw [Memory.store_load _ _ _ _ _ inside]

theorem echoHeader_addresses (m : Memory) {x : Nat} (behind : 26 ≤ x) :
    echoHeader m x = swapAddresses m x := by
  unfold echoHeader
  exact withChecksum_outside (by omega)

/-- The ICMP message is written behind the header, and nothing in front of it. -/
theorem echoReply_headerSum (m : Memory) (words : 20 ≤ ihl m) (short : ihl m ≤ 60) :
    onesSum (wordsBE ((echoReply m).bytes 14 (ihl m))) = 0xFFFF := by
  have before : (echoReply m).bytes 14 (ihl m) = (echoHeader m).bytes 14 (ihl m) :=
    Memory.bytes_congr fun i inside => echoReply_outside (by omega)
  rw [before]
  exact onesSum_withChecksum (swapAddresses m) 14 10 (by omega) rfl (by omega)

theorem echoReply_messageSum (m : Memory) (message : ihl m + 8 ≤ totalLength m)
    (size : totalLength m ≤ 1500) :
    onesSum (wordsBE ((echoReply m).bytes (14 + ihl m) (totalLength m - ihl m))) = 0xFFFF := by
  unfold echoReply
  rw [← Int.ofNat_sub (by omega)]
  exact onesSum_withChecksum _ (14 + ihl m) 2 (by omega) rfl (by omega)

theorem ihl_le (m : Memory) : ihl m ≤ 60 := by
  have low : m.load 1 14 &&& 0x0F ≤ 0x0F := Nat.and_le_right
  unfold ihl headerLength
  omega

/-! ### The frame -/

/-- A frame around what the request was made into is the reply. -/
theorem echoReply_of_framed {mac frame : Memory} (request : EchoRequest ipv4 len m)
    (framed : Framed (echoReply m) 6 (bswap16 ipv4EtherType) (echoReply m) 14 (totalLength m) frame)
    (source : ∀ i < 6, frame (6 + i) = mac i) : EchoReply m mac frame := by
  have words := request.header_le
  have message := request.message
  have body (i : Nat) (inside : i < totalLength m) : frame (14 + i) = echoReply m (14 + i) :=
    framed.payload i inside
  constructor
  case destination =>
    intro i inside
    rw [framed.destination i inside, echoReply_outside (by omega), echoHeader_outside (by omega)]
  case source => exact source
  case type =>
    -- the type is stored in network order, so its low byte comes first
    have word : frame.load 2 12 = 8 := framed.type
    have split : frame.load 2 12 = (frame 12).toNat + 256 * (frame 13).toNat := by
      simp [Memory.load]
    have low := (frame 12).toNat_lt
    constructor
    · apply UInt8.toNat_inj.mp
      have value : (0x08 : UInt8).toNat = 8 := rfl
      omega
    · apply UInt8.toNat_inj.mp
      have value : (0x00 : UInt8).toNat = 0 := rfl
      omega
  case header =>
    intro i inside other
    -- outside the checksum field and the addresses the header is as it came
    rw [body i (by omega), echoReply_outside (by omega), echoHeader_outside (by omega)]
  case from_ =>
    intro i inside
    have here := body (12 + i) (by omega)
    rw [← Nat.add_assoc] at here
    rw [here, echoReply_outside (by omega), echoHeader_addresses m (by omega),
      swapAddresses_from m inside]
  case to_ =>
    intro i inside
    have here := body (16 + i) (by omega)
    rw [← Nat.add_assoc] at here
    rw [here, echoReply_outside (by omega), echoHeader_addresses m (by omega),
      swapAddresses_to m inside]
  case headerSum =>
    rw [Memory.bytes_congr fun i inside => body i (by omega)]
    exact echoReply_headerSum m words (ihl_le m)
  case icmpType =>
    rw [body (ihl m) (by omega), echoReply_type]
  case icmpCode =>
    have here := body (ihl m + 1) (by omega)
    rw [← Nat.add_assoc, echoReply_code] at here
    rwa [show 15 + ihl m = 14 + ihl m + 1 by omega]
  case data =>
    intro i behind inside
    rw [body i inside, echoReply_outside (by omega), echoHeader_outside (by omega)]
  case messageSum =>
    have same (i : Nat) (inside : i < totalLength m - ihl m) :
        frame (14 + ihl m + i) = echoReply m (14 + ihl m + i) := by
      rw [Nat.add_assoc]
      exact body (ihl m + i) (by omega)
    rw [Memory.bytes_congr same]
    exact echoReply_messageSum m message request.size

/-- A request on its way to `receive_ICMP`. -/
theorem run_receiveEthernet_request (st : NetState)
    (request : EchoRequest ipv4 len (st.mem .received)) :
    (receiveEthernet ipv4 len).run netHandler st = (receiveICMP len).run netHandler st := by
  have header : sizeofEthernet = 14 := rfl
  have sizes : sizeofIPv4 + sizeofEthernet = 34 := rfl
  have other : ipv4EtherType ≠ arpEtherType := by decide
  have words := request.header_le
  have message := request.message
  have inside := request.inside
  rw [receiveEthernet, if_neg (by omega), run_load_bind, request.type, if_neg other, if_pos rfl,
    receiveIPv4, if_neg (by omega), run_load_bind, show sizeofEthernet + 16 = 30 from rfl,
    if_neg (not_not.mpr request.destination), run_load_bind, show sizeofEthernet + 9 = 23 from rfl,
    if_pos request.protocol]

theorem frameOf_eq_bytes (m : Memory) (len : Nat) : frameOf m len = m.bytes 0 len := by
  simp [frameOf, Memory.bytes]

/-- An echo request is answered with one frame, of the same length, that is its reply. -/
theorem echo_reply (ipv4 len : Nat) (st : NetState)
    (request : EchoRequest ipv4 len (st.mem .received)) :
    ∃ t reply, (receiveEthernet ipv4 len).run netHandler st = some ((), t) ∧
      t.sent = reply.bytes 0 (14 + totalLength (st.mem .received)) :: st.sent ∧
      EchoReply (st.mem .received) (st.mem .mac) reply := by
  have words := request.header_le
  have message := request.message
  have inside := request.inside
  obtain ⟨u, made, mac, sent, ran⟩ := run_receiveICMP_request st (by omega : 42 ≤ len) request.echo
  rw [run_receiveEthernet_request st request, ran]
  obtain ⟨t, ran, frames⟩ := run_sendEthernet_of_le u 6 (bswap16 ipv4EtherType) 14 request.size
    (by decide : Buffer.received ≠ .outgoing) (by decide : Buffer.received ≠ .outgoing)
  rw [made, mac, sent, frameOf_eq_bytes, Nat.add_comm] at frames
  exact ⟨t, _, ran, frames, echoReply_of_framed request (framed_framedIn ..)
    fun i inside => framedIn_source _ _ _ _ _ _ _ _ inside⟩

/-- A request to 10.0.0.2 with five bytes of data, in a frame of 60 bytes. -/
def echoRequest : NetState where
  mem
    | .received => fun
      | 12 => 8
      | 14 => 0x45
      | 17 => 33
      | 23 => 1
      | 26 => 10
      | 29 => 1
      | 30 => 10
      | 33 => 2
      | 34 => 8
      | _ => 0
    | _ => fun _ => 0
  sent := []

theorem echo_reply_echoRequest : EchoRequest 0x0A000002 60 (echoRequest.mem .received) ∧
    ∃ t reply, (receiveEthernet 0x0A000002 60).run netHandler echoRequest = some ((), t) ∧
      t.sent = [reply.bytes 0 47] ∧
      EchoReply (echoRequest.mem .received) (echoRequest.mem .mac) reply := by
  have request : EchoRequest 0x0A000002 60 (echoRequest.mem .received) := by
    constructor <;> decide
  exact ⟨request, echo_reply 0x0A000002 60 echoRequest request⟩

end KopalniaOS.Network
