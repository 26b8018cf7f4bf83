import KopalniaOS.Network.Echo
import KopalniaOS.Rtl8139.Ethernet

/-!
# What a frame is answered with

The answer to a frame as a function of its bytes, and the stack, which builds it in buffers and in the
frame itself, against that function.
-/
namespace KopalniaOS.Rtl8139

open Library Network

/-! ### Answers -/

/-- The ARP reply: Ethernet and IPv4, addresses of six and four bytes, and operation 2; then the own
addresses and those of the sender. -/
def arpAnswer (ipv4 : Nat) (mac m : Memory) : List UInt8 :=
  m.bytes 6 6 ++ mac.bytes 0 6 ++ [0x08, 0x06] ++
    ([0, 1, 8, 0, 6, 4, 0, 2] ++ mac.bytes 0 6 ++ Memory.lowBytes 4 (bswap32 ipv4) ++ m.bytes 6 6 ++
      m.bytes 28 4)

def echoAnswer (mac m : Memory) : List UInt8 :=
  m.bytes 6 6 ++ mac.bytes 0 6 ++ [0x08, 0x00] ++ (echoReply m).bytes 14 (totalLength m)

/-- Requests for the address `ipv4` are answered. -/
def answerARP (ipv4 len : Nat) (mac m : Memory) : Option (List UInt8) :=
  if 28 ≤ len ∧ m.load 4 38 = bswap32 ipv4 ∧ m.load 2 20 ≠ bswap16 arpReply then
    some (arpAnswer ipv4 mac m)
  else none

/-- Echo requests are, if the packet can be sent. -/
def answerICMP (len : Nat) (mac m : Memory) : Option (List UInt8) :=
  if 42 ≤ len ∧ m.load 1 (14 + ihl m) = 8 ∧ totalLength m ≤ 1500 then some (echoAnswer mac m)
  else none

def answerIPv4 (ipv4 len : Nat) (mac m : Memory) : Option (List UInt8) :=
  if 34 ≤ len ∧ m.load 4 30 = bswap32 ipv4 ∧ m.load 1 23 = protocolICMP then answerICMP len mac m
  else none

/-- The answer to a frame of `len` bytes from a host with these addresses. -/
def answerFrame (ipv4 len : Nat) (mac m : Memory) : Option (List UInt8) :=
  if len < 14 then none
  else if bswap16 (m.load 2 12) = arpEtherType then answerARP ipv4 len mac m
  else if bswap16 (m.load 2 12) = ipv4EtherType then answerIPv4 ipv4 len mac m
  else none

/-- This was sent and nothing else, and the own address is as it was. -/
structure Sends (answer : Option (List UInt8)) (st t : NetState) : Prop where
  sent : t.sent = answer.toList ++ st.sent
  mac : t.mem .mac = st.mem .mac

variable {st u : NetState} {ipv4 len : Nat} {dstBuf payloadBuf : Buffer}

/-! ### Sending -/

def KeepsMac : NetOp → Prop
  | .store b _ _ _ => b ≠ .mac
  | _ => True

/-! ### The ARP reply -/

/-- The local `reply`, written field by field. -/
def replyPacket (ipv4 : Nat) (mac m local' : Memory) : Memory :=
  ((((((((((local'.store sizeofARP 0 0).store 2 0 (bswap16 1)).store 2 2 (bswap16 ipv4EtherType)).store
    1 4 6).store 1 5 4).store 2 6 (bswap16 2)).copyFrom mac 8 0 6).store 4 14 (bswap32 ipv4)).copyFrom
    m 18 6 6).store 4 24 (m.load 4 28))

/-! ### The echo reply -/

end KopalniaOS.Rtl8139
