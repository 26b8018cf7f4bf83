import KopalniaOS.Library.ByteMemory

/-!
# The network stack

Reception of Ethernet frames and the replies to them. Every object the code points into is
a byte memory of its own, so an access names its object and an offset. Headers are packed
and little-endian, as the machine reads them.
-/
namespace KopalniaOS.Network

open Library

/-! ### Objects and operations -/

/-- What the code accesses through pointers: the frame that was received, the six bytes of
`get_mac()`, the local `reply` of `receive_ARP`, the local `frame` of `send_ethernet` and
the heap buffer of `receive_udp`. -/
inductive Buffer where
  | received
  | mac
  | reply
  | outgoing
  | text
deriving DecidableEq, Repr

inductive LogEntry where
  | warn (text : String)
  | error (text : String) (value : Nat)
  | arpFrom (ip : Nat)
  | icmpFrom (ip : Nat)
  | udpPayload (srcPort dstPort : Nat)
deriving DecidableEq, Repr

inductive NetOp where
  | load (b : Buffer) (width offset : Nat)
  | store (b : Buffer) (width offset value : Nat)
  | send (len : Nat)
  | malloc (size : Nat)
  | free
  | log (entry : LogEntry)

abbrev NetOp.Answer : NetOp → Type
  | .load .. => Nat
  | _ => Unit

abbrev NetProgram := Program NetOp NetOp.Answer

/-- `sent` collects what was handed to the device, the latest first. -/
structure NetState where
  mem : Buffer → Memory
  sent : List (List UInt8)

def NetState.write (st : NetState) (b : Buffer) (width offset value : Nat) : NetState :=
  { st with mem := Function.update st.mem b ((st.mem b).store width offset value) }

/-- The heap and the log are outside: the code does not look at what they answer. -/
def netHandler : Handler NetOp NetOp.Answer NetState
  | .load b w off, st => some ((st.mem b).load w off, st)
  | .store b w off v, st => some ((), st.write b w off v)
  | .send len, st => some ((), { st with sent := (List.range len).map (st.mem .outgoing) :: st.sent })
  | .malloc _, st => some ((), st)
  | .free, st => some ((), st)
  | .log _, st => some ((), st)

def load (b : Buffer) (width offset : Nat) : NetProgram Nat :=
  Program.perform (NetOp.load b width offset)

def store (b : Buffer) (width offset value : Nat) : NetProgram Unit :=
  Program.perform (NetOp.store b width offset value)

def send (len : Nat) : NetProgram Unit := Program.perform (NetOp.send len)

def malloc (size : Nat) : NetProgram Unit := Program.perform (NetOp.malloc size)

def free : NetProgram Unit := Program.perform NetOp.free

def log (entry : LogEntry) : NetProgram Unit := Program.perform (NetOp.log entry)

/-! ### `mem::memcpy` -/

/-- The loop over words of eight bytes, which stops before the last one; it gives its index. -/
def memcpyWords (dst : Buffer) (dstOff : Nat) (src : Buffer) (srcOff size i : Nat) : NetProgram Nat :=
  if i + 8 < size then do
    let word ← load src 8 (srcOff + i)
    store dst 8 (dstOff + i) word
    memcpyWords dst dstOff src srcOff size (i + 8)
  else pure i
termination_by size - i

def memcpyBytes (dst : Buffer) (dstOff : Nat) (src : Buffer) (srcOff size i : Nat) : NetProgram Unit :=
  if i < size then do
    let byte ← load src 1 (srcOff + i)
    store dst 1 (dstOff + i) byte
    memcpyBytes dst dstOff src srcOff size (i + 1)
  else pure ()
termination_by size - i

def memcpy (dst : Buffer) (dstOff : Nat) (src : Buffer) (srcOff size : Nat) : NetProgram Unit := do
  let i ← memcpyWords dst dstOff src srcOff size 0
  memcpyBytes dst dstOff src srcOff size i

/-! ### `Common.cpp` -/

def bswap16 (x : Nat) : Nat := (x <<< 8 ||| x >>> 8) % 2 ^ 16

def bswap32 (x : Nat) : Nat :=
  x <<< 24 &&& 0xFF000000 ||| x <<< 8 &&& 0x00FF0000 ||| x >>> 8 &&& 0x0000FF00 |||
    x >>> 24 &&& 0x000000FF

/-- The sum of 16-bit words of `checksum`, from `ptr` on. -/
def checksumLoop (b : Buffer) (ptr : Nat) (len : Int) (sum : Nat) : NetProgram Nat :=
  if 1 < len then do
    let word ← load b 2 ptr
    checksumLoop b (ptr + 2) (len - 2) ((sum + word) % 2 ^ 32)
  else if len = 1 then do
    let byte ← load b 1 ptr
    pure ((sum + byte) % 2 ^ 32)
  else pure sum
termination_by len.toNat

/-- fold 32 -> 16 -/
def foldSum (sum : Nat) : Nat :=
  if sum / 2 ^ 16 = 0 then sum else foldSum (sum % 2 ^ 16 + sum / 2 ^ 16)
termination_by sum

def checksum (b : Buffer) (data : Nat) (len : Int) : NetProgram Nat := do
  let sum ← checksumLoop b data len 0
  pure ((2 ^ 32 - 1 - foldSum sum) % 2 ^ 16)

/-! ### Headers -/

def sizeofEthernet : Nat := 14
def sizeofARP : Nat := 28
def sizeofIPv4 : Nat := 20
def sizeofICMP : Nat := 8
def sizeofUDP : Nat := 8

def arpEtherType : Nat := 0x0806
def ipv4EtherType : Nat := 0x0800
def protocolICMP : Nat := 1
def protocolUDP : Nat := 17
def arpReply : Nat := 2

/-! ### `Ethernet.cpp` -/

def sendEthernet (dstBuf : Buffer) (dstMac ethertype : Nat) (payloadBuf : Buffer)
    (payload len : Nat) : NetProgram Unit :=
  if 1500 < len then log (.error "[ NET ] payload too big to send: %x" len)
  else do
    memcpy .outgoing 0 dstBuf dstMac 6
    memcpy .outgoing 6 .mac 0 6
    store .outgoing 2 12 ethertype
    memcpy .outgoing sizeofEthernet payloadBuf payload len
    send (len + sizeofEthernet)

/-! ### `ARP.cpp` -/

/-- `ipv4` is what `dev->get_ipv4()` returns. -/
def receiveARP (ipv4 len : Nat) : NetProgram Unit :=
  if len < sizeofARP then log (.warn "[ NET ] ARP packet too short")
  else do
    let targetIp ← load .received 4 (sizeofEthernet + 24)
    if targetIp ≠ bswap32 ipv4 then pure ()
    else do
      let opcode ← load .received 2 (sizeofEthernet + 6)
      if opcode = bswap16 arpReply then pure ()
      else do
        let senderIp ← load .received 4 (sizeofEthernet + 14)
        log (.arpFrom senderIp)
        -- `ARPHeader reply{}`
        store .reply sizeofARP 0 0
        store .reply 2 0 (bswap16 1)
        store .reply 2 2 (bswap16 ipv4EtherType)
        store .reply 1 4 6
        store .reply 1 5 4
        store .reply 2 6 (bswap16 2)
        memcpy .reply 8 .mac 0 6
        store .reply 4 14 (bswap32 ipv4)
        memcpy .reply 18 .received 6 6
        let senderIp ← load .received 4 (sizeofEthernet + 14)
        store .reply 4 24 senderIp
        sendEthernet .reply 18 (bswap16 arpEtherType) .reply 0 sizeofARP

/-! ### `ICMP.cpp` -/

/-- `(ip->ihl_version & 0x0F) * 4` -/
def headerLength (ihlVersion : Nat) : Nat := (ihlVersion &&& 0x0F) * 4

def receiveICMP (len : Nat) : NetProgram Unit :=
  if len < sizeofEthernet + sizeofIPv4 + sizeofICMP then log (.warn "[ NET ] ICMP packet too short")
  else do
    let ip := sizeofEthernet
    let ihlVersion ← load .received 1 ip
    let ipHeaderLen := headerLength ihlVersion
    let icmp := sizeofEthernet + ipHeaderLen
    let srcIp ← load .received 4 (ip + 12)
    log (.icmpFrom srcIp)
    let type ← load .received 1 icmp
    if type = 8 then do
      let tmpIp ← load .received 4 (ip + 12)
      let dstIp ← load .received 4 (ip + 16)
      store .received 4 (ip + 12) dstIp
      store .received 4 (ip + 16) tmpIp
      store .received 2 (ip + 10) 0
      let sum ← checksum .received ip ipHeaderLen
      store .received 2 (ip + 10) sum
      store .received 1 icmp 0
      store .received 1 (icmp + 1) 0
      store .received 2 (icmp + 2) 0
      let totalLength ← load .received 2 (ip + 2)
      let sum ← checksum .received icmp ((bswap16 totalLength : Int) - ipHeaderLen)
      store .received 2 (icmp + 2) sum
      let totalLength ← load .received 2 (ip + 2)
      sendEthernet .received 6 (bswap16 ipv4EtherType) .received ip (bswap16 totalLength)
    else pure ()

/-! ### `UDP.cpp` -/

def receiveUdp : NetProgram Unit := do
  let ihlVersion ← load .received 1 sizeofEthernet
  let udp := sizeofEthernet + headerLength ihlVersion
  let length ← load .received 2 (udp + 4)
  let payloadLen := (bswap16 length + (2 ^ 16 - sizeofUDP)) % 2 ^ 16
  malloc (payloadLen + 1)
  memcpy .text 0 .received (udp + sizeofUDP) payloadLen
  store .text 1 payloadLen 0
  let srcPort ← load .received 2 udp
  let dstPort ← load .received 2 (udp + 2)
  log (.udpPayload (bswap16 srcPort) (bswap16 dstPort))
  free

/-! ### `IPv4.cpp` and `receive_ethernet` -/

def receiveIPv4 (ipv4 len : Nat) : NetProgram Unit :=
  if len < sizeofIPv4 + sizeofEthernet then log (.warn "IPv4 packet too short")
  else do
    let dstIp ← load .received 4 (sizeofEthernet + 16)
    if dstIp ≠ bswap32 ipv4 then pure ()
    else do
      let protocol ← load .received 1 (sizeofEthernet + 9)
      if protocol = protocolICMP then receiveICMP len
      else if protocol = protocolUDP then receiveUdp
      else pure ()

def receiveEthernet (ipv4 len : Nat) : NetProgram Unit :=
  if len < sizeofEthernet then log (.warn "[ NET ] Packet too short")
  else do
    let ethertype ← load .received 2 12
    if bswap16 ethertype = arpEtherType then receiveARP ipv4 len
    else if bswap16 ethertype = ipv4EtherType then receiveIPv4 ipv4 len
    else pure ()

end KopalniaOS.Network
