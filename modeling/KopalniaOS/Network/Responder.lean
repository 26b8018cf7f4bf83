import KopalniaOS.Network.Bounds

/-!
# Replies to received frames

A frame is answered with at most one frame, which goes back to where the frame came from, and
which no host that runs this stack answers again. The ICMP reply is made out of the request, at
an offset that the request states.
-/
namespace KopalniaOS.Network

open Library

variable {st t : NetState}

/-! ### Running single operations -/

section Operations

variable {α : Type} (b : Buffer) (width offset value : Nat) (f : Unit → NetProgram α)

theorem run_load_bind (f : Nat → NetProgram α) :
    (load b width offset >>= f).run netHandler st =
      (f ((st.mem b).load width offset)).run netHandler st := by
  rw [load, Program.run_bind, Program.run_perform, netHandler, Option.bind_some]

theorem run_store_bind : (store b width offset value >>= f).run netHandler st =
    (f ()).run netHandler (st.write b width offset value) := by
  rw [store, Program.run_bind, Program.run_perform, netHandler, Option.bind_some]

theorem run_malloc_bind (size : Nat) :
    (malloc size >>= f).run netHandler st = (f ()).run netHandler st := by
  rw [malloc, Program.run_bind, Program.run_perform, netHandler, Option.bind_some]

theorem run_log_bind (entry : LogEntry) :
    (log entry >>= f).run netHandler st = (f ()).run netHandler st := by
  rw [log, Program.run_bind, Program.run_perform, netHandler, Option.bind_some]

end Operations

theorem mem_write_of_ne {b b' : Buffer} (other : b' ≠ b) (width offset value : Nat) :
    (st.write b width offset value).mem b' = st.mem b' :=
  Function.update_of_ne other _ _

/-! ### `memcpy` between two objects -/

/-- `n` bytes of one object copied to another. -/
def NetState.copy (st : NetState) (dst : Buffer) (dstOff : Nat) (src : Buffer) (srcOff n : Nat) :
    NetState :=
  { st with
    mem := Function.update st.mem dst ((st.mem dst).copyFrom (st.mem src) dstOff srcOff n) }

section Copy

variable {dst src : Buffer} {dstOff srcOff : Nat}

@[simp] theorem mem_copy (n : Nat) : (st.copy dst dstOff src srcOff n).mem dst =
    (st.mem dst).copyFrom (st.mem src) dstOff srcOff n :=
  Function.update_self ..

theorem mem_copy_of_ne {b : Buffer} (other : b ≠ dst) (n : Nat) :
    (st.copy dst dstOff src srcOff n).mem b = st.mem b :=
  Function.update_of_ne other _ _

theorem copy_zero : st.copy dst dstOff src srcOff 0 = st := by
  unfold NetState.copy
  rw [Memory.copyFrom_zero, Function.update_eq_self]

/-- One turn of either loop. -/
theorem write_copy (other : src ≠ dst) (n width : Nat) :
    (st.copy dst dstOff src srcOff n).write dst width (dstOff + n)
      (((st.copy dst dstOff src srcOff n).mem src).load width (srcOff + n)) =
        st.copy dst dstOff src srcOff (n + width) := by
  rw [mem_copy_of_ne other, NetState.write, mem_copy, Memory.store_load_eq, Memory.copyFrom_append]
  unfold NetState.copy
  rw [Function.update_idem]

theorem run_memcpyBytes (other : src ≠ dst) (size i n : Nat) (left : size = i + n) :
    (memcpyBytes dst dstOff src srcOff size i).run netHandler (st.copy dst dstOff src srcOff i) =
      some ((), st.copy dst dstOff src srcOff size) := by
  induction n generalizing i with
  | zero =>
    rw [memcpyBytes, if_neg (by omega), left]
    rfl
  | succ n ih =>
    rw [memcpyBytes, if_pos (by omega), run_load_bind, run_store_bind, write_copy other]
    exact ih (i + 1) (by omega)

theorem run_memcpyWords (st : NetState) (dstOff srcOff : Nat) (other : src ≠ dst) (size i n : Nat)
    (left : size - i ≤ n) (inside : i ≤ size) :
    ∃ j ≤ size, (memcpyWords dst dstOff src srcOff size i).run netHandler
      (st.copy dst dstOff src srcOff i) = some (j, st.copy dst dstOff src srcOff j) := by
  induction n generalizing i with
  | zero =>
    rw [memcpyWords, if_neg (by omega)]
    exact ⟨i, inside, rfl⟩
  | succ n ih =>
    rw [memcpyWords]
    by_cases more : i + 8 < size
    · rw [if_pos more, run_load_bind, run_store_bind, write_copy other]
      exact ih (i + 8) (by omega) (by omega)
    · rw [if_neg more]
      exact ⟨i, inside, rfl⟩

theorem run_memcpy_bind {α : Type} (other : src ≠ dst) (size : Nat) (f : Unit → NetProgram α) :
    (memcpy dst dstOff src srcOff size >>= f).run netHandler st =
      (f ()).run netHandler (st.copy dst dstOff src srcOff size) := by
  obtain ⟨j, inside, words⟩ := run_memcpyWords st dstOff srcOff other size 0 size
    (by omega) (Nat.zero_le size)
  rw [copy_zero] at words
  rw [memcpy, bind_assoc, Program.run_bind, words, Option.bind_some, Program.run_bind,
    run_memcpyBytes other size j (size - j) (by omega), Option.bind_some]

end Copy

/-! ### Sending -/

/-- The bytes of a frame that is sent from `dst` to the address at `dstMac` with this payload. -/
structure Framed (dstMac : Memory) (mac ethertype : Nat) (payload : Memory) (off len : Nat)
    (frame : Memory) : Prop where
  destination : ∀ i < 6, frame i = dstMac (mac + i)
  type : frame.load 2 12 = ethertype % 256 ^ 2
  payload : ∀ i < len, frame (14 + i) = payload (off + i)

/-- The first bytes of a memory, as a frame. -/
def frameOf (m : Memory) (len : Nat) : List UInt8 := (List.range len).map m

/-- The object `frame` once the headers and the payload are in it. -/
def framedIn (frame dst : Memory) (dstMac : Nat) (mac : Memory) (ethertype : Nat) (payload : Memory)
    (off len : Nat) : Memory :=
  (((frame.copyFrom dst 0 dstMac 6).copyFrom mac 6 0 6).store 2 12 ethertype).copyFrom payload 14 off len

theorem framed_framedIn (frame dst : Memory) (dstMac : Nat) (mac : Memory) (ethertype : Nat)
    (payload : Memory) (off len : Nat) :
    Framed dst dstMac ethertype payload off len
      (framedIn frame dst dstMac mac ethertype payload off len) := by
  unfold framedIn
  constructor
  · intro i inside
    rw [Memory.copyFrom_outside _ _ (by omega), Memory.store_outside _ _ _ _ _ (by omega),
      Memory.copyFrom_outside _ _ (by omega)]
    have copied := Memory.copyFrom_inside frame dst (a := 0) (b := dstMac) inside
    rwa [Nat.zero_add] at copied
  · rw [Memory.load_copyFrom_disjoint _ _ (by omega), Memory.load_store]
  · intro i inside
    exact Memory.copyFrom_inside _ _ inside

theorem framedIn_source (frame dst : Memory) (dstMac : Nat) (mac : Memory) (ethertype : Nat)
    (payload : Memory) (off len : Nat) {i : Nat} (inside : i < 6) :
    framedIn frame dst dstMac mac ethertype payload off len (6 + i) = mac i := by
  unfold framedIn
  rw [Memory.copyFrom_outside _ _ (by omega), Memory.store_outside _ _ _ _ _ (by omega),
    Memory.copyFrom_inside _ _ inside, Nat.zero_add]

theorem run_sendEthernet_of_le (st : NetState) {dstBuf payloadBuf : Buffer}
    (dstMac ethertype payload : Nat) {len : Nat} (small : len ≤ 1500)
    (other : dstBuf ≠ .outgoing) (other' : payloadBuf ≠ .outgoing) :
    ∃ t, (sendEthernet dstBuf dstMac ethertype payloadBuf payload len).run netHandler st =
        some ((), t) ∧
      t.sent = frameOf (framedIn (st.mem .outgoing) (st.mem dstBuf) dstMac (st.mem .mac) ethertype
        (st.mem payloadBuf) payload len) (len + 14) :: st.sent := by
  rw [sendEthernet, if_neg (by omega), run_memcpy_bind other, run_memcpy_bind (by decide),
    run_store_bind, run_memcpy_bind other']
  refine ⟨_, rfl, ?_⟩
  rw [mem_copy, mem_write_of_ne other', mem_copy_of_ne other', mem_copy_of_ne other', mem_write,
    mem_copy, mem_copy, mem_copy_of_ne (by decide)]
  rfl

theorem run_sendEthernet {dstBuf payloadBuf : Buffer} (dstMac ethertype payload len : Nat)
    (other : dstBuf ≠ .outgoing) (other' : payloadBuf ≠ .outgoing) :
    ∃ t, (sendEthernet dstBuf dstMac ethertype payloadBuf payload len).run netHandler st =
        some ((), t) ∧
      (t.sent = st.sent ∨ ∃ frame, t.sent = frameOf frame (len + 14) :: st.sent ∧
        Framed (st.mem dstBuf) dstMac ethertype (st.mem payloadBuf) payload len frame) := by
  by_cases big : 1500 < len
  · rw [sendEthernet, if_pos big]
    exact ⟨st, rfl, .inl rfl⟩
  · obtain ⟨t, ran, sent⟩ := run_sendEthernet_of_le st dstMac ethertype payload
      (Nat.not_lt.mp big) other other'
    exact ⟨t, ran, .inr ⟨_, sent, framed_framedIn ..⟩⟩

/-! ### The functions -/

/-- What a host with this address answers: an ARP packet for it that is no reply, or an ICMP echo
request to it. -/
def Answered (ipv4 : Nat) (m : Memory) : Prop :=
  (bswap16 (m.load 2 12) = arpEtherType ∧ m.load 4 38 = bswap32 ipv4 ∧
      m.load 2 20 ≠ bswap16 arpReply) ∨
    (bswap16 (m.load 2 12) = ipv4EtherType ∧ m.load 4 30 = bswap32 ipv4 ∧
      m.load 1 23 = protocolICMP ∧ m.load 1 (14 + ihl m) = 8)

/-- Wherever the frame arrives, it is not answered. -/
def Unanswered (frame : List UInt8) : Prop :=
  ∀ m, frameOf m frame.length = frame → ∀ ipv4, ¬Answered ipv4 m

theorem length_frameOf (m : Memory) (len : Nat) : (frameOf m len).length = len := by
  simp [frameOf]

theorem frameOf_eq {m frame : Memory} {len : Nat} (same : frameOf m len = frameOf frame len) {i : Nat}
    (inside : i < len) : m i = frame i :=
  List.map_inj_left.mp same i (List.mem_range.mpr inside)

/-- What a run leaves: nothing was sent, or one frame to this address, and unless the frame is too
long for its header it is not answered. -/
def Replied (m : Memory) (answered : Prop) (fits : Prop) (st t : NetState) : Prop :=
  t.sent = st.sent ∨ answered ∧ ∃ frame, t.sent = frame :: st.sent ∧
    frame.take 6 = frameOf (fun i => m (6 + i)) 6 ∧ (fits → Unanswered frame)

/-- A reply with a type of its own is answered by neither function of the other type. -/
theorem not_answered_of_opcode {m : Memory} {ipv4 : Nat}
    (type : bswap16 (m.load 2 12) = arpEtherType) (opcode : m.load 2 20 = bswap16 arpReply) :
    ¬Answered ipv4 m := by
  rintro (⟨-, -, other⟩ | ⟨ip, -⟩)
  · exact other opcode
  · exact absurd (type.symm.trans ip) (by decide)

/-- The six bytes of the destination are the first of a frame. -/
theorem take_frameOf {frame m : Memory} {len off : Nat} (long : 6 ≤ len)
    (same : ∀ i < 6, frame i = m (off + i)) :
    (frameOf frame len).take 6 = frameOf (fun i => m (off + i)) 6 := by
  unfold frameOf
  rw [← List.map_take, List.take_range, Nat.min_eq_left long]
  exact List.map_congr_left fun i inside => same i (List.mem_range.mp inside)

/-- Sending the ARP packet once it is made. -/
theorem run_sendReply {answered : Prop} (holds : answered) {u : NetState} (sent : u.sent = st.sent)
    (mac : ∀ i < 6, u.mem .reply (18 + i) = st.mem .received (6 + i))
    (opcode : (u.mem .reply).load 2 6 = bswap16 arpReply) :
    ∃ t, (sendEthernet .reply 18 (bswap16 arpEtherType) .reply 0 sizeofARP).run netHandler u =
        some ((), t) ∧ Replied (st.mem .received) answered True st t := by
  obtain ⟨t, ran, outcome⟩ := run_sendEthernet 18 (bswap16 arpEtherType) 0 sizeofARP
    (by decide : Buffer.reply ≠ .outgoing) (by decide : Buffer.reply ≠ .outgoing)
  refine ⟨t, ran, ?_⟩
  -- a payload that is too long is not sent at all
  rcases outcome with silent | ⟨frame, frames, framed⟩
  · exact .inl (silent.trans sent)
  rw [sent] at frames
  refine .inr ⟨holds, _, frames, ?_, fun _ m same ipv4 => ?_⟩
  · exact take_frameOf (by decide) fun i inside => (framed.destination i inside).trans (mac i inside)
  -- whatever arrives as this frame has its bytes, so also its opcode
  · rw [length_frameOf] at same
    have agrees (w a : Nat) (inside : a + w ≤ 42) : m.load w a = frame.load w a :=
      Memory.load_congr w a fun x _ upper =>
        frameOf_eq same (Nat.lt_of_lt_of_le upper inside : x < 42)
    apply not_answered_of_opcode
    · rw [agrees 2 12 (by decide), framed.type]
      decide
    · rw [agrees 2 20 (by decide), ← opcode]
      refine Memory.load_shift 2 20 6 fun i inside => ?_
      have size : sizeofARP = 28 := rfl
      have byte := framed.payload (6 + i) (by omega)
      rwa [← Nat.add_assoc, Nat.zero_add] at byte

theorem run_receiveARP (st : NetState) (ipv4 len : Nat) :
    ∃ t, (receiveARP ipv4 len).run netHandler st = some ((), t) ∧
      Replied (st.mem .received) ((st.mem .received).load 4 38 = bswap32 ipv4 ∧
        (st.mem .received).load 2 20 ≠ bswap16 arpReply) True st t := by
  rw [receiveARP]
  by_cases short : len < sizeofARP
  · rw [if_pos short]
    exact ⟨st, rfl, .inl rfl⟩
  rw [if_neg short, run_load_bind, show sizeofEthernet + 24 = 38 from rfl]
  by_cases foreign : (st.mem .received).load 4 38 ≠ bswap32 ipv4
  · rw [if_pos foreign]
    exact ⟨st, rfl, .inl rfl⟩
  rw [if_neg foreign, run_load_bind, show sizeofEthernet + 6 = 20 from rfl]
  by_cases reply : (st.mem .received).load 2 20 = bswap16 arpReply
  · rw [if_pos reply]
    exact ⟨st, rfl, .inl rfl⟩
  rw [if_neg reply, run_load_bind, run_log_bind, run_store_bind, run_store_bind, run_store_bind,
    run_store_bind, run_store_bind, run_store_bind, run_memcpy_bind (by decide), run_store_bind,
    run_memcpy_bind (by decide), run_load_bind, run_store_bind]
  apply run_sendReply ⟨not_not.mp foreign, reply⟩ rfl
  -- The destination of the reply is the sender of the request: of the writes only the IP address
  -- behind it follows its copy.
  · intro i inside
    rw [mem_write, mem_copy, Memory.store_outside _ _ _ _ _ (by omega),
      Memory.copyFrom_inside _ _ inside]
    simp (disch := decide) only [mem_write_of_ne, mem_copy_of_ne]
  -- What is written after the opcode lies behind it.
  · rw [mem_write, mem_copy, mem_write, mem_copy, mem_write]
    rw [Memory.load_store_disjoint _ (by decide), Memory.load_copyFrom_disjoint _ _ (by decide),
      Memory.load_store_disjoint _ (by decide), Memory.load_copyFrom_disjoint _ _ (by decide),
      Memory.load_store_same _ (by decide)]
    rfl

theorem run_checksum (st : NetState) (b : Buffer) (data : Nat) (size : Int) :
    (checksum b data size).run netHandler st = some (checksumOf (st.mem b) data size, st) := by
  rw [checksum, Program.run_bind, run_checksumLoop b data size 0 size.toNat (Nat.le_refl _)]
  rfl

theorem run_checksum_bind {α : Type} (b : Buffer) (data : Nat) (size : Int) (f : Nat → NetProgram α) :
    (checksum b data size >>= f).run netHandler st =
      (f (checksumOf (st.mem b) data size)).run netHandler st := by
  rw [Program.run_bind, run_checksum, Option.bind_some]

/-! ### The reply to an echo request -/

def swapAddresses (m : Memory) : Memory :=
  (m.store 4 26 (m.load 4 30)).store 4 30 (m.load 4 26)

/-- The checksum of a range in its field, which is zero while it is computed. -/
def withChecksum (m : Memory) (data : Nat) (size : Int) (field : Nat) : Memory :=
  (m.store 2 field 0).store 2 field (checksumOf (m.store 2 field 0) data size)

/-- The IP header of the reply. -/
def echoHeader (m : Memory) : Memory := withChecksum (swapAddresses m) 14 (ihl m) 24

/-- What the request is made into. -/
def echoReply (m : Memory) : Memory :=
  withChecksum (((echoHeader m).store 1 (14 + ihl m) 0).store 1 (14 + ihl m + 1) 0) (14 + ihl m)
    (totalLength m - ihl m) (14 + ihl m + 2)

section EchoReply

variable {m : Memory}

theorem swapAddresses_outside {x : Nat} (outside : x < 26 ∨ 34 ≤ x) : swapAddresses m x = m x := by
  unfold swapAddresses
  rw [Memory.store_outside _ _ _ _ _ (by omega), Memory.store_outside _ _ _ _ _ (by omega)]

theorem withChecksum_outside {data : Nat} {size : Int} {field x : Nat}
    (outside : x < field ∨ field + 2 ≤ x) : withChecksum m data size field x = m x := by
  unfold withChecksum
  rw [Memory.store_outside _ _ _ _ _ outside, Memory.store_outside _ _ _ _ _ outside]

theorem echoHeader_outside {x : Nat} (outside : x < 24 ∨ 34 ≤ x) : echoHeader m x = m x := by
  unfold echoHeader
  rw [withChecksum_outside (by omega), swapAddresses_outside (by omega)]

theorem echoReply_outside {x : Nat} (outside : x < 14 + ihl m ∨ 18 + ihl m ≤ x) :
    echoReply m x = echoHeader m x := by
  unfold echoReply
  rw [withChecksum_outside (by omega), Memory.store_outside _ _ _ _ _ (by omega),
    Memory.store_outside _ _ _ _ _ (by omega)]

theorem echoReply_type : echoReply m (14 + ihl m) = 0 := by
  unfold echoReply
  rw [withChecksum_outside (by omega), Memory.store_outside _ _ _ _ _ (by omega),
    ← UInt8.toNat_inj, ← Memory.load_one, Memory.load_store]
  rfl

theorem echoReply_code : echoReply m (14 + ihl m + 1) = 0 := by
  unfold echoReply
  rw [withChecksum_outside (by omega), ← UInt8.toNat_inj, ← Memory.load_one, Memory.load_store]
  rfl

end EchoReply

/-- The stores leave the total length alone, so it is still what the frame says when it is read. -/
theorem run_receiveICMP_request (st : NetState) {len : Nat} (long : 42 ≤ len)
    (echo : (st.mem .received).load 1 (14 + ihl (st.mem .received)) = 8) :
    ∃ u, u.mem .received = echoReply (st.mem .received) ∧ u.mem .mac = st.mem .mac ∧
      u.sent = st.sent ∧
      (receiveICMP len).run netHandler st =
        (sendEthernet .received 6 (bswap16 ipv4EtherType) .received 14
          (totalLength (st.mem .received))).run netHandler u := by
  have low := four_le_ihl echo
  have sizes : sizeofEthernet + sizeofIPv4 + sizeofICMP = 42 := rfl
  rw [receiveICMP, if_neg (by omega), run_load_bind, run_load_bind, run_log_bind, run_load_bind,
    show sizeofEthernet = 14 from rfl,
    show headerLength ((st.mem .received).load 1 14) = ihl (st.mem .received) from rfl,
    if_pos echo, run_load_bind, run_load_bind, run_store_bind, run_store_bind, run_store_bind,
    run_checksum_bind, run_store_bind, run_store_bind, run_store_bind, run_store_bind,
    run_load_bind, run_checksum_bind, run_store_bind, run_load_bind]
  -- the reads see the received frame, since all stores before them are to other bytes
  simp (disch := omega) only [mem_write, Memory.load_store_disjoint]
  rw [show bswap16 ((st.mem .received).load 2 (14 + 2)) = totalLength (st.mem .received) from rfl]
  refine ⟨_, ?_, ?_, ?_, rfl⟩
  · simp only [mem_write]
    rfl
  · simp (disch := decide) only [mem_write_of_ne]
  · rfl

/-- Sending the packet once the request was made into a reply: the length of its header is as it
was, and its type is zero. -/
theorem run_sendEcho {answered : Prop} (holds : answered) {u : NetState} (sent : u.sent = st.sent)
    (mac : ∀ i < 6, u.mem .received (6 + i) = st.mem .received (6 + i))
    (header : u.mem .received 14 = st.mem .received 14)
    (type : u.mem .received (14 + ihl (st.mem .received)) = 0) (total : Nat) :
    ∃ t, (sendEthernet .received 6 (bswap16 ipv4EtherType) .received 14 total).run netHandler u =
        some ((), t) ∧
      Replied (st.mem .received) answered (ihl (st.mem .received) + 8 ≤ total) st t := by
  obtain ⟨t, ran, outcome⟩ := run_sendEthernet 6 (bswap16 ipv4EtherType) 14 total
    (by decide : Buffer.received ≠ .outgoing) (by decide : Buffer.received ≠ .outgoing)
  refine ⟨t, ran, ?_⟩
  rcases outcome with silent | ⟨frame, frames, framed⟩
  · exact .inl (silent.trans sent)
  rw [sent] at frames
  refine .inr ⟨holds, _, frames, ?_, fun fits m same ipv4 => ?_⟩
  · exact take_frameOf (Nat.le_add_left_of_le (by decide)) fun i inside =>
      (framed.destination i inside).trans (mac i inside)
  · rw [length_frameOf] at same
    have agrees (i : Nat) (inside : i < total + 14) : m i = frame i := frameOf_eq same inside
    have same14 : m 14 = st.mem .received 14 := by
      rw [agrees 14 (by omega), ← header]
      exact framed.payload 0 (by omega)
    have sameLength : ihl m = ihl (st.mem .received) := by
      unfold ihl
      rw [Memory.load_one, Memory.load_one, same14]
    -- An echo reply is no request in turn: by its type it is no ARP packet, and its ICMP type is the
    -- zero that was written.
    rintro (⟨arp, -⟩ | ⟨-, -, -, echo⟩)
    · rw [Memory.load_congr 2 12 fun x _ upper => agrees x (by omega), framed.type] at arp
      exact absurd arp (by decide)
    · rw [sameLength, Memory.load_one, agrees _ (by omega), framed.payload _ (by omega), type] at echo
      cases echo

/-- The reply is made in the frame: addresses, checksums and type change, and the length of the IP
header lies before all of them. -/
theorem run_receiveICMP (st : NetState) (len : Nat) :
    ∃ t, (receiveICMP len).run netHandler st = some ((), t) ∧
      Replied (st.mem .received) ((st.mem .received).load 1 (14 + ihl (st.mem .received)) = 8)
        (ihl (st.mem .received) + 8 ≤ totalLength (st.mem .received)) st t := by
  by_cases short : len < 42
  · rw [receiveICMP, if_pos (show len < sizeofEthernet + sizeofIPv4 + sizeofICMP from short)]
    exact ⟨st, rfl, .inl rfl⟩
  -- only an echo request is turned into a reply, in place
  by_cases echo : (st.mem .received).load 1 (14 + ihl (st.mem .received)) = 8
  · have low := four_le_ihl echo
    obtain ⟨u, reply, -, sent, ran⟩ := run_receiveICMP_request st (Nat.not_lt.mp short) echo
    rw [ran]
    apply run_sendEcho echo sent
    · intro i inside
      rw [reply, echoReply_outside (by omega), echoHeader_outside (by omega)]
    · rw [reply, echoReply_outside (by omega), echoHeader_outside (by omega)]
    · rw [reply]
      exact echoReply_type
  · rw [receiveICMP, if_neg (show ¬len < sizeofEthernet + sizeofIPv4 + sizeofICMP from short),
      run_load_bind, run_load_bind, run_log_bind, run_load_bind, show sizeofEthernet = 14 from rfl,
      show headerLength ((st.mem .received).load 1 14) = ihl (st.mem .received) from rfl, if_neg echo]
    exact ⟨st, rfl, .inl rfl⟩

theorem run_receiveUdp (st : NetState) :
    ∃ t, receiveUdp.run netHandler st = some ((), t) ∧ t.sent = st.sent := by
  rw [receiveUdp, run_load_bind, run_load_bind, run_malloc_bind, run_memcpy_bind (by decide),
    run_store_bind, run_load_bind, run_load_bind, run_log_bind]
  exact ⟨_, rfl, rfl⟩

theorem Replied.mono {m : Memory} {answered answered' fits fits' : Prop}
    (replied : Replied m answered fits st t) (implied : answered → answered')
    (fit : fits' → fits) : Replied m answered' fits' st t := by
  rcases replied with silent | ⟨holds, frame, sent, destination, unanswered⟩
  · exact .inl silent
  · exact .inr ⟨implied holds, frame, sent, destination, fun fits => unanswered (fit fits)⟩

theorem run_receiveIPv4 (st : NetState) (ipv4 len : Nat) :
    ∃ t, (receiveIPv4 ipv4 len).run netHandler st = some ((), t) ∧
      Replied (st.mem .received) ((st.mem .received).load 4 30 = bswap32 ipv4 ∧
        (st.mem .received).load 1 23 = protocolICMP ∧
        (st.mem .received).load 1 (14 + ihl (st.mem .received)) = 8)
        ((st.mem .received).load 1 23 = protocolICMP →
          ihl (st.mem .received) + 8 ≤ totalLength (st.mem .received)) st t := by
  -- one branch after the other; only an echo request for this address is answered
  rw [receiveIPv4]
  by_cases short : len < sizeofIPv4 + sizeofEthernet
  · rw [if_pos short]
    exact ⟨st, rfl, .inl rfl⟩
  rw [if_neg short, run_load_bind, show sizeofEthernet + 16 = 30 from rfl]
  by_cases foreign : (st.mem .received).load 4 30 ≠ bswap32 ipv4
  · rw [if_pos foreign]
    exact ⟨st, rfl, .inl rfl⟩
  rw [if_neg foreign, run_load_bind, show sizeofEthernet + 9 = 23 from rfl]
  by_cases icmp : (st.mem .received).load 1 23 = protocolICMP
  · rw [if_pos icmp]
    obtain ⟨t, ran, replied⟩ := run_receiveICMP st len
    exact ⟨t, ran, replied.mono (fun echo => ⟨not_not.mp foreign, icmp, echo⟩) fun fits => fits icmp⟩
  rw [if_neg icmp]
  by_cases udp : (st.mem .received).load 1 23 = protocolUDP
  · rw [if_pos udp]
    obtain ⟨t, ran, silent⟩ := run_receiveUdp st
    exact ⟨t, ran, .inl silent⟩
  · rw [if_neg udp]
    exact ⟨st, rfl, .inl rfl⟩

/-- An ARP frame is complete, and an ICMP packet holds its headers and lies in its frame. -/
def LengthsFit (len : Nat) (m : Memory) : Prop :=
  (bswap16 (m.load 2 12) = arpEtherType → 42 ≤ len) ∧
    (bswap16 (m.load 2 12) = ipv4EtherType → m.load 1 23 = protocolICMP →
      ihl m + 8 ≤ totalLength m ∧ totalLength m + 14 ≤ len)

theorem run_receiveEthernet (st : NetState) (ipv4 len : Nat) :
    ∃ t, (receiveEthernet ipv4 len).run netHandler st = some ((), t) ∧
      Replied (st.mem .received) (Answered ipv4 (st.mem .received))
        (LengthsFit len (st.mem .received)) st t := by
  -- the types of ARP and IPv4 are the only ones that go on
  rw [receiveEthernet]
  by_cases short : len < sizeofEthernet
  · rw [if_pos short]
    exact ⟨st, rfl, .inl rfl⟩
  rw [if_neg short, run_load_bind]
  by_cases arp : bswap16 ((st.mem .received).load 2 12) = arpEtherType
  · rw [if_pos arp]
    obtain ⟨t, ran, replied⟩ := run_receiveARP st ipv4 len
    exact ⟨t, ran, replied.mono (fun holds => .inl ⟨arp, holds⟩) fun _ => trivial⟩
  rw [if_neg arp]
  by_cases ip : bswap16 ((st.mem .received).load 2 12) = ipv4EtherType
  · rw [if_pos ip]
    obtain ⟨t, ran, replied⟩ := run_receiveIPv4 st ipv4 len
    exact ⟨t, ran, replied.mono (fun holds => .inr ⟨ip, holds⟩) fun fits icmp => (fits.2 ip icmp).1⟩
  · rw [if_neg ip]
    exact ⟨st, rfl, .inl rfl⟩

/-- A host sends at most one frame for a frame, only to answer it, and to where it came from; and
no host sends anything for that frame. -/
theorem responder_cannot_loop (ipv4 len : Nat) (st : NetState)
    (fits : LengthsFit len (st.mem .received)) :
    ∃ t, (receiveEthernet ipv4 len).run netHandler st = some ((), t) ∧
      (t.sent = st.sent ∨ ∃ frame, t.sent = frame :: st.sent ∧
        Answered ipv4 (st.mem .received) ∧
        frame.take 6 = frameOf (fun i => st.mem .received (6 + i)) 6 ∧
        ∀ ipv4' st', frameOf (st'.mem .received) frame.length = frame →
          ∃ t', (receiveEthernet ipv4' frame.length).run netHandler st' = some ((), t') ∧
            t'.sent = st'.sent) := by
  obtain ⟨t, ran, replied⟩ := run_receiveEthernet st ipv4 len
  refine ⟨t, ran, ?_⟩
  rcases replied with silent | ⟨answered, frame, sent, destination, unanswered⟩
  · exact .inl silent
  refine .inr ⟨frame, sent, answered, destination, fun ipv4' st' arrives => ?_⟩
  -- the frame that was sent is handled like any other, and is none of those that are answered
  obtain ⟨t', ran', replied'⟩ := run_receiveEthernet st' ipv4' frame.length
  refine ⟨t', ran', ?_⟩
  rcases replied' with silent | ⟨again, -⟩
  · exact silent
  · exact (unanswered fits _ arrives ipv4' again).elim

/-- An ARP request for 10.0.0.2. -/
def arpRequest : NetState where
  mem
    | .received => fun
      | 12 => 8
      | 13 => 6
      | 21 => 1
      | 38 => 10
      | 41 => 2
      | _ => 0
    | _ => fun _ => 0
  sent := []

theorem responder_cannot_loop_arpRequest : LengthsFit 42 (arpRequest.mem .received) ∧
    ∃ t, (receiveEthernet 0x0A000002 42).run netHandler arpRequest = some ((), t) ∧
      (t.sent = [] ∨ ∃ frame, t.sent = [frame] ∧ Answered 0x0A000002 (arpRequest.mem .received) ∧
        frame.take 6 = frameOf (fun i => arpRequest.mem .received (6 + i)) 6 ∧
        ∀ ipv4' st', frameOf (st'.mem .received) frame.length = frame →
          ∃ t', (receiveEthernet ipv4' frame.length).run netHandler st' = some ((), t') ∧
            t'.sent = st'.sent) := by
  have fits : LengthsFit 42 (arpRequest.mem .received) :=
    ⟨fun _ => by decide, fun ip => absurd ip (by decide)⟩
  exact ⟨fits, responder_cannot_loop 0x0A000002 42 arpRequest fits⟩

end KopalniaOS.Network
