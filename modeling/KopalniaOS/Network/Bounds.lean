import KopalniaOS.Network.Model

/-!
# Accesses to received frames

Which frames are only accessed inside their bounds. The loops access a range, so each of
them is in bounds exactly when the range is.
-/
namespace KopalniaOS.Network

open Library

/-- An access to the received frame stays below `len`. -/
def InFrame (len : Nat) (o : NetOp) (_ : NetState) : Prop :=
  match o with
  | .load .received width offset => offset + width ≤ len
  | .store .received width offset _ => offset + width ≤ len
  | _ => True

/-- All accesses of a run stay inside the frame. -/
abbrev Stays {α : Type} (len : Nat) (p : NetProgram α) (st : NetState) : Prop :=
  p.All netHandler (InFrame len) st

variable {α : Type} {len : Nat} {st : NetState}

/-! ### One operation -/

@[simp] theorem stays_load (b : Buffer) (width offset : Nat) (f : Nat → NetProgram α) :
    Stays len (load b width offset >>= f) st ↔
      InFrame len (.load b width offset) st ∧ Stays len (f ((st.mem b).load width offset)) st := by
  rw [Stays, load, Program.all_perform_bind]
  simp [netHandler]

@[simp] theorem stays_store (b : Buffer) (width offset value : Nat) (f : Unit → NetProgram α) :
    Stays len (store b width offset value >>= f) st ↔
      InFrame len (.store b width offset value) st ∧
        Stays len (f ()) (st.write b width offset value) := by
  rw [Stays, store, Program.all_perform_bind]
  simp [netHandler]

@[simp] theorem stays_malloc (size : Nat) (f : Unit → NetProgram α) :
    Stays len (malloc size >>= f) st ↔ Stays len (f ()) st := by
  rw [Stays, malloc, Program.all_perform_bind]
  simp [netHandler, InFrame]

@[simp] theorem stays_log (entry : LogEntry) (f : Unit → NetProgram α) :
    Stays len (log entry >>= f) st ↔ Stays len (f ()) st := by
  rw [Stays, log, Program.all_perform_bind]
  simp [netHandler, InFrame]

@[simp] theorem stays_log_last (entry : LogEntry) : Stays len (log entry) st := by
  rw [Stays, log]
  exact (Program.all_op _ _ _).mpr ⟨trivial, fun _ _ => Program.all_ret _ _⟩

@[simp] theorem stays_free : Stays len free st :=
  (Program.all_op _ _ _).mpr ⟨trivial, fun _ _ => Program.all_ret _ _⟩

@[simp] theorem stays_send (size : Nat) : Stays len (send size) st :=
  (Program.all_op _ _ _).mpr ⟨trivial, fun _ _ => Program.all_ret _ _⟩

@[simp] theorem stays_pure (a : α) : Stays len (pure a) st := Program.all_ret a st

@[simp] theorem inFrame_load_received (width offset : Nat) :
    InFrame len (.load .received width offset) st ↔ offset + width ≤ len := Iff.rfl

@[simp] theorem inFrame_store_received (width offset value : Nat) :
    InFrame len (.store .received width offset value) st ↔ offset + width ≤ len := Iff.rfl

/-! ### The loops -/

theorem inFrame_load (b : Buffer) (width offset : Nat) :
    InFrame len (.load b width offset) st ↔ (b = .received → offset + width ≤ len) := by
  cases b <;> simp [InFrame]

theorem inFrame_store_other {b : Buffer} (other : b ≠ .received) (width offset value : Nat) :
    InFrame len (.store b width offset value) st := by
  cases b with
  | received => exact (other rfl).elim
  | _ => trivial

theorem stays_memcpyBytes {dst : Buffer} (other : dst ≠ .received) (dstOff : Nat) (src : Buffer)
    (srcOff size i n : Nat) (left : size - i ≤ n) :
    Stays len (memcpyBytes dst dstOff src srcOff size i) st ↔
      (src = .received → i < size → srcOff + size ≤ len) := by
  induction n generalizing i st with
  | zero =>
    rw [memcpyBytes, if_neg (by omega)]
    exact ⟨fun _ _ more => by omega, fun _ => stays_pure ()⟩
  | succ n ih =>
    rw [memcpyBytes]
    by_cases more : i < size
    -- the destination is not in the frame, so only the loads count
    · rw [if_pos more, stays_load, stays_store, ih (i + 1) (by omega), inFrame_load]
      have stored (v : Nat) : InFrame len (.store dst 1 (dstOff + i) v) st :=
        inFrame_store_other other 1 (dstOff + i) v
      constructor
      · rintro ⟨first, -, rest⟩ is -
        have := first is
        have := rest is
        omega
      · intro whole
        exact ⟨fun is => by have := whole is more; omega, stored _,
          fun is _ => whole is more⟩
    · rw [if_neg more]
      exact ⟨fun _ _ inside => (more inside).elim, fun _ => stays_pure ()⟩

theorem stays_memcpyWords {dst : Buffer} (other : dst ≠ .received) (dstOff : Nat) (src : Buffer)
    (srcOff size i n : Nat) (left : size - i ≤ n) :
    Stays len (memcpyWords dst dstOff src srcOff size i >>= memcpyBytes dst dstOff src srcOff size) st ↔
      (src = .received → i < size → srcOff + size ≤ len) := by
  induction n generalizing i st with
  | zero =>
    rw [memcpyWords, if_neg (by omega), pure_bind]
    exact stays_memcpyBytes other dstOff src srcOff size i 0 left
  | succ n ih =>
    rw [memcpyWords]
    -- a word is only moved when more is left, so its bytes are in the range anyway
    by_cases more : i + 8 < size
    · rw [if_pos more, bind_assoc, stays_load, bind_assoc, stays_store, ih (i + 8) (by omega),
        inFrame_load]
      have stored (v : Nat) : InFrame len (.store dst 8 (dstOff + i) v) st :=
        inFrame_store_other other 8 (dstOff + i) v
      constructor
      · rintro ⟨-, -, rest⟩ is -
        exact rest is more
      · intro whole
        exact ⟨fun is => by have := whole is (by omega); omega, stored _,
          fun is _ => whole is (by omega)⟩
    · rw [if_neg more, pure_bind]
      exact stays_memcpyBytes other dstOff src srcOff size i _ left

/-- `memcpy` reads its source from end to end. -/
theorem stays_memcpy {dst : Buffer} (other : dst ≠ .received) (dstOff : Nat) (src : Buffer)
    (srcOff size : Nat) : Stays len (memcpy dst dstOff src srcOff size) st ↔
      (src = .received → 0 < size → srcOff + size ≤ len) :=
  stays_memcpyWords other dstOff src srcOff size 0 size (by omega)

theorem stays_checksumLoop (b : Buffer) (ptr : Nat) (size : Int) (sum n : Nat)
    (left : size.toNat ≤ n) : Stays len (checksumLoop b ptr size sum) st ↔
      (b = .received → 0 < size → (ptr : Int) + size ≤ len) := by
  -- Two bytes a turn and one for an odd size: the last turn of the loop reads the last byte the size
  -- promises, so the whole range is inside exactly if every turn's read is.
  induction n generalizing ptr size sum with
  | zero =>
    rw [checksumLoop, if_neg (by omega), if_neg (by omega)]
    exact ⟨fun _ _ pos => by omega, fun _ => stays_pure _⟩
  | succ n ih =>
    rw [checksumLoop]
    by_cases more : 1 < size
    · rw [if_pos more, stays_load, inFrame_load, ih _ _ _ (by omega)]
      constructor
      · rintro ⟨first, rest⟩ is -
        have := first is
        have := rest is
        omega
      · intro whole
        exact ⟨fun is => by have := whole is (by omega); omega,
          fun is _ => by have := whole is (by omega); omega⟩
    · rw [if_neg more]
      by_cases one : size = 1
      · rw [if_pos one, stays_load, inFrame_load]
        constructor
        · rintro ⟨first, -⟩ is -
          have := first is
          omega
        · intro whole
          exact ⟨fun is => by have := whole is (by omega); omega, stays_pure _⟩
      · rw [if_neg one]
        exact ⟨fun _ _ _ => by omega, fun _ => stays_pure _⟩

/-- What the loop of `checksum` adds up. -/
def sumWords (m : Memory) (ptr : Nat) (size : Int) (sum : Nat) : Nat :=
  if 1 < size then sumWords m (ptr + 2) (size - 2) ((sum + m.load 2 ptr) % 2 ^ 32)
  else if size = 1 then (sum + m.load 1 ptr) % 2 ^ 32
  else sum
termination_by size.toNat

def checksumOf (m : Memory) (data : Nat) (size : Int) : Nat :=
  (2 ^ 32 - 1 - foldSum (sumWords m data size 0)) % 2 ^ 16

theorem run_checksumLoop (b : Buffer) (ptr : Nat) (size : Int) (sum n : Nat)
    (left : size.toNat ≤ n) : (checksumLoop b ptr size sum).run netHandler st =
      some (sumWords (st.mem b) ptr size sum, st) := by
  induction n generalizing ptr size sum with
  | zero => rw [checksumLoop, sumWords, if_neg (by omega), if_neg (by omega), if_neg (by omega),
      if_neg (by omega), Program.pure_eq, Program.run_ret]
  | succ n ih =>
    rw [checksumLoop, sumWords]
    by_cases more : 1 < size
    · rw [if_pos more, if_pos more]
      exact ih _ _ _ (by omega)
    · rw [if_neg more, if_neg more]
      by_cases one : size = 1
      · rw [if_pos one, if_pos one]
        rfl
      · rw [if_neg one, if_neg one]
        rfl

@[simp] theorem stays_checksum (b : Buffer) (data : Nat) (size : Int) (f : Nat → NetProgram α) :
    Stays len (checksum b data size >>= f) st ↔
      (b = .received → 0 < size → (data : Int) + size ≤ len) ∧
        Stays len (f (checksumOf (st.mem b) data size)) st := by
  have range : Stays len (checksumLoop b data size 0) st ↔ _ :=
    stays_checksumLoop b data size 0 size.toNat (Nat.le_refl _)
  rw [checksum, bind_assoc, Stays, Program.all_bind,
    run_checksumLoop b data size 0 size.toNat (Nat.le_refl _), ← range]
  simp [checksumOf]

theorem stays_memcpy_bind {dst src : Buffer} {dstOff srcOff size : Nat} {f : Unit → NetProgram α}
    (other : dst ≠ .received) (fits : src = .received → 0 < size → srcOff + size ≤ len)
    (rest : ∀ t, Stays len (f ()) t) :
    Stays len (memcpy dst dstOff src srcOff size >>= f) st :=
  (Program.all_bind _ _ _).mpr
    ⟨(stays_memcpy other dstOff src srcOff size).mpr fits, fun _ t _ => rest t⟩

/-! ### The functions -/

/-- `send_ethernet` reads the address and the payload. -/
theorem stays_sendEthernet {dstBuf payloadBuf : Buffer} {dstMac ethertype payload size : Nat}
    (mac : dstBuf = .received → dstMac + 6 ≤ len)
    (body : payloadBuf = .received → 0 < size → payload + size ≤ len) :
    Stays len (sendEthernet dstBuf dstMac ethertype payloadBuf payload size) st := by
  unfold sendEthernet
  split
  · exact stays_log_last _
  · apply stays_memcpy_bind (by simp) (fun is _ => mac is)
    intro _
    apply stays_memcpy_bind (by simp) (by simp)
    intro _
    rw [stays_store]
    refine ⟨trivial, ?_⟩
    apply stays_memcpy_bind (by simp) body
    intro _
    exact stays_send _

/-- `receive_ARP` compares the length with its own header, but reads behind the Ethernet one. -/
theorem stays_receiveARP (ipv4 : Nat) :
    Stays len (receiveARP ipv4 len) st ↔ len < 28 ∨ 42 ≤ len := by
  have header : sizeofEthernet = 14 := rfl
  by_cases short : len < sizeofARP
  · rw [receiveARP, if_pos short]
    exact ⟨fun _ => .inl short, fun _ => stays_log_last _⟩
  · rw [receiveARP, if_neg short, stays_load, inFrame_load_received]
    constructor
    · rintro ⟨whole, -⟩
      exact .inr (by omega)
    · rintro (little | whole)
      · exact (short little).elim
      refine ⟨by omega, ?_⟩
      -- from here on every field read lies below 42
      by_cases foreign : (st.mem .received).load 4 (sizeofEthernet + 24) ≠ bswap32 ipv4
      · rw [if_pos foreign]
        exact stays_pure ()
      rw [if_neg foreign, stays_load, inFrame_load_received]
      refine ⟨by omega, ?_⟩
      by_cases reply : (st.mem .received).load 2 (sizeofEthernet + 6) = bswap16 arpReply
      · rw [if_pos reply]
        exact stays_pure ()
      rw [if_neg reply]
      simp only [stays_load, stays_store, stays_log, inFrame_load_received]
      refine ⟨by omega, trivial, trivial, trivial, trivial, trivial, trivial, ?_⟩
      apply stays_memcpy_bind (by simp) (by simp)
      intro _
      rw [stays_store]
      refine ⟨trivial, ?_⟩
      apply stays_memcpy_bind (by simp) (fun _ _ => by omega)
      intro _
      rw [stays_load, stays_store, inFrame_load_received]
      refine ⟨by omega, trivial, ?_⟩
      exact stays_sendEthernet (by simp) (by simp)

/-- The length of the IP header, as a frame states it. -/
def ihl (m : Memory) : Nat := headerLength (m.load 1 14)

def totalLength (m : Memory) : Nat := bswap16 (m.load 2 16)

/-- The length `receive_udp` takes for the payload. -/
def udpPayload (m : Memory) : Nat := (bswap16 (m.load 2 (18 + ihl m)) + (2 ^ 16 - 8)) % 2 ^ 16

theorem stays_receiveUdp (whole : 34 ≤ len) :
    Stays len receiveUdp st ↔ 20 + ihl (st.mem .received) ≤ len ∧
      (udpPayload (st.mem .received) = 0 ∨
        22 + ihl (st.mem .received) + udpPayload (st.mem .received) ≤ len) := by
  unfold udpPayload ihl
  rw [receiveUdp, stays_load, stays_load]
  simp only [sizeofEthernet, sizeofUDP, stays_malloc, inFrame_load_received]
  generalize headerLength ((st.mem .received).load 1 14) = h
  rw [show 14 + h + 4 = 18 + h by omega]
  generalize (bswap16 ((st.mem .received).load 2 (18 + h)) + (2 ^ 16 - 8)) % 2 ^ 16 = n
  constructor
  · rintro ⟨-, header, rest⟩
    -- the copy reads the payload from end to end
    have copied := (Program.all_bind _ _ _).mp rest
    have range := (stays_memcpy (by simp) 0 .received (14 + h + 8) n).mp copied.1 rfl
    omega
  · rintro ⟨header, body⟩
    refine ⟨by omega, by omega, ?_⟩
    apply stays_memcpy_bind (by simp) (fun _ pos => by omega)
    intro _
    simp only [stays_load, stays_store, stays_log, inFrame_load_received]
    exact ⟨trivial, by omega, by omega, stays_free⟩

/-! ### ICMP -/

/-- What an ICMP frame of at least 42 bytes has to satisfy: the type lies in the frame, and for
an echo request so do the rest of the header and the packet as long as its total length says. -/
def IcmpFits (len : Nat) (m : Memory) : Prop :=
  14 + ihl m < len ∧ (m.load 1 (14 + ihl m) = 8 →
    18 + ihl m ≤ len ∧ (totalLength m ≤ ihl m ∨ 14 + totalLength m ≤ len))

@[simp] theorem mem_write (b : Buffer) (width offset value : Nat) :
    (st.write b width offset value).mem b = (st.mem b).store width offset value :=
  Function.update_self ..

/-- An echo request does not overlap the fields of the IP header in front of its checksum: a
header length of zero would make the type the byte that says so. -/
theorem four_le_ihl {m : Memory} (echo : m.load 1 (14 + ihl m) = 8) : 4 ≤ ihl m := by
  by_contra small
  -- a length below four is zero, and then the type is read from byte 14 itself
  have zero : m.load 1 14 &&& 0x0F = 0 := by
    unfold ihl headerLength at small
    omega
  have start : ihl m = 0 := by
    unfold ihl headerLength
    rw [zero]
  rw [start] at echo
  rw [echo] at zero
  cases zero

theorem stays_receiveICMP :
    Stays len (receiveICMP len) st ↔ len < 42 ∨ IcmpFits len (st.mem .received) := by
  have header : sizeofEthernet = 14 := rfl
  by_cases short : len < sizeofEthernet + sizeofIPv4 + sizeofICMP
  · rw [receiveICMP, if_pos short]
    exact ⟨fun _ => .inl short, fun _ => stays_log_last _⟩
  · rw [receiveICMP, if_neg short]
    simp only [stays_load, stays_log, inFrame_load_received]
    rw [header, show headerLength ((st.mem .received).load 1 14) = ihl (st.mem .received) from rfl]
    have whole : 42 ≤ len := Nat.not_lt.mp short
    unfold IcmpFits
    by_cases echo : (st.mem .received).load 1 (14 + ihl (st.mem .received)) = 8
    · have low := four_le_ihl echo
      rw [if_pos echo]
      simp only [stays_load, stays_store, stays_checksum, inFrame_load_received,
        inFrame_store_received, mem_write]
      -- no store touches the total length, so both later reads find what the frame says
      simp (disch := omega) only [Memory.load_store_disjoint]
      rw [show bswap16 ((st.mem .received).load 2 (14 + 2)) = totalLength (st.mem .received) from rfl]
      constructor
      · rintro ⟨-, -, first, -, -, -, -, -, -, -, -, -, last, -, body, -⟩
        have := body trivial
        exact .inr ⟨by omega, fun _ => ⟨by omega, by omega⟩⟩
      · rintro (little | ⟨first, fits⟩)
        · omega
        obtain ⟨last, body⟩ := fits echo
        refine ⟨by omega, by omega, by omega, by omega, by omega, by omega, by omega, by omega,
          fun _ _ => by omega, by omega, by omega, by omega, by omega, by omega,
          fun _ _ => by omega, by omega, by omega, ?_⟩
        exact stays_sendEthernet (fun _ => by omega) (fun _ _ => by omega)
    · rw [if_neg echo]
      constructor
      · rintro ⟨-, -, first, -⟩
        exact .inr ⟨by omega, fun type => (echo type).elim⟩
      · rintro (little | ⟨first, -⟩)
        · exact (short little).elim
        exact ⟨by omega, by omega, by omega, stays_pure ()⟩

/-! ### Frames -/

/-- The frames that are only accessed in bounds. Frames that are not for the stack are; an
ARP frame is when it ends before 28 bytes or has 42; ICMP and UDP packets are when the
lengths they state stay inside the frame. -/
def FrameFits (ipv4 len : Nat) (m : Memory) : Prop :=
  len < 14 ∨
    (bswap16 (m.load 2 12) = arpEtherType → len < 28 ∨ 42 ≤ len) ∧
    (bswap16 (m.load 2 12) = ipv4EtherType → len < 34 ∨ m.load 4 30 ≠ bswap32 ipv4 ∨
      (m.load 1 23 = protocolICMP → len < 42 ∨ IcmpFits len m) ∧
      (m.load 1 23 = protocolUDP → 20 + ihl m ≤ len ∧
        (udpPayload m = 0 ∨ 22 + ihl m + udpPayload m ≤ len)))

theorem stays_receiveIPv4 (ipv4 : Nat) :
    Stays len (receiveIPv4 ipv4 len) st ↔
      len < 34 ∨ (st.mem .received).load 4 30 ≠ bswap32 ipv4 ∨
        ((st.mem .received).load 1 23 = protocolICMP →
          len < 42 ∨ IcmpFits len (st.mem .received)) ∧
        ((st.mem .received).load 1 23 = protocolUDP → 20 + ihl (st.mem .received) ≤ len ∧
          (udpPayload (st.mem .received) = 0 ∨
            22 + ihl (st.mem .received) + udpPayload (st.mem .received) ≤ len)) := by
  by_cases short : len < sizeofIPv4 + sizeofEthernet
  · rw [receiveIPv4, if_pos short]
    exact ⟨fun _ => .inl short, fun _ => stays_log_last _⟩
  -- behind the first check the header up to its options is inside
  have whole : 34 ≤ len := Nat.not_lt.mp short
  have little : ¬len < 34 := short
  rw [receiveIPv4, if_neg short, stays_load, inFrame_load_received,
    show sizeofEthernet + 16 = 30 from rfl, show sizeofEthernet + 9 = 23 from rfl]
  by_cases foreign : (st.mem .received).load 4 30 ≠ bswap32 ipv4
  · rw [if_pos foreign]
    exact ⟨fun _ => .inr (.inl foreign), fun _ => ⟨by omega, stays_pure ()⟩⟩
  rw [if_neg foreign, stays_load, inFrame_load_received]
  by_cases icmp : (st.mem .received).load 1 23 = protocolICMP
  · have notUdp : protocolICMP ≠ protocolUDP := by decide
    rw [if_pos icmp, stays_receiveICMP]
    simp only [little, foreign, icmp, notUdp, false_or, false_imp_iff, true_imp_iff, and_true]
    exact ⟨fun all => all.2.2, fun fits => ⟨by omega, by omega, fits⟩⟩
  rw [if_neg icmp]
  by_cases udp : (st.mem .received).load 1 23 = protocolUDP
  · have notIcmp : protocolUDP ≠ protocolICMP := by decide
    rw [if_pos udp, stays_receiveUdp whole]
    simp only [little, foreign, udp, notIcmp, false_or, false_imp_iff, true_imp_iff, true_and]
    exact ⟨fun all => all.2.2, fun fits => ⟨by omega, by omega, fits⟩⟩
  · rw [if_neg udp]
    simp only [icmp, udp, false_imp_iff, and_true, or_true, iff_true]
    exact ⟨by omega, by omega, stays_pure ()⟩

/-- Frame memory is only accessed below `len`, for every address of the device, every length
and every content, exactly when the frame fits. -/
theorem receiveEthernet_in_bounds (ipv4 len : Nat) (st : NetState) :
    (receiveEthernet ipv4 len).All netHandler (InFrame len) st ↔
      FrameFits ipv4 len (st.mem .received) := by
  unfold FrameFits
  by_cases short : len < sizeofEthernet
  · rw [receiveEthernet, if_pos short]
    exact ⟨fun _ => .inl short, fun _ => stays_log_last _⟩
  -- behind the first check the header of the frame is inside
  have whole : 14 ≤ len := Nat.not_lt.mp short
  have little : ¬len < 14 := short
  rw [receiveEthernet, if_neg short]
  refine (stays_load ..).trans ?_
  rw [inFrame_load_received]
  by_cases arp : bswap16 ((st.mem .received).load 2 12) = arpEtherType
  · have notIPv4 : arpEtherType ≠ ipv4EtherType := by decide
    rw [if_pos arp, stays_receiveARP]
    simp only [little, arp, notIPv4, false_or, false_imp_iff, true_imp_iff, and_true]
    exact ⟨fun all => all.2, fun fits => ⟨by omega, fits⟩⟩
  rw [if_neg arp]
  by_cases ip : bswap16 ((st.mem .received).load 2 12) = ipv4EtherType
  · have notArp : ipv4EtherType ≠ arpEtherType := by decide
    rw [if_pos ip, stays_receiveIPv4]
    simp only [little, ip, notArp, false_or, false_imp_iff, true_imp_iff, true_and]
    exact ⟨fun all => all.2, fun fits => ⟨by omega, fits⟩⟩
  · rw [if_neg ip]
    simp only [arp, ip, false_imp_iff, and_true, or_true, iff_true]
    exact ⟨by omega, stays_pure ()⟩

/-- A UDP frame for 10.0.0.2 whose UDP length is zero. -/
def shortUdp : NetState where
  mem
    | .received => fun
      | 12 => 8
      | 14 => 0x45
      | 23 => 17
      | 30 => 10
      | 33 => 2
      | _ => 0
    | _ => fun _ => 0
  sent := []

/-- `receive_udp` takes its length less eight, which wraps, for the payload of a frame of 60
bytes. -/
theorem receiveEthernet_out_of_bounds :
    ¬∀ ipv4 len st, ipv4 < 2 ^ 32 → len < 2 ^ 16 →
      (receiveEthernet ipv4 len).All netHandler (InFrame len) st := by
  intro claimed
  have stays : Stays 60 (receiveEthernet 0x0A000002 60) shortUdp :=
    claimed 0x0A000002 60 shortUdp (by decide) (by decide)
  rw [receiveEthernet, if_neg (by decide), stays_load, if_neg (by decide), if_pos (by decide),
    stays_receiveIPv4] at stays
  rcases stays.2 with little | foreign | ⟨-, udp⟩
  · exact absurd little (by decide)
  · exact foreign (by decide)
  · exact absurd (udp (by decide)) (by decide)

end KopalniaOS.Network
