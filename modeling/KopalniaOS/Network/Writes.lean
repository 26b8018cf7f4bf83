import KopalniaOS.Network.Responder

/-!
# Writes to received frames

Only the reply to an ICMP echo request is made in the frame that was received. Wherever the other
functions read, they leave the frame alone.
-/
namespace KopalniaOS.Network

open Library

/-- Writes to the received frame stay below `room`. -/
def WritesBelow (room : Nat) : NetOp → Prop
  | .store .received width offset _ => offset + width ≤ room
  | _ => True

/-- Above it the frame stays as it is. -/
theorem WritesBelow.received {room : Nat} {o : NetOp} {st : NetState} {r : o.Answer × NetState}
    (below : WritesBelow room o) (answer : netHandler o st = some r) {i : Nat} (above : room ≤ i) :
    r.2.mem .received i = st.mem .received i := by
  cases o with
  | store b width offset value =>
    cases answer
    cases b with
    | received =>
      have inside : offset + width ≤ room := below
      simp only [NetState.write, Function.update_self]
      exact Memory.store_outside _ _ _ _ _ (by omega)
    | _ => rfl
  | _ =>
    cases answer
    rfl

/-- Whatever `p` reads. -/
abbrev Confined {α : Type} (room : Nat) (p : NetProgram α) : Prop := p.Always (WritesBelow room)

variable {α : Type} {room : Nat}

/-! ### Operations -/

@[simp] theorem confined_load (b : Buffer) (width offset : Nat) (f : Nat → NetProgram α) :
    Confined room (load b width offset >>= f) ↔ ∀ v, Confined room (f v) := by
  rw [Confined, load, Program.always_perform_bind]
  simp [WritesBelow]

@[simp] theorem confined_store (b : Buffer) (width offset value : Nat) (f : Unit → NetProgram α) :
    Confined room (store b width offset value >>= f) ↔
      (b = .received → offset + width ≤ room) ∧ Confined room (f ()) := by
  constructor
  · rintro ⟨here, next⟩
    exact ⟨by rintro rfl; exact here, next ()⟩
  · rintro ⟨here, next⟩
    refine ⟨?_, fun _ => next⟩
    cases b with
    | received => exact here rfl
    | _ => trivial

@[simp] theorem confined_log (entry : LogEntry) (f : Unit → NetProgram α) :
    Confined room (log entry >>= f) ↔ Confined room (f ()) :=
  ⟨fun confined => confined.2 (), fun next => ⟨trivial, fun _ => next⟩⟩

@[simp] theorem confined_malloc (size : Nat) (f : Unit → NetProgram α) :
    Confined room (malloc size >>= f) ↔ Confined room (f ()) :=
  ⟨fun confined => confined.2 (), fun next => ⟨trivial, fun _ => next⟩⟩

@[simp] theorem confined_log_last (entry : LogEntry) : Confined room (log entry) :=
  ⟨trivial, fun _ => trivial⟩

@[simp] theorem confined_send (len : Nat) : Confined room (send len) := ⟨trivial, fun _ => trivial⟩

@[simp] theorem confined_free : Confined room free := ⟨trivial, fun _ => trivial⟩

/-! ### Loops -/

/-- What holds of all loads and of the stores to a range holds of a copy to it. -/
theorem always_memcpyBytes {Q : NetOp → Prop} {dst : Buffer} {dstOff size : Nat}
    (loads : ∀ b w off, Q (.load b w off))
    (stores : ∀ w off v, dstOff ≤ off → off + w ≤ dstOff + size → Q (.store dst w off v))
    (src : Buffer) (srcOff i n : Nat) (left : size - i ≤ n) :
    (memcpyBytes dst dstOff src srcOff size i).Always Q := by
  induction n generalizing i with
  | zero =>
    rw [memcpyBytes, if_neg (by omega)]
    trivial
  | succ n ih =>
    rw [memcpyBytes]
    split
    · exact ⟨loads _ _ _, fun v => ⟨stores _ _ _ (by omega) (by omega), fun _ => ih (i + 1) (by omega)⟩⟩
    · trivial

theorem always_memcpyWords {Q : NetOp → Prop} {dst : Buffer} {dstOff size : Nat}
    (loads : ∀ b w off, Q (.load b w off))
    (stores : ∀ w off v, dstOff ≤ off → off + w ≤ dstOff + size → Q (.store dst w off v))
    (src : Buffer) (srcOff i n : Nat) (left : size - i ≤ n) :
    (memcpyWords dst dstOff src srcOff size i).Always Q := by
  induction n generalizing i with
  | zero =>
    rw [memcpyWords, if_neg (by omega)]
    trivial
  | succ n ih =>
    rw [memcpyWords]
    split
    · exact ⟨loads _ _ _, fun v => ⟨stores _ _ _ (by omega) (by omega), fun _ => ih (i + 8) (by omega)⟩⟩
    · trivial

theorem always_memcpy {Q : NetOp → Prop} {dst : Buffer} {dstOff size : Nat}
    (loads : ∀ b w off, Q (.load b w off))
    (stores : ∀ w off v, dstOff ≤ off → off + w ≤ dstOff + size → Q (.store dst w off v))
    (src : Buffer) (srcOff : Nat) : (memcpy dst dstOff src srcOff size).Always Q :=
  (always_memcpyWords loads stores src srcOff 0 size (Nat.sub_le size 0)).bind fun i =>
    always_memcpyBytes loads stores src srcOff i size (Nat.sub_le size i)

theorem confined_memcpy {dst : Buffer} (other : dst ≠ .received) (dstOff : Nat) (src : Buffer)
    (srcOff size : Nat) : Confined room (memcpy dst dstOff src srcOff size) := by
  apply always_memcpy (fun _ _ _ => trivial)
  intro w off v _ _
  cases dst with
  | received => exact (other rfl).elim
  | _ => trivial

theorem confined_memcpy_bind {dst : Buffer} (other : dst ≠ .received) (dstOff : Nat) (src : Buffer)
    (srcOff size : Nat) {f : Unit → NetProgram α} (rest : Confined room (f ())) :
    Confined room (memcpy dst dstOff src srcOff size >>= f) :=
  (confined_memcpy other dstOff src srcOff size).bind fun _ => rest

theorem confined_checksumLoop (b : Buffer) (ptr : Nat) (len : Int) (sum n : Nat)
    (left : len.toNat ≤ n) : Confined room (checksumLoop b ptr len sum) := by
  induction n generalizing ptr len sum with
  | zero =>
    rw [checksumLoop, if_neg (by omega), if_neg (by omega)]
    simp
  | succ n ih =>
    rw [checksumLoop]
    split
    · rw [confined_load]
      exact fun v => ih _ _ _ (by omega)
    · split <;> simp

theorem confined_checksum (b : Buffer) (data : Nat) (size : Int) {f : Nat → NetProgram α}
    (rest : ∀ v, Confined room (f v)) : Confined room (checksum b data size >>= f) := by
  rw [checksum, bind_assoc]
  exact (confined_checksumLoop b data size 0 size.toNat (Nat.le_refl _)).bind fun v => rest _

/-! ### Functions -/

theorem confined_sendEthernet (dstBuf : Buffer) (dstMac ethertype : Nat) (payloadBuf : Buffer)
    (payload len : Nat) :
    Confined room (sendEthernet dstBuf dstMac ethertype payloadBuf payload len) := by
  rw [sendEthernet]
  split
  · simp
  · refine confined_memcpy_bind (by decide) _ _ _ _ (confined_memcpy_bind (by decide) _ _ _ _ ?_)
    rw [confined_store]
    exact ⟨by simp, confined_memcpy_bind (by decide) _ _ _ _ (confined_send _)⟩

theorem confined_receiveARP (ipv4 len : Nat) : Confined room (receiveARP ipv4 len) := by
  rw [receiveARP]
  split
  · simp
  rw [confined_load]
  intro targetIp
  split
  · simp
  rw [confined_load]
  intro opcode
  split
  · simp
  -- the reply is an object of its own
  simp only [confined_load, confined_log, confined_store, reduceCtorEq, false_implies, true_and]
  intro _
  refine confined_memcpy_bind (by decide) _ _ _ _ ?_
  simp only [confined_store, reduceCtorEq, false_implies, true_and]
  refine confined_memcpy_bind (by decide) _ _ _ _ ?_
  simp only [confined_load, confined_store, reduceCtorEq, false_implies, true_and]
  exact fun _ => confined_sendEthernet _ _ _ _ _ _

theorem confined_receiveUdp : Confined room receiveUdp := by
  rw [receiveUdp]
  simp only [confined_load, confined_malloc]
  intro _ _
  refine confined_memcpy_bind (by decide) _ _ _ _ ?_
  simp

/-! ### The reply to an echo request -/

variable {st t : NetState} {p : NetProgram α} {a : α}

theorem Confined.run (confined : Confined room p) (ran : p.run netHandler st = some (a, t)) {i : Nat}
    (above : room ≤ i) : t.mem .received i = st.mem .received i := by
  induction p generalizing st with
  | ret b =>
    cases ran
    rfl
  | op o k ih =>
    obtain ⟨r, answer, ran⟩ := Option.bind_eq_some_iff.mp ran
    rw [ih r.1 (confined.2 r.1) ran]
    exact confined.1.received answer above
  | stuck => cases ran

theorem received_sendEthernet {dstBuf payloadBuf : Buffer} {dstMac ethertype payload len : Nat}
    (ran : (sendEthernet dstBuf dstMac ethertype payloadBuf payload len).run netHandler st =
      some ((), t)) : t.mem .received = st.mem .received := by
  have confined : Confined 0 (sendEthernet dstBuf dstMac ethertype payloadBuf payload len) :=
    confined_sendEthernet ..
  exact funext fun i => confined.run ran (Nat.zero_le i)

/-- The type becomes zero where the stated header says that it is; the options before it stay. -/
theorem run_receiveICMP_echo (st : NetState) {len : Nat} (long : 42 ≤ len)
    (echo : (st.mem .received).load 1 (14 + ihl (st.mem .received)) = 8) :
    ∃ t, (receiveICMP len).run netHandler st = some ((), t) ∧
      t.mem .received (14 + ihl (st.mem .received)) = 0 ∧
      ∀ i, 34 ≤ i → i < 14 + ihl (st.mem .received) → t.mem .received i = st.mem .received i := by
  have low := four_le_ihl echo
  obtain ⟨u, reply, -, -, ran⟩ := run_receiveICMP_request st long echo
  rw [ran]
  obtain ⟨t, ran, -⟩ := run_sendEthernet 6 (bswap16 ipv4EtherType) 14 _
    (by decide : Buffer.received ≠ .outgoing) (by decide : Buffer.received ≠ .outgoing)
  -- sending leaves the frame as the stores have made it
  refine ⟨t, ran, ?_, fun i options before => ?_⟩
  · rw [received_sendEthernet ran, reply]
    exact echoReply_type
  · rw [received_sendEthernet ran, reply, echoReply_outside (by omega),
      echoHeader_outside (by omega)]

theorem run_receiveEthernet_echo (st : NetState) {ipv4 len : Nat} (long : 42 ≤ len)
    (ip : bswap16 ((st.mem .received).load 2 12) = ipv4EtherType)
    (own : (st.mem .received).load 4 30 = bswap32 ipv4)
    (icmp : (st.mem .received).load 1 23 = protocolICMP)
    (echo : (st.mem .received).load 1 (14 + ihl (st.mem .received)) = 8) :
    ∃ t, (receiveEthernet ipv4 len).run netHandler st = some ((), t) ∧
      t.mem .received (14 + ihl (st.mem .received)) = 0 ∧
      ∀ i, 34 ≤ i → i < 14 + ihl (st.mem .received) → t.mem .received i = st.mem .received i := by
  have header : sizeofEthernet = 14 := rfl
  have sizes : sizeofIPv4 + sizeofEthernet = 34 := rfl
  have other : ipv4EtherType ≠ arpEtherType := by decide
  rw [receiveEthernet, if_neg (by omega), run_load_bind, ip, if_neg other, if_pos rfl, receiveIPv4,
    if_neg (by omega), run_load_bind, show sizeofEthernet + 16 = 30 from rfl,
    if_neg (not_not.mpr own), run_load_bind, show sizeofEthernet + 9 = 23 from rfl, if_pos icmp]
  exact run_receiveICMP_echo st long echo

end KopalniaOS.Network
