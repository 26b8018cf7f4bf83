import KopalniaOS.Rtl8139.InStep

/-!
# The size of the receive buffer

A packet that starts in the ring of 8192 bytes is stored in one piece, so the buffer has to go on
behind the ring. Where packets start depends on the lengths of those before them, and they may
have any; only the handler moves its offset, whatever the device does.
-/
namespace KopalniaOS.Rtl8139

open Library Network Relation

/-! ### The room behind the ring -/

def rxBufSize : Nat := 8192 + 16 + 1500

/-- The header at this offset and the bytes behind it lie in `rx_buffer`. -/
def InBuffer (offset length : Nat) : Prop := offset + 4 + length ≤ rxBufSize

/-- A packet at the last offset, longer than what is left there. -/
def Overhangs (offset length : Nat) : Prop := offset = 8188 ∧ 1516 < length

/-- Where a packet may start. -/
def Parked (offset : Nat) : Prop := offset % 4 = 0 ∧ offset < 8192

/-- The longest packet has 1518 bytes, its checksum included. -/
theorem inBuffer_iff {offset length : Nat} (parked : Parked offset) (short : length ≤ 1518) :
    InBuffer offset length ↔ ¬Overhangs offset length := by
  obtain ⟨aligned, inside⟩ := parked
  unfold InBuffer Overhangs rxBufSize
  omega

/-- Whatever length the header of a packet states, the next one starts at a multiple of four. -/
theorem parked_next (offset length : Nat) :
    Parked ((offset + length + 4 + 3) / 4 * 4 % 2 ^ 16 % 8192) := by
  unfold Parked
  omega

/-! ### Any device -/

/-- Calls of the handler. The device may do anything but change the driver's own variable. -/
def anyDevice : Session RxOp RxOp.Answer RxState Nat fun _ => Unit :=
  { receiver False with
    busyEnv := fun _ _ s t => t.rxOffset = s.rxOffset
    idleEnv := fun s t => t.rxOffset = s.rxOffset }

/-- If a packet was handed over just before, it is the one behind the header at `rx_offset`. -/
def Handed (tr : History RxOp RxOp.Answer) (s : RxState) : Prop :=
  ∀ packet length, tr.head? = some ⟨.handOver packet length, ()⟩ →
    packet = s.rxOffset + 4 ∧ Parked s.rxOffset

abbrev BufferRobust {α : Type} (tr : History RxOp RxOp.Answer) (p : RxProgram α) (s : RxState)
    (post : History RxOp RxOp.Answer → α → RxState → Prop) : Prop :=
  p.Robust rxHandlerOps (fun _ s t => t.rxOffset = s.rxOffset) Handed tr s post

/-- The offset, before an operation that may follow a hand-over. -/
def Place (offset : Nat) (tr : History RxOp RxOp.Answer) (s : RxState) : Prop :=
  s.rxOffset = offset ∧ ∀ t : RxState, t.rxOffset = offset → Handed tr t

/-- Neither moves the offset nor hands over a packet. -/
def Passive : RxOp → Prop
  | .writeOffset _ => False
  | .handOver .. => False
  | _ => True

section Steps

variable {α β : Type} {tr : History RxOp RxOp.Answer} {s t : RxState} {offset : Nat}
  {post : History RxOp RxOp.Answer → α → RxState → Prop}

theorem Passive.rxOffset {o : RxOp} (passive : Passive o) {r : o.Answer × RxState}
    (answer : rxHandlerOps o s = some r) : r.2.rxOffset = s.rxOffset := by
  cases o with
  | writeOffset value => exact passive.elim
  | handOver packet length => exact passive.elim
  | net packet o =>
    obtain ⟨_, _, rfl⟩ := Option.map_eq_some_iff.mp answer
    rfl
  | _ =>
    cases answer
    rfl

theorem place_cons {o : RxOp} (a : o.Answer) (notHandOver : ∀ packet length, o ≠ .handOver packet length)
    (same : s.rxOffset = offset) : Place offset (⟨o, a⟩ :: tr) s := by
  refine ⟨same, fun t _ packet length last => ?_⟩
  rw [List.head?_cons, Option.some.injEq, Event.mk.injEq] at last
  exact absurd last.1 (notHandOver packet length)

theorem robust_at {o : RxOp} {f : o.Answer → RxProgram α} (place : Place offset tr s)
    (next : ∀ t r, t.rxOffset = offset → rxHandlerOps o t = some r →
      BufferRobust (⟨o, r.1⟩ :: tr) (f r.1) r.2 post) : BufferRobust tr (issue o >>= f) s post :=
  Program.robust_perform_bind (P := fun t => t.rxOffset = offset) place.1
    (fun _ _ at_ moved => moved.trans at_) place.2 fun t at_ r answer => next t r at_ answer

theorem robust_passive {o : RxOp} {f : o.Answer → RxProgram α} (passive : Passive o)
    (place : Place offset tr s)
    (next : ∀ tr t r, t.rxOffset = offset → rxHandlerOps o t = some r → Place offset tr r.2 →
      BufferRobust tr (f r.1) r.2 post) : BufferRobust tr (issue o >>= f) s post := by
  apply robust_at place
  intro t r at_ answer
  have notHandOver : ∀ packet length, o ≠ .handOver packet length := by
    rintro packet length rfl
    exact passive
  exact next _ t r at_ answer (place_cons r.1 notHandOver ((passive.rxOffset answer).trans at_))

theorem buffer_seq {p : RxProgram β} {f : β → RxProgram α}
    {mid : History RxOp RxOp.Answer → β → RxState → Prop} (first : BufferRobust tr p s mid)
    (next : ∀ tr b t, mid tr b t → BufferRobust tr (f b) t post) : BufferRobust tr (p >>= f) s post :=
  (Program.robust_bind tr p f s post).mpr (first.mono next)

theorem robust_logIf_place (place : Place offset tr s) (status bit : Nat) (text : String) :
    BufferRobust tr (logIf status bit text) s fun tr _ t => Place offset tr t := by
  rw [logIf]
  split
  · exact robust_passive (f := .ret) trivial place fun tr t r _ _ place => place
  · exact place

/-- `receive_ethernet` does not know of the offset. -/
theorem robust_inRing {packet : Nat} (p : NetProgram α) (place : Place offset tr s) :
    BufferRobust tr (inRing packet p) s fun tr _ t => Place offset tr t := by
  induction p generalizing tr s with
  | ret a => exact place
  | op o k ih => exact robust_passive trivial place fun tr t r _ _ place => ih r.1 place
  | stuck => trivial

theorem robust_offset {f : Nat → RxProgram α} (place : Place offset tr s)
    (next : ∀ tr t, Place offset tr t → BufferRobust tr (f offset) t post) :
    BufferRobust tr (issue .readOffset >>= f) s post := by
  refine robust_passive trivial place fun tr t r at_ answer place => ?_
  cases answer
  dsimp only
  rw [at_]
  exact next tr t place

theorem robust_move {value : Nat} {f : Unit → RxProgram α} (place : Place offset tr s)
    (next : ∀ tr t, Place value tr t → BufferRobust tr (f ()) t post) :
    BufferRobust tr (issue (.writeOffset value) >>= f) s post := by
  refine robust_at place fun t r _ answer => ?_
  cases answer
  exact next _ _ (place_cons (o := .writeOffset value) () (fun _ _ other => by cases other) rfl)

/-- The packet that is handed over starts behind the header. -/
theorem robust_handlePacket_place (status length : Nat) (parked : Parked offset)
    (place : Place offset tr s) : BufferRobust tr (handlePacket status length) s fun tr _ t =>
      Place ((offset + length + 4 + 3) / 4 * 4 % 2 ^ 16 % 8192) tr t := by
  rw [handlePacket]
  refine buffer_seq (robust_logIf_place place status 1 _) fun tr _ t place => ?_
  refine buffer_seq (robust_logIf_place place status 2 _) fun tr _ t place => ?_
  refine buffer_seq (robust_logIf_place place status 3 _) fun tr _ t place => ?_
  refine buffer_seq (robust_logIf_place place status 4 _) fun tr _ t place => ?_
  refine robust_offset place fun tr t place => ?_
  refine robust_at place fun t r at_ answer => ?_
  cases answer
  -- what is passed on are the bytes that lie where the packet was handed over
  have handed : Place offset (⟨.handOver (offset + 4) length, ()⟩ :: tr)
      { t with
        passed := t.passed ++ [(List.range length).map fun i => t.mem (offset + 4 + i)]
        handling := true } := by
    refine ⟨at_, fun u same packet length last => ?_⟩
    cases last
    rw [same]
    exact ⟨rfl, parked⟩
  refine buffer_seq (robust_inRing _ handed) fun tr _ t place => ?_
  refine robust_offset place fun tr t place => ?_
  refine robust_move place fun tr t place => ?_
  refine robust_offset place fun tr t place => ?_
  refine robust_move place fun tr t place => ?_
  refine robust_offset place fun tr t place => ?_
  exact robust_passive (f := .ret) trivial place fun tr t r _ _ place => place

theorem robust_rxLoop_place (turns : Nat) (parked : Parked offset) (place : Place offset tr s) :
    BufferRobust tr (rxLoop turns) s fun _ _ t => Parked t.rxOffset := by
  -- Each turn ends at the start of another packet.
  induction turns generalizing tr s offset with
  | zero => trivial
  | succ turns ih =>
    rw [rxLoop]
    refine robust_passive trivial place fun tr t r at_ answer place => ?_
    split
    · show Parked r.2.rxOffset
      rw [place.1]
      exact parked
    refine robust_offset place fun tr t place => ?_
    refine robust_passive trivial place fun tr t r at_ answer place => ?_
    refine robust_passive trivial place fun tr t r' at_ answer place => ?_
    split
    · refine robust_passive (f := .ret) trivial place fun tr t r _ _ place => ?_
      show Parked r.2.rxOffset
      rw [place.1]
      exact parked
    · refine buffer_seq (robust_handlePacket_place _ _ parked place) fun tr _ t place => ?_
      exact ih (parked_next _ _) place

end Steps

/-- Between calls a packet may start at the offset, and what is handed over lies there. -/
theorem keeps_parked {mem : Memory} {net : NetState} {x}
    (reached : anyDevice.Reachable (listening mem net) x) :
    anyDevice.Keeps (fun _ => Handed) (fun s => Parked s.rxOffset) x := by
  have start : Parked (listening mem net).rxOffset := by simp [Parked, listening]
  refine Session.invariant (J := fun s => Parked s.rxOffset) ?_ ?_ start reached
  · intro turns s t parked same
    cases same
    have place : Place s.rxOffset [] s := ⟨rfl, fun _ _ packet length last => by cases last⟩
    show BufferRobust [] (rxHandler turns) s _
    rw [rxHandler]
    refine robust_passive trivial place fun tr t r _ _ place => ?_
    refine robust_passive trivial place fun tr t r _ _ place => ?_
    exact robust_rxLoop_place turns parked place
  · intro s t parked same
    show Parked t.rxOffset
    rw [same]
    exact parked

/-- A packet of up to 1518 bytes lies in the buffer unless it overhangs: at every offset where a
packet is expected between calls, and whenever one was handed over. -/
theorem inBuffer_run {mem : Memory} {net : NetState} {x}
    (reached : anyDevice.Reachable (listening mem net) x) :
    (∀ s, x = .idle s → ∀ length ≤ 1518,
      InBuffer s.rxOffset length ↔ ¬Overhangs s.rxOffset length) ∧
    ∀ turns packet length tr o k s, length ≤ 1518 →
      x = .busy turns (⟨.handOver packet length, ()⟩ :: tr) (.op o k) s →
        packet = s.rxOffset + 4 ∧ (InBuffer s.rxOffset length ↔ ¬Overhangs s.rxOffset length) := by
  have keeps := keeps_parked reached
  constructor
  · rintro s rfl length short
    exact inBuffer_iff keeps short
  · rintro turns packet length tr o k s short rfl
    obtain ⟨start, parked⟩ := keeps.watched packet length rfl
    exact ⟨start, inBuffer_iff parked short⟩

/-! ### A packet at the last offset -/

/-- A packet of zeros. -/
def zeros (length : Nat) (short : length ≤ 1516) : Packet where
  status := 1
  bytes := List.replicate length 0
  status_lt := quiet.status_lt
  rok := quiet.rok
  short := by simpa using short

theorem zeros_harmless (length : Nat) (short : length ≤ 1516) : ¬(zeros length short).Overruns := by
  rintro ⟨ip, -⟩
  have blank : (zeros length short).memory = fun _ => 0 := by
    funext i
    show (List.replicate length (0 : UInt8)).getD i 0 = 0
    rw [List.getD_eq_getElem?_getD, List.getElem?_replicate]
    split <;> rfl
  rw [blank] at ip
  exact absurd ip (by decide)

theorem zeros_room (length : Nat) (short : length ≤ 1516) :
    (zeros length short).room = (length + 4 + 3) / 4 * 4 := by
  simp [Packet.room, Packet.length, zeros]

/-- Packets that fill the ring up to its last offset. -/
def sixPackets : List Packet :=
  let long := zeros 1516 (by decide)
  [long, long, long, long, long, zeros 584 (by decide)]

def empty : RxState := listening (fun _ => 0) noNetwork

def sixWait : RxState := sixPackets.foldl RxState.arrive empty

theorem span_sixPackets : span sixPackets = 8188 := by
  simp [sixPackets, zeros_room]

theorem arrive_writeOffset (packets : List Packet) (s : RxState) (inside : s.writeOffset < 8192) :
    (packets.foldl RxState.arrive s).writeOffset = (s.writeOffset + span packets) % 8192 := by
  induction packets generalizing s with
  | nil => simp [Nat.mod_eq_of_lt inside]
  | cons p rest ih =>
    have next : (s.arrive p).writeOffset = (s.writeOffset + p.room) % 8192 := rfl
    rw [List.foldl_cons, ih (s.arrive p) (by rw [next]; exact Nat.mod_lt _ (by decide)), next,
      span_cons, Nat.mod_add_mod, Nat.add_assoc]

/-- Packets that fit may arrive one after the other. -/
theorem reachable_arrivals {s : RxState} (packets : List Packet)
    (reached : (receiver True).Reachable empty (.idle s))
    (fits : s.unread + span packets ≤ 8192) (harmless : ∀ p ∈ packets, ¬p.Overruns) :
    (receiver True).Reachable empty (.idle (packets.foldl RxState.arrive s)) := by
  induction packets generalizing s with
  | nil => exact reached
  | cons p rest ih =>
    rw [span_cons] at fits
    have arrives : Arrive True s (s.arrive p) :=
      .packet p (by omega) fun _ => harmless p (by simp)
    apply ih (reached.tail (.rest arrives))
    · show s.unread + p.room + span rest ≤ 8192
      omega
    · exact fun q member => harmless q (List.mem_cons_of_mem p member)

theorem reachable_sixWait : (receiver True).Reachable empty (.idle sixWait) := by
  apply reachable_arrivals sixPackets .refl
  · have unread : empty.unread = 0 := rfl
    rw [unread, span_sixPackets]
    decide
  · intro p member
    simp only [sixPackets, List.mem_cons, List.not_mem_nil, or_false] at member
    rcases member with rfl | rfl | rfl | rfl | rfl | rfl
    all_goals exact zeros_harmless _ _

/-- The device moves its write offset only when it stores a packet. -/
theorem keeps_writeOffset (o : RxOp) (s : RxState) (r : o.Answer × RxState)
    (answer : rxHandlerOps o s = some r) : r.2.writeOffset = s.writeOffset := by
  cases o with
  | net packet o =>
    obtain ⟨_, _, rfl⟩ := Option.map_eq_some_iff.mp answer
    rfl
  | _ =>
    cases answer
    rfl

/-- A device that only stores packets is one of those that may do anything. -/
theorem anyDevice_of_receiver {careful : Prop} {x y} (step : (receiver careful).Step x y) :
    anyDevice.Step x y := by
  have kept {s t : RxState} (arrives : Arrive careful s t) : t.rxOffset = s.rxOffset := by
    cases arrives
    rfl
  cases step with
  | call entered => exact .call entered
  | op answer => exact .op answer
  | interrupt moved => exact .interrupt (kept moved)
  | rest moved => exact .rest (kept moved)
  | ret => exact .ret

theorem anyDevice_reachable {careful : Prop} {s : RxState} {x}
    (reached : (receiver careful).Reachable s x) : anyDevice.Reachable s x :=
  ReflTransGen.mono (fun _ _ step => anyDevice_of_receiver step) _ _ reached

/-- After the handler has read the six packets, the next one starts at offset 8188. -/
theorem reachable_lastOffset : ∃ s, (receiver True).Reachable empty (.idle s) ∧
    s.rxOffset = 8188 ∧ s.writeOffset = 8188 := by
  obtain ⟨pos, older, pending, head⟩ := keeps_atHead reachable_sixWait
  obtain ⟨turns, enough⟩ : ∃ turns, sixWait.arrived.length - sixWait.passed.length < turns :=
    ⟨_, Nat.lt_succ_self _⟩
  obtain ⟨t, ran⟩ := rxHandler_returns head enough
  have robust : RxRobust [] (rxHandler turns) sixWait _ := robust_rxHandler turns ⟨pending, head⟩
  obtain ⟨-, pos', older', drained⟩ := robust.alone ran
  have written : t.writeOffset = 8188 := by
    have kept : t.writeOffset = sixWait.writeOffset := Program.run_keeps keeps_writeOffset ran
    rw [kept, sixWait, arrive_writeOffset sixPackets empty (by decide), span_sixPackets]
    rfl
  have same : t.rxOffset = t.writeOffset := by
    rw [drained.rxOffset, drained.writeOffset, span_nil, Nat.add_zero]
  exact ⟨t, reachable_sixWait.trans (Session.steps_call rfl ran), same.trans written, written⟩

theorem inBuffer_run_lastOffset : ∃ s, anyDevice.Reachable empty (.idle s) ∧ s.rxOffset = 8188 ∧
    (InBuffer s.rxOffset 1516 ↔ ¬Overhangs s.rxOffset 1516) := by
  obtain ⟨s, reached, offset, -⟩ := reachable_lastOffset
  have reached := anyDevice_reachable reached
  exact ⟨s, reached, offset, (inBuffer_run reached).1 s rfl 1516 (by decide)⟩

/-- There a packet of 1518 bytes ends two bytes behind the buffer. -/
theorem not_inBuffer_lastOffset : ∃ s, anyDevice.Reachable empty (.idle s) ∧
    s.writeOffset = s.rxOffset ∧ ¬InBuffer s.rxOffset 1518 := by
  obtain ⟨s, reached, offset, written⟩ := reachable_lastOffset
  refine ⟨s, anyDevice_reachable reached, written.trans offset.symm, ?_⟩
  rw [offset]
  unfold InBuffer
  decide

end KopalniaOS.Rtl8139
