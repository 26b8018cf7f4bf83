import KopalniaOS.Network.Writes
import KopalniaOS.Rtl8139.PacketRing

/-!
# The driver and the device keep in step

Driver and device move their offsets by the same amount, each on its own. What could put them out
of step is a handler that writes to the packets behind the one that it is given.
-/
namespace KopalniaOS.Rtl8139

open Library Network

/-! ### In step -/

def contents (arrived : List Arrival) : List (List UInt8) := arrived.map fun a => a.packet.bytes

/-- Where the device has stored the next packet that was not passed on, or will store it. -/
def RxState.nextOffset (s : RxState) : Nat :=
  ((s.arrived.drop s.passed.length).head?.map Arrival.offset).getD s.writeOffset

/-- The packets were passed on as they arrived, in order and each once. Unless a packet is being
handled, the offset is that of the next one, and the device knows it. -/
structure InStep (s : RxState) : Prop where
  passed : s.passed = contents (s.arrived.take s.passed.length)
  offset : s.handling = false → s.rxOffset % 4 = 0 ∧ s.rxOffset < 8192 ∧ s.rxOffset = s.nextOffset
  capr : s.handling = false → s.capr = (((s.rxOffset : Int) - 16) % 2 ^ 16).toNat
  unread : s.handling = false → (s.unread = 0 ↔ s.passed.length = s.arrived.length)

/-! ### Between packets and within one -/

/-- The device has these packets for unread, and they are harmless. -/
structure Device (pos : Nat) (older : List Arrival) (pending : List Packet) (s : RxState) : Prop where
  aligned : pos % 4 = 0
  readOffset : s.readOffset = pos % 8192
  unread : s.unread = span pending
  fits : span pending ≤ 8192
  writeOffset : s.writeOffset = (pos + span pending) % 8192
  arrived : s.arrived = older ++ arrivals pos pending
  harmless : ∀ p ∈ pending, ¬p.Overruns

/-- At the head of the loop, and between calls. -/
structure Head (pos : Nat) (older : List Arrival) (pending : List Packet) (s : RxState) : Prop
    extends Device pos older pending s where
  stored : Stored s.mem pos pending
  rxOffset : s.rxOffset = pos % 8192
  capr : s.capr = (((s.rxOffset : Int) - 16) % 2 ^ 16).toNat
  handling : s.handling = false
  passed : s.passed = contents older

/-- From the call of `receive_ethernet` on. -/
structure Handling (pos : Nat) (older : List Arrival) (first : Packet) (offset : Nat)
    (rest : List Packet) (s : RxState) : Prop extends Device pos older (first :: rest) s where
  stored : Stored s.mem (pos + first.room) rest
  rxOffset : s.rxOffset = offset
  handling : s.handling = true
  passed : s.passed = contents older ++ [first.bytes]

def AtHead (pos : Nat) (older : List Arrival) (s : RxState) : Prop :=
  ∃ pending, Head pos older pending s

/-- A packet was found. -/
def Found (pos : Nat) (older : List Arrival) (first : Packet) (s : RxState) : Prop :=
  ∃ rest, Head pos older (first :: rest) s

/-- It is being handled, with `rx_offset` at this value. -/
def Handled (pos : Nat) (older : List Arrival) (first : Packet) (offset : Nat) (s : RxState) : Prop :=
  ∃ rest, Handling pos older first offset rest s

/-- It has not been written to. -/
def Fresh (pos : Nat) (older : List Arrival) (first : Packet) (s : RxState) : Prop :=
  Handled pos older first (pos % 8192) s ∧ Intact s.mem (pos % 8192) first

variable {s t : RxState} {pos offset : Nat} {older : List Arrival} {pending rest : List Packet}
  {first p : Packet}

/-- The memory and the driver's own bookkeeping do not count for the device. -/
theorem Device.congr (device : Device pos older pending s) (capr : t.capr = s.capr)
    (unread : t.unread = s.unread) (writeOffset : t.writeOffset = s.writeOffset)
    (arrived : t.arrived = s.arrived) : Device pos older pending t where
  aligned := device.aligned
  readOffset := by rw [RxState.readOffset, capr, ← device.readOffset, RxState.readOffset]
  unread := unread.trans device.unread
  fits := device.fits
  writeOffset := writeOffset.trans device.writeOffset
  arrived := arrived.trans device.arrived
  harmless := device.harmless

theorem Device.arrive (device : Device pos older pending s) (fits : s.unread + p.room ≤ 8192)
    (harmless : ¬p.Overruns) : Device pos older (pending ++ [p]) (s.arrive p) := by
  have unread := device.unread
  refine ⟨device.aligned, device.readOffset, ?_, ?_, ?_, ?_, ?_⟩
  · simp [RxState.arrive, unread]
  · simp only [span_append, span_cons, span_nil]
    omega
  · simp only [RxState.arrive, device.writeOffset, span_append, span_cons, span_nil]
    omega
  · rw [arrivals_append, ← List.append_assoc, ← device.arrived, ← device.writeOffset]
    rfl
  · intro q member
    rcases List.mem_append.mp member with before | new
    · exact device.harmless q before
    · rwa [List.mem_singleton.mp new]

theorem Head.arrive (head : Head pos older pending s) (fits : s.unread + p.room ≤ 8192)
    (harmless : ¬p.Overruns) : Head pos older (pending ++ [p]) (s.arrive p) where
  toDevice := head.toDevice.arrive fits harmless
  stored := head.stored.arrive head.writeOffset (by rwa [← head.unread])
  rxOffset := head.rxOffset
  capr := head.capr
  handling := head.handling
  passed := head.passed

theorem Handling.arrive (handling : Handling pos older first offset rest s)
    (fits : s.unread + p.room ≤ 8192) (harmless : ¬p.Overruns) :
    Handling pos older first offset (rest ++ [p]) (s.arrive p) where
  toDevice := handling.toDevice.arrive fits harmless
  stored := by
    have position := handling.writeOffset
    have unread := handling.unread
    rw [span_cons] at position unread
    exact handling.stored.arrive (by rwa [Nat.add_assoc]) (by omega)
  rxOffset := handling.rxOffset
  handling := handling.handling
  passed := handling.passed

/-! ### Packets may arrive at any time -/

theorem AtHead.arrive (atHead : AtHead pos older s) (step : Arrive True s t) : AtHead pos older t := by
  obtain ⟨pending, head⟩ := atHead
  cases step with
  | packet p fits careful => exact ⟨pending ++ [p], head.arrive fits (careful trivial)⟩

theorem Found.arrive (found : Found pos older first s) (step : Arrive True s t) :
    Found pos older first t := by
  obtain ⟨rest, head⟩ := found
  cases step with
  | packet p fits careful => exact ⟨rest ++ [p], head.arrive fits (careful trivial)⟩

theorem Handled.arrive (handled : Handled pos older first offset s) (step : Arrive True s t) :
    Handled pos older first offset t := by
  obtain ⟨rest, handling⟩ := handled
  cases step with
  | packet p fits careful => exact ⟨rest ++ [p], handling.arrive fits (careful trivial)⟩

theorem Fresh.arrive (fresh : Fresh pos older first s) (step : Arrive True s t) :
    Fresh pos older first t := by
  refine ⟨fresh.1.arrive step, ?_⟩
  obtain ⟨⟨rest, handling⟩, intact⟩ := fresh
  cases step with
  | packet p fits careful =>
    rw [handling.unread] at fits
    exact intact.congr fun i inside =>
      mem_arrive handling.writeOffset fits (Nat.le_refl pos) (by rw [span_cons]; omega)

/-! ### What is seen -/

theorem contents_take (older more : List Arrival) :
    contents ((older ++ more).take (contents older).length) = contents older := by
  simp [contents]

theorem AtHead.inStep (atHead : AtHead pos older s) : InStep s := by
  obtain ⟨pending, head⟩ := atHead
  have count : s.passed.length = older.length := by
    simp [head.passed, contents]
  have ahead : s.arrived.drop s.passed.length = arrivals pos pending := by
    rw [head.arrived, count, List.drop_left]
  constructor
  · rw [head.passed, head.arrived, contents_take]
  · intro _
    have aligned := head.aligned
    refine ⟨by rw [head.rxOffset]; omega, by rw [head.rxOffset]; omega, ?_⟩
    rw [RxState.nextOffset, ahead, head.rxOffset, head.writeOffset]
    -- with nothing pending both offsets are the same place
    cases pending with
    | nil => simp [arrivals]
    | cons p rest => simp [arrivals]
  · exact fun _ => head.capr
  · intro _
    rw [head.unread, count, head.arrived, List.length_append, length_arrivals]
    cases pending with
    | nil => simp
    | cons p rest =>
      have room := p.room_bounds
      simp only [span_cons, List.length_cons]
      omega

theorem Found.inStep (found : Found pos older first s) : InStep s := by
  obtain ⟨rest, head⟩ := found
  exact AtHead.inStep ⟨_, head⟩

/-- The packet that is handled counts as passed. -/
theorem Handling.counted (handling : Handling pos older first offset rest s) :
    s.passed = contents (older ++ [⟨pos % 8192, first⟩]) ∧
      s.arrived = (older ++ [⟨pos % 8192, first⟩]) ++ arrivals (pos + first.room) rest := by
  constructor
  · simp [handling.passed, contents]
  · simp [handling.arrived, arrivals]

theorem Handled.inStep (handled : Handled pos older first offset s) : InStep s := by
  obtain ⟨rest, handling⟩ := handled
  have busy := handling.handling
  constructor
  · obtain ⟨passed, arrived⟩ := handling.counted
    rw [passed, arrived, contents_take]
  all_goals
    intro idle
    rw [busy] at idle
    cases idle

/-! ### Operations within a packet -/

abbrev RxRobust {α : Type} (tr : History RxOp RxOp.Answer) (p : RxProgram α) (s : RxState)
    (post : History RxOp RxOp.Answer → α → RxState → Prop) : Prop :=
  p.Robust rxHandlerOps (fun _ => Arrive True) (fun _ => InStep) tr s post

variable {α : Type} {tr : History RxOp RxOp.Answer} {post : History RxOp RxOp.Answer → α → RxState → Prop}

/-- Packets that arrive keep `P`, and it implies that both sides are in step. -/
structure Held (P : RxState → Prop) : Prop where
  arrive : ∀ s t, P s → Arrive True s t → P t
  inStep : ∀ s, P s → InStep s

theorem held_atHead : Held (AtHead pos older) :=
  ⟨fun _ _ holds step => holds.arrive step, fun _ holds => holds.inStep⟩

theorem held_found : Held (Found pos older first) :=
  ⟨fun _ _ holds step => holds.arrive step, fun _ holds => holds.inStep⟩

theorem held_handled : Held (Handled pos older first offset) :=
  ⟨fun _ _ holds step => holds.arrive step, fun _ holds => holds.inStep⟩

theorem held_fresh : Held (Fresh pos older first) :=
  ⟨fun _ _ holds step => holds.arrive step, fun _ holds => holds.1.inStep⟩

/-- Packets may arrive before any operation. -/
theorem robust_issue {P : RxState → Prop} {o : RxOp} {f : o.Answer → RxProgram α} (held : Held P)
    (holds : P s) (next : ∀ tr t r, P t → rxHandlerOps o t = some r → RxRobust tr (f r.1) r.2 post) :
    RxRobust tr (issue o >>= f) s post :=
  Program.robust_perform_bind holds held.arrive held.inStep fun t holds r answer =>
    next _ t r holds answer

theorem withView_view (s : RxState) (packet : Nat) : s.withView packet (s.view packet) = s := by
  have mem : (fun x => if packet ≤ x then s.mem (packet + (x - packet)) else s.mem x) = s.mem := by
    funext x
    split
    · rw [Nat.add_sub_cancel' ‹_›]
    · rfl
  simp [RxState.withView, RxState.view, mem]

@[simp] theorem view_received (s : RxState) (packet i : Nat) :
    (s.view packet).mem .received i = s.mem (packet + i) := by
  simp [RxState.view]

/-- An operation of `receive_ethernet` changes the memory in the room of the packet only. -/
theorem mem_net {o : NetOp} {packet room : Nat} {r : o.Answer × NetState}
    (below : WritesBelow room o) (answer : netHandler o (s.view packet) = some r) :
    ∀ x, x < packet ∨ packet + room ≤ x → (s.withView packet r.2).mem x = s.mem x := by
  intro x outside
  by_cases before : x < packet
  · simp [RxState.withView, Nat.not_le.mpr before]
  · have inside : packet ≤ x := Nat.not_lt.mp before
    simp only [RxState.withView, if_pos inside]
    rw [below.received answer (by omega), view_received, Nat.add_sub_cancel' inside]

/-- The address of the packet for `receive_ethernet`, and the bytes from there on that are its own. -/
theorem Handled.net {o : NetOp} {r : o.Answer × NetState} (handled : Handled pos older first offset s)
    (below : WritesBelow (first.room - 4) o)
    (answer : netHandler o (s.view (pos % 8192 + 4)) = some r) :
    Handled pos older first offset (s.withView (pos % 8192 + 4) r.2) := by
  obtain ⟨rest, handling⟩ := handled
  have fits := handling.fits
  rw [span_cons] at fits
  have room := first.room_bounds
  exact ⟨rest, {
    toDevice := handling.toDevice.congr rfl rfl rfl rfl
    stored := handling.stored.behind fits fun x outside => mem_net below answer x (by omega)
    rxOffset := handling.rxOffset
    handling := handling.handling
    passed := handling.passed }⟩

/-- A part that leaves the packets behind alone, whatever it reads. -/
theorem robust_confined {p : NetProgram α} (confined : Confined (first.room - 4) p)
    (handled : Handled pos older first offset s) :
    RxRobust tr (inRing (pos % 8192 + 4) p) s fun _ _ t => Handled pos older first offset t := by
  induction p generalizing tr s with
  | ret a => exact handled
  | op o k ih =>
    refine robust_issue held_handled handled fun tr t r holds answer => ?_
    obtain ⟨r, netAnswer, rfl⟩ := Option.map_eq_some_iff.mp answer
    exact ih r.1 (confined.2 r.1) (holds.net confined.1 netAnswer)
  | stuck => exact confined.elim

/-- A read before anything was written finds what arrived, as far as the packet goes. -/
theorem robust_load {width off : Nat} {f : Nat → NetProgram α} (fresh : Fresh pos older first s)
    (next : ∀ tr t v, Fresh pos older first t →
      (off + width ≤ first.length → v = first.memory.load width off) →
        RxRobust tr (inRing (pos % 8192 + 4) (f v)) t post) :
    RxRobust tr (inRing (pos % 8192 + 4) (load .received width off >>= f)) s post := by
  change RxRobust tr (issue (.net (pos % 8192 + 4) (.load .received width off)) >>= fun v =>
    inRing (pos % 8192 + 4) (f v)) s post
  refine robust_issue held_fresh fresh fun tr t r holds answer => ?_
  cases answer
  dsimp only
  rw [withView_view]
  refine next _ t _ holds fun inside => ?_
  refine Memory.load_congr width off fun x low high => ?_
  rw [view_received]
  exact holds.2.bytes x (by omega)

theorem robust_log {entry : LogEntry} {f : Unit → NetProgram α} (fresh : Fresh pos older first s)
    (next : ∀ tr t, Fresh pos older first t → RxRobust tr (inRing (pos % 8192 + 4) (f ())) t post) :
    RxRobust tr (inRing (pos % 8192 + 4) (log entry >>= f)) s post := by
  change RxRobust tr (issue (.net (pos % 8192 + 4) (.log entry)) >>= fun v =>
    inRing (pos % 8192 + 4) (f v)) s post
  refine robust_issue held_fresh fresh fun tr t r holds answer => ?_
  cases answer
  dsimp only
  rw [withView_view]
  exact next _ t holds

/-- The reply to an echo request is made within the room of the packet. -/
theorem robust_receiveICMP (fresh : Fresh pos older first s)
    (ip : bswap16 (first.memory.load 2 12) = ipv4EtherType)
    (own : first.memory.load 4 30 = bswap32 ipv4) (icmp : first.memory.load 1 23 = protocolICMP) :
    RxRobust tr (inRing (pos % 8192 + 4) (receiveICMP first.length)) s fun _ _ t =>
      Handled pos older first (pos % 8192) t := by
  have header : sizeofEthernet = 14 := rfl
  have sizes : sizeofEthernet + sizeofIPv4 + sizeofICMP = 42 := rfl
  obtain ⟨rest, handling⟩ := fresh.1
  have harmless := handling.harmless first (List.mem_cons_self ..)
  rw [receiveICMP]
  split
  · exact robust_confined (confined_log_last _) fresh.1
  rename_i long
  refine robust_load fresh fun tr t ihlVersion fresh ihlRead => ?_
  refine robust_load fresh fun tr t srcIp fresh _ => ?_
  refine robust_log fresh fun tr t fresh => ?_
  refine robust_load fresh fun tr t type fresh typeRead => ?_
  have length : headerLength ihlVersion = ihl first.memory := by
    rw [ihlRead (by omega)]
    rfl
  rw [length] at typeRead ⊢
  split
  · rename_i echo
    -- an echo request that is harmless has its ICMP header in its room
    have room := first.room_bounds
    have fits : 22 + ihl first.memory ≤ first.room := by
      by_contra behind
      refine harmless ⟨ip, own, icmp, by omega, fun within => ?_, by omega⟩
      rw [← header, ← typeRead (by omega)]
      exact echo
    refine robust_confined ?_ fresh.1
    simp only [confined_load, confined_store, header]
    intro tmpIp dstIp
    refine ⟨by omega, by omega, by omega, confined_checksum _ _ _ fun sum => ?_⟩
    simp only [confined_load, confined_store]
    refine ⟨by omega, by omega, by omega, by omega, fun totalLength =>
      confined_checksum _ _ _ fun sum => ?_⟩
    simp only [confined_load, confined_store]
    exact ⟨by omega, fun _ => confined_sendEthernet _ _ _ _ _ _⟩
  · exact fresh.1

theorem robust_receiveIPv4 (fresh : Fresh pos older first s)
    (ip : bswap16 (first.memory.load 2 12) = ipv4EtherType) :
    RxRobust tr (inRing (pos % 8192 + 4) (receiveIPv4 ipv4 first.length)) s fun _ _ t =>
      Handled pos older first (pos % 8192) t := by
  have sizes : sizeofIPv4 + sizeofEthernet = 34 := rfl
  rw [receiveIPv4]
  -- the frame is not answered unless it is long enough, for this address and ICMP
  split
  · exact robust_confined (confined_log_last _) fresh.1
  rename_i long
  refine robust_load fresh fun tr t dstIp fresh dstRead => ?_
  rw [show sizeofEthernet + 16 = 30 from rfl] at dstRead
  split
  · exact fresh.1
  rename_i own
  refine robust_load fresh fun tr t protocol fresh protocolRead => ?_
  rw [show sizeofEthernet + 9 = 23 from rfl] at protocolRead
  split
  · rename_i icmp
    refine robust_receiveICMP fresh ip ?_ ?_
    · rw [← dstRead (by omega)]
      exact not_not.mp own
    · rw [← protocolRead (by omega)]
      exact icmp
  · split
    · exact robust_confined confined_receiveUdp fresh.1
    · exact fresh.1

/-- All that a harmless packet makes its handler do leaves the packets behind it alone. -/
theorem robust_receiveEthernet (fresh : Fresh pos older first s) :
    RxRobust tr (inRing (pos % 8192 + 4) (receiveEthernet ipv4 first.length)) s fun _ _ t =>
      Handled pos older first (pos % 8192) t := by
  have sizes : sizeofEthernet = 14 := rfl
  rw [receiveEthernet]
  split
  · exact robust_confined (confined_log_last _) fresh.1
  refine robust_load fresh fun tr t ethertype fresh typeRead => ?_
  split
  · exact robust_confined (confined_receiveARP _ _) fresh.1
  · split
    · rename_i ip
      refine robust_receiveIPv4 fresh ?_
      rw [← typeRead (by omega)]
      exact ip
    · exact fresh.1

/-! ### One packet -/

theorem robust_seq {β : Type} {p : RxProgram β} {f : β → RxProgram α}
    {mid : History RxOp RxOp.Answer → β → RxState → Prop} (first : RxRobust tr p s mid)
    (next : ∀ tr b t, mid tr b t → RxRobust tr (f b) t post) : RxRobust tr (p >>= f) s post :=
  (Program.robust_bind tr p f s post).mpr (first.mono next)

theorem robust_logIf (found : Found pos older first s) (status bit : Nat) (text : String) :
    RxRobust tr (logIf status bit text) s fun _ _ t => Found pos older first t := by
  rw [logIf]
  split
  · refine robust_issue (f := .ret) held_found found fun tr t r holds answer => ?_
    cases answer
    exact holds
  · exact found

theorem Found.handOver (found : Found pos older first s) :
    Fresh pos older first { s with
      passed := s.passed ++
        [(List.range first.length).map fun i => s.mem (pos % 8192 + 4 + i)]
      handling := true } := by
  obtain ⟨rest, head⟩ := found
  have frame : (List.range first.length).map (fun i => s.mem (pos % 8192 + 4 + i)) = first.bytes := by
    refine List.ext_getElem (by simp [Packet.length]) fun i inside inside' => ?_
    have byte := head.stored.1.bytes i inside'
    simp [byte, Packet.memory, List.getElem?_eq_getElem inside']
  refine ⟨⟨rest, {
    toDevice := head.toDevice.congr rfl rfl rfl rfl
    stored := head.stored.2
    rxOffset := head.rxOffset
    handling := rfl
    passed := by rw [head.passed, frame] }⟩, head.stored.1⟩

theorem Handled.move (handled : Handled pos older first offset s) (offset' : Nat) :
    Handled pos older first offset' { s with rxOffset := offset' } := by
  obtain ⟨rest, handling⟩ := handled
  exact ⟨rest, {
    toDevice := handling.toDevice.congr rfl rfl rfl rfl
    stored := handling.stored
    rxOffset := rfl
    handling := handling.handling
    passed := handling.passed }⟩

theorem robust_readOffset {f : Nat → RxProgram α} (handled : Handled pos older first offset s)
    (next : ∀ tr t, Handled pos older first offset t → RxRobust tr (f offset) t post) :
    RxRobust tr (issue .readOffset >>= f) s post := by
  refine robust_issue held_handled handled fun tr t r holds answer => ?_
  cases answer
  have value : t.rxOffset = offset := holds.elim fun _ handling => handling.rxOffset
  dsimp only
  rw [value]
  exact next _ t holds

theorem robust_writeOffset {value : Nat} {f : Unit → RxProgram α}
    (handled : Handled pos older first offset s)
    (next : ∀ tr t, Handled pos older first value t → RxRobust tr (f ()) t post) :
    RxRobust tr (issue (.writeOffset value) >>= f) s post := by
  refine robust_issue held_handled handled fun tr t r holds answer => ?_
  cases answer
  exact next _ _ (holds.move value)

/-- The offset of the next packet goes to the device, which moves on by as much. -/
theorem Handled.finish (handled : Handled pos older first ((pos + first.room) % 8192) s)
    {capr : Nat} (value : capr = (((((pos + first.room) % 8192 : Nat) : Int) - 16) % 2 ^ 16).toNat) :
    AtHead (pos + first.room) (older ++ [⟨pos % 8192, first⟩]) { s with
      capr := capr
      unread := s.unread - ((capr + 16) % 8192 + 8192 - s.readOffset) % 8192
      handling := false } := by
  obtain ⟨rest, handling⟩ := handled
  obtain ⟨passed, arrived⟩ := handling.counted
  have aligned := handling.aligned
  have readOffset := handling.readOffset
  have unread := handling.unread
  have fits := handling.fits
  have writeOffset := handling.writeOffset
  have rxOffset := handling.rxOffset
  have room := first.room_bounds
  rw [span_cons] at unread fits writeOffset
  -- CAPR trails the reader by 16: what `rxHandler` wrote to it names the next packet's offset.
  have moved : (capr + 16) % 8192 = (pos + first.room) % 8192 := by
    omega
  refine ⟨rest, {
    aligned := by omega
    readOffset := moved
    unread := by
      dsimp only
      omega
    fits := by omega
    writeOffset := by
      dsimp only
      omega
    arrived := arrived
    harmless := fun p member => handling.harmless p (List.mem_cons_of_mem _ member)
    stored := handling.stored
    rxOffset := rxOffset
    capr := by
      dsimp only
      rw [rxOffset, value]
    handling := rfl
    passed := passed }⟩

theorem robust_handlePacket (found : Found pos older first s) (status : Nat) :
    RxRobust tr (handlePacket status first.length) s fun _ _ t =>
      AtHead (pos + first.room) (older ++ [⟨pos % 8192, first⟩]) t := by
  have room := first.room_bounds
  rw [handlePacket]
  refine robust_seq (robust_logIf found status 1 _) fun tr _ t found => ?_
  refine robust_seq (robust_logIf found status 2 _) fun tr _ t found => ?_
  refine robust_seq (robust_logIf found status 3 _) fun tr _ t found => ?_
  refine robust_seq (robust_logIf found status 4 _) fun tr _ t found => ?_
  refine robust_issue held_found found fun tr t r found answer => ?_
  cases answer
  obtain ⟨rest, head⟩ := found
  dsimp only
  rw [head.rxOffset]
  refine robust_issue held_found ⟨rest, head⟩ fun tr t r found answer => ?_
  cases answer
  refine robust_seq (robust_receiveEthernet found.handOver) fun tr _ t handled => ?_
  refine robust_readOffset handled fun tr t handled => ?_
  refine robust_writeOffset handled fun tr t handled => ?_
  refine robust_readOffset handled fun tr t handled => ?_
  refine robust_writeOffset handled fun tr t handled => ?_
  refine robust_readOffset handled fun tr t handled => ?_
  -- rounding up the offset is rounding up what the packet takes up
  have aligned := head.aligned
  have offset : (pos % 8192 + first.length + 4 + 3) / 4 * 4 % 2 ^ 16 % 8192 =
      (pos + first.room) % 8192 := by
    unfold Packet.room
    omega
  rw [offset] at handled ⊢
  refine robust_issue (f := .ret) held_handled handled fun tr t r holds answer => ?_
  cases answer
  exact holds.finish rfl

/-- Nothing is unread. -/
def Drained (s : RxState) : Prop := ∃ pos older, Head pos older [] s

theorem Drained.passed (drained : Drained s) : s.passed = contents s.arrived := by
  obtain ⟨pos, older, head⟩ := drained
  rw [head.passed, head.arrived, arrivals, List.append_nil]

/-- However many packets arrive meanwhile, the loop only ends when there are none. -/
theorem robust_rxLoop (turns : Nat) (atHead : AtHead pos older s) :
    RxRobust tr (rxLoop turns) s fun _ _ t => Drained t := by
  -- Each turn starts where the oldest unread packet begins. Between two of its reads the device can
  -- only append, which `Found` survives.
  induction turns generalizing tr s pos older with
  | zero => trivial
  | succ turns ih =>
    rw [rxLoop]
    refine robust_issue held_atHead atHead fun tr t r atHead answer => ?_
    cases answer
    dsimp only
    obtain ⟨pending, head⟩ := atHead
    cases pending with
    | nil =>
      have empty : t.unread = 0 := head.unread
      rw [if_pos (by simp [RxState.cmd, empty])]
      exact ⟨pos, older, head⟩
    | cons first rest =>
      have room := first.room_bounds
      have unread := head.unread
      have waiting : t.unread ≠ 0 := by
        rw [unread, span_cons]
        omega
      rw [if_neg (by simp [RxState.cmd, waiting])]
      have found : Found pos older first t := ⟨rest, head⟩
      refine robust_issue held_found found fun tr t r found answer => ?_
      cases answer
      obtain ⟨rest, head⟩ := found
      dsimp only
      rw [head.rxOffset]
      refine robust_issue held_found ⟨rest, head⟩ fun tr t r found answer => ?_
      cases answer
      obtain ⟨rest, head⟩ := found
      dsimp only
      rw [head.stored.1.status]
      refine robust_issue held_found ⟨rest, head⟩ fun tr t r found answer => ?_
      cases answer
      obtain ⟨rest, head⟩ := found
      dsimp only
      rw [head.stored.1.length, if_neg first.rok]
      refine robust_seq (robust_handlePacket ⟨rest, head⟩ first.status) fun tr _ t atHead => ?_
      exact ih atHead

/-! ### The handler -/

/-- Acknowledging interrupts does not concern the ring. -/
theorem AtHead.acknowledge (atHead : AtHead pos older s) (isr : Nat) :
    AtHead pos older { s with isr := isr } := by
  obtain ⟨pending, head⟩ := atHead
  exact ⟨pending, {
    toDevice := head.toDevice.congr rfl rfl rfl rfl
    stored := head.stored
    rxOffset := head.rxOffset
    capr := head.capr
    handling := head.handling
    passed := head.passed }⟩

theorem robust_rxHandler (turns : Nat) (atHead : AtHead pos older s) :
    RxRobust tr (rxHandler turns) s fun _ _ t => Drained t := by
  rw [rxHandler]
  refine robust_issue held_atHead atHead fun tr t r atHead answer => ?_
  cases answer
  refine robust_issue held_atHead atHead fun tr t r atHead answer => ?_
  cases answer
  exact robust_rxLoop turns (atHead.acknowledge _)

end KopalniaOS.Rtl8139
