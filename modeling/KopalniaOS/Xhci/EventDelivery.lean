import KopalniaOS.Xhci.Rings

/-!
# What the driver receives through the event ring

The controller posts events as long as it does not reach the slot that ERDP names, also while
`dequeue_events` runs. The driver frees slots only at the end of a call, when it writes ERDP.
-/
namespace KopalniaOS.Xhci

open Library

/-! ### The two sides of the event ring -/

/-- The memory of the ring, as `alloc_xhci_memory` aligns it. -/
structure Segment where
  base : Nat
  count : Nat
  pos : 0 < count
  aligned : base % 64 = 0
  fits : base + sizeofTrb * count ≤ 2 ^ 64

/-- `ring` is the driver's object between calls, and `batch` the vector of the call. `posted` and
`delivered` collect the events as the controller wrote them and as they were when they were
dequeued; `acknowledged` is how many were delivered when ERDP was last written. -/
structure EventChannel where
  ring : EventRing
  trbs : Nat → Trb
  producer : Cursor
  erdp : Nat
  ehb : Bool
  batch : List Nat
  posted : List Trb
  delivered : List Trb
  acknowledged : Nat

/-- ERDP keeps the pointer and clears EHB when it is written with a one there. -/
def eventHandler : Handler EventOp EventOp.Answer EventChannel
  | .loadTrb index, s => some (s.trbs index, s)
  | .pushBack index, s =>
    some ((), { s with
      batch := s.batch ++ [index]
      delivered := s.delivered ++ [s.trbs index] })
  | .storeEntry .., s => some ((), s)
  | .writeErstsz _, s => some ((), s)
  | .writeErstba _, s => some ((), s)
  | .readErdp, s => some (s.erdp ||| (if s.ehb then erdpEhb else 0), s)
  | .writeErdp value, s =>
    some ((), { s with
      erdp := value / 2 ^ 4 * 2 ^ 4
      ehb := s.ehb && !value.testBit 3
      acknowledged := s.delivered.length })
  | .log _, s => some ((), s)

/-- The event as the controller writes it. -/
def EventChannel.stamped (s : EventChannel) (trb : Trb) : Trb :=
  { trb with cycleBit := s.producer.bit }

/-- The controller posts an event unless the slot behind it is the one that ERDP names. -/
def EventChannel.post (seg : Segment) (s : EventChannel) (trb : Trb) : Option EventChannel :=
  if (s.producer.index + 1) % seg.count = (s.erdp - seg.base) / sizeofTrb then none
  else
    some { s with
      trbs := Function.update s.trbs s.producer.index (s.stamped trb)
      producer := s.producer.next seg.count
      posted := s.posted ++ [s.stamped trb] }

/-- The controller posts an event, or raises an interrupt. -/
inductive Controller (seg : Segment) (s : EventChannel) : EventChannel → Prop where
  | post {trb t} : s.post seg trb = some t → Controller seg s t
  | interrupt : Controller seg s { s with ehb := true }

/-- Zeroed memory, and a controller that has been given the segment. -/
def EventChannel.allocated (ring : EventRing) : EventChannel where
  ring := ring
  trbs := fun _ => .zero
  producer := ⟨0, true⟩
  erdp := 0
  ehb := false
  batch := []
  posted := []
  delivered := []
  acknowledged := 0

/-- The event ring as its constructor leaves it. -/
def EventChannel.Created (seg : Segment) (s : EventChannel) : Prop :=
  ∃ ring tableBase, (EventRing.create seg.count seg.base tableBase).run eventHandler
    (.allocated ring) = some (ring, s)

/-- Calls of `dequeue_events`, each with an empty vector and a bound on its loop. -/
def events (seg : Segment) : Session EventOp EventOp.Answer EventChannel Nat fun _ => EventRing where
  handler := eventHandler
  enter _ s t := t = { s with batch := [] }
  code bound s := s.ring.dequeueEvents bound
  leave _ ring s := { s with ring := ring }
  busyEnv _ _ := Controller seg
  idleEnv := Controller seg

/-! ### The invariant -/

/-- Where ERDP points after `count` deliveries. -/
def Segment.address (seg : Segment) (count : Nat) : Nat :=
  seg.base + sizeofTrb * (count % seg.count)

/-- The driver's fields after `count` deliveries. -/
def Segment.ringAt (seg : Segment) (count : Nat) : EventRing :=
  ⟨seg.count, seg.base, count % seg.count, lapBit seg.count count⟩

structure Follows (seg : Segment) (s : EventChannel) : Prop where
  laps : Laps seg.count Trb.cycleBit id s.posted s.trbs
  producer : s.producer = Cursor.at seg.count s.posted.length
  delivered : s.delivered = s.posted.take s.delivered.length
  behind : s.delivered.length ≤ s.posted.length
  acknowledged : s.acknowledged ≤ s.delivered.length
  room : s.posted.length < s.acknowledged + seg.count
  erdp : s.erdp = seg.address s.acknowledged

/-- The deliveries are the beginning of what was posted, and ERDP names the slot behind the ones
that were acknowledged. -/
def Delivers (seg : Segment) (s : EventChannel) : Prop :=
  s.delivered <+: s.posted ∧ s.erdp = seg.base + sizeofTrb * (s.acknowledged % seg.count)

section Steps

variable {seg : Segment} {s t : EventChannel}

theorem Follows.delivers (follows : Follows seg s) : Delivers seg s := by
  refine ⟨?_, follows.erdp⟩
  rw [follows.delivered]
  exact List.take_prefix _ _

theorem Segment.address_slot (seg : Segment) (count : Nat) :
    (seg.address count - seg.base) / sizeofTrb = count % seg.count := by
  unfold Segment.address
  rw [Nat.add_sub_cancel_left]
  exact Nat.mul_div_cancel_left _ (by decide)

theorem Segment.address_lt (seg : Segment) (count : Nat) : seg.address count < 2 ^ 64 := by
  have inside := Nat.mod_lt count seg.pos
  have fits := seg.fits
  unfold Segment.address sizeofTrb at *
  omega

theorem Segment.address_aligned (seg : Segment) (count : Nat) : seg.address count % 2 ^ 4 = 0 := by
  have aligned := seg.aligned
  unfold Segment.address sizeofTrb
  omega

theorem post_cases {trb : Trb} (posted : s.post seg trb = some t) :
    (s.producer.index + 1) % seg.count ≠ (s.erdp - seg.base) / sizeofTrb ∧
      t = { s with
        trbs := Function.update s.trbs s.producer.index (s.stamped trb)
        producer := s.producer.next seg.count
        posted := s.posted ++ [s.stamped trb] } := by
  unfold EventChannel.post at posted
  split at posted
  · cases posted
  · rename_i free
    exact ⟨free, (Option.some.inj posted).symm⟩

/-- The controller has room for another event exactly when the slot behind it is free. -/
theorem Follows.post (follows : Follows seg s) {trb : Trb} (posted : s.post seg trb = some t) :
    Follows seg t := by
  obtain ⟨free, rfl⟩ := post_cases posted
  have count : (s.posted ++ [s.stamped trb]).length = s.posted.length + 1 := by
    rw [List.length_append, List.length_singleton]
  have behind := follows.behind
  have acked := follows.acknowledged
  -- a full lap ahead, the slot behind this one would be the one that ERDP names
  have room : s.posted.length + 1 < s.acknowledged + seg.count := by
    rw [follows.erdp, seg.address_slot, follows.producer] at free
    have room := follows.room
    by_contra full
    have last : s.posted.length + 1 = s.acknowledged + seg.count := by omega
    apply free
    simp only [Cursor.at]
    rw [Nat.mod_add_mod, last, Nat.add_mod_right]
  constructor
  · have stamp : (s.stamped trb).cycleBit = lapBit seg.count s.posted.length := by
      show s.producer.bit = _
      rw [follows.producer]
      rfl
    have written := follows.laps.write (s.stamped trb) stamp
    rw [follows.producer]
    exact written
  · rw [count, follows.producer]
    exact cursor_next seg.pos _
  · rw [List.take_append_of_le_length behind]
    exact follows.delivered
  · rw [count]
    exact Nat.le_succ_of_le behind
  · exact acked
  · rw [count]
    exact room
  · exact follows.erdp

theorem Follows.controller (follows : Follows seg s) (step : Controller seg s t) : Follows seg t := by
  cases step with
  | post posted => exact follows.post posted
  | interrupt => exact { follows with }

/-- The controller leaves the driver's side alone. -/
theorem Controller.keeps (step : Controller seg s t) :
    t.ring = s.ring ∧ t.delivered = s.delivered ∧ t.acknowledged = s.acknowledged ∧
      t.batch = s.batch ∧ s.posted.length ≤ t.posted.length := by
  cases step with
  | post posted =>
    obtain ⟨-, rfl⟩ := post_cases posted
    refine ⟨rfl, rfl, rfl, rfl, ?_⟩
    rw [List.length_append]
    exact Nat.le_add_right ..
  | interrupt => exact ⟨rfl, rfl, rfl, rfl, Nat.le_refl _⟩

/-- The next slot carries the driver's cycle bit exactly when there is an event to deliver. -/
theorem Follows.cycleBit_iff (follows : Follows seg s) :
    (s.trbs (s.delivered.length % seg.count)).cycleBit = lapBit seg.count s.delivered.length ↔
      s.delivered.length < s.posted.length := by
  have room := follows.room
  have acked := follows.acknowledged
  exact follows.laps.tag_iff seg.pos follows.behind (by omega)

theorem Follows.next (follows : Follows seg s) (more : s.delivered.length < s.posted.length) :
    s.delivered ++ [s.trbs (s.delivered.length % seg.count)] =
      s.posted.take (s.delivered.length + 1) := by
  have room := follows.room
  have acked := follows.acknowledged
  have found : s.posted[s.delivered.length]? = some s.posted[s.delivered.length] :=
    List.getElem?_eq_getElem more
  -- nothing was posted over an event that is not acknowledged yet
  have read := follows.laps.read found (by omega)
  rw [List.take_add_one, found, ← follows.delivered]
  exact congrArg (fun trb => s.delivered ++ [trb]) read

/-- An event that was dequeued. -/
def EventChannel.taken (s : EventChannel) (index : Nat) : EventChannel :=
  { s with batch := s.batch ++ [index], delivered := s.delivered ++ [s.trbs index] }

theorem Follows.taken (follows : Follows seg s) (more : s.delivered.length < s.posted.length) :
    Follows seg (s.taken (s.delivered.length % seg.count)) := by
  have count : (s.delivered ++ [s.trbs (s.delivered.length % seg.count)]).length =
      s.delivered.length + 1 := by
    rw [List.length_append, List.length_singleton]
  have acked := follows.acknowledged
  refine { follows with delivered := ?_, behind := ?_, acknowledged := ?_ }
  · show s.delivered ++ [_] = s.posted.take (s.delivered ++ [_]).length
    rw [count]
    exact follows.next more
  · show (s.delivered ++ [_]).length ≤ _
    rw [count]
    exact more
  · show _ ≤ (s.delivered ++ [_]).length
    rw [count]
    exact Nat.le_succ_of_le acked

/-- A write of ERDP with the address of the next event acknowledges the ones before it. -/
theorem Follows.acknowledge (follows : Follows seg s) (low : Nat) (flags : low < 2 ^ 4) {b : Bool} :
    Follows seg { s with
      erdp := (seg.address s.delivered.length ||| low) / 2 ^ 4 * 2 ^ 4
      ehb := b
      acknowledged := s.delivered.length } := by
  have behind := follows.behind
  have room := follows.room
  have acked := follows.acknowledged
  have aligned := seg.address_aligned s.delivered.length
  refine { follows with acknowledged := Nat.le_refl _, room := ?_, erdp := ?_ }
  · show s.posted.length < s.delivered.length + seg.count
    omega
  · show (seg.address s.delivered.length ||| low) / 2 ^ 4 * 2 ^ 4 = seg.address s.delivered.length
    rw [or_eq_add aligned flags]
    omega

end Steps

/-! ### One call, with the controller posting meanwhile -/

section Calls

variable {seg : Segment} {s t : EventChannel} {α : Type}

/-- During a call `count` events are delivered. -/
def At (seg : Segment) (count : Nat) (s : EventChannel) : Prop :=
  Follows seg s ∧ s.delivered.length = count

theorem at_stable {count : Nat} (t t' : EventChannel) (holds : At seg count t)
    (step : Controller seg t t') : At seg count t' := by
  refine ⟨holds.1.controller step, ?_⟩
  rw [step.keeps.2.1]
  exact holds.2

/-- One operation of the driver while the controller may post. -/
theorem robust_event {count : Nat} {tr : History EventOp EventOp.Answer} {o : EventOp}
    {f : o.Answer → EventProgram α} {post : History EventOp EventOp.Answer → α → EventChannel → Prop}
    (holds : At seg count s)
    (next : ∀ t, At seg count t → ∀ r, eventHandler o t = some r →
      (f r.1).Robust eventHandler (fun _ => Controller seg) (fun _ => Delivers seg)
        (⟨o, r.1⟩ :: tr) r.2 post) :
    (Program.perform o >>= f).Robust eventHandler (fun _ => Controller seg)
      (fun _ => Delivers seg) tr s post :=
  Program.robust_perform_bind holds at_stable (fun _ holds => holds.1.delivers) next

/-- `_dequeue_trb` leaves the fields as they are after one delivery more. -/
theorem dequeueTrb_ringAt (seg : Segment) (count : Nat) :
    (seg.ringAt count).dequeueTrb = (do
      let trb ← loadTrb (count % seg.count)
      if trb.cycleBit ≠ lapBit seg.count count then do
        log "Event Ring attempted to dequeue an invalid TRB, returning nullptr!\n"
        pure (none, seg.ringAt count)
      else pure (some (count % seg.count), seg.ringAt (count + 1))) :=
  EventRing.dequeueTrb_placed seg.pos seg.base count

/-- A call of `_dequeue_trb` when there is an event. -/
theorem robust_dequeueTrb {count : Nat} {tr : History EventOp EventOp.Answer}
    {f : Option Nat × EventRing → EventProgram α}
    {post : History EventOp EventOp.Answer → α → EventChannel → Prop} (holds : At seg count s)
    (more : count < s.posted.length)
    (next : ∀ tr t, At seg count t → count < t.posted.length →
      (f (some (count % seg.count), seg.ringAt (count + 1))).Robust eventHandler
        (fun _ => Controller seg) (fun _ => Delivers seg) tr t post) :
    ((seg.ringAt count).dequeueTrb >>= f).Robust eventHandler (fun _ => Controller seg)
      (fun _ => Delivers seg) tr s post := by
  have stable : ∀ t t', (At seg count t ∧ count < t.posted.length) → Controller seg t t' →
      At seg count t' ∧ count < t'.posted.length := by
    rintro t t' ⟨holds, more⟩ step
    exact ⟨at_stable t t' holds step, Nat.lt_of_lt_of_le more step.keeps.2.2.2.2⟩
  rw [dequeueTrb_ringAt, bind_assoc]
  refine Program.robust_perform_bind (P := fun t => At seg count t ∧ count < t.posted.length)
    ⟨holds, more⟩ stable (fun _ holds => holds.1.1.delivers) ?_
  rintro t ⟨holds, more⟩ r answer
  cases answer
  -- an event that was posted carries the driver's bit
  have own := (holds.2 ▸ holds.1.cycleBit_iff).mpr more
  rw [if_neg (not_not.mpr own), Program.pure_eq, Program.ret_bind]
  exact next _ t holds more

theorem robust_drain {count : Nat} {tr : History EventOp EventOp.Answer} (bound : Nat)
    (holds : At seg count s) :
    ((seg.ringAt count).drain bound).Robust eventHandler (fun _ => Controller seg)
      (fun _ => Delivers seg) tr s fun _ ring t => Follows seg t ∧ ring = seg.ringAt t.delivered.length := by
  induction bound generalizing count s tr with
  | zero => trivial
  | succ bound ih =>
    rw [EventRing.drain, EventRing.hasUnprocessedEvents, bind_assoc]
    apply robust_event holds
    intro t holds r answer
    cases answer
    rw [Program.pure_eq, Program.ret_bind]
    by_cases own : (t.trbs (seg.ringAt count).dequeuePtr).cycleBit = (seg.ringAt count).rcsBit
    · have more := (holds.2 ▸ holds.1.cycleBit_iff).mp own
      rw [if_pos (by rw [own]; exact beq_self_eq_true _)]
      apply robust_dequeueTrb holds more
      intro tr t holds more
      -- the event is appended to the vector, and the loop goes on behind it
      refine Program.robust_perform_bind (P := fun t => At seg count t ∧ count < t.posted.length)
        ⟨holds, more⟩ ?_ (fun _ holds => holds.1.1.delivers) ?_
      · rintro t t' ⟨holds, more⟩ step
        exact ⟨at_stable t t' holds step, Nat.lt_of_lt_of_le more step.keeps.2.2.2.2⟩
      rintro t ⟨holds, more⟩ r answer
      cases answer
      apply ih
      obtain ⟨follows, rfl⟩ := holds
      refine ⟨follows.taken more, ?_⟩
      show (t.delivered ++ [_]).length = _
      rw [List.length_append, List.length_singleton]
    · rw [if_neg (by rw [beq_iff_eq]; exact own)]
      exact ⟨holds.1, by rw [holds.2]⟩

/-- After the first write of ERDP the events delivered so far are acknowledged. -/
theorem acknowledged_stable {count : Nat} (t t' : EventChannel)
    (holds : At seg count t ∧ t.acknowledged = count) (step : Controller seg t t') :
    At seg count t' ∧ t'.acknowledged = count :=
  ⟨at_stable t t' holds.1 step, step.keeps.2.2.1.trans holds.2⟩

theorem robust_dequeueEvents (tr : History EventOp EventOp.Answer) (bound : Nat)
    (follows : Follows seg s) :
    ((seg.ringAt s.delivered.length).dequeueEvents bound).Robust eventHandler
      (fun _ => Controller seg) (fun _ => Delivers seg) tr s fun _ ring t =>
        Follows seg t ∧ ring = seg.ringAt t.delivered.length ∧
          t.acknowledged = t.delivered.length := by
  rw [EventRing.dequeueEvents, Program.robust_bind]
  refine (robust_drain bound ⟨follows, rfl⟩).mono ?_
  rintro tr ring t ⟨follows, rfl⟩
  have address : u64 ((seg.ringAt t.delivered.length).physicalBase +
      (seg.ringAt t.delivered.length).dequeuePtr * sizeofTrb) = seg.address t.delivered.length := by
    rw [Nat.mul_comm]
    exact u64_of_lt (seg.address_lt _)
  rw [EventRing.updateErdp, address]
  generalize counted : t.delivered.length = count
  have holds : At seg count t := ⟨follows, counted⟩
  -- the first write already acknowledges, and the second only adds a flag
  apply robust_event holds
  rintro u ⟨follows, rfl⟩ r answer
  cases answer
  have first := follows.acknowledge 0 (by decide)
    (b := u.ehb && !(seg.address u.delivered.length).testBit 3)
  rw [Nat.or_zero] at first
  refine Program.robust_perform_bind
    (P := fun t => At seg u.delivered.length t ∧ t.acknowledged = u.delivered.length)
    ⟨⟨first, rfl⟩, rfl⟩ acknowledged_stable (fun _ holds => holds.1.1.delivers) ?_
  rintro v ⟨⟨follows, delivered⟩, acked⟩ r answer
  cases answer
  refine Program.robust_perform_bind
    (P := fun t => At seg u.delivered.length t ∧ t.acknowledged = u.delivered.length)
    ⟨⟨follows, delivered⟩, acked⟩ acknowledged_stable (fun _ holds => holds.1.1.delivers) ?_
  rintro w ⟨⟨follows', delivered'⟩, -⟩ r answer
  cases answer
  have flags : ((if v.ehb then erdpEhb else 0) ||| erdpEhb) < 2 ^ 4 := by
    cases v.ehb <;> decide
  have second := follows'.acknowledge _ flags
    (b := w.ehb && !(v.erdp ||| (if v.ehb then erdpEhb else 0) ||| erdpEhb).testBit 3)
  have pointer : v.erdp = seg.address w.delivered.length := by
    rw [follows.erdp, acked, delivered']
  rw [← pointer, ← Nat.or_assoc] at second
  refine ⟨?_, ?_, ?_⟩
  · exact second
  · show _ = seg.ringAt w.delivered.length
    rw [delivered']
  · rfl

/-! ### A call that the controller does not interleave -/

/-- The slots of the events from number `first` up to number `last`. -/
def Segment.slots (seg : Segment) (first last : Nat) : List Nat :=
  (List.range' first (last - first)).map (· % seg.count)

theorem Segment.slots_of_lt (seg : Segment) {first last : Nat} (more : first < last) :
    seg.slots first last = first % seg.count :: seg.slots (first + 1) last := by
  obtain ⟨left, rfl⟩ : ∃ left, last = first + 1 + left := ⟨last - (first + 1), by omega⟩
  have whole : first + 1 + left - first = left + 1 := by omega
  unfold Segment.slots
  rw [whole, Nat.add_sub_cancel_left, List.range'_succ, List.map_cons]

theorem Segment.slots_self (seg : Segment) (count : Nat) : seg.slots count count = [] := by
  unfold Segment.slots
  rw [Nat.sub_self, List.range'_zero, List.map_nil]

/-- Everything that was posted has been delivered. -/
def EventChannel.drained (seg : Segment) (s : EventChannel) : EventChannel :=
  { s with
    batch := s.batch ++ seg.slots s.delivered.length s.posted.length
    delivered := s.posted }

theorem drained_taken (more : s.delivered.length < s.posted.length) :
    (s.taken (s.delivered.length % seg.count)).drained seg = s.drained seg := by
  have count : (s.delivered ++ [s.trbs (s.delivered.length % seg.count)]).length =
      s.delivered.length + 1 := by
    rw [List.length_append, List.length_singleton]
  unfold EventChannel.drained EventChannel.taken
  simp only [count, List.append_assoc, List.singleton_append, seg.slots_of_lt more]

theorem Follows.drained_self (follows : Follows seg s) (all : s.delivered.length = s.posted.length) :
    s.drained seg = s := by
  have same : s.posted = s.delivered := by
    rw [follows.delivered, all, List.take_length]
  unfold EventChannel.drained
  rw [all, seg.slots_self, List.append_nil]
  exact congrArg (fun delivered => { s with delivered := delivered }) same

theorem run_dequeueTrb {count : Nat} (own : (s.trbs (count % seg.count)).cycleBit = lapBit seg.count count) :
    (seg.ringAt count).dequeueTrb.run eventHandler s =
      some ((some (count % seg.count), seg.ringAt (count + 1)), s) := by
  rw [dequeueTrb_ringAt, Program.run_bind, loadTrb, Program.run_perform, eventHandler,
    Option.bind_some, if_neg (not_not.mpr own), Program.pure_eq, Program.run_ret]

theorem run_drain (follows : Follows seg s) (bound : Nat)
    (enough : s.posted.length < s.delivered.length + bound) :
    ((seg.ringAt s.delivered.length).drain bound).run eventHandler s =
      some (seg.ringAt s.posted.length, s.drained seg) := by
  induction bound generalizing s with
  | zero =>
    have behind := follows.behind
    omega
  | succ bound ih =>
    rw [EventRing.drain, EventRing.hasUnprocessedEvents, Program.run_bind, Program.run_bind, loadTrb,
      Program.run_perform]
    -- The dequeue pointer shows the consumer's own cycle bit exactly if an event is waiting there.
    by_cases more : s.delivered.length < s.posted.length
    · have own := follows.cycleBit_iff.mpr more
      have own' : (s.trbs (seg.ringAt s.delivered.length).dequeuePtr).cycleBit =
          (seg.ringAt s.delivered.length).rcsBit := own
      have count : (s.taken (s.delivered.length % seg.count)).delivered.length =
          s.delivered.length + 1 := by
        show (s.delivered ++ [_]).length = _
        rw [List.length_append, List.length_singleton]
      have rest := ih (follows.taken more) (by
        rw [count]
        show s.posted.length < _
        omega)
      rw [count] at rest
      simp only [eventHandler, Option.bind_some, Program.pure_eq, Program.run_ret, own',
        beq_self_eq_true, if_true, Program.run_bind, run_dequeueTrb own, pushBack,
        Program.run_perform]
      rw [← drained_taken more]
      exact rest
    · have foreign : (s.trbs (seg.ringAt s.delivered.length).dequeuePtr).cycleBit ≠
          (seg.ringAt s.delivered.length).rcsBit := fun own => more (follows.cycleBit_iff.mp own)
      have all : s.delivered.length = s.posted.length :=
        Nat.le_antisymm follows.behind (Nat.not_lt.mp more)
      simp only [eventHandler, Option.bind_some, Program.pure_eq, Program.run_ret,
        beq_eq_false_iff_ne.mpr foreign, Bool.false_eq_true, if_false]
      rw [follows.drained_self all, all]

/-- A call that nothing interrupts delivers everything and acknowledges it. -/
theorem run_dequeueEvents (follows : Follows seg s) (bound : Nat)
    (enough : s.posted.length < s.delivered.length + bound) :
    ∃ t, ((seg.ringAt s.delivered.length).dequeueEvents bound).run eventHandler s =
        some (seg.ringAt s.posted.length, t) ∧
      t = { s.drained seg with
        erdp := t.erdp, ehb := t.ehb, acknowledged := s.posted.length } := by
  rw [EventRing.dequeueEvents, Program.run_bind, run_drain follows bound enough, Option.bind_some]
  exact ⟨_, rfl, rfl⟩

end Calls

/-! ### Whole runs -/

/-- Between calls the driver's fields show what was delivered, and all of it is acknowledged. -/
structure Settled (seg : Segment) (s : EventChannel) : Prop where
  follows : Follows seg s
  ring : s.ring = seg.ringAt s.delivered.length
  acknowledged : s.acknowledged = s.delivered.length

variable {seg : Segment} {s t : EventChannel}

theorem Settled.controller (settled : Settled seg s) (step : Controller seg s t) : Settled seg t := by
  obtain ⟨ring, delivered, acked, -, -⟩ := step.keeps
  refine ⟨settled.follows.controller step, ?_, ?_⟩
  · rw [ring, delivered]
    exact settled.ring
  · rw [acked, delivered]
    exact settled.acknowledged

theorem EventChannel.Created.settled (created : EventChannel.Created seg s) : Settled seg s := by
  obtain ⟨ring, tableBase, ran⟩ := created
  obtain ⟨object, rfl⟩ := Prod.mk.inj (Option.some.inj ran)
  have start : seg.ringAt 0 = ⟨seg.count, seg.base, 0, true⟩ := by
    rw [Segment.ringAt, Nat.zero_mod, lapBit_of_lt seg.pos]
  -- the register drops the low four bits, which are zero in an aligned segment
  have address : u64 (seg.base + 0 * sizeofTrb) / 2 ^ 4 * 2 ^ 4 = seg.address 0 := by
    have small := seg.address_lt 0
    have aligned := seg.address_aligned 0
    have zero : seg.address 0 = seg.base + 0 * sizeofTrb := by
      rw [Segment.address, Nat.zero_mod, Nat.zero_mul, Nat.mul_zero]
    rw [← zero, u64_of_lt small]
    omega
  refine ⟨?_, ?_, rfl⟩
  · constructor
    · exact Laps.empty fun _ _ => rfl
    · exact (cursor_zero _).symm
    · rfl
    · exact Nat.le_refl 0
    · exact Nat.le_refl 0
    · show 0 < 0 + seg.count
      have := seg.pos
      omega
    · exact address
  · exact object.symm.trans start.symm

theorem EventChannel.Created.posted (created : EventChannel.Created seg s) : s.posted = [] := by
  obtain ⟨ring, tableBase, ran⟩ := created
  obtain ⟨-, rfl⟩ := Prod.mk.inj (Option.some.inj ran)
  rfl

theorem events_keep (settled : Settled seg s) {x} (reached : (events seg).Reachable s x) :
    (events seg).Keeps (fun _ _ => Delivers seg) (Settled seg) x := by
  refine Session.invariant ?_ (fun s t settled step => settled.controller step) settled reached
  rintro bound s t settled rfl
  have follows : Follows seg { s with batch := [] } := { settled.follows with }
  have ring : s.ring = seg.ringAt (EventChannel.delivered { s with batch := [] }).length :=
    settled.ring
  have robust := robust_dequeueEvents [] bound follows
  rw [← ring] at robust
  refine robust.mono ?_
  rintro - ring t ⟨follows, ring', acked⟩
  exact ⟨{ follows with }, ring', acked⟩

/-- Every event is delivered once and in order, a call that the controller does not interleave
leaves none undelivered, and ERDP always has the address of the first slot behind the events
that were delivered when it was written. -/
theorem events_deliver (created : EventChannel.Created seg s) {x}
    (reached : (events seg).Reachable s x) :
    (events seg).Everywhere (Delivers seg) x ∧
      ∀ t, x = .idle t → t.acknowledged = t.delivered.length ∧
        ∀ bound, seg.count ≤ bound → ∃ ring u,
          (t.ring.dequeueEvents bound).run eventHandler { t with batch := [] } = some (ring, u) ∧
            u.posted = t.posted ∧ u.delivered = t.posted := by
  have keeps := events_keep created.settled reached
  refine ⟨keeps.everywhere (fun s settled => settled.follows.delivers) fun _ _ _ holds => holds, ?_⟩
  rintro t rfl
  -- between the calls all that was delivered is acknowledged, so there is room in the ring
  have settled : Settled seg t := keeps
  refine ⟨settled.acknowledged, fun bound enough => ?_⟩
  have follows : Follows seg { t with batch := [] } := { settled.follows with }
  obtain ⟨u, ran, shape⟩ := run_dequeueEvents follows bound (by
    have room := settled.follows.room
    rw [settled.acknowledged] at room
    show t.posted.length < t.delivered.length + bound
    omega)
  have ring : t.ring = seg.ringAt (EventChannel.delivered { t with batch := [] }).length :=
    settled.ring
  rw [← ring] at ran
  refine ⟨_, u, ran, ?_, ?_⟩
  · rw [shape]
    rfl
  · rw [shape]
    rfl

/-! ### A ring of four events -/

def smallSegment : Segment :=
  ⟨4096, 4, by decide, by decide, by decide⟩

def smallEvents : EventChannel where
  ring := ⟨4, 4096, 0, true⟩
  trbs := fun _ => .zero
  producer := ⟨0, true⟩
  erdp := 4096
  ehb := false
  batch := []
  posted := []
  delivered := []
  acknowledged := 0

theorem created_smallEvents : EventChannel.Created smallSegment smallEvents :=
  ⟨⟨4, 4096, 0, true⟩, 8192, rfl⟩

/-- A port status change. -/
def portEvent : Trb := { Trb.zero with trbType := 34 }

def onePosted : EventChannel := (smallEvents.post smallSegment portEvent).get rfl

theorem reaches_onePosted : (events smallSegment).Reachable smallEvents (.idle onePosted) :=
  .single (.rest (.post (Option.some_get _).symm))

theorem events_deliver_onePosted : Delivers smallSegment onePosted ∧
    ∃ ring u, (onePosted.ring.dequeueEvents 4).run eventHandler { onePosted with batch := [] } =
      some (ring, u) ∧ u.posted = onePosted.posted ∧ u.delivered = onePosted.posted :=
  have holds := events_deliver created_smallEvents reaches_onePosted
  ⟨holds.1, (holds.2 onePosted rfl).2 4 (Nat.le_refl 4)⟩

end KopalniaOS.Xhci
