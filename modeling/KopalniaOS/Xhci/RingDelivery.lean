import KopalniaOS.Xhci.Rings

/-!
# What the controller receives through a ring

A command or transfer ring between the driver, which enqueues, and the controller, which
follows the cycle bits. The controller takes its steps between any two stores of the driver.
-/
namespace KopalniaOS.Xhci

open Library Relation

/-! ### The two sides of a ring -/

inductive RingObject where
  | command (ring : CommandRing)
  | transfer (ring : TransferRing)

def RingObject.fields : RingObject → TrbRing
  | .command ring => ring.toTrbRing
  | .transfer ring => ring.toTrbRing

def RingObject.enqueue : RingObject → Trb → RingProgram RingObject
  | .command ring, trb => do
    let ring ← ring.enqueue trb
    pure (.command ring)
  | .transfer ring, trb => do
    let ring ← ring.enqueue trb
    pure (.transfer ring)

inductive RingKind where
  | command
  | transfer (doorbellId : Nat)

def RingKind.create (maxTrbs physicalBase : Nat) : RingKind → RingProgram RingObject
  | .command => do
    let ring ← CommandRing.create maxTrbs physicalBase
    pure (.command ring)
  | .transfer doorbellId => do
    let ring ← TransferRing.init maxTrbs doorbellId physicalBase
    pure (.transfer ring)

/-- `ring` is the object between calls. `enqueued` collects what `enqueue` was called with,
and `received` what the controller took. -/
structure Channel where
  ring : RingObject
  trbs : Nat → Trb
  consumer : Cursor
  enqueued : List Trb
  received : List Trb

def Channel.store (s : Channel) (index : Nat) (trb : Trb) : Channel :=
  { s with trbs := Function.update s.trbs index trb }

def ringHandler : Handler RingOp RingOp.Answer Channel
  | .storeTrb index trb, s => some ((), s.store index trb)
  | .storeParameter index value, s =>
    some ((), s.store index { s.trbs index with parameter := value })
  | .storeControl index value, s => some ((), s.store index ((s.trbs index).withControl value))

/-- One step of the controller: it takes the TRB at its index when the cycle bit is its own,
and follows a link. -/
def Channel.consume (s : Channel) : Option Channel :=
  let trb := s.trbs s.consumer.index
  if trb.cycleBit ≠ s.consumer.bit then none
  else if trb.trbType = typeLink then
    some { s with consumer := ⟨0, if trb.toggleCycle then !s.consumer.bit else s.consumer.bit⟩ }
  else
    some { s with
      consumer := ⟨s.consumer.index + 1, s.consumer.bit⟩
      received := s.received ++ [trb] }

/-- Zeroed memory and a controller that has been given the ring. -/
def Channel.allocated (ring : RingObject) : Channel :=
  ⟨ring, fun _ => .zero, ⟨0, true⟩, [], []⟩

/-- A ring as its constructor or `init` leaves it. -/
def Channel.Created (kind : RingKind) (N base : Nat) (s : Channel) : Prop :=
  ∃ ring, (kind.create N base).run ringHandler (.allocated ring) = some (ring, s)

/-- Calls of `enqueue`, each with a TRB that is not a link itself and while fewer TRBs are
unconsumed than the ring has slots for. -/
def channel : Session RingOp RingOp.Answer Channel Trb fun _ => RingObject where
  handler := ringHandler
  enter trb s t := trb.trbType ≠ typeLink ∧
    s.enqueued.length < s.received.length + (s.ring.fields.maxTrbCount - 1) ∧
    t = { s with enqueued := s.enqueued ++ [trb] }
  code trb s := s.ring.enqueue trb
  leave _ ring s := { s with ring := ring }
  busyEnv _ _ s t := s.consume = some t
  idleEnv s t := s.consume = some t

/-! ### One step of the controller -/

theorem consume_cases {s t : Channel} (step : s.consume = some t) :
    (s.trbs s.consumer.index).cycleBit = s.consumer.bit ∧
      (((s.trbs s.consumer.index).trbType = typeLink ∧
          t = { s with
            consumer := ⟨0, if (s.trbs s.consumer.index).toggleCycle then !s.consumer.bit
              else s.consumer.bit⟩ }) ∨
        ((s.trbs s.consumer.index).trbType ≠ typeLink ∧
          t = { s with
            consumer := ⟨s.consumer.index + 1, s.consumer.bit⟩
            received := s.received ++ [s.trbs s.consumer.index] })) := by
  unfold Channel.consume at step
  -- the cycle bit says whose the entry is; only then the type is looked at
  by_cases own : (s.trbs s.consumer.index).cycleBit = s.consumer.bit
  · simp only [own, ne_eq, not_true_eq_false, if_false] at step
    by_cases link : (s.trbs s.consumer.index).trbType = typeLink
    · rw [if_pos link, Option.some.injEq] at step
      exact ⟨own, .inl ⟨link, step.symm⟩⟩
    · rw [if_neg link, Option.some.injEq] at step
      exact ⟨own, .inr ⟨link, step.symm⟩⟩
  · simp only [own, ne_eq, not_false_eq_true, if_true] at step
    cases step

theorem consume_eq_none {s : Channel} :
    s.consume = none ↔ (s.trbs s.consumer.index).cycleBit ≠ s.consumer.bit := by
  unfold Channel.consume
  by_cases own : (s.trbs s.consumer.index).cycleBit = s.consumer.bit
  · simp only [own, ne_eq, not_true_eq_false, if_false, iff_false]
    split <;> simp
  · simp [own]

/-! ### The invariant -/

/-- The cycle bit of the link after it was rewritten `links` times. -/
def linkBit : Nat → Bool
  | 0 => true
  | links + 1 => links % 2 == 0

/-- The link TRB. -/
def linkTrb (base : Nat) (bit : Bool) : Trb :=
  { parameter := base, status := 0, cycleBit := bit, rsvd := 1, trbType := typeLink, rsvd1 := 0 }

/-- The ring of `M + 1` TRBs after `done` was stored and the link rewritten `links` times. -/
structure InStep (M base : Nat) (done : List Trb) (links : Nat) (s : Channel) : Prop where
  laps : Laps M Trb.cycleBit Trb.body (done.map Trb.body) s.trbs
  plain : ∀ trb ∈ done, trb.trbType ≠ typeLink
  received : s.received.map Trb.body = (done.map Trb.body).take s.received.length
  behind : s.received.length ≤ done.length
  near : done.length ≤ s.received.length + M
  link : s.trbs M = linkTrb base (linkBit links)
  links_le : links ≤ done.length / M
  le_links : done.length / M ≤ links + 1
  consumer : s.consumer = Cursor.at M s.received.length ∨
    0 < s.received.length ∧ s.received.length % M = 0 ∧
      s.consumer = ⟨M, !lapBit M s.received.length⟩

section Steps

variable {M base links : Nat} {done : List Trb} {s t : Channel}

theorem toggleCycle_linkTrb (base : Nat) (bit : Bool) : (linkTrb base bit).toggleCycle = true :=
  Nat.testBit_one_zero

/-- A TRB that the controller takes is the next one it has not received. -/
theorem InStep.takes (inStep : InStep M base done links s) (pos : 0 < M)
    (place : s.consumer = Cursor.at M s.received.length)
    (own : (s.trbs s.consumer.index).cycleBit = s.consumer.bit) :
    ∃ trb, done[s.received.length]? = some trb ∧
      (s.trbs s.consumer.index).body = trb.body := by
  rw [place] at own ⊢
  have length : (done.map Trb.body).length = done.length := List.length_map _
  have more : s.received.length < (done.map Trb.body).length :=
    (inStep.laps.tag_iff pos (by rw [length]; exact inStep.behind)
      (by rw [length]; exact inStep.near)).mp own
  rw [length] at more
  refine ⟨done[s.received.length], List.getElem?_eq_getElem more, ?_⟩
  apply inStep.laps.read
  · rw [List.getElem?_map, List.getElem?_eq_getElem more]
    rfl
  · rw [length]
    exact inStep.near

/-- The controller keeps the two sides in step. -/
theorem InStep.consume (inStep : InStep M base done links s) (pos : 0 < M)
    (step : s.consume = some t) : InStep M base done links t := by
  obtain ⟨own, ⟨link, rfl⟩ | ⟨plain, rfl⟩⟩ := consume_cases step
  · -- only the last slot holds a link
    refine { inStep with consumer := .inl ?_ }
    rcases inStep.consumer with place | ⟨-, lap, place⟩
    · obtain ⟨trb, found, same⟩ := inStep.takes pos place own
      have type : trb.trbType = typeLink := by
        rw [← link]
        exact (congrArg Trb.trbType same).symm
      exact (inStep.plain trb (List.mem_of_getElem? found) type).elim
    · have toggle : (s.trbs s.consumer.index).toggleCycle = true := by
        rw [place, inStep.link]
        exact toggleCycle_linkTrb base _
      rw [toggle, if_pos rfl, place, Bool.not_not, Cursor.at, lap]
  · rcases inStep.consumer with place | ⟨-, -, place⟩
    · obtain ⟨trb, found, same⟩ := inStep.takes pos place own
      have more := (List.getElem?_eq_some_iff.mp found).1
      have count : (s.received ++ [s.trbs s.consumer.index]).length = s.received.length + 1 := by
        rw [List.length_append, List.length_singleton]
      refine { inStep with received := ?_, behind := ?_, near := ?_, consumer := ?_ }
      · rw [count, List.map_append, inStep.received, List.take_add_one, List.getElem?_map, found,
          List.map_singleton, same]
        rfl
      · rw [count]
        exact more
      · rw [count]
        have := inStep.near
        omega
      · rw [count, place]
        rcases succ_lap pos s.received.length with ⟨wraps, index, lap⟩ | ⟨inside, index, lap⟩
        · right
          refine ⟨by omega, index, ?_⟩
          rw [lapBit, lap, succ_even, Bool.not_not]
          simp only [Cursor.at, wraps, lapBit]
        · left
          rw [Cursor.at, Cursor.at, lapBit, lapBit, index, lap]
    · have type : (s.trbs s.consumer.index).trbType = typeLink := by
        rw [place, inStep.link]
        rfl
      exact (plain type).elim

/-- The driver stores the next TRB with the cycle bit of its lap. -/
theorem InStep.storeTrb (inStep : InStep M base done (done.length / M) s) (pos : 0 < M)
    (room : done.length < s.received.length + M) {trb : Trb} (plain : trb.trbType ≠ typeLink) :
    InStep M base (done ++ [trb]) (done.length / M)
      (s.store (done.length % M) { trb with cycleBit := lapBit M done.length }) := by
  have count : (done ++ [trb]).length = done.length + 1 := by
    rw [List.length_append, List.length_singleton]
  have old : s.received.length ≤ done.length := inStep.behind
  -- The producer's count may end its lap here; the link TRB is dealt with by the caller.
  have next : done.length / M ≤ (done.length + 1) / M ∧ (done.length + 1) / M ≤ done.length / M + 1 := by
    rcases succ_lap pos done.length with ⟨-, -, lap⟩ | ⟨-, -, lap⟩ <;> omega
  constructor
  · have stored := inStep.laps.write { trb with cycleBit := lapBit M done.length }
      (by rw [List.length_map])
    rw [List.length_map] at stored
    rw [List.map_append, List.map_singleton]
    exact stored
  · intro other member
    rcases List.mem_append.mp member with earlier | last
    · exact inStep.plain other earlier
    · rw [List.mem_singleton.mp last]
      exact plain
  · rw [List.map_append, List.take_append_of_le_length (by rw [List.length_map]; exact old)]
    exact inStep.received
  · rw [count]
    exact Nat.le_succ_of_le old
  · rw [count]
    exact room
  · have elsewhere : M ≠ done.length % M := Nat.ne_of_gt (Nat.mod_lt _ pos)
    exact (Function.update_of_ne elsewhere _ _).trans inStep.link
  · rw [count]
    exact next.1
  · rw [count]
    exact next.2
  · exact inStep.consumer

/-- The driver rewrites the link when it has filled the slots. -/
theorem InStep.storeControl (inStep : InStep M base done links s) (pos : 0 < M)
    (lap : done.length / M = links + 1) :
    InStep M base done (done.length / M)
      (s.store M ((s.trbs M).withControl (linkControl (linkBit (links + 1))))) := by
  have here : ∀ b, (linkTrb base b).withControl (linkControl (linkBit (links + 1))) =
      linkTrb base (linkBit (links + 1)) := by
    intro b
    cases linkBit (links + 1) <;> rfl
  refine { inStep with laps := ?_, link := ?_, links_le := Nat.le_refl _, le_links := by omega }
  · exact inStep.laps.congr pos fun index inside => Function.update_of_ne (Nat.ne_of_lt inside) _ _
  · rw [lap, inStep.link, here]
    exact Function.update_self ..

theorem consume_keeps (step : s.consume = some t) :
    t.ring = s.ring ∧ t.enqueued = s.enqueued ∧ s.received.length ≤ t.received.length := by
  obtain ⟨-, ⟨-, rfl⟩ | ⟨-, rfl⟩⟩ := consume_cases step
  · exact ⟨rfl, rfl, Nat.le_refl _⟩
  · refine ⟨rfl, rfl, ?_⟩
    rw [List.length_append]
    exact Nat.le_add_right ..

end Steps

/-! ### One call -/

/-- What was received is the beginning of what was enqueued, and the link points to the ring. -/
def InOrder (N base : Nat) (s : Channel) : Prop :=
  s.received.map Trb.body <+: s.enqueued.map Trb.body ∧ (s.trbs (N - 1)).parameter = base

/-- The driver's fields after `count` TRBs. -/
def fieldsAt (N base count : Nat) : TrbRing :=
  ⟨N, count % (N - 1), base, lapBit (N - 1) count⟩

section Calls

variable {N base links : Nat} {done : List Trb} {trb : Trb} {s t : Channel}

theorem InStep.inOrder (more : List Trb) (inStep : InStep (N - 1) base done links s)
    (enqueued : s.enqueued = done ++ more) : InOrder N base s := by
  constructor
  · rw [inStep.received, enqueued, List.map_append]
    exact (List.take_prefix _ _).trans (List.prefix_append _ _)
  · rw [inStep.link]
    rfl

/-- The driver's fields go on by one TRB, and the last one of a lap takes the link with it. -/
theorem enqueue_fieldsAt (pos : 0 < N - 1) (base count : Nat) (trb : Trb) :
    (fieldsAt N base count).enqueue trb = (do
      storeTrb (count % (N - 1)) { trb with cycleBit := lapBit (N - 1) count }
      if count % (N - 1) + 1 = N - 1 then do
        storeControl (N - 1) (linkControl (lapBit (N - 1) count))
        pure (fieldsAt N base (count + 1))
      else pure (fieldsAt N base (count + 1))) := by
  -- only behind the last entry of a lap the link is written and the index starts over
  rcases succ_lap pos count with ⟨wraps, index, lap⟩ | ⟨inside, index, lap⟩
  · have fields : fieldsAt N base (count + 1) = ⟨N, 0, base, !lapBit (N - 1) count⟩ := by
      rw [fieldsAt, index, lapBit, lap, succ_even]
      rfl
    have last : (fieldsAt N base count).enqueuePtr + 1 =
        (fieldsAt N base count).maxTrbCount - 1 := wraps
    simp only [TrbRing.enqueue, last, wraps, if_true, fields]
    rfl
  · have fields : fieldsAt N base (count + 1) =
        ⟨N, count % (N - 1) + 1, base, lapBit (N - 1) count⟩ := by
      rw [fieldsAt, index, lapBit, lap]
      rfl
    have notLast : (fieldsAt N base count).enqueuePtr + 1 ≠
        (fieldsAt N base count).maxTrbCount - 1 := Nat.ne_of_lt inside
    simp only [TrbRing.enqueue, notLast, Nat.ne_of_lt inside, if_false, fields]
    rfl

theorem robust_enqueue (trb : Trb) (two : 2 ≤ N) (inStep : InStep (N - 1) base done (done.length / (N - 1)) s)
    (enqueued : s.enqueued = done ++ [trb]) (plain : trb.trbType ≠ typeLink)
    (room : done.length < s.received.length + (N - 1)) :
    ((fieldsAt N base done.length).enqueue trb).Robust ringHandler
      (fun _ s t => s.consume = some t) (fun _ => InOrder N base) [] s
      fun _ fields t => fields = fieldsAt N base (done.length + 1) ∧ t.enqueued = done ++ [trb] ∧
        InStep (N - 1) base (done ++ [trb]) ((done.length + 1) / (N - 1)) t := by
  have pos : 0 < N - 1 := by omega
  have count : (done ++ [trb]).length = done.length + 1 := by
    rw [List.length_append, List.length_singleton]
  rw [enqueue_fieldsAt pos]
  refine Program.robust_perform_bind
    (P := fun t => InStep (N - 1) base done (done.length / (N - 1)) t ∧
      t.enqueued = done ++ [trb] ∧ done.length < t.received.length + (N - 1))
    ⟨inStep, enqueued, room⟩ ?_ (fun t holds => holds.1.inOrder [trb] holds.2.1) ?_
  · rintro t t' ⟨inStep, enqueued, room⟩ step
    obtain ⟨-, same, more⟩ := consume_keeps step
    exact ⟨inStep.consume pos step, same.trans enqueued, by omega⟩
  rintro t ⟨inStep, enqueued, room⟩ r answer
  cases answer
  have stored := inStep.storeTrb pos room plain
  rcases succ_lap pos done.length with ⟨wraps, -, lap⟩ | ⟨inside, -, lap⟩
  · -- the last slot was filled, so the link is next
    rw [if_pos wraps]
    refine Program.robust_perform_bind
      (P := fun t => InStep (N - 1) base (done ++ [trb]) (done.length / (N - 1)) t ∧
        t.enqueued = done ++ [trb])
      ⟨stored, enqueued⟩ ?_ (fun t holds => holds.1.inOrder []
        (by rw [List.append_nil]; exact holds.2)) ?_
    · rintro t t' ⟨inStep, enqueued⟩ step
      exact ⟨inStep.consume pos step, (consume_keeps step).2.1.trans enqueued⟩
    rintro t ⟨inStep, enqueued⟩ r answer
    cases answer
    have linked := inStep.storeControl pos (by rw [count, lap])
    rw [count] at linked
    exact ⟨rfl, enqueued, linked⟩
  · rw [if_neg (Nat.ne_of_lt inside)]
    refine ⟨rfl, enqueued, ?_⟩
    rw [lap]
    exact stored

/-- Both kinds of rings enqueue in the same way. -/
theorem robust_object {env : History RingOp RingOp.Answer → Channel → Channel → Prop}
    {watch : History RingOp RingOp.Answer → Channel → Prop}
    {post : History RingOp RingOp.Answer → TrbRing → Channel → Prop} (object : RingObject)
    (robust : (object.fields.enqueue trb).Robust ringHandler env watch [] s post) :
    (object.enqueue trb).Robust ringHandler env watch [] s fun tr ring t => post tr ring.fields t := by
  cases object with
  | command ring =>
    refine (Program.robust_bind ..).mpr ((Program.robust_bind ..).mpr (robust.mono ?_))
    intro tr fields t holds
    exact holds
  | transfer ring =>
    refine (Program.robust_bind ..).mpr ((Program.robust_bind ..).mpr (robust.mono ?_))
    intro tr fields t holds
    exact holds

end Calls

/-! ### Whole runs -/

/-- Between calls the fields and the memory show what was enqueued. -/
structure Between (N base : Nat) (s : Channel) : Prop where
  fields : s.ring.fields = fieldsAt N base s.enqueued.length
  inStep : InStep (N - 1) base s.enqueued (s.enqueued.length / (N - 1)) s

variable {N base : Nat} {kind : RingKind} {s t : Channel}

theorem Between.consume (between : Between N base s) (two : 2 ≤ N) (step : s.consume = some t) :
    Between N base t := by
  obtain ⟨ring, enqueued, -⟩ := consume_keeps step
  constructor
  · rw [ring, enqueued]
    exact between.fields
  · rw [enqueued]
    exact between.inStep.consume (by omega) step

/-- The memory that the constructor and `init` leave. -/
def Channel.linked (N base : Nat) (ring : RingObject) : Channel :=
  (Channel.allocated ring).store (N - 1) (linkTrb base true)

/-- The parameter and then the control field of the last TRB are written. -/
theorem linked_eq (N base : Nat) (ring : RingObject) :
    ((Channel.allocated ring).store (N - 1) { Trb.zero with parameter := base }).store (N - 1)
      ((((Channel.allocated ring).store (N - 1) { Trb.zero with parameter := base }).trbs
        (N - 1)).withControl (linkControl true)) = Channel.linked N base ring := by
  simp only [Channel.store, Channel.linked, Function.update_self, Function.update_idem]
  rfl

theorem created_command (N base : Nat) :
    Channel.Created .command N base (.linked N base (.command ⟨⟨N, 0, base, true⟩⟩)) :=
  ⟨_, congrArg (fun s => some (RingObject.command ⟨⟨N, 0, base, true⟩⟩, s)) (linked_eq N base _)⟩

theorem Channel.Created.shape (created : Channel.Created kind N base s) :
    ∃ ring : RingObject, ring.fields = ⟨N, 0, base, true⟩ ∧ s = Channel.linked N base ring := by
  obtain ⟨ring, ran⟩ := created
  cases kind with
  | command =>
    obtain ⟨object, memory⟩ := Prod.mk.inj (Option.some.inj ran)
    refine ⟨ring, ?_, memory.symm.trans (linked_eq N base ring)⟩
    rw [← object]
    rfl
  | transfer doorbellId =>
    obtain ⟨object, memory⟩ := Prod.mk.inj (Option.some.inj ran)
    refine ⟨ring, ?_, memory.symm.trans (linked_eq N base ring)⟩
    rw [← object]
    rfl

theorem Channel.Created.command (created : Channel.Created .command N base s) :
    s = Channel.linked N base (.command ⟨⟨N, 0, base, true⟩⟩) := by
  obtain ⟨ring, ran⟩ := created
  obtain ⟨rfl, memory⟩ := Prod.mk.inj (Option.some.inj ran)
  exact memory.symm.trans (linked_eq N base _)

theorem Channel.Created.between (created : Channel.Created kind N base s) (two : 2 ≤ N) :
    Between N base s := by
  obtain ⟨ring, fields, rfl⟩ := created.shape
  have pos : 0 < N - 1 := by omega
  constructor
  · refine fields.trans ?_
    rw [fieldsAt, show (Channel.linked N base ring).enqueued.length = 0 from rfl, Nat.zero_mod,
      lapBit_of_lt pos]
  -- the segment is blank, so no entry has the cycle bit of a posted one
  · have none : (Channel.linked N base ring).enqueued = [] := rfl
    rw [none, List.length_nil, Nat.zero_div]
    constructor
    · refine Laps.empty fun index inside => ?_
      have blank : (Channel.linked N base ring).trbs index = .zero :=
        Function.update_of_ne (Nat.ne_of_lt inside) _ _
      rw [blank]
      rfl
    · intro trb member
      cases member
    · rfl
    · exact Nat.le_refl 0
    · exact Nat.zero_le _
    · exact Function.update_self ..
    · exact Nat.zero_le _
    · rw [List.length_nil, Nat.zero_div]
      exact Nat.zero_le _
    · left
      exact (cursor_zero _).symm

theorem ring_keeps (two : 2 ≤ N) (between : Between N base s) {x} (reached : channel.Reachable s x) :
    channel.Keeps (fun _ _ => InOrder N base) (Between N base) x := by
  refine Session.invariant ?_ (fun s t between step => between.consume two step) between reached
  rintro trb s t between ⟨plain, room, rfl⟩
  have max : s.ring.fields.maxTrbCount = N := congrArg TrbRing.maxTrbCount between.fields
  rw [max] at room
  -- the call starts with the TRB recorded as enqueued and not yet written
  have robust := robust_enqueue trb (s := { s with enqueued := s.enqueued ++ [trb] }) two
    { between.inStep with } rfl plain room
  rw [← between.fields] at robust
  refine (robust_object s.ring robust).mono ?_
  rintro - ring t ⟨fields, enqueued, inStep⟩
  have count : t.enqueued.length = s.enqueued.length + 1 := by
    rw [enqueued, List.length_append, List.length_singleton]
  constructor
  · show ring.fields = fieldsAt N base t.enqueued.length
    rw [count]
    exact fields
  · show InStep (N - 1) base t.enqueued (t.enqueued.length / (N - 1)) { t with ring := ring }
    rw [count, enqueued]
    exact { inStep with }

/-- The controller stands at the link, and every other slot holds a TRB it has not received. -/
def Channel.Blocked (N : Nat) (s : Channel) : Prop :=
  s.consumer.index = N - 1 ∧ s.enqueued.length = s.received.length + (N - 1)

theorem linkBit_div (M t : Nat) (pos : 0 < M) : linkBit ((t + M) / M) = lapBit M t := by
  rw [Nat.add_div_right t pos]
  rfl

/-- A controller that cannot go on has received everything or is blocked. -/
theorem Between.waiting (between : Between N base s) (two : 2 ≤ N) (waits : s.consume = none) :
    s.received.length = s.enqueued.length ∨ s.Blocked N := by
  have pos : 0 < N - 1 := by omega
  have inStep := between.inStep
  have foreign := consume_eq_none.mp waits
  rcases inStep.consumer with place | ⟨some, lap, place⟩
  · left
    rw [place] at foreign
    by_contra less
    have behind : s.received.length ≤ (s.enqueued.map Trb.body).length := by
      rw [List.length_map]
      exact inStep.behind
    have near : (s.enqueued.map Trb.body).length ≤ s.received.length + (N - 1) := by
      rw [List.length_map]
      exact inStep.near
    apply foreign
    refine (inStep.laps.tag_iff pos behind near).mpr ?_
    rw [List.length_map]
    exact Nat.lt_of_le_of_ne inStep.behind less
  · right
    refine ⟨by rw [place], ?_⟩
    rw [place, inStep.link] at foreign
    by_contra less
    have near := inStep.near
    have behind := inStep.behind
    -- the link was rewritten at the end of the lap that was received last
    apply foreign
    obtain ⟨before, back⟩ : ∃ before, s.received.length = before + (N - 1) := by
      refine ⟨s.received.length - (N - 1), ?_⟩
      have := Nat.le_of_dvd some (Nat.dvd_of_mod_eq_zero lap)
      omega
    have same : s.enqueued.length / (N - 1) = s.received.length / (N - 1) := by
      have laps := Nat.div_add_mod s.received.length (N - 1)
      rw [lap, Nat.add_zero] at laps
      apply Nat.div_eq_of_lt_le
      · rw [Nat.mul_comm, laps]
        exact behind
      · rw [Nat.add_mul, Nat.one_mul, Nat.mul_comm, laps]
        omega
    show linkBit _ = _
    rw [same, back, linkBit_div _ _ pos, lapBit_add _ _ pos, Bool.not_not]

/-- A blocked controller stays blocked, and the driver is not to enqueue. -/
theorem Between.blocked (between : Between N base s) (two : 2 ≤ N) (blocked : s.Blocked N)
    (y : Session.Conf RingOp RingOp.Answer Channel Trb fun _ => RingObject) :
    ¬channel.Step (.idle s) y := by
  have pos : 0 < N - 1 := by omega
  have inStep := between.inStep
  obtain ⟨index, full⟩ := blocked
  intro step
  cases step with
  | call entered =>
    have room := entered.2.1
    rw [show s.ring.fields.maxTrbCount = N from congrArg TrbRing.maxTrbCount between.fields] at room
    omega
  -- the controller stands at the link, which does not have the bit that it waits for
  | rest moved =>
    obtain ⟨own, -⟩ := consume_cases moved
    rcases inStep.consumer with place | ⟨-, -, place⟩
    · have inside := Nat.mod_lt s.received.length pos
      rw [place] at index
      exact (Nat.ne_of_lt inside index).elim
    · rw [place, inStep.link] at own
      change linkBit _ = _ at own
      rw [full, linkBit_div _ _ pos] at own
      cases bit : lapBit (N - 1) s.received.length <;> rw [bit] at own <;> cases own

/-- The controller receives what is enqueued, in order and each TRB once, and never runs out of
steps before it has everything, unless the slots were filled while it stood at the link. -/
theorem ring_delivers (two : 2 ≤ N) (created : Channel.Created kind N base s) {x}
    (reached : channel.Reachable s x) :
    channel.Everywhere (InOrder N base) x ∧
      ∀ t, x = .idle t →
        (t.consume = none → t.received.map Trb.body = t.enqueued.map Trb.body ∨ t.Blocked N) ∧
          (t.Blocked N → ∀ y, ¬channel.Step (.idle t) y) := by
  -- the safety part holds within calls as well, the rest between them
  have keeps := ring_keeps two (created.between two) reached
  constructor
  · exact keeps.everywhere
      (fun s between => between.inStep.inOrder [] (List.append_nil _).symm)
      (fun _ _ _ inOrder => inOrder)
  · rintro t rfl
    have between : Between N base t := keeps
    refine ⟨fun waits => ?_, fun blocked => between.blocked two blocked⟩
    rcases between.waiting two waits with all | blocked
    · left
      rw [between.inStep.received, all]
      exact List.take_of_length_le (Nat.le_of_eq (List.length_map _))
    · exact .inr blocked

/-! ### A ring of two TRBs -/

/-- A call that nothing interrupts. -/
def Channel.call (s : Channel) (trb : Trb) : Option Channel :=
  ((s.ring.enqueue trb).run ringHandler { s with enqueued := s.enqueued ++ [trb] }).map fun r =>
    { r.2 with ring := r.1 }

theorem steps_channelCall {trb : Trb} (called : s.call trb = some t) (plain : trb.trbType ≠ typeLink)
    (room : s.enqueued.length < s.received.length + (s.ring.fields.maxTrbCount - 1)) :
    ReflTransGen channel.Step (.idle s) (.idle t) := by
  obtain ⟨⟨ring, u⟩, ran, rfl⟩ := Option.map_eq_some_iff.mp called
  exact Session.steps_call (M := channel) ⟨plain, room, rfl⟩ ran

/-- A command without data. -/
def sampleTrb : Trb := { Trb.zero with trbType := 23 }

/-- A command ring of two TRBs as its constructor leaves it. -/
def smallRing : Channel := .linked 2 4096 (.command ⟨⟨2, 0, 4096, true⟩⟩)

def oneEnqueued : Channel := (smallRing.call sampleTrb).get rfl

def oneReceived : Channel := oneEnqueued.consume.get rfl

theorem reaches_oneReceived : channel.Reachable smallRing (.idle oneReceived) := by
  have called : ReflTransGen channel.Step (.idle smallRing) (.idle oneEnqueued) :=
    steps_channelCall (Option.some_get _).symm (by decide) (by decide)
  exact called.tail (.rest (Option.some_get _).symm)

theorem ring_delivers_oneReceived : InOrder 2 4096 oneReceived :=
  (ring_delivers (Nat.le_refl 2) (created_command 2 4096) reaches_oneReceived).1

def bothEnqueued : Channel := (oneReceived.call sampleTrb).get rfl

/-- The controller takes the first command and is slow to follow the link; the second command
then rewrites the cycle bit of the link, which the controller no longer takes for its own. -/
theorem ring_stalls : ¬∀ kind N base s t, 2 ≤ N → Channel.Created kind N base s →
    channel.Reachable s (.idle t) → t.consume = none →
      t.received.map Trb.body = t.enqueued.map Trb.body := by
  intro claimed
  have second : ReflTransGen channel.Step (.idle oneReceived) (.idle bothEnqueued) :=
    steps_channelCall (Option.some_get _).symm (by decide) (by decide)
  have all := claimed .command 2 4096 smallRing bothEnqueued (Nat.le_refl 2)
    (created_command 2 4096) (reaches_oneReceived.trans second) rfl
  exact absurd (congrArg List.length all) (by decide)

end KopalniaOS.Xhci
