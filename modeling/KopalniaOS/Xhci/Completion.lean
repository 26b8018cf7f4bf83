import KopalniaOS.Xhci.Driver

/-!
# Which completion a command gets

A call of `_send_command_trb` takes the first completion event there is. It is the call's own
as long as no earlier command is still to be completed when the call starts, and as long as the
controller does not post over an event that the driver still points to.
-/
namespace KopalniaOS.Xhci

open Library Relation

/-! ### What a run has to respect -/

def isCompletion (trb : Trb) : Bool := trb.trbType == typeCommandCompletionEvent

/-- The addresses that the completion events among these carry. -/
def completions (trbs : List Trb) : List Nat := (trbs.filter isCompletion).map Trb.parameter

/-- A call starts with a TRB that is not a link, when all earlier commands were completed, the
handler has seen the events, and none of them is left over. -/
def Ready (cmdTrb : Trb) (s : XhciState) : Prop :=
  cmdTrb.trbType ≠ typeLink ∧
    (completions s.events.delivered).length = s.commands.enqueued.length ∧ s.completionEvents = []

/-- The controller does not post over a completion event that the driver still points to. -/
def Spared (s : XhciState) : Prop :=
  s.events.producer.index ∉ s.completionEvents ∧ s.taken ≠ some s.events.producer.index

@[simp] theorem completions_append (xs ys : List Trb) :
    completions (xs ++ ys) = completions xs ++ completions ys := by
  simp [completions]

theorem completions_singleton (trb : Trb) (type : trb.trbType = typeCommandCompletionEvent) :
    completions [trb] = [trb.parameter] := by
  simp [completions, isCompletion, type]

theorem completions_other (trb : Trb) (type : trb.trbType ≠ typeCommandCompletionEvent) :
    completions [trb] = [] := by
  simp [completions, isCompletion, type]

/-! ### The interrupt handler -/

section Handler

variable {seg : Segment} {s t : XhciState}

theorem run_onEventRing {α : Type} (p : EventProgram α) (s : XhciState) :
    (onEventRing p).run xhciHandler s =
      (p.run eventHandler s.events).map fun r => (r.1, s.withEvents r.2) :=
  Program.run_interp eventHandler XhciState.events XhciState.withEvents
    (fun _ => rfl) (fun _ _ => rfl) (fun _ _ _ => rfl)
    (fun o s => Program.run_perform xhciHandler (XhciOp.event o) s) p s

/-- What the handler appends for the events at these indices. -/
def XhciState.found (s : XhciState) (indices : List Nat) : List Nat :=
  indices.filter fun index => isCompletion (s.events.trbs index)

theorem run_dispatchEvents (indices : List Nat) (status : Nat) (s : XhciState) :
    (dispatchEvents indices status).run xhciHandler s =
      some (if s.found indices = [] then status else 1,
        { s with completionEvents := s.completionEvents ++ s.found indices }) := by
  induction indices generalizing status s with
  | nil => simp [dispatchEvents, XhciState.found]
  | cons index rest ih =>
    rw [dispatchEvents, Program.run_bind, run_onEventRing, loadTrb, Program.run_perform]
    simp only [eventHandler, Option.map_some, Option.bind_some]
    have same : s.withEvents s.events = s := rfl
    rw [same]
    -- only completions are kept, and each of them sets the status
    by_cases type : (s.events.trbs index).trbType = typeCommandCompletionEvent
    · have first : s.found (index :: rest) = index :: s.found rest := by
        simp [XhciState.found, isCompletion, type]
      have found : ({ s with completionEvents := s.completionEvents ++ [index] }).found rest =
          s.found rest := rfl
      rw [if_pos type, Program.run_bind, perform, Program.run_perform]
      simp only [xhciHandler, Option.bind_some, ih, found, first, ite_self, List.append_assoc,
        List.singleton_append, reduceCtorEq, if_false]
    · have skipped : s.found (index :: rest) = s.found rest := by
        simp [XhciState.found, isCompletion, type]
      rw [if_neg type, ih, skipped]

/-- The second half of the handler. -/
theorem run_dispatch (ring : EventRing) (s : XhciState) :
    (do
      let events ← perform .localEvents
      let commandCompletionStatus ← dispatchEvents events 0
      perform (.writeIrqCompletion commandCompletionStatus)
      .ret ring : XhciProgram EventRing).run xhciHandler s =
      some (ring, { s with
        completionEvents := s.completionEvents ++ s.found s.events.batch
        irqCompletion := if s.found s.events.batch = [] then 0 else 1 }) := by
  simp only [perform, Program.run_bind, Program.run_perform, xhciHandler, Option.bind_some,
    run_dispatchEvents, Program.run_ret]

/-- The handler delivers all events and keeps the completions among them. -/
theorem run_processEvents (settled : Settled seg s.events) (fresh : s.events.batch = []) :
    ∃ events status, (processEvents s.events.ring).run xhciHandler s =
        some (seg.ringAt s.events.posted.length,
          { s with
            events := events
            completionEvents := s.completionEvents ++
              s.found (seg.slots s.events.delivered.length s.events.posted.length)
            irqCompletion := status }) ∧
      Settled seg { events with ring := seg.ringAt s.events.posted.length } ∧
      events.posted = s.events.posted ∧ events.delivered = s.events.posted ∧
      events.trbs = s.events.trbs := by
  have follows := settled.follows
  have same : s.withEvents s.events = s := rfl
  rw [processEvents, Program.run_bind, run_onEventRing, EventRing.hasUnprocessedEvents,
    Program.run_bind, loadTrb, Program.run_perform, settled.ring]
  -- one cycle bit tells the handler whether there is anything to do
  by_cases more : s.events.delivered.length < s.events.posted.length
  · have own : (s.events.trbs (seg.ringAt s.events.delivered.length).dequeuePtr).cycleBit =
        (seg.ringAt s.events.delivered.length).rcsBit := follows.cycleBit_iff.mpr more
    obtain ⟨t, ran, shape⟩ := run_dequeueEvents follows seg.count (by
      have room := follows.room
      rw [settled.acknowledged] at room
      exact room)
    have bound : (seg.ringAt s.events.delivered.length).segmentTrbCount = seg.count := rfl
    have batch : t.batch = seg.slots s.events.delivered.length s.events.posted.length := by
      rw [shape, EventChannel.drained, fresh, List.nil_append]
    obtain ⟨tr, follows', ring, acked⟩ := (robust_dequeueEvents [] seg.count follows).alone ran
    simp only [eventHandler, Option.map_some, Option.bind_some, Program.pure_eq, Program.run_ret,
      own, beq_self_eq_true, if_true]
    rw [same, Program.run_bind, run_onEventRing, bound, ran, Option.map_some, Option.bind_some,
      run_dispatch]
    have found : (s.withEvents t).found t.batch =
        s.found (seg.slots s.events.delivered.length s.events.posted.length) := by
      rw [batch, shape]
      rfl
    refine ⟨t, if (s.withEvents t).found t.batch = [] then 0 else 1, ?_,
      ⟨{ follows' with }, ring, acked⟩, ?_⟩
    · rw [← found]
      rfl
    · rw [shape]
      exact ⟨rfl, rfl, rfl⟩
  · have foreign : (s.events.trbs (seg.ringAt s.events.delivered.length).dequeuePtr).cycleBit ≠
        (seg.ringAt s.events.delivered.length).rcsBit := fun own => more (follows.cycleBit_iff.mp own)
    have all : s.events.delivered.length = s.events.posted.length :=
      Nat.le_antisymm follows.behind (Nat.not_lt.mp more)
    have whole : s.events.delivered = s.events.posted := by
      rw [follows.delivered, all, List.take_length]
    simp only [eventHandler, Option.map_some, Option.bind_some, Program.pure_eq, Program.run_ret,
      beq_eq_false_iff_ne.mpr foreign, Bool.false_eq_true, if_false]
    rw [same, Program.ret_bind, run_dispatch, fresh, all, seg.slots_self]
    exact ⟨s.events, _, rfl, ⟨{ follows with }, by rw [all], settled.acknowledged⟩, rfl, whole, rfl⟩

end Handler

/-! ### Commands in order -/

/-- Where command number `count` is placed. -/
def slotAddress (N base count : Nat) : Nat := base + sizeofTrb * (count % (N - 1))

/-- The two rings, and in between: commands are reported in the order they were enqueued. -/
structure Ordered (seg : Segment) (N base count : Nat) (done : List Trb) (links : Nat)
    (s : XhciState) : Prop where
  commands : InStep (N - 1) base done links s.commands
  ring : s.commands.ring = .command ⟨fieldsAt N base count⟩
  events : Settled seg s.events
  order : completions s.events.posted ++ s.pending =
    (List.range s.commands.received.length).map (slotAddress N base)
  returned : ∀ r ∈ s.returned, r.2.parameter = r.1

/-- During a call, whose command has number `count`: all earlier commands were handled before,
and what the driver has found belongs to this one. -/
structure Calling (seg : Segment) (N base count : Nat) (done : List Trb) (links : Nat)
    (s : XhciState) : Prop extends Ordered seg N base count done links s where
  handled : count ≤ (completions s.events.delivered).length
  few : done.length ≤ count + 1
  found : ∀ index ∈ s.completionEvents, (s.events.trbs index).parameter = slotAddress N base count
  own : ∀ index, s.taken = some index → (s.events.trbs index).parameter = slotAddress N base count

section Steps

variable {seg : Segment} {N base count links : Nat} {done : List Trb} {s t : XhciState}
variable {spared : XhciState → Prop}

theorem Ordered.commandAddress (ordered : Ordered seg N base count done links s) (index : Nat) :
    s.commandAddress index = base + sizeofTrb * index := by
  unfold XhciState.commandAddress
  rw [ordered.ring]
  rfl

/-- The controller takes commands in order. -/
theorem Ordered.execute (ordered : Ordered seg N base count done links s) (two : 2 ≤ N)
    {commands : Channel} (step : s.commands.consume = some commands) :
    Ordered seg N base count done links
      { s with commands := commands, pending := s.pending ++ s.executing } := by
  have pos : 0 < N - 1 := by omega
  refine { ordered with commands := ordered.commands.consume pos step, ring := ?_, order := ?_ }
  · show commands.ring = _
    rw [(consume_keeps step).1]
    exact ordered.ring
  · show completions s.events.posted ++ (s.pending ++ s.executing) =
      (List.range commands.received.length).map _
    rw [← List.append_assoc, ordered.order]
    unfold XhciState.executing
    obtain ⟨-, ⟨link, rfl⟩ | ⟨plain, rfl⟩⟩ := consume_cases step
    · rw [if_pos link, List.append_nil]
    · -- the controller stands at the slot of the next command
      rw [if_neg plain, ordered.commandAddress, List.length_append, List.length_singleton,
        List.range_succ, List.map_append, List.map_singleton]
      rcases ordered.commands.consumer with place | ⟨-, -, place⟩
      · rw [place]
        rfl
      · rw [place, ordered.commands.link] at plain
        exact (plain rfl).elim

/-- A completion that was not handled before is the one of the current command. -/
theorem Calling.newCompletion (calling : Calling seg N base count done links s) {trb : Trb}
    (posted : trb ∈ s.events.posted.drop s.events.delivered.length) (type : isCompletion trb) :
    trb.parameter = slotAddress N base count := by
  have order := calling.order
  -- completions come in the order of the commands, so the place of one tells its address
  rw [← List.take_append_drop s.events.delivered.length s.events.posted, completions_append,
    ← calling.events.follows.delivered, List.append_assoc] at order
  have member : trb.parameter ∈
      completions (s.events.posted.drop s.events.delivered.length) ++ s.pending := by
    apply List.mem_append_left
    exact List.mem_map_of_mem (List.mem_filter.mpr ⟨posted, type⟩)
  obtain ⟨index, found⟩ := List.getElem?_of_mem member
  have whole := congrArg (·[(completions s.events.delivered).length + index]?) order
  simp only [List.getElem?_append_right (Nat.le_add_right _ _), Nat.add_sub_cancel_left] at whole
  rw [found, List.getElem?_map] at whole
  obtain ⟨number, here, address⟩ := Option.map_eq_some_iff.mp whole.symm
  obtain ⟨inside, rfl⟩ := List.getElem?_eq_some_iff.mp here
  rw [List.length_range] at inside
  rw [List.getElem_range] at address
  -- all commands before this one were handled, and there is none after it
  have behind := calling.commands.behind
  have handled := calling.handled
  have few := calling.few
  have only : (completions s.events.delivered).length + index = count := by omega
  rw [← address, only]

/-- What the handler does, between two operations of a call or between calls. -/
theorem interrupt_cases (settled : Settled seg s.events) (step : Interrupt s t) :
    ∃ events status, t = { s with
        events := events
        completionEvents := s.completionEvents ++
          s.found (seg.slots s.events.delivered.length s.events.posted.length)
        irqCompletion := status } ∧
      Settled seg events ∧ events.posted = s.events.posted ∧
        events.delivered = s.events.posted ∧ events.trbs = s.events.trbs := by
  obtain ⟨ring, u, ran, rfl⟩ := step
  have settled' : Settled seg (s.withEvents { s.events with batch := [] }).events :=
    ⟨{ settled.follows with }, settled.ring, settled.acknowledged⟩
  obtain ⟨events, status, ran', after, posted, delivered, trbs⟩ := run_processEvents settled' rfl
  obtain ⟨rfl, rfl⟩ := Prod.mk.inj (Option.some.inj (ran'.symm.trans ran))
  exact ⟨_, status, rfl, after, posted, delivered, trbs⟩

theorem Ordered.environment (ordered : Ordered seg N base count done links s) (two : 2 ≤ N)
    (step : Environment seg spared s t) : Ordered seg N base count done links t := by
  cases step with
  | execute consumed => exact ordered.execute two consumed
  | complete pending type address _ posted =>
    -- the address moves from those that are pending to those that were posted
    refine { ordered with events := ordered.events.controller (.post posted), order := ?_ }
    obtain ⟨-, rfl⟩ := post_cases posted
    have order := ordered.order
    rw [pending] at order
    rw [completions_append, completions_singleton (s.events.stamped _) type, ← order,
      List.append_assoc]
    exact congrArg (fun a => completions s.events.posted ++ ([a] ++ _)) address
  | other type _ posted =>
    refine { ordered with events := ordered.events.controller (.post posted), order := ?_ }
    obtain ⟨-, rfl⟩ := post_cases posted
    show completions (_ ++ [s.events.stamped _]) ++ _ = _
    rw [completions_append, completions_other (s.events.stamped _) type, List.append_nil]
    exact ordered.order
  | raise => exact { ordered with events := ordered.events.controller .interrupt }
  | interrupt handled =>
    obtain ⟨events, status, rfl, settled, posted, -, -⟩ := interrupt_cases ordered.events handled
    refine { ordered with events := settled, order := ?_ }
    show completions events.posted ++ _ = _
    rw [posted]
    exact ordered.order

/-- What the environment leaves alone. -/
theorem environment_keeps (settled : Settled seg s.events) (step : Environment seg spared s t) :
    t.taken = s.taken ∧ t.commands.enqueued = s.commands.enqueued ∧
      s.commands.received.length ≤ t.commands.received.length := by
  cases step with
  | execute consumed => exact ⟨rfl, (consume_keeps consumed).2⟩
  | complete => exact ⟨rfl, rfl, Nat.le_refl _⟩
  | other => exact ⟨rfl, rfl, Nat.le_refl _⟩
  | raise => exact ⟨rfl, rfl, Nat.le_refl _⟩
  | interrupt handled =>
    obtain ⟨events, status, rfl, -⟩ := interrupt_cases settled handled
    exact ⟨rfl, rfl, Nat.le_refl _⟩

/-- A post that spares what the driver points to. -/
theorem Calling.post (calling : Calling seg N base count done links s) {trb : Trb}
    {events : EventChannel} {pending : List Nat} (spares : Spared s)
    (posted : s.events.post seg trb = some events)
    (ordered : Ordered seg N base count done links { s with events := events, pending := pending }) :
    Calling seg N base count done links { s with events := events, pending := pending } := by
  obtain ⟨-, rfl⟩ := post_cases posted
  refine { ordered with handled := calling.handled, few := calling.few, found := ?_, own := ?_ }
  · intro index member
    have other : index ≠ s.events.producer.index := fun same => spares.1 (same ▸ member)
    show (Function.update s.events.trbs _ _ index).parameter = _
    rw [Function.update_of_ne other]
    exact calling.found index member
  · intro index taken
    have other : index ≠ s.events.producer.index := fun same => spares.2 (same ▸ taken)
    show (Function.update s.events.trbs _ _ index).parameter = _
    rw [Function.update_of_ne other]
    exact calling.own index taken

/-- What the handler finds during a call belongs to the call. -/
theorem Calling.newFound (calling : Calling seg N base count done links s) {index : Nat}
    (member : index ∈ s.found (seg.slots s.events.delivered.length s.events.posted.length)) :
    (s.events.trbs index).parameter = slotAddress N base count := by
  obtain ⟨slot, type⟩ := List.mem_filter.mp member
  obtain ⟨number, range, rfl⟩ := List.mem_map.mp slot
  rw [List.mem_range'_1] at range
  have room := calling.events.follows.room
  have acked := calling.events.follows.acknowledged
  have written : number < s.events.posted.length := by omega
  -- the slot still has its event, as the controller is less than a lap ahead of the handler
  have read : s.events.trbs (number % seg.count) = s.events.posted[number] :=
    calling.events.follows.laps.read (List.getElem?_eq_getElem written) (by omega)
  rw [read] at type ⊢
  refine calling.newCompletion ?_ type
  refine List.mem_of_getElem? (i := number - s.events.delivered.length) ?_
  rw [List.getElem?_drop, Nat.add_sub_cancel' range.1]
  exact List.getElem?_eq_getElem written

theorem Calling.environment (calling : Calling seg N base count done links s) (two : 2 ≤ N)
    (step : Environment seg Spared s t) : Calling seg N base count done links t := by
  have ordered := calling.toOrdered.environment two step
  cases step with
  | execute _ => exact { calling with toOrdered := ordered }
  | complete _ _ _ spares posted => exact calling.post spares posted ordered
  | other _ spares posted => exact calling.post spares posted ordered
  | raise => exact { calling with toOrdered := ordered }
  -- of all that happens only the handler delivers events, and it writes no TRB
  | interrupt handled =>
    obtain ⟨events, status, rfl, -, posted, delivered, trbs⟩ :=
      interrupt_cases calling.events handled
    refine { calling with toOrdered := ordered, handled := ?_, found := ?_, own := ?_ }
    · show count ≤ (completions events.delivered).length
      rw [delivered, ← List.take_append_drop s.events.delivered.length s.events.posted,
        completions_append, ← calling.events.follows.delivered, List.length_append]
      exact Nat.le_add_right_of_le calling.handled
    · intro index member
      show (events.trbs index).parameter = _
      rw [trbs]
      rcases List.mem_append.mp member with earlier | fresh
      · exact calling.found index earlier
      · exact calling.newFound fresh
    · intro index taken
      show (events.trbs index).parameter = _
      rw [trbs]
      exact calling.own index taken

end Steps

/-! ### One call -/

section Calls

variable {seg : Segment} {N base count : Nat} {done : List Trb} {cmd : Trb} {s t : XhciState}
variable {α : Type}

/-- The environment of a run in which every step meets its condition. -/
abbrev careful (seg : Segment) : History XhciOp XhciOp.Answer → XhciState → XhciState → Prop :=
  fun _ => Environment seg Spared

abbrev anywhere : History XhciOp XhciOp.Answer → XhciState → Prop := fun _ _ => True

/-- The command number `count` is in the ring, and the call waits for it. -/
def Waits (seg : Segment) (N base count : Nat) (s : XhciState) : Prop :=
  ∃ done, done.length = count + 1 ∧ s.commands.enqueued = done ∧
    Calling seg N base count done (done.length / (N - 1)) s

theorem waits_stable (two : 2 ≤ N) (s t : XhciState) (waits : Waits seg N base count s)
    (step : Environment seg Spared s t) : Waits seg N base count t := by
  obtain ⟨done, length, enqueued, calling⟩ := waits
  refine ⟨done, length, ?_, calling.environment two step⟩
  rw [(environment_keeps calling.events step).2.1]
  exact enqueued

/-- An operation that keeps what the environment keeps. -/
theorem robust_kept {P : XhciState → Prop} {tr : History XhciOp XhciOp.Answer} {o : XhciOp}
    {f : o.Answer → XhciProgram α} {post : History XhciOp XhciOp.Answer → α → XhciState → Prop}
    (stable : ∀ s t, P s → Environment seg Spared s t → P t) (holds : P s)
    (harmless : ∀ t r, P t → xhciHandler o t = some r → P r.2)
    (next : ∀ t r tr', P t → (f r).Robust xhciHandler (careful seg) anywhere tr' t post) :
    (perform o >>= f).Robust xhciHandler (careful seg) anywhere tr s post :=
  Program.robust_perform_bind holds stable (fun _ _ => trivial)
    fun t holds r answer => next r.2 r.1 _ (harmless t r holds answer)

/-- An operation that changes nothing. -/
theorem robust_silent {P : XhciState → Prop} {tr : History XhciOp XhciOp.Answer} {o : XhciOp}
    {f : o.Answer → XhciProgram α} {post : History XhciOp XhciOp.Answer → α → XhciState → Prop}
    (stable : ∀ s t, P s → Environment seg Spared s t → P t) (holds : P s)
    (silent : ∀ t r, xhciHandler o t = some r → r.2 = t)
    (next : ∀ t r tr', P t → (f r).Robust xhciHandler (careful seg) anywhere tr' t post) :
    (perform o >>= f).Robust xhciHandler (careful seg) anywhere tr s post :=
  robust_kept stable holds (fun t r holds answer => (silent t r answer).symm ▸ holds) next

theorem robust_awaitCompletion {tr : History XhciOp XhciOp.Answer}
    {f : Unit → XhciProgram α} {post : History XhciOp XhciOp.Answer → α → XhciState → Prop}
    (two : 2 ≤ N) (timeout passed left : Nat) (bound : timeout ≤ passed + left)
    (waits : Waits seg N base count s)
    (next : ∀ t tr', Waits seg N base count t →
      (f ()).Robust xhciHandler (careful seg) anywhere tr' t post) :
    (awaitCompletion timeout passed >>= f).Robust xhciHandler (careful seg) anywhere tr s post := by
  induction left using Nat.strongRecOn generalizing passed s tr with
  | ind left ih =>
    rw [awaitCompletion, bind_assoc]
    -- every look and every pause let the environment move, which keeps `waits`
    apply robust_silent (waits_stable two) waits (fun _ _ answer => by cases answer; rfl)
    intro t flag tr' waits
    split
    · exact next t tr' waits
    · rw [bind_assoc]
      apply robust_silent (waits_stable two) waits (fun _ _ answer => by cases answer; rfl)
      intro t _ tr' waits
      -- time is over when ten milliseconds more have passed
      split
      · apply robust_kept (waits_stable two) waits
        · rintro t r waits answer
          cases answer
          exact waits
        exact fun t _ tr' waits => next t tr' waits
      · exact ih (left - 10) (by omega) (passed + 10) (by omega) waits

/-- A call that has been entered: its command is still to be stored. -/
structure Enters (seg : Segment) (N base : Nat) (done : List Trb) (cmd : Trb) (s : XhciState) : Prop
    extends Calling seg N base done.length done (done.length / (N - 1)) s where
  enqueued : s.commands.enqueued = done ++ [cmd]
  room : done.length < s.commands.received.length + (N - 1)

/-- The command is stored, and the link is to be rewritten `links` times so far. -/
structure Stored (seg : Segment) (N base : Nat) (done : List Trb) (cmd : Trb) (links : Nat)
    (s : XhciState) : Prop
    extends Calling seg N base done.length (done ++ [cmd]) links s where
  enqueued : s.commands.enqueued = done ++ [cmd]

theorem Stored.waits (stored : Stored seg N base done cmd ((done.length + 1) / (N - 1)) s) :
    Waits seg N base done.length s := by
  have length : (done ++ [cmd]).length = done.length + 1 := by
    rw [List.length_append, List.length_singleton]
  refine ⟨done ++ [cmd], length, stored.enqueued, ?_⟩
  rw [length]
  exact stored.toCalling

theorem onCommandRing_enqueue (pos : 0 < N - 1) (base count : Nat) (cmd : Trb) :
    onCommandRing (CommandRing.enqueue ⟨fieldsAt N base count⟩ cmd) = (do
      perform (.command (.storeTrb (count % (N - 1)) { cmd with cycleBit := lapBit (N - 1) count }))
      if count % (N - 1) + 1 = N - 1 then do
        perform (.command (.storeControl (N - 1) (linkControl (lapBit (N - 1) count))))
        pure ⟨fieldsAt N base (count + 1)⟩
      else pure ⟨fieldsAt N base (count + 1)⟩) := by
  rw [CommandRing.enqueue, enqueue_fieldsAt pos]
  by_cases last : count % (N - 1) + 1 = N - 1
  · simp only [last, if_true]
    rfl
  · simp only [last, if_false]
    rfl

/-- Placing the command takes one store, or two when the lap ends. -/
theorem robust_placeCommand {post : History XhciOp XhciOp.Answer → α → XhciState → Prop}
    {f : CommandRing → XhciProgram α} (two : 2 ≤ N) (enters : Enters seg N base done cmd s)
    (plain : cmd.trbType ≠ typeLink)
    (next : ∀ t tr', Waits seg N base done.length t →
      (f ⟨fieldsAt N base (done.length + 1)⟩).Robust xhciHandler (careful seg) anywhere tr' t post) :
    (onCommandRing (CommandRing.enqueue ⟨fieldsAt N base done.length⟩ cmd) >>= f).Robust
      xhciHandler (careful seg) anywhere [] s post := by
  have pos : 0 < N - 1 := by omega
  have length : (done ++ [cmd]).length = done.length + 1 := by
    rw [List.length_append, List.length_singleton]
  rw [onCommandRing_enqueue pos, bind_assoc]
  refine Program.robust_perform_bind (P := Enters seg N base done cmd) enters ?_
    (fun _ _ => trivial) ?_
  · intro t t' enters step
    obtain ⟨-, enqueued, more⟩ := environment_keeps enters.events step
    exact ⟨enters.toCalling.environment two step, enqueued.trans enters.enqueued,
      Nat.lt_of_lt_of_le enters.room (Nat.add_le_add_right more _)⟩
  intro t enters r answer
  cases answer
  have stored : Stored seg N base done cmd (done.length / (N - 1)) (t.withCommands
      (t.commands.store (done.length % (N - 1)) { cmd with cycleBit := lapBit (N - 1) done.length })) :=
    ⟨{ enters.toCalling with
        commands := enters.commands.storeTrb pos enters.room plain
        few := Nat.le_of_eq length }, enters.enqueued⟩
  rcases succ_lap pos done.length with ⟨wraps, -, lap⟩ | ⟨inside, -, lap⟩
  · -- the command has filled the last slot, so the link is rewritten before the call goes on
    rw [if_pos wraps, bind_assoc]
    refine Program.robust_perform_bind (P := Stored seg N base done cmd (done.length / (N - 1)))
      stored ?_ (fun _ _ => trivial) ?_
    · intro t t' stored step
      exact ⟨stored.toCalling.environment two step,
        (environment_keeps stored.events step).2.1.trans stored.enqueued⟩
    intro t stored r answer
    cases answer
    apply next
    have linked := stored.commands.storeControl pos (by rw [length, lap])
    rw [length] at linked
    exact Stored.waits ⟨{ stored.toCalling with commands := linked }, stored.enqueued⟩
  · rw [if_neg (Nat.ne_of_lt inside)]
    apply next
    rw [← lap] at stored
    exact stored.waits

/-- Between calls the driver's fields show how many commands there were. -/
def Resting (seg : Segment) (N base : Nat) (s : XhciState) : Prop :=
  Ordered seg N base s.commands.enqueued.length s.commands.enqueued
    (s.commands.enqueued.length / (N - 1)) s

/-- What a call leaves when it returns null. -/
theorem Waits.returns_none (waits : Waits seg N base count s) :
    Resting seg N base (s.returns (none, ⟨fieldsAt N base (count + 1)⟩)) := by
  obtain ⟨done, length, enqueued, calling⟩ := waits
  show Ordered seg N base s.commands.enqueued.length s.commands.enqueued
    (s.commands.enqueued.length / (N - 1)) _
  rw [enqueued]
  refine { calling.toOrdered with commands := { calling.commands with }, ring := ?_ }
  rw [length]
  rfl

/-- What a call leaves when it returns the event that it has found. -/
theorem Waits.returns_some (waits : Waits seg N base count s) {index : Nat}
    (taken : s.taken = some index) :
    Resting seg N base (s.returns (some index, ⟨fieldsAt N base (count + 1)⟩)) := by
  have rests := waits.returns_none
  obtain ⟨done, length, enqueued, calling⟩ := waits
  refine { rests with returned := ?_ }
  intro r member
  rcases List.mem_append.mp member with earlier | last
  · exact calling.returned r earlier
  · rw [List.mem_singleton.mp last]
    show (s.events.trbs index).parameter = s.commandAddress s.commands.ring.fields.enqueuePtr
    rw [calling.own index taken, calling.commandAddress, calling.ring]
    rfl

/-- The call has found an event. -/
def Finds (seg : Segment) (N base count index : Nat) (s : XhciState) : Prop :=
  Waits seg N base count s ∧ s.taken = some index

theorem finds_stable (two : 2 ≤ N) {index : Nat} (s t : XhciState)
    (finds : Finds seg N base count index s) (step : Environment seg Spared s t) :
    Finds seg N base count index t := by
  refine ⟨waits_stable two s t finds.1 step, ?_⟩
  obtain ⟨done, -, -, calling⟩ := finds.1
  rw [(environment_keeps calling.events step).1]
  exact finds.2

/-- Forgetting the events that were found is harmless. -/
theorem Waits.clear (waits : Waits seg N base count s) :
    Waits seg N base count { s with completionEvents := [] } := by
  obtain ⟨done, length, enqueued, calling⟩ := waits
  refine ⟨done, length, enqueued, { calling with found := ?_ }⟩
  intro index member
  cases member

theorem Waits.setFlag (waits : Waits seg N base count s) (value : Nat) :
    Waits seg N base count { s with irqCompletion := value } := by
  obtain ⟨done, length, enqueued, calling⟩ := waits
  exact ⟨done, length, enqueued, { calling with }⟩

/-- The first event in the vector belongs to the call. -/
theorem Waits.front (waits : Waits seg N base count s) {index : Nat}
    (first : index ∈ s.completionEvents) :
    Finds seg N base count index { s with taken := some index } := by
  obtain ⟨done, length, enqueued, calling⟩ := waits
  refine ⟨⟨done, length, enqueued, { calling with own := ?_ }⟩, rfl⟩
  intro other same
  cases same
  exact calling.found index first

theorem robust_sendCommandTrb (two : 2 ≤ N) (enters : Enters seg N base done cmd s)
    (plain : cmd.trbType ≠ typeLink) (timeout : Nat) :
    (sendCommandTrb ⟨fieldsAt N base done.length⟩ cmd timeout).Robust xhciHandler (careful seg)
      anywhere [] s fun _ result t => Resting seg N base (t.returns result) := by
  rw [sendCommandTrb]
  apply robust_placeCommand two enters plain
  intro t tr waits
  apply robust_silent (waits_stable two) waits (fun _ _ answer => by cases answer; rfl)
  intro t _ tr waits
  apply robust_awaitCompletion two timeout 0 timeout (by omega) waits
  intro t tr waits
  apply robust_silent (waits_stable two) waits (fun _ _ answer => by cases answer; rfl)
  intro t size tr waits
  -- whatever ended the waiting, only the vector decides
  by_cases nonempty : size ≠ 0
  · rw [if_pos nonempty, map_eq_pure_bind, bind_assoc]
    refine Program.robust_perform_bind waits (waits_stable two) (fun _ _ => trivial) ?_
    intro t waits r answer
    obtain ⟨index, first, rfl⟩ := Option.map_eq_some_iff.mp answer
    have finds := waits.front (List.mem_of_head? first)
    -- from here on the event stays, although the vector is emptied
    apply robust_kept (finds_stable two) finds
    · rintro t r finds answer
      cases answer
      exact ⟨finds.1.clear, finds.2⟩
    intro t _ tr finds
    apply robust_kept (finds_stable two) finds
    · rintro t r finds answer
      cases answer
      exact ⟨finds.1.setFlag 0, finds.2⟩
    intro t _ tr finds
    apply robust_silent (o := .event (.loadTrb index)) (finds_stable two) finds
      (fun _ _ answer => by cases answer; rfl)
    intro t trb tr finds
    split
    · apply robust_silent (o := .event (.loadTrb index)) (finds_stable two) finds
        (fun _ _ answer => by cases answer; rfl)
      intro t trb tr finds
      apply robust_silent (finds_stable two) finds (fun _ _ answer => by cases answer; rfl)
      exact fun t _ tr finds => finds.1.returns_none
    · exact finds.1.returns_some finds.2
  · rw [if_neg nonempty]
    apply robust_kept (waits_stable two) waits
    · rintro t r waits answer
      cases answer
      exact waits.clear
    intro t _ tr waits
    apply robust_kept (waits_stable two) waits
    · rintro t r waits answer
      cases answer
      exact waits.setFlag 0
    intro t _ tr waits
    apply robust_silent (waits_stable two) waits (fun _ _ answer => by cases answer; rfl)
    exact fun t _ tr waits => waits.returns_none

end Calls

/-! ### Whole runs -/

variable {seg : Segment} {N base : Nat} {s : XhciState}

theorem XhciState.Started.resting (started : s.Started seg N base) (two : 2 ≤ N) :
    Resting seg N base s := by
  -- nothing has been enqueued yet, so there is nothing to report and nobody to answer
  have between := started.commands.between two
  have shape := started.commands.command
  have none : s.commands.enqueued = [] := by
    rw [shape]
    rfl
  have blank : s.commands.received = [] := by
    rw [shape]
    rfl
  constructor
  · exact between.inStep
  · have fields := between.fields
    rw [shape] at fields ⊢
    exact congrArg (fun fields => RingObject.command ⟨fields⟩) fields
  · exact started.events.settled
  · rw [started.events.posted, started.pending, blank]
    rfl
  · rw [started.returned]
    intro r member
    cases member

/-- What a call may start with, once it is entered. -/
theorem Resting.enters (rests : Resting seg N base s) (two : 2 ≤ N) {cmd : Trb}
    (ready : Ready cmd s) :
    Enters seg N base s.commands.enqueued cmd { s with
      commands := { s.commands with enqueued := s.commands.enqueued ++ [cmd] }
      taken := none } := by
  obtain ⟨-, handled, empty⟩ := ready
  -- what was handled was executed before
  have executed : s.commands.enqueued.length ≤ s.commands.received.length := by
    have order := congrArg List.length rests.order
    rw [List.length_append, List.length_map, List.length_range] at order
    have split := congrArg (fun l => (completions l).length)
      (List.take_append_drop s.events.delivered.length s.events.posted)
    simp only [completions_append, List.length_append, ← rests.events.follows.delivered] at split
    omega
  have nothing : ∀ index ∈ s.completionEvents,
      (s.events.trbs index).parameter = slotAddress N base s.commands.enqueued.length := by
    rw [empty]
    intro index member
    cases member
  constructor
  · exact { rests with
      commands := { rests.commands with }
      handled := Nat.le_of_eq handled.symm
      few := Nat.le_succ _
      found := nothing
      own := fun index taken => by cases taken }
  · rfl
  · show s.commands.enqueued.length < s.commands.received.length + (N - 1)
    omega

theorem driver_keeps (two : 2 ≤ N) (rests : Resting seg N base s) {x}
    (reached : (driver seg Ready Spared).Reachable s x) :
    (driver seg Ready Spared).Keeps (fun _ => anywhere) (Resting seg N base) x := by
  refine Session.invariant ?_ (fun s t rests step => ?_) rests reached
  · rintro ⟨cmd, timeout⟩ s t rests ⟨ready, rfl⟩
    have robust := robust_sendCommandTrb two (rests.enters two ready) ready.1 timeout
    -- the ring between two calls is the one that the number of commands determines
    have code : (driver seg Ready Spared).code ⟨cmd, timeout⟩ { s with
        commands := { s.commands with enqueued := s.commands.enqueued ++ [cmd] }
        taken := none } =
        sendCommandTrb ⟨fieldsAt N base s.commands.enqueued.length⟩ cmd timeout :=
      driver_code (by exact rests.ring) cmd timeout
    unfold Session.Keeps
    rw [code]
    exact robust
  · have ordered := Ordered.environment rests two step
    have enqueued := (environment_keeps rests.events step).2.1
    unfold Resting
    rw [enqueued]
    exact ordered

/-- In every run in which each step meets its condition, a call that does not return null
returns an event with the address of the slot that the call placed its command in. -/
theorem completion_belongs (two : 2 ≤ N) (started : s.Started seg N base) {t : XhciState}
    (reached : (driver seg Ready Spared).Reachable s (.idle t)) :
    ∀ r ∈ t.returned, r.2.parameter = r.1 := by
  have rests : Resting seg N base t := driver_keeps two (started.resting two) reached
  exact rests.returned

/-! ### A completion that comes late -/

theorem run_awaitCompletion (timeout passed left : Nat) (bound : timeout ≤ passed + left)
    (s : XhciState) : (awaitCompletion timeout passed).run xhciHandler s = some ((), s) := by
  induction left using Nat.strongRecOn generalizing passed with
  | ind left ih =>
    rw [awaitCompletion]
    simp only [perform, Program.run_bind, Program.run_perform, xhciHandler, Option.bind_some]
    split
    · rfl
    · simp only [Program.run_bind, Program.run_perform, xhciHandler, Option.bind_some]
      split
      · rfl
      · exact ih (left - 10) (by omega) (passed + 10) (by omega)

/-- What a call that nothing interrupts makes of the state its command was placed in: it takes
the first completion event there is, whatever command that belongs to. -/
def XhciState.concluded (s : XhciState) (ring : CommandRing) :
    (Option Nat × CommandRing) × XhciState :=
  match s.completionEvents with
  | [] => ((none, ring), { s with irqCompletion := 0 })
  | index :: _ =>
    (if (s.events.trbs index).completionCode ≠ completionCodeSuccess then (none, ring)
      else (some index, ring),
      { s with completionEvents := [], irqCompletion := 0, taken := some index })

/-- The call after its command was placed, which begins with the doorbell. -/
theorem sendCommandTrb_split (ring : CommandRing) (cmd : Trb) (timeout : Nat) :
    ∃ rest : CommandRing → Unit → XhciProgram (Option Nat × CommandRing),
      sendCommandTrb ring cmd timeout = (onCommandRing (ring.enqueue cmd) >>= fun ring =>
        perform (.writeDoorbell 0 0) >>= rest ring) ∧
      ∀ ring s, (perform (.writeDoorbell 0 0) >>= rest ring).run xhciHandler s =
        some (s.concluded ring) := by
  refine ⟨_, rfl, fun ring s => ?_⟩
  -- whatever the completions are, the rest of the call returns
  simp only [perform, Program.run_bind, Program.run_perform, xhciHandler, Option.bind_some,
    run_awaitCompletion timeout 0 timeout (by omega)]
  unfold XhciState.concluded
  cases found : s.completionEvents with
  | nil =>
    rw [if_neg (by simp)]
    simp [xhciHandler]
  | cons index rest =>
    rw [if_pos (by simp)]
    simp only [map_eq_pure_bind, Program.run_bind, Program.run_perform, xhciHandler, found,
      List.head?_cons, Option.map_some, Option.bind_some, Program.pure_eq, Program.run_ret,
      run_onEventRing, loadTrb, eventHandler]
    split
    · simp only [Program.run_bind, Program.run_perform, xhciHandler, Option.map_some,
        Option.bind_some, Program.run_ret, run_onEventRing, eventHandler]
      rfl
    · rfl

/-- A call that is interrupted only once its command is placed. -/
theorem steps_interruptedCall {ready : Trb → XhciState → Prop} {spared : XhciState → Prop}
    {s t u : XhciState} {ring placed : CommandRing} {cmd : Trb} (timeout : Nat)
    (object : s.commands.ring = .command ring) (allowed : ready cmd s)
    (places : (onCommandRing (ring.enqueue cmd)).run xhciHandler { s with
      commands := { s.commands with enqueued := s.commands.enqueued ++ [cmd] }
      taken := none } = some (placed, t))
    (meanwhile : ReflTransGen (Environment seg spared) t u) :
    ReflTransGen (driver seg ready spared).Step (.idle s)
      (.idle ((u.concluded placed).2.returns (u.concluded placed).1)) := by
  obtain ⟨rest, split, concludes⟩ := sendCommandTrb_split ring cmd timeout
  have called : (driver seg ready spared).Step (.idle s)
      (.busy ⟨cmd, timeout⟩ [] (sendCommandTrb ring cmd timeout) { s with
        commands := { s.commands with enqueued := s.commands.enqueued ++ [cmd] }
        taken := none }) := by
    have entered := Session.Step.call (M := driver seg ready spared) (c := ⟨cmd, timeout⟩)
      ⟨allowed, rfl⟩
    have code : (driver seg ready spared).code ⟨cmd, timeout⟩ { s with
        commands := { s.commands with enqueued := s.commands.enqueued ++ [cmd] }
        taken := none } = sendCommandTrb ring cmd timeout := driver_code (by exact object) cmd timeout
    rw [code] at entered
    exact entered
  -- The call runs to its doorbell, stands there while the environment moves, and runs to its end from
  -- wherever that led.
  rw [split] at called
  obtain ⟨tr, stored⟩ := Session.steps_of_run_bind (M := driver seg ready spared)
    (c := ⟨cmd, timeout⟩) (f := fun ring => perform (.writeDoorbell 0 0) >>= rest ring) places []
  have waited : ReflTransGen (driver seg ready spared).Step
      (.busy ⟨cmd, timeout⟩ tr (perform (.writeDoorbell 0 0) >>= rest placed) t)
      (.busy ⟨cmd, timeout⟩ tr (perform (.writeDoorbell 0 0) >>= rest placed) u) :=
    meanwhile.lift (Session.Conf.busy _ tr _) fun _ _ moved => .interrupt moved
  obtain ⟨tr', finished⟩ := Session.steps_of_run (M := driver seg ready spared)
    (c := ⟨cmd, timeout⟩) (concludes placed u) tr
  exact ((stored.head called).trans (waited.trans finished)).tail .ret

/-- A call that nothing interrupts. -/
def XhciState.call (s : XhciState) (cmd : Trb) : Option XhciState :=
  match s.commands.ring with
  | .command ring =>
    ((onCommandRing (ring.enqueue cmd)).run xhciHandler { s with
      commands := { s.commands with enqueued := s.commands.enqueued ++ [cmd] }
      taken := none }).map fun r => (r.2.concluded r.1).2.returns (r.2.concluded r.1).1
  | .transfer _ => none

/-- A run in which nothing is respected. -/
abbrev anyRun (seg : Segment) : Session XhciOp XhciOp.Answer XhciState Command
    fun _ => Option Nat × CommandRing :=
  driver seg (fun _ _ => True) fun _ => True

theorem steps_driverCall {s t : XhciState} {cmd : Trb} (timeout : Nat) (called : s.call cmd = some t) :
    ReflTransGen (anyRun seg).Step (.idle s) (.idle t) := by
  unfold XhciState.call at called
  split at called
  · rename_i ring object
    obtain ⟨r, places, rfl⟩ := Option.map_eq_some_iff.mp called
    exact steps_interruptedCall timeout object trivial places .refl
  · cases called

/-- The controller executes a command and reports it with this event, and the handler runs. -/
def XhciState.served (s : XhciState) (seg : Segment) (trb : Trb) : Option XhciState := do
  let commands ← s.commands.consume
  let events ← s.events.post seg trb
  let r ← (processEvents events.ring).run xhciHandler
    { s with commands := commands, events := { events with batch := [] }, pending := [] }
  some (r.2.withEvents { r.2.events with ring := r.1 })

theorem steps_served {spared : XhciState → Prop} {s t : XhciState} {trb : Trb}
    (type : trb.trbType = typeCommandCompletionEvent)
    (address : s.pending ++ s.executing = [trb.parameter])
    (spares : ∀ commands pending, spared { s with commands := commands, pending := pending })
    (served : s.served seg trb = some t) : ReflTransGen (Environment seg spared) s t := by
  unfold XhciState.served at served
  obtain ⟨commands, consumed, served⟩ := Option.bind_eq_some_iff.mp served
  obtain ⟨events, posted, served⟩ := Option.bind_eq_some_iff.mp served
  obtain ⟨⟨ring, u⟩, ran, final⟩ := Option.bind_eq_some_iff.mp served
  -- the command is executed, then reported, and then the interrupt is handled
  have executed : Environment seg spared s
      { s with commands := commands, pending := s.pending ++ s.executing } := .execute consumed
  have reported : Environment seg spared
      { s with commands := commands, pending := s.pending ++ s.executing }
      { s with commands := commands, events := events, pending := [] } :=
    .complete address type rfl (spares _ _) posted
  have handled : Interrupt { s with commands := commands, events := events, pending := [] } t :=
    ⟨ring, u, ran, (Option.some.inj final).symm⟩
  exact ((ReflTransGen.single executed).tail reported).tail (.interrupt handled)

def eventSegment : Segment := ⟨8192, 256, by decide, by decide, by decide⟩

/-- Rings of 256 TRBs, as the driver has them. -/
def driverStart : XhciState where
  commands := .linked 256 4096 (.command ⟨⟨256, 0, 4096, true⟩⟩)
  events :=
    { ring := ⟨256, 8192, 0, true⟩, trbs := fun _ => .zero, producer := ⟨0, true⟩, erdp := 8192,
      ehb := false, batch := [], posted := [], delivered := [], acknowledged := 0 }
  pending := []
  completionEvents := []
  irqCompletion := 0
  taken := none
  returned := []

theorem started_driverStart : driverStart.Started eventSegment 256 4096 where
  commands := created_command 256 4096
  events := ⟨⟨256, 8192, 0, true⟩, 16384, rfl⟩
  pending := rfl
  completionEvents := rfl
  irqCompletion := rfl
  taken := rfl
  returned := rfl

/-- The command that `_enable_device_slot` sends. -/
def enableSlotTrb : Trb := { Trb.zero with trbType := 9 }

/-- The completion of the first command: success, for slot 1. -/
def firstCompletion : Trb :=
  { parameter := 4096, status := 2 ^ 24, cycleBit := false, rsvd := 0,
    trbType := typeCommandCompletionEvent, rsvd1 := 256 }

/-- The command is served while the call waits. -/
def firstPlaced : CommandRing × XhciState :=
  ((onCommandRing (CommandRing.enqueue ⟨⟨256, 0, 4096, true⟩⟩ enableSlotTrb)).run xhciHandler
    { driverStart with
      commands := { driverStart.commands with enqueued := [enableSlotTrb] } }).get rfl

def firstServed : XhciState := (firstPlaced.2.served eventSegment firstCompletion).get rfl

def firstReturned : XhciState :=
  (firstServed.concluded firstPlaced.1).2.returns (firstServed.concluded firstPlaced.1).1

theorem completion_belongs_firstReturned : firstReturned.returned ≠ [] ∧
    ∀ r ∈ firstReturned.returned, r.2.parameter = r.1 := by
  refine ⟨by decide, completion_belongs (by decide) started_driverStart ?_⟩
  have served : ReflTransGen (Environment eventSegment Spared) firstPlaced.2 firstServed :=
    steps_served rfl rfl (fun _ _ => ⟨List.not_mem_nil, nofun⟩) (Option.some_get _).symm
  exact steps_interruptedCall 200 rfl ⟨by decide, rfl, rfl⟩ rfl served

/-- The command is served after the call has timed out. -/
def firstTimedOut : XhciState := (driverStart.call enableSlotTrb).get rfl

def servedLate : XhciState := (firstTimedOut.served eventSegment firstCompletion).get rfl

def secondReturned : XhciState := (servedLate.call enableSlotTrb).get rfl

/-- The first call times out before its command is executed; the second one takes the completion
that is there when it is called. -/
theorem completion_comes_late : ¬∀ seg N base s t, 2 ≤ N → XhciState.Started seg N base s →
    (anyRun seg).Reachable s (.idle t) → ∀ r ∈ t.returned, r.2.parameter = r.1 := by
  intro claimed
  have timedOut : ReflTransGen (anyRun eventSegment).Step (.idle driverStart) (.idle firstTimedOut) :=
    steps_driverCall 200 (Option.some_get _).symm
  have served : ReflTransGen (Environment eventSegment fun _ => True) firstTimedOut servedLate :=
    steps_served rfl rfl (fun _ _ => trivial) (Option.some_get _).symm
  have between : ReflTransGen (anyRun eventSegment).Step (.idle firstTimedOut) (.idle servedLate) :=
    served.lift Session.Conf.idle fun _ _ moved => .rest moved
  have returned : ReflTransGen (anyRun eventSegment).Step (.idle servedLate) (.idle secondReturned) :=
    steps_driverCall 200 (Option.some_get _).symm
  have belongs := claimed eventSegment 256 4096 driverStart secondReturned (by decide)
    started_driverStart ((timedOut.trans between).trans returned)
  exact absurd (belongs (4112, { firstCompletion with cycleBit := true }) (by decide)) (by decide)

end KopalniaOS.Xhci
