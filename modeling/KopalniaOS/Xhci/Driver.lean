import KopalniaOS.Xhci.EventDelivery
import KopalniaOS.Xhci.RingDelivery

/-!
# Commands and their completions

`_send_command_trb` puts a command into the command ring and waits until the interrupt handler
has seen a completion event. The handler `_process_events` runs between any two operations of
the waiting call, and the controller at any time.
-/
namespace KopalniaOS.Xhci

open Library

/-! ### The driver -/

/-- `m_command_completion_events` is reached by four operations, and `localEvents` is the vector
that `dequeue_events` has filled for `_process_events`. -/
inductive XhciOp where
  | command (o : RingOp)
  | event (o : EventOp)
  | writeDoorbell (doorbell target : Nat)
  | readIrqCompletion
  | writeIrqCompletion (value : Nat)
  | completionEventsSize
  | completionEventsFront
  | completionEventsPush (index : Nat)
  | completionEventsClear
  | localEvents
  | sleep (milliseconds : Nat)
  | log (text : String) (value : Nat)

abbrev XhciOp.Answer : XhciOp → Type
  | .command o => RingOp.Answer o
  | .event o => EventOp.Answer o
  | .readIrqCompletion => Nat
  | .completionEventsSize => Nat
  | .completionEventsFront => Nat
  | .localEvents => List Nat
  | _ => Unit

abbrev XhciProgram := Program XhciOp XhciOp.Answer

def perform (o : XhciOp) : XhciProgram o.Answer := Program.perform o

def onCommandRing {α : Type} (p : RingProgram α) : XhciProgram α :=
  p.interp fun o => perform (.command o)

def onEventRing {α : Type} (p : EventProgram α) : XhciProgram α :=
  p.interp fun o => perform (.event o)

/-- `XHCI_TRB_COMPLETION_CODE_SUCCESS` -/
def completionCodeSuccess : Nat := 1

/-- The waiting loop of `_send_command_trb`. -/
def awaitCompletion (timeout sleepPassed : Nat) : XhciProgram Unit := do
  let done ← perform .readIrqCompletion
  if done ≠ 0 then pure ()
  else do
    perform (.sleep 10)
    if timeout ≤ sleepPassed + 10 then perform (.log "Timeout" 0)
    else awaitCompletion timeout (sleepPassed + 10)
termination_by timeout - sleepPassed

/-- The TRB that is returned is an index into the event ring. -/
def sendCommandTrb (ring : CommandRing) (cmdTrb : Trb) (timeout : Nat) :
    XhciProgram (Option Nat × CommandRing) := do
  let ring ← onCommandRing (ring.enqueue cmdTrb)
  perform (.writeDoorbell 0 0)
  awaitCompletion timeout 0
  let size ← perform .completionEventsSize
  let completionTrb ← if size ≠ 0 then some <$> perform .completionEventsFront else pure none
  perform .completionEventsClear
  perform (.writeIrqCompletion 0)
  match completionTrb with
  | none => do
    perform (.log "Failed to find completion TRB for command %i" cmdTrb.trbType)
    pure (none, ring)
  | some index => do
    let trb ← onEventRing (loadTrb index)
    if trb.completionCode ≠ completionCodeSuccess then do
      let trb ← onEventRing (loadTrb index)
      perform (.log "Command TRB failed with error: %s" trb.completionCode)
      pure (none, ring)
    else pure (some index, ring)

/-- The switch of `_process_events`, over the events that were dequeued. -/
def dispatchEvents : List Nat → Nat → XhciProgram Nat
  | [], status => pure status
  | index :: rest, status => do
    let event ← onEventRing (loadTrb index)
    if event.trbType = typeCommandCompletionEvent then do
      perform (.completionEventsPush index)
      dispatchEvents rest 1
    else dispatchEvents rest status

/-- The ring has room for fewer events than it has TRBs, which bounds the loop. -/
def processEvents (ring : EventRing) : XhciProgram EventRing := do
  let more ← onEventRing ring.hasUnprocessedEvents
  let ring ← if more then onEventRing (ring.dequeueEvents ring.segmentTrbCount) else pure ring
  let events ← perform .localEvents
  let commandCompletionStatus ← dispatchEvents events 0
  perform (.writeIrqCompletion commandCompletionStatus)
  pure ring

/-! ### The driver, the controller and the rings -/

/-- `pending` are the addresses of the commands that were executed and not yet reported, and
`taken` is the event the current call has found. For each call that did not return null,
`returned` has the address its command was placed at and the event as it was on return. -/
structure XhciState where
  commands : Channel
  events : EventChannel
  pending : List Nat
  completionEvents : List Nat
  irqCompletion : Nat
  taken : Option Nat
  returned : List (Nat × Trb)

def XhciState.withCommands (s : XhciState) (commands : Channel) : XhciState :=
  { s with commands := commands }

def XhciState.withEvents (s : XhciState) (events : EventChannel) : XhciState :=
  { s with events := events }

/-- An empty vector has no front. -/
def xhciHandler : Handler XhciOp XhciOp.Answer XhciState
  | .command o, s => (ringHandler o s.commands).map fun r => (r.1, s.withCommands r.2)
  | .event o, s => (eventHandler o s.events).map fun r => (r.1, s.withEvents r.2)
  | .readIrqCompletion, s => some (s.irqCompletion, s)
  | .writeIrqCompletion value, s => some ((), { s with irqCompletion := value })
  | .completionEventsSize, s => some (s.completionEvents.length, s)
  | .completionEventsFront, s =>
    s.completionEvents.head?.map fun index => (index, { s with taken := some index })
  | .completionEventsPush index, s =>
    some ((), { s with completionEvents := s.completionEvents ++ [index] })
  | .completionEventsClear, s => some ((), { s with completionEvents := [] })
  | .localEvents, s => some (s.events.batch, s)
  | .writeDoorbell .., s => some ((), s)
  | .sleep _, s => some ((), s)
  | .log .., s => some ((), s)

/-- Where the controller or the driver has the TRB with this index of the command ring. -/
def XhciState.commandAddress (s : XhciState) (index : Nat) : Nat :=
  s.commands.ring.fields.physicalBase + sizeofTrb * index

/-- The command at the controller's index, unless it is the link. -/
def XhciState.executing (s : XhciState) : List Nat :=
  if (s.commands.trbs s.commands.consumer.index).trbType = typeLink then []
  else [s.commandAddress s.commands.consumer.index]

/-- The interrupt handler, which nothing interrupts. -/
def Interrupt (s t : XhciState) : Prop :=
  ∃ ring u, (processEvents s.events.ring).run xhciHandler
    (s.withEvents { s.events with batch := [] }) = some (ring, u) ∧
      t = u.withEvents { u.events with ring := ring }

/-- What goes on besides the calls: the controller takes commands in order, reports each once,
in order and at any later time, posts other events, and interrupts. An event is only posted in
states that satisfy `spared`. -/
inductive Environment (seg : Segment) (spared : XhciState → Prop) (s : XhciState) :
    XhciState → Prop where
  | execute {commands} : s.commands.consume = some commands →
      Environment seg spared s { s with commands := commands, pending := s.pending ++ s.executing }
  | complete {trb address rest events} : s.pending = address :: rest →
      trb.trbType = typeCommandCompletionEvent → trb.parameter = address → spared s →
      s.events.post seg trb = some events →
      Environment seg spared s { s with events := events, pending := rest }
  | other {trb events} : trb.trbType ≠ typeCommandCompletionEvent → spared s →
      s.events.post seg trb = some events → Environment seg spared s (s.withEvents events)
  | raise : Environment seg spared s (s.withEvents { s.events with ehb := true })
  | interrupt {t} : Interrupt s t → Environment seg spared s t

/-- A call of `_send_command_trb`. -/
structure Command where
  cmdTrb : Trb
  timeout : Nat

/-- What a call leaves: the ring's fields, and a record of what it returns. -/
def XhciState.returns (s : XhciState) : Option Nat × CommandRing → XhciState
  | (none, ring) => s.withCommands { s.commands with ring := .command ring }
  | (some index, ring) =>
    { s with
      commands := { s.commands with ring := .command ring }
      returned := s.returned ++
        [(s.commandAddress s.commands.ring.fields.enqueuePtr, s.events.trbs index)] }

/-- Calls one after the other, each started in a state that is `ready` for it. -/
def driver (seg : Segment) (ready : Trb → XhciState → Prop) (spared : XhciState → Prop) :
    Session XhciOp XhciOp.Answer XhciState Command fun _ => Option Nat × CommandRing where
  handler := xhciHandler
  enter c s t := ready c.cmdTrb s ∧
    t = { s with
      commands := { s.commands with enqueued := s.commands.enqueued ++ [c.cmdTrb] }
      taken := none }
  code c s :=
    match s.commands.ring with
    | .command ring => sendCommandTrb ring c.cmdTrb c.timeout
    | .transfer _ => .stuck
  leave _ result s := s.returns result
  busyEnv _ _ := Environment seg spared
  idleEnv := Environment seg spared

theorem driver_code {seg : Segment} {ready : Trb → XhciState → Prop} {spared : XhciState → Prop}
    {s : XhciState} {ring : CommandRing} (object : s.commands.ring = .command ring) (cmd : Trb)
    (timeout : Nat) :
    (driver seg ready spared).code ⟨cmd, timeout⟩ s = sendCommandTrb ring cmd timeout := by
  simp only [driver, object]

/-- The driver as `init_device` leaves it, with rings as their constructors do. -/
structure XhciState.Started (seg : Segment) (N base : Nat) (s : XhciState) : Prop where
  commands : s.commands.Created .command N base
  events : s.events.Created seg
  pending : s.pending = []
  completionEvents : s.completionEvents = []
  irqCompletion : s.irqCompletion = 0
  taken : s.taken = none
  returned : s.returned = []

end KopalniaOS.Xhci
