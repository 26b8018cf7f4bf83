import KopalniaOS.Ahci.Completion

/-!
# Interrupt causes

The accesses of `on_interrupt` and of `clear_interrupt_errors` one at a time, with the adapter in
between. Clearing writes all ones, whatever was read before, so a cause that comes up after the read
goes with those that were read.
-/
namespace KopalniaOS.Ahci

open Library

/-! ### Runs -/

/-- The port, what is left of the handler and of a call that clears, and for the record the causes
that are set and that no handler has read yet, and those that were cleared like that. -/
structure CauseState where
  port : PortState
  handler : Option (PortProgram Unit)
  call : Option (PortProgram Unit)
  unseen : Register
  discarded : Register

/-- The adapter sets causes and changes its own registers, but nothing that belongs to the driver. -/
structure HbaTurn (s t : PortState) : Prop where
  status : ∀ i, s.status i = true → t.status i = true
  hasErrored : t.hasErrored = s.hasErrored
  received : t.hasReceivedCommandData = s.hasReceivedCommandData
  error : t.error = s.error
  interruptFlag : t.interruptFlag = s.interruptFlag
  log : t.log = s.log

/-- The record of an access: a read shows all causes that are set, and a write clears some. -/
def CauseState.observe (s : CauseState) : PortOp → CauseState
  | .readStatus => { s with unseen := fun i => s.unseen i && !s.port.status i }
  | .writeStatus w => { s with
      discarded := fun i => s.discarded i || (s.port.status i && w i && s.unseen i)
      unseen := fun i => s.unseen i && !w i }
  | _ => s

/-- Whether the rest of a handler writes the status before it reads it, when `has_errored` has this
value. -/
def WillClear {α : Type} : PortProgram α → Bool → Prop
  | .ret _, _ => False
  | .op (.writeStatus _) _, _ => True
  | .op .readStatus _, _ => False
  | .op .readHasErrored k, errored => WillClear (k errored) errored
  | .op (.writeHasErrored b) k, _ => WillClear (k ()) b
  | .op _ k, errored => ∃ r, WillClear (k r) errored
  | .stuck, _ => False

/-- A new cause, while the handler still has to clear what it has read. -/
def TooLate (s : CauseState) (t : PortState) : Prop :=
  (∃ i, t.status i = true ∧ s.port.status i = false) ∧
    ∃ p, s.handler = some p ∧ WillClear p s.port.hasErrored

/-- The handler can start between any two accesses of a call that clears, and runs to its end. If
things are careful, no cause comes too late, and a call only clears when no cause is set. -/
inductive CauseStep (num : Nat) (careful : Prop) : CauseState → CauseState → Prop where
  | hba {s port} : HbaTurn s.port port → (careful → ¬TooLate s port) →
      CauseStep num careful s { s with
        port := port
        unseen := fun i => s.unseen i || (port.status i && !s.port.status i) }
  | interrupt {s} : s.handler = none → s.port.interruptFlag = true →
      CauseStep num careful s { s with handler := some (onInterrupt num) }
  | handle {s o k r} : s.handler = some (.op o k) → portHandler o s.port = some r →
      CauseStep num careful s { s.observe o with port := r.2, handler := some (k r.1) }
  | iret {s} : s.handler = some (.ret ()) → CauseStep num careful s { s with handler := none }
  | call {s} : s.handler = none → s.call = none →
      CauseStep num careful s { s with call := some clearInterruptErrors }
  | clear {s o k r} : s.handler = none → s.call = some (.op o k) → portHandler o s.port = some r →
      (careful → ∀ w, o = .writeStatus w → ∀ i, s.port.status i = false) →
      CauseStep num careful s { s.observe o with port := r.2, call := some (k r.1) }
  | ret {s} : s.handler = none → s.call = some (.ret ()) →
      CauseStep num careful s { s with call := none }

/-- Every cause that was cleared had been read by a handler, and the others are still set. -/
def NothingLost (s : CauseState) : Prop :=
  (∀ i, s.discarded i = false) ∧ ∀ i, s.unseen i = true → s.port.status i = true

/-- Nothing is running, and nothing has been read or cleared yet. -/
structure AtRest (s : CauseState) : Prop where
  handler : s.handler = none
  call : s.call = none
  unseen : ∀ i, s.unseen i = s.port.status i
  discarded : ∀ i, s.discarded i = false

variable {num : Nat} {s t : CauseState}

/-! ### Careful runs -/

/-- While a handler still has to clear, it has read everything that is set. -/
structure Kept (s : CauseState) : Prop where
  lost : NothingLost s
  read : ∀ p, s.handler = some p → WillClear p s.port.hasErrored → ∀ i, s.unseen i = false

theorem observe_of_access {o : PortOp} (noRead : o ≠ .readStatus) (noWrite : ∀ w, o ≠ .writeStatus w) :
    s.observe o = s := by
  cases o with
  | readStatus => exact (noRead rfl).elim
  | writeStatus w => exact (noWrite w rfl).elim
  | _ => rfl

/-- What will be cleared after an access would have been cleared before it. -/
theorem willClear_of_access {o : PortOp} {k : o.Answer → PortProgram Unit} {s : PortState}
    {r : o.Answer × PortState} (answer : portHandler o s = some r) (noRead : o ≠ .readStatus)
    (later : WillClear (k r.1) r.2.hasErrored) : WillClear (.op o k) s.hasErrored := by
  -- `has_errored` is the only thing that what is left looks at
  cases o with
  | readStatus => exact (noRead rfl).elim
  | writeStatus w => trivial
  | readHasErrored =>
    cases answer
    exact later
  | writeHasErrored b =>
    cases answer
    exact later
  | _ =>
    cases answer
    exact ⟨_, later⟩

theorem NothingLost.access {o : PortOp} {r : o.Answer × PortState} (lost : NothingLost s)
    (answer : portHandler o s.port = some r)
    (write : ∀ w, o = .writeStatus w → ∀ i, s.unseen i = false) :
    (∀ i, (s.observe o).discarded i = false) ∧
      ∀ i, (s.observe o).unseen i = true → r.2.status i = true := by
  cases o with
  | readStatus =>
    cases answer
    refine ⟨lost.1, fun i unseen => lost.2 i ?_⟩
    exact (Bool.and_eq_true_iff.mp unseen).1
  | writeStatus w =>
    -- nothing unseen is set, so whatever is cleared had been read
    have all := write w rfl
    refine ⟨fun i => ?_, fun i unseen => ?_⟩
    · simp [CauseState.observe, lost.1 i, all i]
    · simp [CauseState.observe, all i] at unseen
  | _ =>
    cases answer
    exact lost

theorem Kept.step (kept : Kept s) (step : CauseStep num True s t) : Kept t := by
  cases step with
  | @hba port turn inTime =>
    refine ⟨⟨kept.lost.1, fun i unseen => ?_⟩, fun p running clears i => ?_⟩
    · rcases Bool.or_eq_true_iff.mp unseen with before | new
      · exact turn.status i (kept.lost.2 i before)
      · exact (Bool.and_eq_true_iff.mp new).1
    · have clears' : WillClear p s.port.hasErrored := turn.hasErrored ▸ clears
      -- nothing new has come up, and what was set had been read
      have old : (port.status i && !s.port.status i) = false := by
        by_contra new
        have set := Bool.and_eq_true_iff.mp (Bool.not_eq_false _ ▸ new)
        exact inTime trivial ⟨⟨i, set.1, by simpa using set.2⟩, p, running, clears'⟩
      dsimp only
      rw [old, kept.read p running clears' i]
      rfl
  | interrupt idle enabled =>
    -- a handler that has just started reads before it clears
    refine ⟨kept.lost, fun p running clears => ?_⟩
    cases running
    exact clears.elim
  | @handle o k r running answer =>
    have cleared (w : Register) (write : o = .writeStatus w) : ∀ i, s.unseen i = false := by
      subst write
      exact kept.read _ running trivial
    refine ⟨kept.lost.access answer cleared, fun p next clears => ?_⟩
    cases next
    by_cases read : o = .readStatus
    · -- reading is what makes everything seen
      subst read
      intro i
      have set := kept.lost.2 i
      dsimp only [CauseState.observe]
      cases unseen : s.unseen i with
      | false => rfl
      | true => rw [set unseen]; rfl
    · by_cases write : ∃ w, o = .writeStatus w
      · obtain ⟨w, rfl⟩ := write
        intro i
        simp [CauseState.observe, cleared w rfl i]
      · rw [not_exists] at write
        rw [observe_of_access read write]
        exact kept.read _ running (willClear_of_access answer read clears)
  | iret done => exact ⟨kept.lost, nofun⟩
  | call idle none =>
    refine ⟨kept.lost, fun p running => ?_⟩
    rw [idle] at running
    cases running
  | @clear o k r idle running answer empty =>
    -- what is unseen is still set, and the call only clears when nothing is
    have cleared (w : Register) (write : o = .writeStatus w) (i : Slot) : s.unseen i = false := by
      by_contra unseen
      have set := kept.lost.2 i (Bool.not_eq_false _ ▸ unseen)
      rw [empty trivial w write i] at set
      cases set
    refine ⟨kept.lost.access answer cleared, fun p next => ?_⟩
    have none : (s.observe o).handler = none := by
      cases o <;> exact idle
    rw [none] at next
    cases next
  | ret idle done =>
    refine ⟨kept.lost, fun p running => ?_⟩
    rw [idle] at running
    cases running

theorem AtRest.kept (rest : AtRest s) : Kept s := by
  refine ⟨⟨rest.discarded, fun i unseen => rest.unseen i ▸ unseen⟩, fun p running => ?_⟩
  rw [rest.handler] at running
  cases running

/-! ### Main results -/

/-- The port as `configure` leaves it. -/
def quietPort : CauseState where
  port := configuredPort
  handler := none
  call := none
  unseen := fun _ => false
  discarded := fun _ => false

theorem quietPort_atRest : AtRest quietPort :=
  ⟨rfl, rfl, fun _ => rfl, fun _ => rfl⟩

theorem step_handle {care : Prop} {o : PortOp} {k : o.Answer → PortProgram Unit}
    {r : o.Answer × PortState} {rest : PortProgram Unit} (running : s.handler = some (.op o k))
    (answer : portHandler o s.port = some r) (left : k r.1 = rest) :
    CauseStep num care s { s.observe o with port := r.2, handler := some rest } :=
  left ▸ .handle running answer

theorem raises (port : PortState) (cause : Slot) :
    HbaTurn port { port with status := Function.update port.status cause true } := by
  refine ⟨fun i set => ?_, rfl, rfl, rfl, rfl, rfl⟩
  dsimp only
  by_cases here : i = cause
  · subst here
    exact Function.update_self ..
  · rwa [Function.update_of_ne here]

/-- Data has been received. -/
def receivedPort : PortState :=
  { configuredPort with status := Function.update configuredPort.status 0 true }

/-- What is left of a handler that has read and cleared that. -/
def dataCleared : PortProgram Unit := do
  perform (.writeHasErrored false)
  perform (.writeReceived true)
  let errored ← perform .readHasErrored
  if errored then recover 1 else pure ()

/-- What is left of a handler that has only read it. -/
def dataRead : PortProgram Unit := do
  perform (.writeStatus fun _ => true)
  dataCleared

/-- The adapter sets a cause, and the handler reads it. -/
theorem reaches_dataRead (care : Prop) : Relation.ReflTransGen (CauseStep 1 care) quietPort
    { quietPort with port := receivedPort, handler := some dataRead } := by
  let u : CauseState := { quietPort with
    port := receivedPort
    unseen := fun i => quietPort.unseen i || (receivedPort.status i && !quietPort.port.status i) }
  let v : CauseState := { u with handler := some (onInterrupt 1) }
  have received : CauseStep 1 care quietPort u :=
    .hba (raises configuredPort 0) fun _ late => nomatch late.2
  have interrupted : CauseStep 1 care u v := .interrupt rfl rfl
  have read : CauseStep 1 care v { v.observe .readStatus with
      port := receivedPort, handler := some dataRead } :=
    step_handle (r := (receivedPort.status, receivedPort)) rfl rfl rfl
  -- what has been read is not unseen any more
  have seen : (v.observe .readStatus).unseen = quietPort.unseen := by
    funext i
    change (receivedPort.status i && !false && !receivedPort.status i) = false
    cases receivedPort.status i <;> rfl
  have same : { v.observe .readStatus with port := receivedPort, handler := some dataRead } =
      { quietPort with port := receivedPort, handler := some dataRead } :=
    congrArg (CauseState.mk receivedPort (some dataRead) none · quietPort.discarded) seen
  exact same ▸ ((Relation.ReflTransGen.single received).tail interrupted).tail read

/-- In a careful run every cause that is cleared has been read by a handler. -/
theorem causes_kept (num : Nat) (s t : CauseState) (rest : AtRest s)
    (run : Relation.ReflTransGen (CauseStep num True) s t) : NothingLost t := by
  have kept : Kept t := by
    induction run with
    | refl => exact rest.kept
    | tail _ step ih => exact ih.step step
  exact kept.lost

/-- A task file error that comes up between the read and the clear is cleared unseen. -/
theorem causes_lost : ¬∀ (num : Nat) (s t : CauseState), AtRest s →
    Relation.ReflTransGen (CauseStep num False) s t → NothingLost t := by
  intro kept
  let read : CauseState := { quietPort with port := receivedPort, handler := some dataRead }
  let failed : PortState :=
    { receivedPort with status := Function.update receivedPort.status 30 true }
  let late : CauseState := { read with
    port := failed
    unseen := fun i => read.unseen i || (failed.status i && !read.port.status i) }
  let cleared : CauseState := { late.observe (.writeStatus fun _ => true) with
    port := { failed with status := fun i => failed.status i && !true }
    handler := some dataCleared }
  -- the cause comes after the handler has read the status and before it clears it
  have raised : CauseStep 1 False read late := .hba (raises receivedPort 30) False.elim
  have clears : CauseStep 1 False late cleared :=
    step_handle (r := ((), cleared.port)) rfl rfl rfl
  have lost := kept 1 quietPort cleared quietPort_atRest
    (((reaches_dataRead False).tail raised).tail clears)
  have discarded : cleared.discarded 30 = true := rfl
  rw [lost.1 30] at discarded
  cases discarded

/-- The same error once the cause that was read has been cleared: it stays set. -/
theorem causes_kept_after : ∃ t, Relation.ReflTransGen (CauseStep 1 True) quietPort t ∧
    t.port.status 0 = false ∧ t.port.status 30 = true ∧ t.unseen 30 = true ∧ NothingLost t := by
  let read : CauseState := { quietPort with port := receivedPort, handler := some dataRead }
  let cleared : CauseState := { read.observe (.writeStatus fun _ => true) with
    port := { receivedPort with status := fun i => receivedPort.status i && !true }
    handler := some dataCleared }
  let failed : PortState :=
    { cleared.port with status := Function.update cleared.port.status 30 true }
  let raised : CauseState := { cleared with
    port := failed
    unseen := fun i => cleared.unseen i || (failed.status i && !cleared.port.status i) }
  have clears : CauseStep 1 True read cleared :=
    step_handle (r := ((), cleared.port)) rfl rfl rfl
  -- the handler has nothing more to clear
  have done : ¬WillClear dataCleared false := fun ⟨_, later⟩ => later
  have raises : CauseStep 1 True cleared raised := by
    refine .hba (raises cleared.port 30) fun _ late => ?_
    obtain ⟨-, p, running, clears⟩ := late
    cases running
    exact done clears
  have run := ((reaches_dataRead True).tail clears).tail raises
  exact ⟨raised, run, rfl, rfl, rfl, causes_kept 1 quietPort raised quietPort_atRest run⟩

end KopalniaOS.Ahci
