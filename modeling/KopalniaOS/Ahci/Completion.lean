import KopalniaOS.Ahci.Assertions

/-!
# What `issue_command` reports

In a careful run every true is for a command that completed and every false on account of
the error flag for one that failed. The operations of the call lead from one assertion to the
next. Without care the handler can make the poller report both wrongly.
-/
namespace KopalniaOS.Ahci

open Library Relation

variable {num : Nat} {s t : PortState} {slot : Slot} {tr : History PortOp PortOp.Answer}

/-! ### The call -/

/-- Careful runs. -/
abbrev careful (num : Nat) : Session PortOp PortOp.Answer PortState Slot fun _ => Outcome :=
  session num True

/-- An assertion that the adapter and the handler keep is kept while a call is in progress. -/
theorem busy_kept {P : PortState → Prop} (hba : ∀ s t, P s → HbaStep s t → P t)
    (handled : ∀ s, P s → P (s.handled num)) (t t' : PortState) (holds : P t)
    (moved : (careful num).busyEnv slot tr t t') : P t' := by
  rcases moved with step | ⟨interrupt, -⟩
  · exact hba t t' holds step
  · exact interrupt_eq interrupt ▸ handled t holds

/-- A program that the environment cannot mislead. -/
abbrev Robust {α : Type} (num : Nat) (slot : Slot) (tr : History PortOp PortOp.Answer)
    (p : PortProgram α) (s : PortState)
    (post : History PortOp PortOp.Answer → α → PortState → Prop) : Prop :=
  p.Robust portHandler ((careful num).busyEnv slot) (fun _ _ => True) tr s post

theorem robust_waitForPort (count : Nat) (before : Unissued slot s) :
    Robust num slot tr (waitForPort count) s fun _ _ t => Unissued slot t := by
  have kept {tr : History PortOp PortOp.Answer} := @busy_kept num slot tr (Unissued slot)
    (fun _ _ before step => before.hba step) (fun _ before => before.handled)
  -- the induction is on the polls that are left
  induction count generalizing s tr with
  | zero =>
    refine Program.robust_perform_bind before kept (fun _ _ => trivial) ?_
    intro t holds r answer
    cases answer
    exact holds
  | succ count ih =>
    refine Program.robust_perform_bind before kept (fun _ _ => trivial) ?_
    intro t holds r answer
    cases answer
    dsimp only
    split
    · exact ih holds
    · exact holds

/-- What holds when the poller is done. -/
def Ends (slot : Slot) : Outcome → PortState → Prop
  | .completed, s => Completed slot s
  | .failed, s => Failed slot s
  | _, s => Good s

theorem Ends.good {outcome : Outcome} (ends : Ends slot outcome s) : Good s := by
  cases outcome with
  | completed => exact Completed.good ends
  | failed => exact Failed.good ends
  | timedOut => exact ends
  | hung => exact ends

/-- What holds between the calls does not look at the flags the code keeps in memory, nor at the
interrupt flag. -/
theorem Good.flags (good : Good s) (flag received : Bool) (error : Slot → Bool) :
    Good { s with interruptFlag := flag, hasReceivedCommandData := received, error := error } :=
  ⟨⟨good.sound.issued, good.sound.fatal, good.sound.stopped⟩, good.honest⟩

/-- A slot that is not issued and shows no error has completed. -/
theorem Quiet.completed (quiet : Quiet slot s) (free : s.issue slot = false) :
    Completed slot s := by
  refine ⟨quiet.polled.good, free, ?_⟩
  cases fate : s.fate slot with
  | completed => rfl
  | pending =>
    have issued := quiet.polled.live fate
    rw [free] at issued
    cases issued
  | failed =>
    rcases quiet.polled.lost fate with flagged | ⟨halted, rfl⟩
    · rw [quiet.clear] at flagged
      cases flagged
    · -- a failure that the handler has not seen leaves the slot issued
      have issued := (quiet.polled.good.sound.stopped halted).1
      rw [free] at issued
      cases issued

/-- The last two steps of the poller when it gives up. -/
theorem robust_giveUp {P : PortState → Prop} {text : String} {outcome : Outcome} (holds : P s)
    (kept : ∀ tr t t', P t → (careful num).busyEnv slot tr t t' → P t')
    (ends : ∀ t, P t → Ends slot outcome { t with error := Function.update t.error slot false }) :
    Robust num slot tr (do
      perform (.log text)
      perform (.writeError slot false)
      pure outcome) s fun _ outcome t => Ends slot outcome t := by
  refine Program.robust_perform_bind holds (kept _) (fun _ _ => trivial) ?_
  intro t held r answer
  cases answer
  refine Program.robust_perform_bind held (kept _) (fun _ _ => trivial) ?_
  intro t held r answer
  cases answer
  exact ends t held

theorem robust_waitForPortCompletion (inRange : slot.val < num) (count : Nat)
    (polled : Polled slot s) :
    Robust num slot tr (waitForPortCompletion slot count) s fun _ outcome t =>
      Ends slot outcome t := by
  have polledKept (tr : History PortOp PortOp.Answer) := @busy_kept num slot tr (Polled slot)
    (fun _ _ polled step => polled.hba step) (fun _ polled => polled.handled inRange)
  have failedKept (tr : History PortOp PortOp.Answer) := @busy_kept num slot tr (Failed slot)
    (fun _ _ failed step => failed.hba step) (fun _ failed => failed.handled)
  induction count generalizing s tr with
  | zero => exact robust_giveUp polled polledKept fun t held => held.good.flags _ _ _
  | succ count ih =>
    refine Program.robust_perform_bind polled (polledKept _) (fun _ _ => trivial) ?_
    intro t held r answer
    cases answer
    dsimp only
    split
    · next flagged =>
      exact robust_giveUp ⟨held.good, held.flagged flagged⟩ failedKept fun t held =>
        ⟨held.good.flags _ _ _, held.failed⟩
    · next clear =>
      -- no recovery of the slot comes in here, so the flag is still clear at the next read
      have unset : t.error slot = false := by simpa using clear
      have quiet : Quiet slot t := ⟨held, unset⟩
      refine Program.robust_perform_bind quiet ?_ (fun _ _ => trivial) ?_
      · rintro t t' quiet (step | ⟨interrupt, apart⟩)
        · exact quiet.hba step
        · rw [interrupt_eq interrupt]
          exact quiet.handled inRange fun recovers => apart trivial ⟨⟨rfl, unset⟩, recovers⟩
      · intro t quiet r answer
        cases answer
        dsimp only
        split
        · next free => exact quiet.completed free
        · exact ih quiet.polled

theorem robust_awaitData (count : Nat) (done : Completed slot s) :
    Robust num slot tr (awaitData count) s fun _ _ t => Completed slot t := by
  have kept {tr : History PortOp PortOp.Answer} := @busy_kept num slot tr (Completed slot)
    (fun _ _ done step => done.hba step) (fun _ done => done.handled)
  have set (t : PortState) (b : Bool) (done : Completed slot t) :
      Completed slot { t with hasReceivedCommandData := b } :=
    ⟨done.good.flags _ _ _, done.free, done.done⟩
  -- the command is completed already, and waiting for its data does not change that
  induction count generalizing s tr with
  | zero => exact done
  | succ count ih =>
    refine Program.robust_perform_bind done kept (fun _ _ => trivial) ?_
    intro t held r answer
    cases answer
    dsimp only
    split
    · refine Program.robust_perform_bind held kept (fun _ _ => trivial) ?_
      intro t held r answer
      cases answer
      exact set t false held
    · exact ih held

/-- Issuing a free slot without an error flag starts the polling. -/
theorem Unissued.issued (before : Unissued slot s) : Polled slot (s.issued (bit slot)) := by
  have mine : (s.issued (bit slot)).fate slot = .pending := by
    simp [PortState.issued, bit, before.free]
  have others {i : Slot} (other : i ≠ slot) :
      (s.issued (bit slot)).fate i = s.fate i ∧ (s.issued (bit slot)).issue i = s.issue i := by
    simp [PortState.issued, bit, other]
  have there : (s.issued (bit slot)).issue slot = true := by simp [PortState.issued, bit]
  refine ⟨⟨⟨fun i issued => ?_, before.good.sound.fatal, fun halted => ?_⟩, before.good.honest⟩,
    fun _ => there, fun flagged => ?_, fun failed => ?_⟩
  · by_cases here : i = slot
    · exact .inl (here ▸ mine)
    · rw [(others here).1]
      exact before.good.sound.issued i ((others here).2 ▸ issued)
  · -- a slot that is not issued is not the one that halted the adapter
    have stopped := before.good.sound.stopped halted
    have other : s.current ≠ slot := by
      rintro rfl
      rw [before.free] at stopped
      cases stopped.1
    exact ⟨(others other).2.trans stopped.1, (others other).1.trans stopped.2⟩
  · have clear : (s.issued (bit slot)).error slot = false := before.clear
    rw [clear] at flagged
    cases flagged
  · rw [mine] at failed
    cases failed

theorem Unissued.setInterruptFlag (before : Unissued slot s) (b : Bool) :
    Unissued slot { s with interruptFlag := b } :=
  ⟨before.good.flags _ _ _, before.free, before.clear⟩

theorem Polled.setInterruptFlag (polled : Polled slot s) (b : Bool) :
    Polled slot { s with interruptFlag := b } :=
  ⟨polled.good.flags _ _ _, polled.live, polled.flagged, polled.lost⟩

theorem robust_issueCommand (inRange : slot.val < num) (before : Unissued slot s) :
    Robust num slot tr (issueCommand slot) s fun _ outcome t => Ends slot outcome t := by
  have unissuedKept {tr : History PortOp PortOp.Answer} := @busy_kept num slot tr (Unissued slot)
    (fun _ _ before step => before.hba step) (fun _ before => before.handled)
  have polledKept {tr : History PortOp PortOp.Answer} := @busy_kept num slot tr (Polled slot)
    (fun _ _ polled step => polled.hba step) (fun _ polled => polled.handled inRange)
  -- Across interrupts the slot stays unissued up to the store to the command register, and polled for
  -- after it.
  refine (Program.robust_bind ..).mpr ((robust_waitForPort portPolls before).mono ?_)
  intro tr ready s before
  split
  · exact before.good
  · refine Program.robust_perform_bind before unissuedKept (fun _ _ => trivial) ?_
    intro t before r answer
    cases answer
    refine Program.robust_perform_bind (before.setInterruptFlag false) unissuedKept
      (fun _ _ => trivial) ?_
    intro t before r answer
    cases answer
    refine Program.robust_perform_bind before.issued polledKept (fun _ _ => trivial) ?_
    intro t polled r answer
    cases answer
    refine (Program.robust_bind ..).mpr
      ((robust_waitForPortCompletion inRange completionPolls (polled.setInterruptFlag true)).mono ?_)
    intro tr outcome t ends
    split
    · exact ends
    · next completed =>
      obtain rfl : outcome = .completed := by simpa using completed
      refine (Program.robust_bind ..).mpr ((robust_awaitData dataPolls ends).mono ?_)
      intro tr _ t done
      exact done

/-! ### Runs -/

theorem Configured.good (configured : Configured s) : Good s := by
  refine ⟨⟨fun i issued => ?_, fun fatal => ?_, fun halted => ?_⟩, fun r logged => ?_⟩
  · rw [configured.issue i] at issued
    cases issued
  · obtain ⟨cause, -, set⟩ := fatalStatus_iff.mp fatal
    rw [configured.status cause] at set
    cases set
  · rw [configured.halted] at halted
    cases halted
  · rw [configured.log] at logged
    cases logged

theorem getCommandSlot_spec (found : getCommandSlot num s = some slot) :
    slot.val < num ∧ s.issue slot = false := by
  have free := List.find?_some found
  have listed := List.mem_of_find?_eq_some found
  refine ⟨mem_slots.mp listed, ?_⟩
  simp only [Bool.not_eq_true', Bool.or_eq_false_iff] at free
  exact free.2

/-- A report of how a call ended is honest. -/
theorem Ends.reported {outcome : Outcome} (ends : Ends slot outcome s) :
    Good { s with log := ⟨slot, outcome, s.fate slot⟩ :: s.log } := by
  have good := ends.good
  refine ⟨⟨good.sound.issued, good.sound.fatal, good.sound.stopped⟩, fun r logged => ?_⟩
  rcases List.mem_cons.mp logged with rfl | earlier
  · cases outcome with
    | completed => exact ⟨fun _ => Completed.done ends, nofun⟩
    | failed => exact ⟨nofun, fun _ => Failed.failed ends⟩
    | timedOut => exact ⟨nofun, nofun⟩
    | hung => exact ⟨nofun, nofun⟩
  · exact good.honest r earlier

theorem good_run (configured : Configured s) {x : Session.Conf PortOp PortOp.Answer PortState Slot
    fun _ => Outcome} (reached : (careful num).Reachable s x) :
    (careful num).Keeps (fun _ _ _ => True) Good x := by
  refine Session.invariant ?_ ?_ configured.good reached
  · rintro slot s t good ⟨found, clear, rfl⟩
    obtain ⟨inRange, free⟩ := getCommandSlot_spec found
    exact (robust_issueCommand inRange ⟨good, free, clear trivial⟩).mono fun _ _ _ ends =>
      ends.reported
  · rintro s t good (step | interrupt | cleared)
    · exact good.hba step
    · exact interrupt_eq interrupt ▸ good.handled
    · rw [run_clearInterruptErrors] at cleared
      cases cleared
      exact ⟨good.sound.cleared, good.honest⟩

/-! ### Single commands -/

variable (num) (care : Prop)

/-- The rest of `issue_command` once the poller has returned. -/
def afterPolling (outcome : Outcome) : PortProgram Outcome :=
  if outcome ≠ .completed then pure outcome
  else do
    awaitData dataPolls
    pure .completed

/-- The rest of `issue_command` once the port is ready. -/
def afterReady (slot : Slot) (ready : Bool) : PortProgram Outcome :=
  if ready = false then pure .hung
  else do
    perform (.setInterruptFlag false)
    perform (.writeIssue (bit slot))
    perform (.setInterruptFlag true)
    let outcome ← waitForPortCompletion slot completionPolls
    afterPolling outcome

/-- The second read of a round. -/
def checkIssue (slot : Slot) (count : Nat) : PortProgram Outcome := do
  let issue ← perform .readIssue
  if issue slot = false then pure .completed
  else waitForPortCompletion slot count

/-- Waiting for data only costs time. -/
theorem run_awaitData (count : Nat) : ∃ b, (awaitData count).run portHandler s =
    some ((), { s with hasReceivedCommandData := b }) := by
  induction count with
  | zero => exact ⟨s.hasReceivedCommandData, rfl⟩
  | succ count ih =>
    have read : (perform .readReceived).run portHandler s =
        some (s.hasReceivedCommandData, s) := rfl
    rw [awaitData, Program.run_bind, read, Option.bind_some]
    cases s.hasReceivedCommandData with
    | false => exact ih
    | true => exact ⟨false, rfl⟩

/-- Alone, a call issues its command and starts to poll. -/
theorem steps_issue (slot : Slot) (idle : s.busy = false) (tr : History PortOp PortOp.Answer) :
    ∃ tr', ReflTransGen (session num care).Step (.busy slot tr (issueCommand slot) s)
      (.busy slot tr' (waitForPortCompletion slot completionPolls >>= afterPolling)
        { s.issued (bit slot) with interruptFlag := true }) := by
  have ready : (waitForPort portPolls).run portHandler s = some (true, s) :=
    run_waitForPort (portPolls - 1) idle
  obtain ⟨tr', steps⟩ := Session.steps_of_run_bind (M := session num care) (c := slot)
    (f := afterReady slot) ready tr
  have issues : (do
      perform (.setInterruptFlag false)
      perform (.writeIssue (bit slot))
      perform (.setInterruptFlag true) : PortProgram Unit).run portHandler s =
        some ((), { s.issued (bit slot) with interruptFlag := true }) := rfl
  obtain ⟨tr', more⟩ := Session.steps_of_run_bind (M := session num care) (c := slot)
    (f := fun _ => waitForPortCompletion slot completionPolls >>= afterPolling) issues tr'
  exact ⟨tr', steps.trans more⟩

/-- The first read of a round finds the error flag clear. -/
theorem step_clear (count : Nat) (clear : s.error slot = false)
    (tr : History PortOp PortOp.Answer) :
    (session num care).Step
      (.busy slot tr (waitForPortCompletion slot (count + 1) >>= afterPolling) s)
      (.busy slot (⟨.readError slot, false⟩ :: tr) (checkIssue slot count >>= afterPolling) s) := by
  have read : portHandler (.readError slot) s = some (false, s) := by
    rw [← clear]
    rfl
  exact Session.step_perform (M := session num care) (c := slot) (o := .readError slot)
    (f := fun error => (if error then do
        perform (.log "&4Command failed.")
        perform (.writeError slot false)
        pure .failed
      else checkIssue slot count) >>= afterPolling) tr read

/-- The second read finds that the slot is not issued any more. -/
theorem steps_completed (count : Nat) (free : s.issue slot = false)
    (tr : History PortOp PortOp.Answer) :
    ∃ t, ReflTransGen (session num care).Step
      (.busy slot tr (checkIssue slot count >>= afterPolling) s) (.idle t) ∧
      ∃ b, t = { s with
        hasReceivedCommandData := b
        log := ⟨slot, .completed, s.fate slot⟩ :: s.log } := by
  -- the slot is found free at the first look
  have read : (checkIssue slot count).run portHandler s = some (.completed, s) := by
    change (if s.issue slot = false then pure .completed
      else waitForPortCompletion slot count : PortProgram Outcome).run portHandler s = _
    rw [if_pos free]
    rfl
  obtain ⟨b, awaited⟩ := run_awaitData (s := s) dataPolls
  have alone : (checkIssue slot count >>= afterPolling).run portHandler s =
      some (.completed, { s with hasReceivedCommandData := b }) := by
    rw [Program.run_bind, read, Option.bind_some, afterPolling, if_neg (by simp),
      Program.run_bind, awaited]
    rfl
  obtain ⟨tr', steps⟩ := Session.steps_of_run (M := session num care) (c := slot) alone tr
  exact ⟨_, steps.tail .ret, b, rfl⟩

/-- The first read finds an error. -/
theorem steps_failed (count : Nat) (flagged : s.error slot = true)
    (tr : History PortOp PortOp.Answer) :
    ReflTransGen (session num care).Step
      (.busy slot tr (waitForPortCompletion slot (count + 1) >>= afterPolling) s)
      (.idle { s with
        error := Function.update s.error slot false
        log := ⟨slot, .failed, s.fate slot⟩ :: s.log }) := by
  have read : (perform (.readError slot)).run portHandler s = some (true, s) := by
    rw [← flagged]
    rfl
  have alone : (waitForPortCompletion slot (count + 1) >>= afterPolling).run portHandler s =
      some (.failed, { s with error := Function.update s.error slot false }) := by
    rw [waitForPortCompletion, Program.run_bind, Program.run_bind, read]
    rfl
  obtain ⟨tr', steps⟩ := Session.steps_of_run (M := session num care) (c := slot) alone tr
  exact steps.tail .ret

/-- What the environment can do between the two reads. -/
theorem step_between (count : Nat) (moved : (session num care).busyEnv slot tr s t) :
    (session num care).Step (.busy slot tr (checkIssue slot count >>= afterPolling) s)
      (.busy slot tr (checkIssue slot count >>= afterPolling) t) :=
  Session.step_interrupt (M := session num care) (c := slot) (o := .readIssue)
    (f := fun issue => (if issue slot = false then pure .completed
      else waitForPortCompletion slot count : PortProgram Outcome) >>= afterPolling) moved

/-- The adapter can work on a command. -/
structure Ready (s : PortState) : Prop where
  idle : s.busy = false
  running : s.running = true
  going : s.halted = false

/-- A command has been issued and the first read is done. -/
theorem steps_polling (found : getCommandSlot num s = some slot) (clear : s.error slot = false)
    (idle : s.busy = false) : ∃ tr count, ReflTransGen (session num care).Step (.idle s)
      (.busy slot (⟨.readError slot, false⟩ :: tr) (checkIssue slot count >>= afterPolling)
        { s.issued (bit slot) with interruptFlag := true }) := by
  have entered : (session num care).Step (.idle s) (.busy slot [] (issueCommand slot) s) :=
    .call ⟨found, fun _ => clear, rfl⟩
  obtain ⟨tr, issues⟩ := steps_issue num care slot idle []
  have reads := step_clear num care (completionPolls - 1)
    (s := { s.issued (bit slot) with interruptFlag := true }) clear tr
  exact ⟨tr, _, (ReflTransGen.head entered issues).tail reads⟩

theorem issued_bit : (s.issued (bit slot)).issue slot = true := by
  simp [PortState.issued, bit]

/-- The adapter completes the command between the two reads of the first round. -/
theorem reaches_completed (found : getCommandSlot num s = some slot)
    (clear : s.error slot = false) (ready : Ready s) :
    ∃ t, ReflTransGen (session num care).Step (.idle s) (.idle t) ∧
      t.log = ⟨slot, .completed, .completed⟩ :: s.log := by
  obtain ⟨tr, count, polling⟩ := steps_polling num care found clear ready.idle
  let u := { s.issued (bit slot) with interruptFlag := true }
  let v := { u with
    issue := Function.update u.issue slot false
    fate := Function.update u.fate slot .completed }
  have completed : HbaStep u v := .complete ready.running ready.going issued_bit
  have free : v.issue slot = false := Function.update_self ..
  have done : v.fate slot = .completed := Function.update_self ..
  obtain ⟨t, rest, b, rfl⟩ := steps_completed num care count free
    (⟨.readError slot, false⟩ :: tr)
  refine ⟨_, (polling.tail (step_between num care count (.inl completed))).trans rest, ?_⟩
  rw [done]
  rfl

/-- The adapter fails the command between the two reads, and the handler gets in before the
second one. -/
theorem reaches_raced (found : getCommandSlot num s = some slot) (clear : s.error slot = false)
    (ready : Ready s) :
    ∃ t, ReflTransGen (session num False).Step (.idle s) (.idle t) ∧
      t.log = ⟨slot, .completed, .failed⟩ :: s.log ∧ t.error slot = true ∧
      t.issue slot = false ∧ t.sact = s.sact ∧ t.busy = s.busy := by
  obtain ⟨tr, count, polling⟩ := steps_polling num False found clear ready.idle
  let u := { s.issued (bit slot) with interruptFlag := true }
  let v := { u with
    status := Function.update u.status 30 true
    current := slot
    halted := true
    fate := Function.update u.fate slot .failed }
  let w := { v with
    status := fun _ => false
    hasReceivedCommandData := v.hasReceivedCommandData || v.status 0
    hasErrored := false
    running := true
    halted := false
    issue := again num v.issue slot
    fate := fun i => if again num v.issue slot i then .pending else v.fate i
    error := Function.update v.error slot true }
  have failed : HbaStep u v := .fail ready.running ready.going issued_bit (by decide)
  have fatal : fatalStatus v.status = true := rfl
  have recovers : v.handled num = w := by rw [PortState.handled, if_pos fatal]
  have taken : Interrupt num v w := ⟨rfl, recovers ▸ run_onInterrupt⟩
  -- the slot that failed is not issued again, and looks as if it had completed
  have free : w.issue slot = false := by simp [w, again]
  have fate : w.fate slot = .failed := by simp [w, v, again]
  obtain ⟨t, rest, b, rfl⟩ := steps_completed num False count free
    (⟨.readError slot, false⟩ :: tr)
  have moves := (polling.tail (step_between num False count (.inl failed))).tail
    (step_between num False count (.inr ⟨taken, False.elim⟩))
  refine ⟨_, moves.trans rest, ?_, Function.update_self .., free, rfl, rfl⟩
  rw [fate]
  rfl

/-- An error flag that is left over from an earlier command. -/
theorem reaches_stale (found : getCommandSlot num s = some slot) (flagged : s.error slot = true)
    (idle : s.busy = false) :
    ∃ t, ReflTransGen (session num False).Step (.idle s) (.idle t) ∧
      t.log = ⟨slot, .failed, .pending⟩ :: s.log := by
  have entered : (session num False).Step (.idle s) (.busy slot [] (issueCommand slot) s) :=
    .call ⟨found, False.elim, rfl⟩
  obtain ⟨tr, issues⟩ := steps_issue num False slot idle []
  have fails := steps_failed num False (completionPolls - 1)
    (s := { s.issued (bit slot) with interruptFlag := true }) flagged tr
  refine ⟨_, (ReflTransGen.head entered issues).trans fails, ?_⟩
  simp [PortState.issued, bit, (getCommandSlot_spec found).2]

def configuredPort : PortState where
  status := fun _ => false
  issue := fun _ => false
  sact := fun _ => false
  current := 0
  busy := false
  running := true
  halted := false
  interruptFlag := true
  error := fun _ => false
  hasErrored := false
  hasReceivedCommandData := false
  fate := fun _ => .pending
  log := []

theorem configuredPort_configured : Configured configuredPort :=
  ⟨fun _ => rfl, fun _ => rfl, fun _ => rfl, rfl, rfl⟩

/-- A command that failed is reported as completed, and the next one on its slot as failed. -/
theorem reaches_both : ∃ t, (session 1 False).Reachable configuredPort (.idle t) ∧
    t.log = [⟨0, .failed, .pending⟩, ⟨0, .completed, .failed⟩] := by
  have found : getCommandSlot 1 configuredPort = some 0 := rfl
  obtain ⟨s, first, logged, flagged, free, sact, idle⟩ :=
    reaches_raced 1 found rfl ⟨rfl, rfl, rfl⟩
  have again : getCommandSlot 1 s = some 0 := by
    -- the recovery has freed the slot, and left its error flag set
    have slots : slots 1 = [0] := by decide
    rw [getCommandSlot, slots, List.find?_cons_of_pos]
    rw [free, sact]
    rfl
  obtain ⟨t, second, log⟩ := reaches_stale 1 again flagged idle
  refine ⟨t, first.trans second, ?_⟩
  rw [log, logged]
  rfl

/-- In a careful run every true is for a command that the adapter completed, and every false on
account of the error flag for one that failed. -/
theorem issueCommand_honest (num : Nat) (s t : PortState) (configured : Configured s)
    (reached : (session num True).Reachable s (.idle t)) : ∀ r ∈ t.log, Honest r :=
  Good.honest (good_run configured reached)

/-- The two reads of a round, and the flag that a recovery leaves behind, each make a report of a
configured port wrong. -/
theorem issueCommand_not_honest : ¬∀ (num : Nat) (s t : PortState), Configured s →
    (session num False).Reachable s (.idle t) → ∀ r ∈ t.log, Honest r := by
  intro honest
  obtain ⟨t, reached, log⟩ := reaches_both
  have false_success := honest 1 configuredPort t configuredPort_configured reached
    ⟨0, .completed, .failed⟩ (by simp [log])
  exact absurd (false_success.1 rfl) (by decide)

theorem issueCommand_honest_once : ∃ t, (session 1 True).Reachable configuredPort (.idle t) ∧
    t.log = [⟨0, .completed, .completed⟩] ∧ ∀ r ∈ t.log, Honest r := by
  have found : getCommandSlot 1 configuredPort = some 0 := rfl
  obtain ⟨t, reached, log⟩ := reaches_completed 1 True found rfl ⟨rfl, rfl, rfl⟩
  exact ⟨t, reached, log, issueCommand_honest 1 _ t configuredPort_configured reached⟩

end KopalniaOS.Ahci
