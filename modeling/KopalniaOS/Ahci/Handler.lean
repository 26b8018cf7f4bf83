import KopalniaOS.Ahci.Model

/-!
# What the interrupt handler does

One equation for the whole handler, and from it what a step of the environment leaves
alone: whether it is the adapter or the handler, a slot that is not issued stays so, and an
error flag is only set for the slot that failed.
-/
namespace KopalniaOS.Ahci

open Library

variable {num : Nat} {s t : PortState} {slot : Slot}

/-- The status shows a fatal error. -/
def fatalStatus (is : Register) : Bool := is 30 || is 29 || is 28 || is 27

/-- The slots that are issued again. -/
def again (num : Nat) (pending : Register) (errorSlot : Slot) : Register :=
  fun i => pending i && decide (i.val < num) && decide (i ≠ errorSlot)

/-- The state after the handler. -/
def PortState.handled (num : Nat) (s : PortState) : PortState :=
  let seen := { s with
    status := fun _ => false
    hasReceivedCommandData := s.hasReceivedCommandData || s.status 0
    hasErrored := false }
  if fatalStatus s.status then
    { seen with
      running := true
      halted := false
      issue := again num s.issue s.current
      fate := fun i => if again num s.issue s.current i then .pending else s.fate i
      error := Function.update s.error s.current true }
  else seen

/-! ### Its parts -/

theorem run_warnCause (is : Register) (cause : Slot) (text : String) :
    (warnCause is cause text).run portHandler s = some ((), s) := by
  unfold warnCause
  split <;> rfl

theorem run_fatalCause (is : Register) (cause : Slot) (text : String) :
    (fatalCause is cause text).run portHandler s =
      some ((), { s with hasErrored := s.hasErrored || is cause }) := by
  unfold fatalCause
  cases set : is cause with
  | false =>
    rw [Bool.or_false]
    rfl
  | true =>
    rw [Bool.or_true]
    rfl

theorem run_receivedCause (is : Register) : (receivedCause is).run portHandler s =
    some ((), { s with hasReceivedCommandData := s.hasReceivedCommandData || is 0 }) := by
  unfold receivedCause
  cases set : is 0 with
  | false =>
    rw [Bool.or_false]
    rfl
  | true =>
    rw [Bool.or_true]
    rfl

theorem run_clearInterruptErrors : clearInterruptErrors.run portHandler s =
    some ((), { s with status := fun _ => false, hasErrored := false }) := by
  have cleared : (fun i => s.status i && !true) = fun _ => false := by
    funext i
    exact Bool.and_false _
  change some ((), { s with status := fun i => s.status i && !true, hasErrored := false }) = _
  rw [cleared]

/-- Writing back what is issued changes nothing. -/
theorem issued_self (s : PortState) (w : Register) :
    s.issued (fun j => s.issue j || w j) = s.issued w := by
  unfold PortState.issued
  congr 1
  · funext i
    cases there : s.issue i <;> simp [there]
  · funext i
    cases there : s.issue i <;> simp [there]

theorem issued_issued (s : PortState) (v w : Register) :
    (s.issued v).issued w = s.issued fun i => v i || w i := by
  unfold PortState.issued
  congr 1
  · funext i
    exact Bool.or_assoc ..
  · funext i
    cases there : s.issue i <;> cases first : v i <;> simp [there, first]

theorem run_reissue (pending : Register) (errorSlot : Slot) (is : List Slot) :
    (reissue pending errorSlot is).run portHandler s = some ((), s.issued fun i =>
      decide (i ∈ is) && (pending i && decide (i ≠ errorSlot))) := by
  induction is generalizing s with
  | nil => simp [reissue, PortState.issued]
  | cons i is ih =>
    rw [reissue, Program.run_bind]
    have rest (j : Slot) : decide (j ∈ i :: is) = (bit i j || decide (j ∈ is)) := by
      simp [bit]
    -- each round reads what is issued and writes it back with one bit more
    by_cases wanted : (pending i && decide (i ≠ errorSlot)) = true
    · have first : (perform .readIssue >>= fun issue =>
          perform (.writeIssue fun j => issue j || bit i j)).run portHandler s =
          some ((), s.issued fun j => s.issue j || bit i j) := rfl
      rw [if_pos wanted, first, Option.bind_some, ih, issued_self, issued_issued]
      congr 3
      funext j
      rw [rest]
      by_cases here : j = i
      · subst here
        rw [wanted]
        simp [bit]
      · simp [bit, here]
    · rw [if_neg wanted, Program.pure_eq, Program.run_ret, Option.bind_some, ih]
      congr 3
      funext j
      rw [rest]
      by_cases here : j = i
      · subst here
        rw [Bool.not_eq_true _ |>.mp wanted, Bool.and_false, Bool.and_false]
      · simp [bit, here]

theorem mem_slots {i : Slot} : i ∈ slots num ↔ i.val < num := by
  simp [slots]

theorem run_recover : (recover num).run portHandler s = some ((), { s with
    status := fun _ => false
    hasErrored := false
    running := true
    halted := false
    issue := again num s.issue s.current
    fate := fun i => if again num s.issue s.current i then .pending else s.fate i
    error := Function.update s.error s.current true }) := by
  -- a comreset changes nothing here, so both branches of the busy test agree
  have straight : (recover num).run portHandler s =
      (reissue s.issue s.current (slots num)).run portHandler { s with
        status := fun i => s.status i && !true
        hasErrored := false
        running := true
        halted := false
        issue := fun _ => false
        error := Function.update s.error s.current true } := by
    obtain ⟨status, issue, sact, current, busy, running, halted, flag, error, errored, received,
      fate, log⟩ := s
    cases busy <;> rfl
  have chosen (i : Slot) : (decide (i ∈ slots num) && (s.issue i && decide (i ≠ s.current))) =
      again num s.issue s.current i := by
    unfold again
    simp only [mem_slots]
    cases s.issue i <;> simp
  rw [straight, run_reissue, funext chosen]
  simp only [PortState.issued, Bool.false_or, Bool.not_false, Bool.and_true, Bool.not_true,
    Bool.and_false]

theorem run_onInterrupt : (onInterrupt num).run portHandler s = some ((), s.handled num) := by
  have status : (perform .readStatus).run portHandler s = some (s.status, s) := rfl
  have errored (s : PortState) :
      (perform .readHasErrored).run portHandler s = some (s.hasErrored, s) := rfl
  have causes : (s.status 30 || s.status 29 || s.status 28 || s.status 27) =
      fatalStatus s.status := rfl
  simp only [onInterrupt, Program.run_bind, run_warnCause, run_fatalCause, run_receivedCause,
    run_clearInterruptErrors]
  rw [status]
  simp only [Option.bind_some]
  rw [errored]
  simp only [Option.bind_some, Bool.false_or, causes]
  unfold PortState.handled
  -- only a fatal status recovers
  cases fatalStatus s.status with
  | true =>
    rw [if_pos rfl, if_pos rfl]
    exact run_recover
  | false => rfl

/-! ### Waiting for the port -/

theorem run_waitForPort (count : Nat) (idle : s.busy = false) :
    (waitForPort (count + 1)).run portHandler s = some (true, s) := by
  have read : (perform .readBusy).run portHandler s = some (s.busy, s) := rfl
  rw [waitForPort, Program.run_bind, read, idle]
  rfl

theorem run_waitForPort_busy (busy : s.busy = true) (n : Nat) :
    (waitForPort n).run portHandler s = some (false, s) := by
  induction n with
  | zero => rfl
  | succ n ih =>
    have turn : (waitForPort (n + 1)).run portHandler s =
        (if s.busy then waitForPort n else pure true).run portHandler s := rfl
    rw [turn, if_pos busy, ih]

/-! ### What the environment keeps -/

theorem fatalStatus_iff {is : Register} :
    fatalStatus is = true ↔ ∃ cause, Fatal cause ∧ is cause = true := by
  unfold fatalStatus
  simp only [Bool.or_eq_true]
  constructor
  · rintro (((set | set) | set) | set)
    · exact ⟨30, by decide, set⟩
    · exact ⟨29, by decide, set⟩
    · exact ⟨28, by decide, set⟩
    · exact ⟨27, by decide, set⟩
  · rintro ⟨cause, ⟨low, high⟩, set⟩
    have cases : cause = 30 ∨ cause = 29 ∨ cause = 28 ∨ cause = 27 := by
      simp only [Fin.ext_iff]
      omega
    rcases cases with rfl | rfl | rfl | rfl <;> simp [set]

theorem fatalStatus_update {is : Register} {cause : Slot} (harmless : ¬Fatal cause) :
    fatalStatus (Function.update is cause true) = fatalStatus is := by
  have other (i : Slot) (fatal : Fatal i) : Function.update is cause true i = is i := by
    apply Function.update_of_ne
    rintro rfl
    exact harmless fatal
  unfold fatalStatus
  rw [other 30 (by decide), other 29 (by decide), other 28 (by decide), other 27 (by decide)]

/-- What holds at any time: issued commands are pending, but for one that failed and halted the
adapter, and a fatal status means that it is halted. -/
structure Sound (s : PortState) : Prop where
  issued : ∀ i, s.issue i = true → s.fate i = .pending ∨ (s.halted = true ∧ i = s.current)
  fatal : fatalStatus s.status = true → s.halted = true
  stopped : s.halted = true → s.issue s.current = true ∧ s.fate s.current = .failed

/-- A running adapter has only pending commands. -/
theorem Sound.pending (sound : Sound s) (running : s.halted = false) {i : Slot}
    (issued : s.issue i = true) : s.fate i = .pending := by
  rcases sound.issued i issued with pending | ⟨halted, -⟩
  · exact pending
  · rw [running] at halted
    cases halted

theorem Sound.hba (sound : Sound s) (step : HbaStep s t) : Sound t := by
  cases step with
  | @complete slot running ready issued =>
    -- the adapter only works while it is not halted
    refine ⟨fun i there => .inl ?_, sound.fatal, fun halted => ?_⟩
    · dsimp only at there ⊢
      by_cases here : i = slot
      · subst here
        rw [Function.update_self] at there
        cases there
      · simp only [Function.update_of_ne here] at there ⊢
        exact sound.pending ready there
    · exact absurd halted (by simp [ready])
  | @fail slot cause running ready issued fatal =>
    refine ⟨fun i there => ?_, fun _ => rfl, fun _ => ⟨issued, Function.update_self ..⟩⟩
    by_cases here : i = slot
    · exact .inr ⟨rfl, here⟩
    · simp only [Function.update_of_ne here]
      exact .inl (sound.pending ready there)
  | @fetch slot running ready issued =>
    refine ⟨fun i there => .inl (sound.pending ready there), sound.fatal, fun halted => ?_⟩
    exact absurd halted (by simp [ready])
  | raise harmless =>
    refine ⟨sound.issued, fun fatal => sound.fatal ?_, sound.stopped⟩
    rwa [fatalStatus_update harmless] at fatal
  | device busy => exact ⟨sound.issued, sound.fatal, sound.stopped⟩

theorem Sound.cleared (sound : Sound s) :
    Sound { s with status := fun _ => false, hasErrored := false } :=
  ⟨sound.issued, nofun, sound.stopped⟩

theorem Sound.handled (sound : Sound s) (num : Nat) : Sound (s.handled num) := by
  unfold PortState.handled
  split
  · -- what is issued again is pending, and nothing is halted any more
    refine ⟨fun i there => .inl ?_, nofun, nofun⟩
    exact if_pos there
  · exact ⟨sound.issued, nofun, sound.stopped⟩

end KopalniaOS.Ahci
