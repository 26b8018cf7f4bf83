import KopalniaOS.Ahci.Handler

/-!
# What the environment keeps

Each phase of `issue_command` has an assertion on the slot it works on, and the adapter and
the handler keep all of them. Only the clear error flag between the two reads of a round is
at the mercy of the handler.
-/
namespace KopalniaOS.Ahci

open Library Relation

variable {num : Nat} {s t : PortState} {slot : Slot} {tr : History PortOp PortOp.Answer}

/-! ### What the environment does to one slot -/

theorem interrupt_eq (interrupt : Interrupt num s t) : t = s.handled num := by
  have ran := interrupt.2
  rw [run_onInterrupt] at ran
  cases ran
  rfl

theorem hba_log (step : HbaStep s t) : t.log = s.log := by
  cases step <;> rfl

theorem hba_error (step : HbaStep s t) : t.error = s.error := by
  cases step <;> rfl

theorem handled_log : (s.handled num).log = s.log := by
  unfold PortState.handled
  split <;> rfl

/-- The handler sets the error flag of the slot it recovers, and no other. -/
theorem handled_error (other : ¬Recovers slot s) : (s.handled num).error slot = s.error slot := by
  unfold PortState.handled
  split
  · next fatal =>
    -- the flag that is set is that of the current slot
    have different : slot ≠ s.current := by
      rintro rfl
      exact other ⟨rfl, fatalStatus_iff.mp fatal⟩
    exact Function.update_of_ne different ..
  · rfl

theorem hba_unissued (step : HbaStep s t) (free : s.issue slot = false) :
    t.issue slot = false ∧ t.fate slot = s.fate slot := by
  have other {j : Slot} (issued : s.issue j = true) : slot ≠ j := by
    rintro rfl
    rw [free] at issued
    cases issued
  cases step with
  | complete _ _ issued =>
    have different := other issued
    exact ⟨(Function.update_of_ne different ..).trans free, Function.update_of_ne different ..⟩
  | fail _ _ issued => exact ⟨free, Function.update_of_ne (other issued) ..⟩
  | fetch => exact ⟨free, rfl⟩
  | raise => exact ⟨free, rfl⟩
  | device => exact ⟨free, rfl⟩

theorem handled_unissued (free : s.issue slot = false) :
    (s.handled num).issue slot = false ∧ (s.handled num).fate slot = s.fate slot := by
  have never : again num s.issue s.current slot = false := by simp [again, free]
  unfold PortState.handled
  split
  · exact ⟨never, if_neg (by simp [never])⟩
  · exact ⟨free, rfl⟩

/-! ### Assertions -/

/-- What holds between the calls. -/
structure Good (s : PortState) : Prop where
  sound : Sound s
  honest : ∀ r ∈ s.log, Honest r

/-- Before the command is issued. -/
structure Unissued (slot : Slot) (s : PortState) : Prop where
  good : Good s
  free : s.issue slot = false
  clear : s.error slot = false

/-- While the command is polled for: a failure shows in the error flag, or is still waiting for
the handler. -/
structure Polled (slot : Slot) (s : PortState) : Prop where
  good : Good s
  live : s.fate slot = .pending → s.issue slot = true
  flagged : s.error slot = true → s.fate slot = .failed
  lost : s.fate slot = .failed → s.error slot = true ∨ (s.halted = true ∧ s.current = slot)

/-- Between the two reads of a round, when the first one found no error. -/
structure Quiet (slot : Slot) (s : PortState) : Prop where
  polled : Polled slot s
  clear : s.error slot = false

structure Completed (slot : Slot) (s : PortState) : Prop where
  good : Good s
  free : s.issue slot = false
  done : s.fate slot = .completed

structure Failed (slot : Slot) (s : PortState) : Prop where
  good : Good s
  failed : s.fate slot = .failed

theorem Good.hba (good : Good s) (step : HbaStep s t) : Good t :=
  ⟨good.sound.hba step, hba_log step ▸ good.honest⟩

theorem Good.handled (good : Good s) : Good (s.handled num) := by
  refine ⟨good.sound.handled num, ?_⟩
  rw [handled_log]
  exact good.honest

/-- A slot that is not issued is not the one that failed last. -/
theorem Good.not_recovers (good : Good s) (free : s.issue slot = false) : ¬Recovers slot s := by
  rintro ⟨rfl, fatal⟩
  have issued := (good.sound.stopped (good.sound.fatal (fatalStatus_iff.mpr fatal))).1
  rw [free] at issued
  cases issued

theorem Unissued.hba (before : Unissued slot s) (step : HbaStep s t) : Unissued slot t :=
  ⟨before.good.hba step, (hba_unissued step before.free).1, hba_error step ▸ before.clear⟩

theorem Unissued.handled (before : Unissued slot s) : Unissued slot (s.handled num) :=
  ⟨before.good.handled, (handled_unissued before.free).1,
    (handled_error (before.good.not_recovers before.free)).trans before.clear⟩

theorem Completed.hba (done : Completed slot s) (step : HbaStep s t) : Completed slot t :=
  ⟨done.good.hba step, (hba_unissued step done.free).1,
    (hba_unissued step done.free).2.trans done.done⟩

theorem Completed.handled (done : Completed slot s) : Completed slot (s.handled num) :=
  ⟨done.good.handled, (handled_unissued done.free).1, (handled_unissued done.free).2.trans done.done⟩

/-- A failed command is not issued, or it is the one that halted the adapter. -/
theorem Failed.halted (failed : Failed slot s) (issued : s.issue slot = true) :
    s.halted = true ∧ slot = s.current := by
  rcases failed.good.sound.issued slot issued with pending | halted
  · rw [failed.failed] at pending
    cases pending
  · exact halted

theorem Failed.hba (failed : Failed slot s) (step : HbaStep s t) : Failed slot t := by
  refine ⟨failed.good.hba step, ?_⟩
  cases issued : s.issue slot with
  | false => exact (hba_unissued step issued).2.trans failed.failed
  | true =>
    -- a halted adapter neither completes nor fails a command
    have halted := (failed.halted issued).1
    cases step with
    | complete _ ready => exact absurd halted (by simp [ready])
    | fail _ ready => exact absurd halted (by simp [ready])
    | fetch _ ready => exact absurd halted (by simp [ready])
    | raise => exact failed.failed
    | device => exact failed.failed

theorem Failed.handled (failed : Failed slot s) : Failed slot (s.handled num) := by
  refine ⟨failed.good.handled, ?_⟩
  cases issued : s.issue slot with
  | false => exact (handled_unissued issued).2.trans failed.failed
  | true =>
    have never : again num s.issue s.current slot = false := by
      simp [again, (failed.halted issued).2]
    unfold PortState.handled
    split
    · exact (if_neg (by simp [never])).trans failed.failed
    · exact failed.failed

theorem Polled.hba (polled : Polled slot s) (step : HbaStep s t) : Polled slot t := by
  have error := hba_error step
  refine ⟨polled.good.hba step, ?_, ?_, ?_⟩
  -- A pending command stays issued: only its own completion clears its bit, and then it is not
  -- pending.
  · intro pending
    cases step with
    | @complete j _ _ _ =>
      dsimp only at pending ⊢
      by_cases here : slot = j
      · subst here
        rw [Function.update_self] at pending
        cases pending
      · rw [Function.update_of_ne here] at pending ⊢
        exact polled.live pending
    | @fail j _ _ _ issued _ =>
      dsimp only at pending ⊢
      by_cases here : slot = j
      · exact here ▸ issued
      · rw [Function.update_of_ne here] at pending
        exact polled.live pending
    | fetch => exact polled.live pending
    | raise => exact polled.live pending
    | device => exact polled.live pending
  · intro flagged
    rw [error] at flagged
    exact (Failed.hba ⟨polled.good, polled.flagged flagged⟩ step).failed
  -- A failure not yet flagged has halted the adapter at its slot, and a halted adapter neither
  -- fetches, completes nor fails a command, so a step on another slot meets a flagged one.
  · intro failed
    rw [error]
    cases step with
    | @complete j _ ready _ =>
      dsimp only at failed ⊢
      by_cases here : slot = j
      · subst here
        rw [Function.update_self] at failed
        cases failed
      · rw [Function.update_of_ne here] at failed
        exact (polled.lost failed).imp_right fun halted => absurd halted.1 (by simp [ready])
    | @fail j _ _ ready _ _ =>
      dsimp only at failed ⊢
      by_cases here : slot = j
      · exact .inr ⟨rfl, here.symm⟩
      · rw [Function.update_of_ne here] at failed
        exact (polled.lost failed).imp_right fun halted => absurd halted.1 (by simp [ready])
    | fetch _ ready =>
      exact (polled.lost failed).imp_right fun halted => absurd halted.1 (by simp [ready])
    | raise => exact polled.lost failed
    | device => exact polled.lost failed

/-- A recovery sets the flag of the slot that failed and issues the others again. -/
theorem Polled.handled (polled : Polled slot s) (inRange : slot.val < num) :
    Polled slot (s.handled num) := by
  by_cases fatal : fatalStatus s.status = true
  · have halted := polled.good.sound.fatal fatal
    have issue : (s.handled num).issue = again num s.issue s.current := by
      simp [PortState.handled, fatal]
    have error : (s.handled num).error = Function.update s.error s.current true := by
      simp [PortState.handled, fatal]
    by_cases here : slot = s.current
    · have failed : Failed slot s := ⟨polled.good, here ▸ (polled.good.sound.stopped halted).2⟩
      have after : Failed slot (s.handled num) := failed.handled
      have flag : (s.handled num).error slot = true := by
        rw [error, here]
        exact Function.update_self ..
      refine ⟨after.good, fun pending => ?_, fun _ => after.failed, fun _ => .inl flag⟩
      rw [after.failed] at pending
      cases pending
    · -- another slot failed, and this one is issued again when it was
      have kept : (s.handled num).issue slot = s.issue slot := by
        rw [issue]
        simp [again, inRange, here]
      have flag : (s.handled num).error slot = s.error slot := by
        rw [error]
        exact Function.update_of_ne here ..
      have fate : (s.handled num).fate slot = s.fate slot := by
        cases issued : s.issue slot with
        | false => exact (handled_unissued issued).2
        | true =>
          rcases polled.good.sound.issued slot issued with pending | ⟨-, is⟩
          · simp [PortState.handled, fatal, again, issued, inRange, here, pending]
          · exact (here is).elim
      refine ⟨polled.good.handled, ?_, ?_, ?_⟩
      · rw [fate, kept]
        exact polled.live
      · rw [fate, flag]
        exact polled.flagged
      · rw [fate, flag]
        intro failed
        exact (polled.lost failed).imp_right fun halted => (here halted.2.symm).elim
  · -- without a fatal status the handler does not touch commands
    have same : s.handled num = { s with
        status := fun _ => false
        hasReceivedCommandData := s.hasReceivedCommandData || s.status 0
        hasErrored := false } := by
      simp [PortState.handled, fatal]
    have good : Good (s.handled num) := polled.good.handled
    rw [same] at good ⊢
    exact ⟨good, polled.live, polled.flagged, polled.lost⟩

theorem Quiet.hba (quiet : Quiet slot s) (step : HbaStep s t) : Quiet slot t :=
  ⟨quiet.polled.hba step, hba_error step ▸ quiet.clear⟩

theorem Quiet.handled (quiet : Quiet slot s) (inRange : slot.val < num)
    (other : ¬Recovers slot s) : Quiet slot (s.handled num) :=
  ⟨quiet.polled.handled inRange, (handled_error other).trans quiet.clear⟩

end KopalniaOS.Ahci
