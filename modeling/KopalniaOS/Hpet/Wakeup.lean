import KopalniaOS.Hpet.Sleep

/-!
# Sleeping long enough

What a call of `sleep` relies on is a statement about its timer that ticks, interrupts and the calls
inside of handlers leave true. While the timer is armed these calls pass it over, and when it is
woken on time the deadline is behind.
-/
namespace KopalniaOS.Hpet

open Library Relation

variable {ι : Type} [DecidableEq ι] {d : Driver ι} {rule : SleepState → Nat → Prop}
  {depth i left turns ticks : Nat} {s t : SleepState} {tr : History SleepOp SleepOp.Answer}
  {P K : SleepState → Prop} {post : History SleepOp SleepOp.Answer → Unit → SleepState → Prop}

/-- What nothing that happens meanwhile makes false. -/
def Stable (d : Driver ι) (rule : SleepState → Nat → Prop) (depth : Nat) (P : SleepState → Prop) :
    Prop :=
  ∀ s t, P s → Meanwhile d rule depth s t → P t

/-- A call of `sleep` by itself, with whatever happens meanwhile. -/
abbrev SleepRobust (d : Driver ι) (rule : SleepState → Nat → Prop) (depth : Nat)
    (tr : History SleepOp SleepOp.Answer) (p : SleepProgram Unit) (s : SleepState)
    (post : History SleepOp SleepOp.Answer → Unit → SleepState → Prop) : Prop :=
  p.Robust sleepHandler (fun _ => Meanwhile d rule depth) (fun _ _ => True) tr s post

/-! ### The parts of `sleep` -/

theorem robust_sleepOp_bind {α : Type} {o : SleepOp} {f : o.Answer → SleepProgram α}
    {post : History SleepOp SleepOp.Answer → α → SleepState → Prop}
    (stable : Stable d rule depth P) (holds : P s)
    (next : ∀ t, P t → ∀ r, sleepHandler o t = some r →
      (f r.1).Robust sleepHandler (fun _ => Meanwhile d rule depth) (fun _ _ => True)
        (⟨o, r.1⟩ :: tr) r.2 post) :
    (sleepOp o >>= f).Robust sleepHandler (fun _ => Meanwhile d rule depth) (fun _ _ => True)
      tr s post :=
  Program.robust_perform_bind holds stable (fun _ _ => trivial) next

/-- The inner loop only ends when the flag is clear. -/
theorem robust_waitWhileArmed (stable : Stable d rule depth P) (turns : Nat) (holds : P s) :
    SleepRobust d rule depth tr (waitWhileArmed i turns) s
      fun _ _ t => P t ∧ t.armed i = false := by
  induction turns generalizing tr s with
  | zero => trivial
  | succ turns ih =>
    apply robust_sleepOp_bind stable holds
    intro t kept r answer
    cases answer
    dsimp only
    cases flag : t.armed i with
    | true =>
      rw [if_pos rfl]
      -- the flag is still set: whatever ends the halt, it is looked at again
      apply robust_sleepOp_bind stable kept
      intro u kept' r answer
      cases answer
      exact ih kept'
    | false =>
      rw [if_neg Bool.false_ne_true]
      exact ⟨kept, flag⟩

/-- From the counter that was read to the flag that was found clear: each access takes one statement
to the next. -/
theorem robust_sleepOn {Q R T : Nat → SleepState → Prop} (alive : (d.timers i).doesExist = true)
    (before : Stable d rule depth P) (between : ∀ c, Stable d rule depth (Q c))
    (armed : ∀ c, Stable d rule depth (R c)) (waiting : ∀ c, Stable d rule depth (T c))
    (read : ∀ s, P s → Q s.counter s) (arm : ∀ c s, Q c s → R c (s.arm i))
    (write : ∀ c s, R c s → T c (s.writeComparator i ((c + ticks) % 2 ^ 64))) (holds : P s) :
    SleepRobust d rule depth tr (sleepOn d turns ticks i) s
      fun _ _ t => ∃ c, T c t ∧ t.armed i = false := by
  apply robust_sleepOp_bind before holds
  intro u reached r answer
  cases answer
  -- a timer that exists knows its number, so the call arms the one that it looked at
  rw [Timer.set, d.numbered i alive, Nat.mod_add_mod, Program.bind_assoc]
  apply robust_sleepOp_bind (between u.counter) (read u reached)
  intro v reached' r answer
  cases answer
  apply robust_sleepOp_bind (armed u.counter) (arm _ v reached')
  intro w reached'' r answer
  cases answer
  apply (robust_waitWhileArmed (waiting u.counter) turns (write _ w reached'')).mono
  intro _ _ t ended
  exact ⟨u.counter, ended⟩

/-- The timers before the first free one are passed over; if one that exists is free all the time,
the end is not reached. -/
theorem robust_sleepFrom (stable : Stable d rule depth P)
    (takes : ∀ j, (d.timers j).doesExist = true → ∀ tr t, P t → t.armed j = false →
      SleepRobust d rule depth tr (sleepOn d turns ticks j) t post)
    (left i : Nat)
    (last : (∃ k, i ≤ k ∧ k < i + left ∧ (d.timers k).doesExist = true ∧
        ∀ t, P t → t.armed k = false) ∨ ∀ tr t, P t → post tr () t)
    (holds : P s) : SleepRobust d rule depth tr (sleepFrom d turns ticks left i) s post := by
  induction left generalizing i tr s with
  | zero =>
    rcases last with ⟨k, low, high, -⟩ | ends
    · exact absurd high (by omega)
    · exact ends tr s holds
  | succ left ih =>
    rw [sleepFrom]
    -- the free timer is this one or a later one
    have later (other : ∀ k, k = i → (d.timers k).doesExist = true →
        ¬∀ t, P t → t.armed k = false) :
        (∃ k, i + 1 ≤ k ∧ k < i + 1 + left ∧ (d.timers k).doesExist = true ∧
          ∀ t, P t → t.armed k = false) ∨ ∀ tr t, P t → post tr () t := by
      refine last.imp ?_ id
      rintro ⟨k, low, high, alive, free⟩
      have apart : k ≠ i := fun here => other k here alive free
      exact ⟨k, by omega, by omega, alive, free⟩
    by_cases absent : (d.timers i).doesExist = false
    · rw [if_pos absent]
      refine ih (i + 1) (later fun k here alive => ?_) holds
      rw [here, absent] at alive
      cases alive
    · rw [if_neg absent]
      apply robust_sleepOp_bind stable holds
      intro t kept r answer
      cases answer
      dsimp only
      cases flag : t.armed i with
      | true =>
        rw [if_pos rfl]
        refine ih (i + 1) (later fun k here _ free => ?_) kept
        rw [← here, free t kept] at flag
        cases flag
      | false =>
        rw [if_neg Bool.false_ne_true]
        exact takes i (Bool.not_eq_false _ |>.mp absent) _ t kept flag

/-! ### What stays true -/

theorem stable_zero (ticking : ∀ s, P s → P s.tick)
    (waking : ∀ s vector, rule s vector → P s → P (s.interrupt d vector)) :
    Stable d rule 0 P := by
  rintro s t holds (rfl | ⟨vector, allowed, rfl⟩)
  · exact ticking s holds
  · exact waking s vector allowed holds

/-- Calls in handlers are calls as well. -/
theorem stable_succ (stable : Stable d rule depth P)
    (nested : ∀ turns ticks s, P s →
      SleepRobust d rule depth [] (sleep d turns ticks) s fun _ _ t => P t) :
    Stable d rule (depth + 1) P := by
  rintro s t holds (step | ⟨turns, ticks, ends⟩)
  · exact stable s t holds step
  · obtain ⟨_, kept⟩ := (nested turns ticks s holds).ends ends
    exact kept

/-- What neither the device nor any access of `sleep` to a timer `j` makes false. -/
structure Keeps (d : Driver ι) (rule : SleepState → Nat → Prop) (P : SleepState → Prop) : Prop where
  ticking : ∀ s, P s → P s.tick
  waking : ∀ s vector, rule s vector → P s → P (s.interrupt d vector)

structure KeepsAccess (P : SleepState → Prop) (j : Nat) : Prop where
  arm : ∀ s, P s → P (s.arm j)
  write : ∀ s value, P s → P (s.writeComparator j value)

theorem robust_sleepOn_keeps {j : Nat} (alive : (d.timers j).doesExist = true)
    (stable : Stable d rule depth P) (access : KeepsAccess P j) (holds : P s) :
    SleepRobust d rule depth tr (sleepOn d turns ticks j) s fun _ _ t => P t := by
  apply (robust_sleepOn (Q := fun _ => P) (R := fun _ => P) (T := fun _ => P) alive stable
    (fun _ => stable) (fun _ => stable) (fun _ => stable) (fun _ => id) (fun _ => access.arm)
    (fun _ s => access.write s _) holds).mono
  rintro _ _ t ⟨_, kept, _⟩
  exact kept

/-- If the flag of timer `i` is set whenever `P` could be broken by an access to this timer, `P` is
stable: nobody takes an armed timer. `K` is what is left of `P` once the flag is clear. -/
theorem stable_of_guarded (keeps : Keeps d rule P) (keepsFree : Keeps d rule K)
    (weaken : ∀ s, K s → P s) (free : ∀ s, P s → s.armed i = false → K s)
    (others : ∀ j, j ≠ i → KeepsAccess P j) (all : ∀ j, KeepsAccess K j) (depth : Nat) :
    Stable d rule depth P ∧ Stable d rule depth K := by
  induction depth with
  | zero =>
    exact ⟨stable_zero keeps.ticking keeps.waking, stable_zero keepsFree.ticking keepsFree.waking⟩
  | succ depth ih =>
    obtain ⟨stable, stableFree⟩ := ih
    constructor
    · refine stable_succ stable fun turns ticks s holds => ?_
      refine robust_sleepFrom stable (fun j alive tr t kept clear => ?_) 32 0 (.inr fun _ _ => id) holds
      -- a call finds the flag of the timer that it takes clear, so there `K` holds and lasts
      by_cases mine : j = i
      · subst mine
        exact (robust_sleepOn_keeps alive stableFree (all j) (free t kept clear)).mono
          fun _ _ u => weaken u
      · exact robust_sleepOn_keeps alive stable (others j mine) kept
    · refine stable_succ stableFree fun turns ticks s holds => ?_
      refine robust_sleepFrom stableFree (fun j alive tr t kept _ => ?_) 32 0 (.inr fun _ _ => id) holds
      exact robust_sleepOn_keeps alive stableFree (all j) kept

/-- The same for what no access can make false. -/
theorem stable_of_keeps (keeps : Keeps d rule P) (all : ∀ j, KeepsAccess P j) (depth : Nat) :
    Stable d rule depth P :=
  (stable_of_guarded (i := 0) keeps keeps (fun _ => id) (fun _ holds _ => holds) (fun j _ => all j) all
    depth).1

/-! ### Accesses to another timer -/

theorem arm_other {j : Nat} (other : j ≠ i) (s : SleepState) :
    (s.arm j).armed i = s.armed i ∧ (s.arm j).phase i = s.phase i :=
  ⟨Function.update_of_ne (Ne.symm other) .., Function.update_of_ne (Ne.symm other) ..⟩

theorem writeComparator_other {j : Nat} (other : j ≠ i) (s : SleepState) (value : Nat) :
    (s.writeComparator j value).phase i = s.phase i ∧
      (s.writeComparator j value).comparators i = s.comparators i :=
  ⟨Function.update_of_ne (Ne.symm other) .., Function.update_of_ne (Ne.symm other) ..⟩

/-! ### Interrupts -/

/-- An interrupt only clears a flag. -/
theorem interrupt_keeps (s : SleepState) (d : Driver ι) (vector : Nat) :
    (s.interrupt d vector).counter = s.counter ∧
      (s.interrupt d vector).comparators = s.comparators ∧
      (s.interrupt d vector).phase = s.phase := by
  unfold SleepState.interrupt
  split <;> exact ⟨rfl, rfl, rfl⟩

theorem interrupt_armed (s : SleepState) (d : Driver ι) {vector : Nat} (free : s.armed i = false) :
    (s.interrupt d vector).armed i = false := by
  unfold SleepState.interrupt
  split
  · exact free
  · rename_i j _
    by_cases here : i = j
    · subst here
      exact Function.update_self ..
    · exact (Function.update_of_ne here ..).trans free

/-- On time, a timer that is armed and has not been reached stays armed. -/
theorem interrupt_onTime {vector : Nat} (onTime : OnTime d s vector) (armed : s.armed i = true)
    (early : s.phase i ≠ .reached) : (s.interrupt d vector).armed i = true := by
  unfold SleepState.interrupt
  split
  · exact armed
  · rename_i j woken
    by_cases here : i = j
    · subst here
      exact absurd (onTime i woken armed) early
    · exact (Function.update_of_ne here ..).trans armed

/-! ### The statements about a timer -/

def Since (c : Nat) (s : SleepState) : Prop := c ≤ s.counter

theorem Since.keeps (c : Nat) : Keeps d rule (Since c) where
  ticking _ since := Nat.le_succ_of_le since
  waking s vector _ since := by
    rw [Since, (interrupt_keeps s d vector).1]
    exact since

theorem Since.access (c j : Nat) : KeepsAccess (Since c) j where
  arm _ since := since
  write _ _ since := since

/-- Nobody has the timer. -/
def Free (i : Nat) (s : SleepState) : Prop := s.armed i = false

/-- A call that takes a free timer gives it back before it returns. -/
theorem Free.stable (d : Driver ι) (rule : SleepState → Nat → Prop) (i depth : Nat) :
    Stable d rule depth (Free i) := by
  induction depth with
  | zero => exact stable_zero (fun _ free => free) fun s vector _ free => interrupt_armed s d free
  | succ depth ih =>
    refine stable_succ ih fun turns ticks s holds => ?_
    refine robust_sleepFrom ih (fun j alive tr t kept _ => ?_) 32 0 (.inr fun _ _ => id) holds
    by_cases mine : j = i
    · subst mine
      -- of what happens before the call returns only the cleared flag is needed
      have anything (c : Nat) : Stable d rule depth fun _ => True := fun _ _ _ _ => trivial
      apply (robust_sleepOn (Q := fun _ _ => True) (R := fun _ _ => True) (T := fun _ _ => True) alive
        ih anything anything anything (fun _ _ => trivial) (fun _ _ _ => trivial)
        (fun _ _ _ => trivial) kept).mono
      rintro _ _ u ⟨_, -, clear⟩
      exact clear
    · refine robust_sleepOn_keeps alive ih ⟨fun t free => ?_, fun t _ free => free⟩ kept
      exact (arm_other mine t).1.trans free

/-- The flag of timer `i` is set, and the comparator still holds something else. -/
structure Arming (i c : Nat) (s : SleepState) : Prop where
  armed : s.armed i = true
  phase : s.phase i = .armed
  since : c ≤ s.counter

/-- Timer `i` waits for the next time the counter register shows the low bits of `deadline`. -/
structure Waiting (i deadline : Nat) (s : SleepState) : Prop where
  armed : s.armed i = true
  phase : s.phase i = .written
  comparator : s.comparators i = deadline % 2 ^ 64
  next : deadline < s.counter + 2 ^ 64

def Asleep (i deadline : Nat) (s : SleepState) : Prop := Since deadline s ∨ Waiting i deadline s

theorem Arming.keeps (i c : Nat) : Keeps d (OnTime d) (Arming i c) where
  ticking s arming := by
    refine ⟨arming.armed, ?_, Nat.le_succ_of_le arming.since⟩
    -- the comparator has not been written yet, so a tick does not reach it
    have unwritten : ¬(s.phase i = .written ∧ (s.counter + 1) % 2 ^ 64 = s.comparators i) := by
      rintro ⟨written, -⟩
      rw [arming.phase] at written
      cases written
    exact (if_neg unwritten).trans arming.phase
  waking s vector onTime arming := by
    obtain ⟨counter, -, phase⟩ := interrupt_keeps s d vector
    have early : s.phase i ≠ .reached := by
      rw [arming.phase]
      decide
    refine ⟨interrupt_onTime onTime arming.armed early, ?_, ?_⟩
    · rw [phase]
      exact arming.phase
    · rw [counter]
      exact arming.since

theorem Arming.stable (d : Driver ι) (i c depth : Nat) :
    Stable d (OnTime d) depth (Arming i c) := by
  have never : Keeps d (OnTime d) fun _ => False := ⟨fun _ => id, fun _ _ _ => id⟩
  refine (stable_of_guarded (i := i) (K := fun _ => False) (Arming.keeps i c) never
    (fun _ => False.elim) (fun s arming clear => ?_) (fun j other => ⟨fun s arming => ?_,
      fun s value arming => ?_⟩) (fun j => ⟨fun _ => id, fun _ _ => id⟩) depth).1
  · rw [arming.armed] at clear
    cases clear
  · obtain ⟨armed, phase⟩ := arm_other other s
    exact ⟨armed.trans arming.armed, phase.trans arming.phase, arming.since⟩
  · obtain ⟨phase, -⟩ := writeComparator_other other s value
    exact ⟨arming.armed, phase.trans arming.phase, arming.since⟩

theorem Asleep.keeps (i deadline : Nat) : Keeps d (OnTime d) (Asleep i deadline) where
  ticking s asleep := by
    rcases asleep with since | waiting
    · exact .inl (Nat.le_succ_of_le since)
    · by_cases there : deadline ≤ s.counter + 1
      · exact .inl there
      · -- less than a round is left, so the register does not show the low bits of the deadline yet
        have early : ¬(s.phase i = .written ∧ (s.counter + 1) % 2 ^ 64 = s.comparators i) := by
          rintro ⟨-, shown⟩
          rw [waiting.comparator] at shown
          have next := waiting.next
          omega
        refine .inr ⟨waiting.armed, (if_neg early).trans waiting.phase, waiting.comparator, ?_⟩
        exact Nat.lt_trans waiting.next (Nat.add_lt_add_right (Nat.lt_succ_self _) _)
  waking s vector onTime asleep := by
    -- an interrupt on time leaves the flag alone as long as the comparator is not reached
    rcases asleep with since | waiting
    · exact .inl ((Since.keeps deadline).waking s vector onTime since)
    · obtain ⟨counter, comparators, phase⟩ := interrupt_keeps s d vector
      have early : s.phase i ≠ .reached := by
        rw [waiting.phase]
        decide
      refine .inr ⟨interrupt_onTime onTime waiting.armed early, ?_, ?_, ?_⟩
      · rw [phase]
        exact waiting.phase
      · rw [comparators]
        exact waiting.comparator
      · rw [counter]
        exact waiting.next

theorem Asleep.stable (d : Driver ι) (i deadline depth : Nat) :
    Stable d (OnTime d) depth (Asleep i deadline) := by
  refine (stable_of_guarded (i := i) (Asleep.keeps i deadline) (Since.keeps deadline)
    (fun _ => .inl) (fun s asleep clear => ?_) (fun j other => ⟨fun s asleep => ?_,
      fun s value asleep => ?_⟩) (Since.access deadline) depth).1
  · rcases asleep with since | waiting
    · exact since
    · rw [waiting.armed] at clear
      cases clear
  · obtain ⟨armed, phase⟩ := arm_other other s
    exact asleep.imp id fun waiting => ⟨armed.trans waiting.armed, phase.trans waiting.phase,
      waiting.comparator, waiting.next⟩
  · obtain ⟨phase, comparator⟩ := writeComparator_other other s value
    exact asleep.imp id fun waiting => ⟨waiting.armed, phase.trans waiting.phase,
      comparator.trans waiting.comparator, waiting.next⟩

/-! ### A whole call -/

/-- When the register shows the low bits of the deadline after `c`, less than a round later, the
deadline is behind. -/
theorem deadline_le {c counter : Nat} (word : ticks < 2 ^ 64) (since : c ≤ counter)
    (shown : counter % 2 ^ 64 = (c + ticks) % 2 ^ 64) : c + ticks ≤ counter := by
  omega

/-- Writing the comparator puts the timer to sleep. -/
theorem Arming.write {c : Nat} (word : ticks < 2 ^ 64) (arming : Arming i c s) :
    Asleep i (c + ticks) (s.writeComparator i ((c + ticks) % 2 ^ 64)) := by
  by_cases shown : s.counter % 2 ^ 64 = (c + ticks) % 2 ^ 64
  · exact .inl (deadline_le word arming.since shown)
  · refine .inr ⟨arming.armed, ?_, Function.update_self .., ?_⟩
    · have written : (s.writeComparator i ((c + ticks) % 2 ^ 64)).phase i =
          if s.counter % 2 ^ 64 = (c + ticks) % 2 ^ 64 then .reached else .written :=
        Function.update_self ..
      rw [written, if_neg shown]
    · have since := arming.since
      change c + ticks < s.counter + 2 ^ 64
      omega

/-- A call that takes timer `i` lasts long enough. -/
theorem sleepOn_onTime (word : ticks < 2 ^ 64) (alive : (d.timers i).doesExist = true) (start : Nat)
    (since : Since start s) :
    SleepRobust d (OnTime d) depth tr (sleepOn d turns ticks i) s
      fun _ _ t => start + ticks ≤ t.counter := by
  have fixed {p : Prop} {P : SleepState → Prop} (stable : Stable d (OnTime d) depth P) :
      Stable d (OnTime d) depth fun s => p ∧ P s :=
    fun s t holds step => ⟨holds.1, stable s t holds.2 step⟩
  have counting (c : Nat) : Stable d (OnTime d) depth (Since c) :=
    stable_of_keeps (Since.keeps c) (Since.access c) depth
  apply (robust_sleepOn (Q := fun c s => start ≤ c ∧ Since c s)
    (R := fun c s => start ≤ c ∧ Arming i c s) (T := fun c s => start ≤ c ∧ Asleep i (c + ticks) s)
    alive (counting start) (fun c => fixed (counting c)) (fun c => fixed (Arming.stable d i c depth))
    (fun c => fixed (Asleep.stable d i (c + ticks) depth)) (fun s since => ⟨since, Nat.le_refl _⟩)
    (fun c s both => ⟨both.1, Function.update_self .., Function.update_self .., both.2⟩)
    (fun c s both => ⟨both.1, both.2.write word⟩) since).mono
  rintro _ _ t ⟨c, ⟨later, asleep⟩, clear⟩
  -- the flag is clear, so the timer is not waiting any more
  rcases asleep with behind | waiting
  · exact Nat.le_trans (Nat.add_le_add_right later ticks) behind
  · rw [waiting.armed] at clear
    cases clear

/-- There is something to wait for only if the product fits into 64 bits and a timer is free. -/
def Enough (d : Driver ι) (s : SleepState) (ticks : Nat) : Prop :=
  ticks = 0 ∨ ticks < 2 ^ 64 ∧
    ∃ i < 32, (d.timers i).doesExist = true ∧ s.armed i = false

theorem sleep_onTime (enough : Enough d s ticks)
    (returned : Returns d (OnTime d) depth (sleep d turns (ticks % 2 ^ 64)) s t) :
    s.counter + ticks ≤ t.counter := by
  have counting : Stable d (OnTime d) depth (Since s.counter) :=
    stable_of_keeps (Since.keeps s.counter) (Since.access s.counter) depth
  rcases enough with rfl | ⟨word, i, inside, alive, free⟩
  · -- the counter does not go back
    have robust : SleepRobust d (OnTime d) depth [] (sleep d turns (0 % 2 ^ 64)) s
        fun _ _ t => Since s.counter t :=
      robust_sleepFrom counting
        (fun j alive tr t since _ => robust_sleepOn_keeps alive counting (Since.access _ j) since)
        32 0 (.inr fun _ _ => id) (Nat.le_refl _)
    obtain ⟨_, since⟩ := robust.ends returned
    exact since
  · rw [Nat.mod_eq_of_lt word] at returned
    have stable : Stable d (OnTime d) depth fun t => Since s.counter t ∧ Free i t :=
      fun u v holds step =>
        ⟨counting u v holds.1 step, Free.stable d (OnTime d) i depth u v holds.2 step⟩
    have robust : SleepRobust d (OnTime d) depth [] (sleep d turns ticks) s
        fun _ _ t => s.counter + ticks ≤ t.counter :=
      robust_sleepFrom stable
        (fun j alive tr t kept _ => sleepOn_onTime word alive s.counter kept.1)
        32 0 (.inl ⟨i, Nat.zero_le _, by omega, alive, fun t kept => kept.2⟩) ⟨Nat.le_refl _, free⟩
    obtain ⟨_, late⟩ := robust.ends returned
    exact late

/-- Without a free timer the call returns at once, whatever was asked for. -/
theorem sleep_busy (d : Driver ι) (rule : SleepState → Nat → Prop) (depth turns ticks : Nat)
    (busy : ∀ i, (d.timers i).doesExist = true → s.armed i = true) :
    Returns d rule depth (sleep d turns ticks) s s :=
  Program.ends_of_run (run_sleep_busy d turns ticks busy)

/-- For every driver, state, request and nesting of handlers: in a run in which armed timers are only
woken on time, a call that has enough to sleep on does not return early; and where no timer is free,
calls do not wait at all. -/
theorem sleep_not_early (d : Driver ι) (depth turns request : Nat) (s t : SleepState) :
    (Enough d s (request * d.ticksPerUs) →
      Returns d (OnTime d) depth (sleepUs d turns request) s t →
        s.counter + request * d.ticksPerUs ≤ t.counter) ∧
    (Enough d s (request * d.ticksPerMs) →
      Returns d (OnTime d) depth (sleepMs d turns request) s t →
        s.counter + request * d.ticksPerMs ≤ t.counter) ∧
    ((∀ i, (d.timers i).doesExist = true → s.armed i = true) →
      Returns d (OnTime d) depth (sleepUs d turns request) s s ∧
        Returns d (OnTime d) depth (sleepMs d turns request) s s) :=
  ⟨sleep_onTime, sleep_onTime, fun busy => ⟨sleep_busy d _ _ _ _ busy, sleep_busy d _ _ _ _ busy⟩⟩

/-! ### A call with one timer -/

/-- A microsecond is one tick, and the only timer has line 2, which it can use. -/
def lineTwo : Nat → BitVec 64 := fun offset =>
  if offset = capabilityRegisterOffset then 1000000000#64 <<< 32
  else if offset = timerRegister 0 then 1#64 <<< 19 ||| 1#64 <<< 34
  else 0

theorem returns_lineTwo : (init () true (start lineTwo noHandlers)).isSome := by decide

/-- What `hpet::init` leaves there. -/
def lineTwoInit : Bool × State Unit := (init () true (start lineTwo noHandlers)).get returns_lineTwo

theorem init_lineTwo :
    init () true (start lineTwo noHandlers) = some (lineTwoInit.1, lineTwoInit.2) :=
  (Option.some_get returns_lineTwo).symm

def oneTimerDriver : Driver Unit := .afterInit init_lineTwo

def nothingArmed : SleepState where
  counter := 0
  comparators _ := 0
  phase _ := .armed
  armed _ := false

/-- The state when the call has armed the timer. -/
def oneTimerArmed (ticks : Nat) : SleepState :=
  (nothingArmed.arm 0).writeComparator 0 (ticks % 2 ^ 64)

/-- The call returns in any state in which the flag has been cleared meanwhile. -/
theorem oneTimer_returns {rule : SleepState → Nat → Prop}
    (moved : ReflTransGen (Meanwhile oneTimerDriver rule 0) (oneTimerArmed ticks) t)
    (clear : t.armed 0 = false) :
    Returns oneTimerDriver rule 0 (sleep oneTimerDriver 1 ticks) nothingArmed t := by
  have free : (nothingArmed.armed 0) = false := rfl
  have flag : sleepHandler (.readArmed 0) t = some (false, t) := by
    rw [← clear]
    rfl
  -- all that happens meanwhile is put where the flag is looked at
  have waited : (waitWhileArmed 0 1).Ends sleepHandler (fun _ => Meanwhile oneTimerDriver rule 0)
      [⟨.writeComparator 0 (ticks % 2 ^ 64), ()⟩, ⟨.arm 0, ()⟩, ⟨.readCounter, 0⟩, ⟨.readArmed 0, false⟩]
      (oneTimerArmed ticks) () t :=
    Program.ends_perform_bind moved flag ⟨rfl, rfl⟩
  have armed : (sleepOn oneTimerDriver 1 ticks 0).Ends sleepHandler
      (fun _ => Meanwhile oneTimerDriver rule 0) [⟨.readArmed 0, false⟩] nothingArmed () t := by
    refine Program.ends_perform_bind (r := (0, nothingArmed)) .refl rfl ?_
    dsimp only
    rw [Timer.set, Program.bind_assoc, Nat.zero_add]
    exact Program.ends_perform_bind .refl rfl (Program.ends_perform_bind .refl rfl waited)
  rw [Returns, sleep, sleepFrom, if_neg (by decide)]
  exact Program.ends_perform_bind .refl rfl armed

/-- Another device on the line wakes the timer at once. -/
theorem shared_line_early :
    ¬∀ (d : Driver Unit) (depth turns us : Nat) (s t : SleepState),
      Returns d AnyTime depth (sleepUs d turns us) s t →
        s.counter + us * d.ticksPerUs ≤ t.counter := by
  intro all
  have woken : Meanwhile oneTimerDriver AnyTime 0 (oneTimerArmed 5)
      ((oneTimerArmed 5).interrupt oneTimerDriver 34) := .inr ⟨34, trivial, rfl⟩
  have early := all oneTimerDriver 0 1 5 nothingArmed _ (oneTimer_returns (.single woken) rfl)
  exact absurd early (by decide)

/-- The counter reaches the comparator, and then the timer is woken. -/
theorem sleep_not_early_one :
    (nothingArmed.counter + 1 * oneTimerDriver.ticksPerUs ≤
      ((oneTimerArmed 1).tick.interrupt oneTimerDriver 34).counter) := by
  have enough : Enough oneTimerDriver nothingArmed (1 * oneTimerDriver.ticksPerUs) :=
    .inr ⟨by decide, 0, by decide, rfl, rfl⟩
  have onTime : OnTime oneTimerDriver (oneTimerArmed 1).tick 34 := by
    intro j woken _
    obtain rfl : 0 = j := Option.some.inj woken
    rfl
  have ticked : Meanwhile oneTimerDriver (OnTime oneTimerDriver) 0 (oneTimerArmed 1)
      (oneTimerArmed 1).tick := .inl rfl
  have woken : Meanwhile oneTimerDriver (OnTime oneTimerDriver) 0 (oneTimerArmed 1).tick
      ((oneTimerArmed 1).tick.interrupt oneTimerDriver 34) := .inr ⟨34, onTime, rfl⟩
  exact (sleep_not_early oneTimerDriver 0 1 1 nothingArmed _).1 enough
    (oneTimer_returns (.tail (.single ticked) woken) rfl)

end KopalniaOS.Hpet
