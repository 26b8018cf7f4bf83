import KopalniaOS.Hpet.Timers
import KopalniaOS.Library.Interrupts

/-!
# Sleeping

`sleep` arms a free timer and halts until the interrupt handler has cleared the flag of this timer.
Meanwhile the counter runs, interrupts come on any vector, and their handlers may sleep as well.
-/
namespace KopalniaOS.Hpet

open Library Relation

variable {ι : Type}

/-! ### The driver -/

/-- What `hpet::init` leaves; nothing changes it later. -/
structure Driver (ι : Type) where
  timers : Nat → Timer
  timerHandler : ι
  table : HandlerTable ι
  ticksPerMs : Nat
  ticksPerUs : Nat
  /-- A timer that exists knows its own number. -/
  numbered : ∀ k, (timers k).doesExist = true → (timers k).timerNum = k

/-- The timers that `hpet::init` leaves are numbered. -/
theorem init_numbered {timerHandler : ι} {found ok : Bool} {registers : Nat → BitVec 64}
    {table : HandlerTable ι} {t : State ι}
    (ran : init timerHandler found (start registers table) = some (ok, t)) (k : Nat)
    (alive : (t.timers k).doesExist = true) : (t.timers k).timerNum = k := by
  cases found with
  | false =>
    cases ran
    cases alive
  | true =>
    -- a period of zero traps, so the call has returned with all timers assigned
    by_cases period : (counterClockPeriod.get (registers capabilityRegisterOffset)).toNat = 0
    · rw [init_trap timerHandler registers table period] at ran
      cases ran
    · obtain ⟨u, ran', assigned⟩ := init_returns timerHandler registers table period
      rw [ran] at ran'
      cases ran'
      have got := (assigned.doesExist_iff k).mp alive
      rw [assigned.timers, got, timerWith]

/-- The driver that a call of `hpet::init` leaves. -/
def Driver.afterInit {timerHandler : ι} {found ok : Bool} {registers : Nat → BitVec 64}
    {table : HandlerTable ι} {t : State ι}
    (ran : init timerHandler found (start registers table) = some (ok, t)) : Driver ι where
  timers := t.timers
  timerHandler
  table := t.table
  ticksPerMs := t.ticksPerMs
  ticksPerUs := t.ticksPerUs
  numbered := init_numbered ran

/-! ### The device -/

/-- What has happened to a comparator since its timer was armed; no code reads it. -/
inductive Phase where
  | armed
  | written
  | reached
deriving DecidableEq, Repr

/-- `counter` counts all ticks, and the main counter register shows its low 64 bits; `armed` is
`is_timer_armed`. -/
structure SleepState where
  counter : Nat
  comparators : Nat → Nat
  phase : Nat → Phase
  armed : Nat → Bool

inductive SleepOp where
  | readArmed (i : Nat)
  | readCounter
  | arm (timerNum : Nat)
  | writeComparator (timerNum value : Nat)
  | halt

abbrev SleepOp.Answer : SleepOp → Type
  | .readArmed _ => Bool
  | .readCounter => Nat
  | _ => Unit

abbrev SleepProgram := Program SleepOp SleepOp.Answer

def sleepOp (o : SleepOp) : SleepProgram o.Answer := Program.perform o

def SleepState.arm (s : SleepState) (num : Nat) : SleepState :=
  { s with
    armed := Function.update s.armed num true
    phase := Function.update s.phase num .armed }

def SleepState.writeComparator (s : SleepState) (num value : Nat) : SleepState :=
  { s with
    comparators := Function.update s.comparators num value
    phase := Function.update s.phase num
      (if s.counter % 2 ^ 64 = value then .reached else .written) }

/-- `halt` may return at any time. -/
def sleepHandler : Handler SleepOp SleepOp.Answer SleepState
  | .readArmed i, s => some (s.armed i, s)
  | .readCounter, s => some (s.counter % 2 ^ 64, s)
  | .arm num, s => some ((), s.arm num)
  | .writeComparator num value, s => some ((), s.writeComparator num value)
  | .halt, s => some ((), s)

/-! ### The code -/

/-- `timer::set` -/
def Timer.set (timer : Timer) (value : Nat) : SleepProgram Unit := do
  sleepOp (.arm timer.timerNum)
  sleepOp (.writeComparator timer.timerNum value)

/-- The inner loop of `sleep`; `turns` bounds how often it is looked at. -/
def waitWhileArmed (i : Nat) : (turns : Nat) → SleepProgram Unit
  | 0 => .stuck
  | turns + 1 => do
    let armed ← sleepOp (.readArmed i)
    if armed = true then do
      sleepOp .halt
      waitWhileArmed i turns
    else pure ()

/-- What `sleep` does with the timer that it finds. -/
def sleepOn (d : Driver ι) (turns ticks i : Nat) : SleepProgram Unit := do
  let counter ← sleepOp .readCounter
  (d.timers i).set ((counter + ticks) % 2 ^ 64)
  waitWhileArmed i turns

/-- The outer loop of `sleep`. -/
def sleepFrom (d : Driver ι) (turns ticks : Nat) : (left i : Nat) → SleepProgram Unit
  | 0, _ => pure ()
  | left + 1, i =>
    if (d.timers i).doesExist = false then sleepFrom d turns ticks left (i + 1)
    else do
      let armed ← sleepOp (.readArmed i)
      if armed = true then sleepFrom d turns ticks left (i + 1)
      else sleepOn d turns ticks i

def sleep (d : Driver ι) (turns ticks : Nat) : SleepProgram Unit := sleepFrom d turns ticks 32 0

def sleepMs (d : Driver ι) (turns ms : Nat) : SleepProgram Unit :=
  sleep d turns (ms * d.ticksPerMs % 2 ^ 64)

def sleepUs (d : Driver ι) (turns us : Nat) : SleepProgram Unit :=
  sleep d turns (us * d.ticksPerUs % 2 ^ 64)

theorem run_sleep_busy {s : SleepState} (d : Driver ι) (turns ticks : Nat)
    (busy : ∀ i, (d.timers i).doesExist = true → s.armed i = true) :
    (sleep d turns ticks).run sleepHandler s = some ((), s) := by
  -- the induction is on the timers that are left
  have from_here (left i : Nat) :
      (sleepFrom d turns ticks left i).run sleepHandler s = some ((), s) := by
    induction left generalizing i with
    | zero => rfl
    | succ left ih =>
      rw [sleepFrom]
      by_cases absent : (d.timers i).doesExist = false
      · rw [if_pos absent]
        exact ih (i + 1)
      · have armed := busy i (Bool.not_eq_false _ |>.mp absent)
        have read : (sleepOp (.readArmed i)).run sleepHandler s = some (true, s) := by
          rw [← armed]
          rfl
        rw [if_neg absent, Program.run_bind, read, Option.bind_some]
        exact ih (i + 1)
  exact from_here 32 0

/-! ### What happens meanwhile -/

/-- One tick of the counter. -/
def SleepState.tick (s : SleepState) : SleepState :=
  { s with
    counter := s.counter + 1
    phase := fun i =>
      if s.phase i = .written ∧ (s.counter + 1) % 2 ^ 64 = s.comparators i then .reached
      else s.phase i }

variable [DecidableEq ι]

/-- The timer whose flag an interrupt on this vector clears: the first one with its line, if the
handler of the timers is in the row. -/
def Driver.woken (d : Driver ι) (vector : Nat) : Option Nat :=
  if (List.range (d.table.count vector)).any fun j =>
      decide (d.table.handlers vector j = some d.timerHandler) then
    (List.range 32).find? fun j => (d.timers j).doesExist && (d.timers j).vec == vector - 32
  else none

/-- An interrupt, whoever raised it. -/
def SleepState.interrupt (s : SleepState) (d : Driver ι) (vector : Nat) : SleepState :=
  match d.woken vector with
  | none => s
  | some j => { s with armed := Function.update s.armed j false }

/-- What can happen between two operations of a call of `sleep`, when handlers sleep inside of each
other at most `depth` times: ticks, interrupts of which `rule` holds, and complete calls of `sleep`
in a handler. -/
def Meanwhile (d : Driver ι) (rule : SleepState → Nat → Prop) :
    (depth : Nat) → SleepState → SleepState → Prop
  | 0, s, t => t = s.tick ∨ ∃ vector, rule s vector ∧ t = s.interrupt d vector
  | depth + 1, s, t => Meanwhile d rule depth s t ∨ ∃ turns ticks,
      (sleep d turns ticks).Ends sleepHandler (fun _ => Meanwhile d rule depth) [] s () t

/-- A call of `p` from `s` that returns in `t`. -/
def Returns (d : Driver ι) (rule : SleepState → Nat → Prop) (depth : Nat) (p : SleepProgram Unit)
    (s t : SleepState) : Prop :=
  p.Ends sleepHandler (fun _ => Meanwhile d rule depth) [] s () t

/-- Interrupts come whenever they like. -/
def AnyTime (_ : SleepState) (_ : Nat) : Prop := True

/-- A timer that is armed is only woken when the counter has reached the comparator that was written
since. -/
def OnTime (d : Driver ι) (s : SleepState) (vector : Nat) : Prop :=
  ∀ j, d.woken vector = some j → s.armed j = true → s.phase j = .reached

end KopalniaOS.Hpet
