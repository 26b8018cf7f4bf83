import KopalniaOS.Hpet.Assignment
import Mathlib.Data.List.Find

/-!
# Timers that can wake a sleeper

A timer that exists needs a line that its register can route to, and a handler on that line. The
driver looks at other bits of the register, and does not look at whether the handler was installed.
-/
namespace KopalniaOS.Hpet

open Library

variable {ι : Type} {timerHandler : ι} {registers : Nat → BitVec 64} {table : HandlerTable ι}
  {s : State ι} {n : Nat}

/-- Bit `i` of the routing capability, which is the upper half of the register. -/
def routable (registers : Nat → BitVec 64) (k i : Nat) : Bool :=
  (registers (timerRegister k)).getLsbD (32 + i)

/-- The timers that exist have lines of their own, which their registers route to, and the handler is
called on them. -/
structure Usable (timerHandler : ι) (registers : Nat → BitVec 64) (s : State ι) (k : Nat) : Prop where
  capable : routable registers k (s.timers k).vec = true
  routed : (ioapicRoute.get (s.registers (timerRegister k))).toNat = (s.timers k).vec
  own : ∀ j, (s.timers j).doesExist = true → (s.timers j).vec = (s.timers k).vec → j = k
  registered : Registered timerHandler ((s.timers k).vec + 32) s.table

/-- The timer with the line that it got. -/
def timerWith (k : Nat) : Option (Option Nat) → Timer
  | none => .unset
  | some none => ⟨0xFF, k, false⟩
  | some (some i) => ⟨i, k, true⟩

/-- A line that takes the handler, or has it. -/
def Takes (timerHandler : ι) (table : HandlerTable ι) (i : Nat) : Prop :=
  Registered timerHandler (i + 32) table ∨ i < 24 ∧ table.count (i + 32) < 4

/-- After the first `n` timers. -/
structure Assigned (timerHandler : ι) (registers : Nat → BitVec 64) (table : HandlerTable ι) (n : Nat)
    (s : State ι) : Prop where
  rest : ∀ k, n ≤ k → s.registers (timerRegister k) = registers (timerRegister k)
  used : ∀ i < 32, s.usedVectors.getLsbD i = true ↔ some i ∈ lines registers n
  timers : ∀ k, s.timers k = timerWith k (lines registers n)[k]?
  route : ∀ k i, (lines registers n)[k]? = some (some i) →
    (ioapicRoute.get (s.registers (timerRegister k))).toNat = i
  others : ∀ i, some i ∉ lines registers n →
    s.table.handlers (i + 32) = table.handlers (i + 32) ∧ s.table.count (i + 32) = table.count (i + 32)
  registered : ∀ i, some i ∈ lines registers n →
    (Registered timerHandler (i + 32) s.table ↔ Takes timerHandler table i)

theorem timerRegister_inj {j k : Nat} : timerRegister j = timerRegister k ↔ j = k := by
  unfold timerRegister
  omega

/-- The masks say which lines are free. -/
theorem Assigned.find?_available (assigned : Assigned timerHandler registers table n s) :
    (List.range 30).find? (available (prepare (s.registers (timerRegister n))) s) =
      (List.range 30).find? fun i =>
        offers registers n i && !(lines registers n).contains (some i) := by
  refine List.find?_congr fun i inside => ?_
  have word : i < 32 := Nat.lt_of_lt_of_le (List.mem_range.mp inside) (by decide)
  have used : s.usedVectors.getLsbD i = (lines registers n).contains (some i) := by
    rw [Bool.eq_iff_iff, assigned.used i word, List.contains_iff_mem]
  rw [available, supported_prepare _ word, assigned.rest n (Nat.le_refl n), used, offers]

/-- The next timer is the only one that changes. -/
theorem timers_next {timer : Timer} {slot : Option Nat}
    (assigned : Assigned timerHandler registers table n s)
    (last : (lines registers (n + 1))[n]? = some slot) (same : timer = timerWith n (some slot))
    (k : Nat) :
    Function.update s.timers n timer k = timerWith k (lines registers (n + 1))[k]? := by
  by_cases here : k = n
  · subst here
    rw [Function.update_self, last, same]
  · rw [Function.update_of_ne here, assigned.timers, firstFit_other here]

/-- A timer without a line changes only itself. -/
theorem Assigned.next_none (assigned : Assigned timerHandler registers table n s)
    (last : (lines registers (n + 1))[n]? = some none) :
    Assigned timerHandler registers table (n + 1)
      { s with timers := Function.update s.timers n ⟨0xFF, n, false⟩ } := by
  -- a timer that does not exist takes no line
  have same : ∀ i, some i ∈ lines registers (n + 1) ↔ some i ∈ lines registers n := by
    intro i
    rw [mem_firstFit_succ, last]
    simp
  refine ⟨fun k later => assigned.rest k (Nat.le_of_succ_le later), fun i word => ?_,
    timers_next assigned last rfl, fun k i got => ?_, fun i free => ?_, fun i took => ?_⟩
  · rw [same]
    exact assigned.used i word
  · have other : k ≠ n := by
      rintro rfl
      rw [last] at got
      cases got
    rw [firstFit_other other] at got
    exact assigned.route k i got
  · exact assigned.others i fun took => free ((same i).mpr took)
  · exact assigned.registered i ((same i).mp took)

theorem registered_congr {t u : HandlerTable ι} {vector : Nat}
    (handlers : t.handlers vector = u.handlers vector) (count : t.count vector = u.count vector) :
    Registered timerHandler vector t ↔ Registered timerHandler vector u := by
  rw [Registered, Registered, handlers, count]

/-- A timer with a line uses it up, and tries to install the handler on it. -/
theorem Assigned.next_some {i : Nat} (assigned : Assigned timerHandler registers table n s)
    (last : (lines registers (n + 1))[n]? = some (some i)) (config : BitVec 64) :
    Assigned timerHandler registers table (n + 1) { s with
      registers := Function.update s.registers (timerRegister n) (ioapicRoute.set config i)
      usedVectors := s.usedVectors ||| 1#32 <<< i
      timers := Function.update s.timers n ⟨i, n, true⟩
      table := installHandler (some timerHandler) i s.table } := by
  obtain ⟨inside, -, free⟩ := firstFit_new last
  -- the lines that are taken are the earlier ones and `i`
  have member : ∀ j, some j ∈ lines registers (n + 1) ↔ some j ∈ lines registers n ∨ j = i := by
    intro j
    rw [mem_firstFit_succ, last]
    simp [eq_comm]
  refine ⟨fun k later => ?_, fun j word => ?_, timers_next assigned last rfl, fun k j got => ?_,
    fun j free => ?_, fun j took => ?_⟩
  · have other : timerRegister k ≠ timerRegister n :=
      fun same => Nat.ne_of_gt later (timerRegister_inj.mp same)
    exact (Function.update_of_ne other ..).trans (assigned.rest k (Nat.le_of_succ_le later))
  · rw [getLsbD_or_bit _ _ word, assigned.used j word, member]
  · dsimp only
    by_cases here : k = n
    · subst here
      rw [last, Option.some.injEq, Option.some.injEq] at got
      subst got
      rw [Function.update_self]
      exact BitField.get_set (by decide) (Nat.lt_of_lt_of_le inside (by decide)) config
    · rw [firstFit_other here] at got
      rw [Function.update_of_ne fun same => here (timerRegister_inj.mp same)]
      exact assigned.route k j got
  · rw [member, not_or] at free
    have row : j + 32 ≠ i + 32 := fun same => free.2 (Nat.add_right_cancel same)
    obtain ⟨handlers, count⟩ := installHandler_other (some timerHandler) s.table row
    obtain ⟨handlers', count'⟩ := assigned.others j free.1
    exact ⟨handlers.trans handlers', count.trans count'⟩
  · by_cases here : j = i
    · -- nobody had the line, so its row is as it was before `hpet::init`
      subst here
      obtain ⟨handlers, count⟩ := assigned.others j free
      rw [registered_installHandler, registered_congr handlers count, count]
      rfl
    · have row : j + 32 ≠ i + 32 := fun same => here (Nat.add_right_cancel same)
      obtain ⟨handlers, count⟩ := installHandler_other (some timerHandler) s.table row
      rw [registered_congr handlers count]
      exact assigned.registered j (((member j).mp took).resolve_right here)

/-- One more timer. -/
theorem Assigned.next (assigned : Assigned timerHandler registers table n s) :
    Assigned timerHandler registers table (n + 1) (initTimer timerHandler n s) := by
  have unset : s.timers n = .unset := by
    rw [assigned.timers, List.getElem?_eq_none (Nat.le_of_eq (length_firstFit _ _ n))]
    rfl
  have last : (lines registers (n + 1))[n]? = some ((List.range 30).find? fun i =>
      offers registers n i && !(lines registers n).contains (some i)) := firstFit_last n
  rw [initTimer_eq unset, assigned.find?_available]
  cases got : (List.range 30).find? fun i =>
      offers registers n i && !(lines registers n).contains (some i) with
  | none => exact assigned.next_none (last.trans (congrArg some got))
  | some i => exact assigned.next_some (last.trans (congrArg some got)) _

/-- All timers, whatever was written to other registers before. -/
theorem assigned_initTimers (n : Nat)
    (start : Assigned timerHandler registers table 0 s) :
    Assigned timerHandler registers table n (initTimers timerHandler n s) := by
  induction n with
  | zero => exact start
  | succ n ih => exact ih.next

/-- `hpet::init` as far as the timers go: the registers that it writes before are others. -/
theorem assigned_start {s : State ι} (table : HandlerTable ι) (timers : ∀ k, s.timers k = .unset)
    (used : s.usedVectors = 0) (same : s.table = table)
    (kept : ∀ k, s.registers (timerRegister k) = registers (timerRegister k)) :
    Assigned timerHandler registers table 0 s where
  rest k _ := kept k
  used i _ := by simp [used, firstFit]
  timers k := by simp [timers, firstFit, timerWith]
  route k i got := by simp [firstFit] at got
  others i _ := by simp [same]
  registered i took := by simp [firstFit] at took

/-- Unless the period is zero `hpet::init` returns. -/
theorem init_returns (timerHandler : ι) (registers : Nat → BitVec 64) (table : HandlerTable ι)
    (period : (counterClockPeriod.get (registers capabilityRegisterOffset)).toNat ≠ 0) :
    ∃ t, init timerHandler true (start registers table) = some (true, t) ∧
      Assigned timerHandler registers table
        ((numTimers.get (registers capabilityRegisterOffset)).toNat + 1) t := by
  rw [init, if_neg (by decide)]
  dsimp only
  rw [if_neg (by exact period)]
  refine ⟨_, rfl, assigned_initTimers _ (assigned_start table (fun _ => rfl) rfl rfl fun k => ?_)⟩
  -- starting the counter writes to none of the registers of the timers
  have counter : timerRegister k ≠ mainCounterRegisterOffset := by
    unfold timerRegister mainCounterRegisterOffset
    omega
  have configuration : timerRegister k ≠ configurationRegisterOffset := by
    unfold timerRegister configurationRegisterOffset
    omega
  simp [State.write, start, counter, configuration]

theorem init_trap (timerHandler : ι) (registers : Nat → BitVec 64) (table : HandlerTable ι)
    (period : (counterClockPeriod.get (registers capabilityRegisterOffset)).toNat = 0) :
    init timerHandler true (start registers table) = none := by
  rw [init, if_neg (by decide)]
  exact if_pos period

/-- The timers that exist are the ones that got a line. -/
theorem Assigned.doesExist_iff (assigned : Assigned timerHandler registers table n s) (k : Nat) :
    (s.timers k).doesExist = true ↔ (lines registers n)[k]? = some (some (s.timers k).vec) := by
  rw [assigned.timers]
  cases (lines registers n)[k]? with
  | none => simp [timerWith, Timer.unset]
  | some slot => cases slot <;> simp [timerWith]

theorem Assigned.usable_iff (assigned : Assigned timerHandler registers table n s) :
    (∀ k, (s.timers k).doesExist = true → Usable timerHandler registers s k) ↔
      ∀ k i, (lines registers n)[k]? = some (some i) →
        routable registers k i = true ∧ Takes timerHandler table i := by
  constructor
  · intro usable k i got
    have timer : s.timers k = ⟨i, k, true⟩ := by rw [assigned.timers, got, timerWith]
    have wakes := usable k (by rw [timer])
    have capable := wakes.capable
    have registered := wakes.registered
    rw [timer] at capable registered
    exact ⟨capable, (assigned.registered i (List.mem_of_getElem? got)).mp registered⟩
  · intro fits k alive
    have got := (assigned.doesExist_iff k).mp alive
    obtain ⟨capable, takes⟩ := fits k _ got
    refine ⟨capable, assigned.route k _ got, fun j alive' same => ?_, ?_⟩
    -- two timers that exist have taken different lines
    · have got' := (assigned.doesExist_iff j).mp alive'
      rw [same] at got'
      exact (firstFit_spec got).2.2 j got'
    · exact (assigned.registered _ (List.mem_of_getElem? got)).mpr takes

/-- For every content of the registers and every table of handlers: each timer that exists is usable
exactly if the lines that the timers get first fit, by the bits from 17 on, are lines that their
registers can route to and that take the handler. -/
theorem init_usable_iff (timerHandler : ι) (found : Bool) (registers : Nat → BitVec 64)
    (table : HandlerTable ι) :
    (∀ ok t, init timerHandler found (start registers table) = some (ok, t) →
        ∀ k, (t.timers k).doesExist = true → Usable timerHandler registers t k) ↔
      (found = true → (counterClockPeriod.get (registers capabilityRegisterOffset)).toNat ≠ 0 →
        ∀ k i, (lines registers ((numTimers.get (registers capabilityRegisterOffset)).toNat + 1))[k]? =
          some (some i) → routable registers k i = true ∧ Takes timerHandler table i) := by
  cases found with
  | false =>
    -- without a device there are no timers
    refine iff_of_true (fun ok t ran k alive => ?_) nofun
    cases ran
    cases alive
  | true =>
    by_cases period : (counterClockPeriod.get (registers capabilityRegisterOffset)).toNat = 0
    · refine iff_of_true (fun ok t ran => ?_) fun _ runs => (runs period).elim
      rw [init_trap timerHandler registers table period] at ran
      cases ran
    · obtain ⟨t, ran, assigned⟩ := init_returns timerHandler registers table period
      constructor
      · intro usable _ _
        exact assigned.usable_iff.mp (usable true t ran)
      · intro fits ok u ran'
        rw [ran] at ran'
        cases ran'
        exact assigned.usable_iff.mpr (fits rfl period)

/-- A device with one timer, which can use line 2. -/
def oneTimer (offset : Nat) : BitVec 64 :=
  if offset = capabilityRegisterOffset then 10000000#64 <<< 32
  else if offset = timerRegister 0 then 1#64 <<< 34
  else 0

def noHandlers : HandlerTable Unit := ⟨fun _ _ => none, fun _ => 0, []⟩

/-- The timer gets line 17. -/
theorem line_not_routable :
    ¬∀ (registers : Nat → BitVec 64) (table : HandlerTable Unit) (ok : Bool) (t : State Unit),
      init () true (start registers table) = some (ok, t) →
        ∀ k, (t.timers k).doesExist = true → Usable () registers t k := by
  intro usable
  obtain ⟨t, ran, assigned⟩ := init_returns () oneTimer noHandlers (by decide)
  have wakes := assigned.usable_iff.mp (usable oneTimer noHandlers true t ran) 0 17 (by decide)
  exact absurd wakes.1 (by decide)

end KopalniaOS.Hpet
