import KopalniaOS.Ps2.Controller

/-!
# The probe and any hardware

Whatever answers at the ports, and whenever it does: the interrupts are on again when the probe returns,
and what it has taken and installed depends on little more than its result.
-/
namespace KopalniaOS.Ps2

open Library Relation

/-- The hardware moves, and an interrupt of the keyboard is handled wherever it is let through. -/
inductive Moves {H : Type} (hardware : Hardware H) (move : H → H → Prop) : Machine H → Machine H → Prop
  | device {m x} : move m.hw x → Moves hardware move m { m with hw := x }
  | interrupt {m} : m.intFlag = true → m.installed ≠ [] →
      Moves hardware move m { m with
        hw := (hardware.inb outputPort m.hw).2
        received := m.received ++ [(hardware.inb outputPort m.hw).1] }

variable {H : Type} {hardware : Hardware H} {move : H → H → Prop} {k m m' : Machine H}

/-- The machine is `k`, apart from the hardware and from what the handler has read. -/
def Is (k m : Machine H) : Prop := ∃ hw received, m = { k with hw, received }

theorem is_self (m : Machine H) : Is m m := ⟨m.hw, m.received, rfl⟩

theorem stable_is : Stable (Moves hardware move) (Is k) := by
  rintro _ _ ⟨hw, received, rfl⟩ step
  cases step with
  | device moved => exact ⟨_, received, rfl⟩
  | interrupt _ _ => exact ⟨_, _, rfl⟩

/-- The program may use the ports and write to the log, and no more. -/
abbrev OnlyPorts {α : Type} (hardware : Hardware H) (move : H → H → Prop) (k : Machine H)
    (p : Ps2Program α) : Prop :=
  p.Under (ps2Handler hardware) (Moves hardware move) (Is k) fun _ => Is k

theorem onlyPorts_pure {α : Type} (a : α) : OnlyPorts hardware move k (pure a) :=
  Program.under_ret fun _ is => is

theorem onlyPorts_inb (port : Nat) : OnlyPorts hardware move k (perform (.inb port)) := by
  refine Program.under_perform stable_is ?_
  rintro _ _ ⟨hw, received, rfl⟩ ⟨⟩
  exact ⟨_, received, rfl⟩

theorem onlyPorts_outb (port : Nat) (value : BitVec 8) :
    OnlyPorts hardware move k (perform (.outb port value)) := by
  refine Program.under_perform stable_is ?_
  rintro _ _ ⟨hw, received, rfl⟩ ⟨⟩
  exact ⟨_, received, rfl⟩

theorem onlyPorts_log (message : Message) : OnlyPorts hardware move k (perform (.log message)) := by
  refine Program.under_perform stable_is ?_
  rintro _ _ is ⟨⟩
  exact is

theorem onlyPorts_ite {α : Type} {c : Prop} [Decidable c] {p q : Ps2Program α}
    (yes : OnlyPorts hardware move k p) (no : OnlyPorts hardware move k q) :
    OnlyPorts hardware move k (if c then p else q) :=
  Program.under_ite (fun _ => yes) fun _ => no

theorem onlyPorts_poll {test : Ps2Program Bool} (tested : OnlyPorts hardware move k test)
    (message : Message) (n : Nat) :
    OnlyPorts hardware move k (Program.poll test (perform (.log message)) n) := by
  refine Program.under_poll (tested.post fun done s is => ?_) (onlyPorts_log message) n
  split <;> exact is

theorem onlyPorts_waitForCommandCompletion : OnlyPorts hardware move k waitForCommandCompletion :=
  onlyPorts_poll ((onlyPorts_inb _).bind fun _ => onlyPorts_pure _) _ _

theorem onlyPorts_waitForRead : OnlyPorts hardware move k waitForRead :=
  onlyPorts_poll ((onlyPorts_inb _).bind fun _ => onlyPorts_pure _) _ _

theorem onlyPorts_command (value : BitVec 8) : OnlyPorts hardware move k (command value) :=
  (onlyPorts_outb _ _).bind fun _ => onlyPorts_waitForCommandCompletion

theorem onlyPorts_receive : OnlyPorts hardware move k receive :=
  onlyPorts_waitForRead.bind fun _ => onlyPorts_inb _

theorem onlyPorts_readConfig : OnlyPorts hardware move k readConfig :=
  (onlyPorts_outb _ _).bind fun _ => onlyPorts_receive

theorem onlyPorts_writeConfig (config : BitVec 8) : OnlyPorts hardware move k (writeConfig config) :=
  (onlyPorts_outb _ _).bind fun _ =>
    (onlyPorts_outb _ _).bind fun _ => onlyPorts_waitForCommandCompletion

theorem onlyPorts_flush (turns : Nat) : OnlyPorts hardware move k (flush turns) := by
  induction turns with
  | zero => exact Program.under_stuck
  | succ turns ih =>
    refine (onlyPorts_inb _).bind fun status => ?_
    exact onlyPorts_ite ((onlyPorts_inb _).bind fun _ => ih) (onlyPorts_pure ())

theorem onlyPorts_sendDataToDevice (device : Int) (data : BitVec 8) :
    OnlyPorts hardware move k (sendDataToDevice device data) := by
  have written : OnlyPorts hardware move k (do
      perform (.outb dataPort data)
      waitForCommandCompletion) :=
    (onlyPorts_outb _ _).bind fun _ => onlyPorts_waitForCommandCompletion
  refine onlyPorts_ite ?_ (onlyPorts_ite ?_ (onlyPorts_pure ()))
  · exact onlyPorts_waitForCommandCompletion.bind fun _ => written
  · exact (onlyPorts_outb _ _).bind fun _ => onlyPorts_waitForCommandCompletion.bind fun _ => written

theorem onlyPorts_resetDevice (device : Int) : OnlyPorts hardware move k (resetDevice device) := by
  refine (onlyPorts_sendDataToDevice device 0xFF).bind fun _ => ?_
  refine onlyPorts_receive.bind fun byte1 => onlyPorts_receive.bind fun byte2 => ?_
  exact onlyPorts_ite ((onlyPorts_log _).bind fun _ => onlyPorts_pure _) (onlyPorts_pure _)

theorem onlyPorts_disablePorts : OnlyPorts hardware move k disablePorts :=
  (onlyPorts_command _).bind fun _ => onlyPorts_command _

theorem onlyPorts_configure : OnlyPorts hardware move k configure :=
  onlyPorts_readConfig.bind fun _ => onlyPorts_writeConfig _

theorem onlyPorts_selfTest : OnlyPorts hardware move k selfTest := by
  refine onlyPorts_readConfig.bind fun saved => (onlyPorts_command _).bind fun _ => ?_
  refine onlyPorts_receive.bind fun value => onlyPorts_ite ?_ ?_
  · exact (onlyPorts_log _).bind fun _ => onlyPorts_pure _
  · exact (onlyPorts_writeConfig saved).bind fun _ => onlyPorts_pure _

theorem onlyPorts_checkPortCount : OnlyPorts hardware move k checkPortCount := by
  refine (onlyPorts_command _).bind fun _ => onlyPorts_readConfig.bind fun config => ?_
  refine onlyPorts_ite ?_ (onlyPorts_pure _)
  exact (onlyPorts_command _).bind fun _ => (onlyPorts_writeConfig _).bind fun _ => onlyPorts_pure _

theorem onlyPorts_enablePorts (dualChannel : Bool) :
    OnlyPorts hardware move k (enablePorts dualChannel) := by
  refine onlyPorts_readConfig.bind fun config => (onlyPorts_command _).bind fun _ => ?_
  exact onlyPorts_ite ((onlyPorts_command _).bind fun _ => onlyPorts_writeConfig _)
    (onlyPorts_writeConfig _)

theorem onlyPorts_resetSecond (dualChannel : Bool) :
    OnlyPorts hardware move k (resetSecond dualChannel) :=
  onlyPorts_ite ((onlyPorts_resetDevice 2).bind fun _ => onlyPorts_pure ()) (onlyPorts_pure ())

theorem onlyPorts_expectAck (value : BitVec 8) (message : Message) :
    OnlyPorts hardware move k (expectAck value message) :=
  onlyPorts_ite (onlyPorts_log message) (onlyPorts_pure ())

theorem onlyPorts_setUpDevice : OnlyPorts hardware move k setUpDevice := by
  have told : ∀ data, OnlyPorts hardware move k (sendDataToDevice 1 data) :=
    onlyPorts_sendDataToDevice 1
  refine (onlyPorts_resetDevice 1).bind fun _ => (told _).bind fun _ => ?_
  refine onlyPorts_receive.bind fun _ => (onlyPorts_expectAck _ _).bind fun _ => ?_
  refine (told _).bind fun _ => onlyPorts_receive.bind fun _ => ?_
  refine (onlyPorts_expectAck _ _).bind fun _ => onlyPorts_receive.bind fun _ => ?_
  refine onlyPorts_receive.bind fun _ => (told _).bind fun _ => onlyPorts_receive.bind fun _ => ?_
  refine (onlyPorts_expectAck _ _).bind fun _ => (told _).bind fun _ => (told _).bind fun _ => ?_
  exact onlyPorts_receive.bind fun _ => (onlyPorts_expectAck _ _).bind fun _ => onlyPorts_pure _

/-! ### The rest of the machine -/

/-- An operation that changes what is known of the machine from `k` to `k'`. -/
theorem under_change {o : Ps2Op} {k' : Machine H}
    (changes : ∀ hw received, ∃ a, ps2Handler hardware o { k with hw, received } =
      some (a, { k' with hw, received })) :
    (perform o).Under (ps2Handler hardware) (Moves hardware move) (Is k) fun _ => Is k' := by
  refine Program.under_perform stable_is ?_
  rintro _ r ⟨hw, received, rfl⟩ answer
  obtain ⟨a, answers⟩ := changes hw received
  rw [answers] at answer
  cases answer
  exact ⟨hw, received, rfl⟩

theorem under_setIntFlag (flag : Bool) : (perform (.setIntFlag flag)).Under (ps2Handler hardware)
    (Moves hardware move) (Is k) fun _ => Is { k with intFlag := flag } :=
  under_change fun _ _ => ⟨(), rfl⟩

theorem under_installHandler (irqNo : BitVec 8) :
    (perform (.installHandler irqNo)).Under (ps2Handler hardware) (Moves hardware move) (Is k)
      fun _ => Is { k with installed := k.installed ++ [irqNo] } :=
  under_change fun _ _ => ⟨(), rfl⟩

theorem under_freeResources : (perform .freeResources).Under (ps2Handler hardware)
    (Moves hardware move) (Is k) fun _ => Is { k with held := k.held - 1 } :=
  under_change fun _ _ => ⟨(), rfl⟩

/-- The line that the resources name, or else line 1. -/
def lineOf (kbRes : List Resource) : BitVec 8 := (findIrq kbRes).getD 1

/-- The handler has been installed on this line, or it has not. -/
def MayInstall (k : Machine H) (line : BitVec 8) (m : Machine H) : Prop :=
  ∃ lines, (lines = [] ∨ lines = [line]) ∧ Is { k with installed := k.installed ++ lines } m

theorem under_installKeyboard (kbRes : List Resource) (id1 id2 : BitVec 8) :
    (installKeyboard kbRes id1 id2).Under (ps2Handler hardware) (Moves hardware move) (Is k)
      fun _ => MayInstall k (lineOf kbRes) := by
  have skipped : ∀ m, Is k m → MayInstall k (lineOf kbRes) m :=
    fun m is => ⟨[], .inl rfl, by rw [List.append_nil]; exact is⟩
  have installed : ∀ line, lineOf kbRes = line → (perform (.installHandler line)).Under
      (ps2Handler hardware) (Moves hardware move) (Is k) fun _ => MayInstall k (lineOf kbRes) := by
    rintro line rfl
    exact (under_installHandler _).post fun _ m is => ⟨[lineOf kbRes], .inr rfl, is⟩
  refine Program.under_ite (fun _ => ?_) fun _ => Program.under_ite (fun _ => ?_) fun _ => ?_
  · have line : ∀ found, findIrq kbRes = found → lineOf kbRes = found.getD 1 :=
      fun _ found => congrArg (Option.getD · 1) found
    cases found : findIrq kbRes with
    | some irqNo => exact installed irqNo (line _ found)
    | none => exact (onlyPorts_log _).bind fun _ => installed 1 (line _ found)
  · exact Program.under_ret skipped
  · exact (onlyPorts_log _).post fun _ => skipped

/-- The probe has failed, with so many lists left; or it has succeeded. -/
def Left (k : Machine H) (line : BitVec 8) (result : Int) (m : Machine H) : Prop :=
  result = -enodev ∧ Is { k with intFlag := true } m ∨
    result = statusOk ∧ MayInstall { k with intFlag := true, held := k.held - 1 } line m

theorem under_probeController (turns : Nat) (kbRes : List Resource) :
    (probeController turns kbRes).Under (ps2Handler hardware) (Moves hardware move) (Is k)
      (Left k (lineOf kbRes)) := by
  refine onlyPorts_disablePorts.bind fun _ => (onlyPorts_flush turns).bind fun _ => ?_
  refine onlyPorts_configure.bind fun _ => onlyPorts_selfTest.bind fun passed => ?_
  refine Program.under_ite (fun _ => ?_) fun _ => ?_
  · exact (under_setIntFlag true).bind fun _ => Program.under_ret fun m is => .inl ⟨rfl, is⟩
  · refine onlyPorts_checkPortCount.bind fun dualChannel => (onlyPorts_enablePorts _).bind fun _ => ?_
    refine onlyPorts_setUpDevice.bind fun id => (under_installKeyboard kbRes id.1 id.2).bind fun _ => ?_
    refine Program.under_exists fun lines => ?_
    intro tr m ⟨installed, is⟩
    refine ((onlyPorts_resetSecond dualChannel).bind fun _ => under_freeResources.bind fun _ =>
      (under_setIntFlag true).bind fun _ => (onlyPorts_flush turns).bind fun _ =>
        Program.under_ret fun m is => ?_) tr m is
    exact .inr ⟨rfl, lines, installed, is⟩

/-- How the probe leaves the machine: it has failed without a handler, and then a list of resources that
it had got is lost, or it has succeeded. -/
structure Probed (m m' : Machine H) (result : Int) : Prop where
  enabled : m'.intFlag = true
  failed : result ≠ statusOk → result = -enodev ∧ m'.installed = m.installed ∧
    m'.held = m.held + if m.fadt.isSome = true ∧ m.resources.isSome = true then 1 else 0
  succeeded : result = statusOk → ∃ iapcBootArch kbRes, m.fadt = some iapcBootArch ∧
    iapcBootArch.getLsbD 1 = true ∧ m.resources = some kbRes ∧ m'.held = m.held ∧
      (m'.installed = m.installed ∨ m'.installed = m.installed ++ [lineOf kbRes])

theorem under_findFadt : (perform .findFadt).Under (ps2Handler hardware) (Moves hardware move) (Is k)
    fun fadt m => fadt = k.fadt ∧ Is k m := by
  refine Program.under_perform stable_is ?_
  rintro _ _ ⟨hw, received, rfl⟩ ⟨⟩
  exact ⟨rfl, hw, received, rfl⟩

theorem under_getCurrentResources : (perform .getCurrentResources).Under (ps2Handler hardware)
    (Moves hardware move) (Is k) fun resources m => resources = k.resources ∧
      Is { k with held := k.held + if k.resources.isSome = true then 1 else 0 } m := by
  refine Program.under_perform stable_is ?_
  rintro _ _ ⟨hw, received, rfl⟩ ⟨⟩
  exact ⟨rfl, hw, received, rfl⟩

/-- A probe that gives up after the interrupts were turned off. -/
theorem under_giveUp (held : Nat)
    (lost : held = if k.fadt.isSome = true ∧ k.resources.isSome = true then 1 else 0) :
    (do
      perform (.setIntFlag true)
      pure (-enodev) : Ps2Program Int).Under (ps2Handler hardware) (Moves hardware move)
        (Is { k with intFlag := false, held := k.held + held }) fun result m => Probed k m result := by
  refine (under_setIntFlag true).bind fun _ => Program.under_ret ?_
  rintro _ ⟨hw, received, rfl⟩
  exact ⟨rfl, fun _ => ⟨rfl, rfl, by rw [lost]⟩, fun ok => absurd ok (by decide)⟩

theorem under_probe (m : Machine H) (turns : Nat) : (probe turns).Under (ps2Handler hardware)
    (Moves hardware move) (Is m) fun result m' => Probed m m' result := by
  refine (under_setIntFlag false).bind fun _ => under_findFadt.bind fun fadt => ?_
  refine Program.under_and fun (same : fadt = m.fadt) => ?_
  cases fadt with
  | none => exact under_giveUp (k := m) 0 (by rw [← same]; rfl)
  | some iapcBootArch =>
    refine under_getCurrentResources.bind fun resources => ?_
    refine Program.under_and fun (given : resources = m.resources) => ?_
    cases resources with
    | none =>
      have none : (if m.resources.isSome = true then 1 else 0) = 0 := by rw [← given]; rfl
      dsimp only
      rw [none]
      exact (onlyPorts_log _).bind fun _ => under_giveUp (k := m) 0 (by rw [← given]; simp)
    | some kbRes =>
      have lost : 1 = if m.fadt.isSome = true ∧ m.resources.isSome = true then 1 else 0 := by
        rw [← same, ← given]
        rfl
      have one : (if m.resources.isSome = true then 1 else 0) = 1 := by rw [← given]; rfl
      dsimp only
      rw [one]
      refine Program.under_ite (fun _ => under_giveUp (k := m) 1 lost) fun present => ?_
      have flag : iapcBootArch.getLsbD 1 = true := (and_bit_ne_zero (by decide : 1 < 16)).mp present
      refine (under_probeController turns kbRes).post ?_
      rintro result m' (⟨rfl, hw, received, rfl⟩ | ⟨rfl, lines, installed, hw, received, rfl⟩)
      · exact ⟨rfl, fun _ => ⟨rfl, rfl, congrArg (m.held + ·) lost⟩, fun ok => absurd ok (by decide)⟩
      · refine ⟨rfl, fun bad => (bad rfl).elim, fun _ => ?_⟩
        refine ⟨iapcBootArch, kbRes, same.symm, flag, given.symm, rfl, ?_⟩
        rcases installed with rfl | rfl
        · exact .inl (List.append_nil _)
        · exact .inr rfl

/-- For every hardware, every run of it meanwhile, and every time at which the keyboard interrupts. -/
theorem probe_any_hardware (hardware : Hardware H) (move : H → H → Prop) (turns : Nat) {result : Int}
    (ends : (probe turns).Ends (ps2Handler hardware) (fun _ => Moves hardware move) [] m result m') :
    Probed m m' result := by
  exact (under_probe m turns).ends (is_self m) ends

/-! ### A run -/

/-- A code of the keyboard is handled as soon as that is let through, and else the controller runs. -/
def Board.attended (b : Board) (m : Machine Controller) : Machine Controller :=
  if m.intFlag = true ∧ m.installed ≠ [] ∧ m.hw.chip.output.any (·.1 == .keyboard) = true then
    { m with
      hw := (b.hardware.inb outputPort m.hw).2
      received := m.received ++ [(b.hardware.inb outputPort m.hw).1] }
  else { m with hw := b.eager m.hw }

theorem moves_attended (b : Board) (m : Machine Controller) :
    ReflTransGen (Moves b.hardware b.Runs) m (b.attended m) := by
  unfold Board.attended
  split
  · rename_i through
    exact .single (.interrupt through.1 through.2.1)
  · rcases runs_eager (b := b) m.hw with same | runs
    · rw [same]
    · exact .single (.device runs)

/-- The handler is there from an earlier probe. -/
def probedBefore : Machine Controller := { switchedOn with installed := [1] }

/-- The code that waits is handled before the interrupts are off, and the controller answers all. -/
theorem probe_any_hardware_again : ∃ m', (probe 8).Ends (ps2Handler desktop.hardware)
    (fun _ => Moves desktop.hardware desktop.Runs) [] probedBefore statusOk m' ∧
      m'.received = [0x1C] ∧ Probed probedBefore m' statusOk := by
  have ran : ((probe 8).run (Program.scheduled (ps2Handler desktop.hardware) desktop.attended)
      probedBefore).any (fun r => r.1 == statusOk && r.2.received == [0x1C]) = true := by
    decide +kernel
  obtain ⟨⟨result, m'⟩, run, same⟩ := Option.any_eq_true _ _ |>.mp ran
  obtain ⟨ok, received⟩ := Bool.and_eq_true_iff.mp same
  obtain rfl := eq_of_beq ok
  have ends : (probe 8).Ends (ps2Handler desktop.hardware)
      (fun _ => Moves desktop.hardware desktop.Runs) [] probedBefore statusOk m' :=
    Program.ends_of_scheduled (moves_attended desktop) run
  exact ⟨m', ends, eq_of_beq received, probe_any_hardware _ _ _ ends⟩

end KopalniaOS.Ps2
