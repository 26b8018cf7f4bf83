import KopalniaOS.Apic.Table
import KopalniaOS.Idt.Dispatch

/-!
# From a pin to its handlers

Drivers install handlers for lines and uACPI installs its own. Both program the controller, so that what
a pin raises depends on everything that has been installed before.
-/
namespace KopalniaOS.Apic

open Library
open Hpet (HandlerTable)
open Idt (accepted installAll noHandlers isrCommon dispatchHandler)

variable {ι κ : Type} {a : IOAPIC} {madt : Option (List Subtable)} {c : Chip}

/-! ### Installing -/

/-- The tables of handlers and the controller; a handler of uACPI comes with its context. -/
structure Kernel (ι κ : Type) where
  table : HandlerTable ι
  uacpiHandlers : Nat → Option κ
  chip : Chip

variable {s s' : Kernel ι κ}

def Kernel.boot (c : Chip) : Kernel ι κ := ⟨noHandlers, fun _ => none, c⟩

/-- The call of `route` that both functions make. -/
def Kernel.route (a : IOAPIC) (iso : IsoInfo) (vector : BitVec 8) (s : Kernel ι κ) : Option (Kernel ι κ) :=
  ((a.route (iso.gsi.setWidth 8) vector .fixed (if iso.levelTriggered = true then .level else .edge)
    iso.activeLow false).run apicHandler s.chip).map fun r => { s with chip := r.2 }

/-- `Install_handler`, with what it does to the controller. -/
def Kernel.installHandler (a : IOAPIC) (madt : Option (List Subtable)) (handler : Option ι)
    (irqNo : BitVec 8) (s : Kernel ι κ) : Option (Kernel ι κ) :=
  if handler.isNone = true then some s
  else if 24 ≤ irqNo then some s
  else
    let vector := irqNo + 32
    if 4 ≤ s.table.count vector.toNat then some s
    else do
      let s ← if s.table.count vector.toNat = 0 then do
          let s ← s.route a (resolveIrq madt irqNo) vector
          some { s with table.routed := s.table.routed ++ [(irqNo.toNat, vector.toNat)] }
        else some s
      some { s with
        table.handlers := Function.update s.table.handlers vector.toNat
          (Function.update (s.table.handlers vector.toNat) (s.table.count vector.toNat) handler)
        table.count := Function.update s.table.count vector.toNat (s.table.count vector.toNat + 1) }

/-- `install_uacpi_handler` -/
def Kernel.installUacpiHandler (handler : Option κ) (vector : BitVec 8) (s : Kernel ι κ) : Kernel ι κ :=
  { s with uacpiHandlers := Function.update s.uacpiHandlers vector.toNat handler }

/-- `uacpi_kernel_install_interrupt_handler` -/
def Kernel.uacpiInstall (a : IOAPIC) (madt : Option (List Subtable)) (irq : BitVec 32) (handler : κ)
    (s : Kernel ι κ) : Option (Kernel ι κ) := do
  let vector := (irq + 32).setWidth 8
  let iso := resolveIrq madt (irq.setWidth 8)
  let s ← s.route a iso vector
  some (s.installUacpiHandler (some handler) vector)

/-- `uacpi_kernel_uninstall_interrupt_handler`; the handle is the number of the line. -/
def Kernel.uacpiUninstall (irqHandle : BitVec 64) (s : Kernel ι κ) : Kernel ι κ :=
  let irq := irqHandle.setWidth 32
  s.installUacpiHandler none ((irq + 32).setWidth 8)

inductive Call (ι κ : Type) where
  | install (handler : Option ι) (irqNo : BitVec 8)
  | uacpiInstall (irq : BitVec 32) (handler : κ)
  | uacpiUninstall (irqHandle : BitVec 64)

def Kernel.step (a : IOAPIC) (madt : Option (List Subtable)) (s : Kernel ι κ) :
    Call ι κ → Option (Kernel ι κ)
  | .install handler irqNo => s.installHandler a madt handler irqNo
  | .uacpiInstall irq handler => s.uacpiInstall a madt irq handler
  | .uacpiUninstall irqHandle => some (s.uacpiUninstall irqHandle)

def Kernel.runs (a : IOAPIC) (madt : Option (List Subtable)) (s : Kernel ι κ) (calls : List (Call ι κ)) :
    Option (Kernel ι κ) :=
  calls.foldlM (Kernel.step a madt) s

/-- What the processor is asked to handle when pin `i` is raised. -/
def Kernel.raise (s : Kernel ι κ) (i : Nat) : Option (BitVec 8) :=
  if (s.chip.line i).masked = true then none else some (s.chip.line i).vector

/-! ### What the calls ask for -/

/-- The pin of a line, and what the controller is told about it. -/
def pinOf (a : IOAPIC) (madt : Option (List Subtable)) (irq : BitVec 8) : Nat :=
  slot ((resolveIrq madt irq).gsi.setWidth 8 - a.globalIntrBase)

/-- The line that belongs to a vector. -/
def lineOf (madt : Option (List Subtable)) (vector : BitVec 8) : Line :=
  let iso := resolveIrq madt (vector - 32)
  routed vector .fixed (if iso.levelTriggered = true then .level else .edge) iso.activeLow false

/-- The handlers that a list of calls installs with `Install_handler`. -/
def installed : List (Call ι κ) → List (Option ι × Nat)
  | [] => []
  | .install handler irqNo :: calls => (handler, irqNo.toNat) :: installed calls
  | _ :: calls => installed calls

/-- The vector that a call routes: uACPI routes always, and a driver routes with the first handler of
its line. -/
def Call.routes (before : List (Call ι κ)) : Call ι κ → Option (BitVec 8)
  | .install handler irqNo =>
    if handler.isSome = true ∧ irqNo < 24 ∧ accepted (installed before) irqNo.toNat = [] then
      some (irqNo + 32)
    else none
  | .uacpiInstall irq _ => some ((irq + 32).setWidth 8)
  | .uacpiUninstall _ => none

/-- The vectors that have been routed, the latest last. -/
def routedVectors : (before calls : List (Call ι κ)) → List (BitVec 8)
  | _, [] => []
  | before, call :: calls => (call.routes before).toList ++ routedVectors (before ++ [call]) calls

/-- The vector that pin `i` was given last. -/
def lastVector (a : IOAPIC) (madt : Option (List Subtable)) (calls : List (Call ι κ)) (i : Nat) :
    Option (BitVec 8) :=
  ((routedVectors [] calls).filter fun v => pinOf a madt (v - 32) = i).getLast?

/-- The handler that uACPI has for a vector. -/
def uacpiHandler (calls : List (Call ι κ)) (vector : Nat) : Option κ :=
  calls.foldl (fun handler call =>
    match call with
    | .install _ _ => handler
    | .uacpiInstall irq new => if vector = ((irq + 32).setWidth 8).toNat then some new else handler
    | .uacpiUninstall irqHandle =>
      if vector = ((irqHandle.setWidth 32 + 32 : BitVec 32).setWidth 8).toNat then none else handler) none

variable {calls before : List (Call ι κ)} {call : Call ι κ}

theorem routedVectors_concat (before calls : List (Call ι κ)) (call : Call ι κ) :
    routedVectors before (calls ++ [call]) =
      routedVectors before calls ++ (call.routes (before ++ calls)).toList := by
  induction calls generalizing before with
  | nil => simp [routedVectors]
  | cons first calls ih =>
    rw [List.cons_append, routedVectors, ih, routedVectors, List.append_assoc, List.append_assoc]
    rfl

theorem installed_concat (calls : List (Call ι κ)) (call : Call ι κ) :
    installed (calls ++ [call]) = installed calls ++ installed [call] := by
  induction calls with
  | nil => rfl
  | cons first calls ih =>
    cases first <;> simp only [List.cons_append, installed, ih]

/-- A call that routes decides about the pin of its vector, and about no other one. -/
theorem lastVector_concat (i : Nat) :
    lastVector a madt (calls ++ [call]) i =
      match call.routes calls with
      | some v => if i = pinOf a madt (v - 32) then some v else lastVector a madt calls i
      | none => lastVector a madt calls i := by
  rw [lastVector, routedVectors_concat, List.nil_append, List.filter_append]
  cases call.routes calls with
  | none => rw [Option.toList_none, List.filter_nil, List.append_nil, lastVector]
  | some v =>
    dsimp only
    by_cases here : pinOf a madt (v - 32) = i
    · have kept : [v].filter (fun v => decide (pinOf a madt (v - 32) = i)) = [v] :=
        List.filter_cons_of_pos (decide_eq_true here)
      rw [if_pos here.symm, Option.toList_some, kept, List.getLast?_concat]
    · have dropped : [v].filter (fun v => decide (pinOf a madt (v - 32) = i)) = [] :=
        List.filter_cons_of_neg (by simpa using here)
      rw [if_neg (Ne.symm here), Option.toList_some, dropped, List.append_nil, lastVector]

/-! ### One call -/

/-- What the kernel and the controller hold after some calls. -/
structure Represents (a : IOAPIC) (madt : Option (List Subtable)) (c : Chip) (calls : List (Call ι κ))
    (s : Kernel ι κ) : Prop where
  table : s.table = installAll (installed calls)
  uacpi : ∀ v, s.uacpiHandlers v = uacpiHandler calls v
  lines : s.chip.lines = c.lines
  line : ∀ i < c.lines, s.chip.line i = ((lastVector a madt calls i).map (lineOf madt)).getD (c.line i)

/-- Routing a vector programs the pin of its line. -/
theorem route_programs (a : IOAPIC) (madt : Option (List Subtable)) (vector : BitVec 8)
    (few : s.chip.lines ≤ 120) :
    ∃ chip, s.route a (resolveIrq madt (vector - 32)) vector = some { s with chip } ∧
      chip.lines = s.chip.lines ∧ ∀ i < s.chip.lines,
        chip.line i = if i = pinOf a madt (vector - 32) then lineOf madt vector else s.chip.line i := by
  obtain ⟨chip, ran, stored⟩ := run_route (c := s.chip) (a := a)
    ((resolveIrq madt (vector - 32)).gsi.setWidth 8) vector .fixed
    (if (resolveIrq madt (vector - 32)).levelTriggered = true then .level else .edge)
    (resolveIrq madt (vector - 32)).activeLow false
  refine ⟨chip, ?_, stored.lines, fun i inside => ?_⟩
  · rw [Kernel.route, ran]
    rfl
  · rw [stored.line few inside, Line.of_redirection]
    rfl

theorem toNat_vector {irqNo : BitVec 8} (low : irqNo < 24) : (irqNo + 32).toNat = irqNo.toNat + 32 := by
  have small : irqNo.toNat < 24 := low
  rw [BitVec.toNat_add]
  simp
  omega

theorem length_accepted_row (calls : List (Option ι × Nat)) (irq : Nat) :
    (installAll calls).count (irq + 32) = (accepted calls irq).length := by
  rw [(Idt.row_installAll calls (irq + 32)).count, Idt.rowOf, if_pos (Nat.le_add_left ..), Nat.add_sub_cancel]

/-- A refused call changes nothing, and it does not route. -/
theorem install_refused (a : IOAPIC) (madt : Option (List Subtable)) {handler : Option ι} {irqNo : BitVec 8}
    (table : s.table = installAll (installed calls))
    (refused : Idt.Refused s.table handler irqNo.toNat) :
    s.installHandler a madt handler irqNo = some s ∧
      Call.routes calls (.install handler irqNo : Call ι κ) = none := by
  unfold Idt.Refused at refused
  rcases refused with rfl | high | full
  · exact ⟨rfl, rfl⟩
  · have not_low : ¬irqNo < 24 := fun low => Nat.not_lt.mpr high low
    have above : 24 ≤ irqNo := high
    refine ⟨?_, ?_⟩
    · rw [Kernel.installHandler, if_pos above, ite_self]
    · rw [Call.routes, if_neg fun routes => not_low routes.2.1]
  · refine ⟨?_, ?_⟩
    · unfold Kernel.installHandler
      split
      · rfl
      · split
        · rfl
        · rename_i _ low
          dsimp only
          rw [toNat_vector (BitVec.not_le.mp low), if_pos full]
    · rw [table, length_accepted_row] at full
      rw [Call.routes, if_neg]
      rintro ⟨-, -, none⟩
      rw [none] at full
      exact absurd full (Nat.not_succ_le_zero 3)

/-- A call that is accepted does to the tables what `Install_handler` does, and routes its vector if its
handler is the first of the row. -/
theorem install_taken (a : IOAPIC) (madt : Option (List Subtable)) (handler : ι) {irqNo : BitVec 8}
    (low : irqNo < 24)
    (room : s.table.count (irqNo.toNat + 32) < 4) (few : s.chip.lines ≤ 120)
    (table : s.table = installAll (installed calls)) :
    ∃ s', s.installHandler a madt (some handler) irqNo = some s' ∧
      s'.table = Hpet.installHandler (some handler) irqNo.toNat s.table ∧
      s'.uacpiHandlers = s.uacpiHandlers ∧ s'.chip.lines = s.chip.lines ∧
      ∀ i < s.chip.lines, s'.chip.line i =
        match Call.routes calls (.install (some handler) irqNo : Call ι κ) with
        | some v => if i = pinOf a madt (v - 32) then lineOf madt v else s.chip.line i
        | none => s.chip.line i := by
  have low' : irqNo.toNat < 24 := low
  have first : accepted (installed calls) irqNo.toNat = [] ↔ s.table.count (irqNo.toNat + 32) = 0 := by
    rw [table, length_accepted_row, List.length_eq_zero_iff]
  have not_high : ¬24 ≤ irqNo := BitVec.not_le.mpr low
  rw [Idt.installHandler_taken low' room]
  unfold Kernel.installHandler
  rw [if_neg (by simp), if_neg not_high]
  dsimp only
  rw [toNat_vector low, if_neg (Nat.not_le.mpr room)]
  by_cases empty : s.table.count (irqNo.toNat + 32) = 0
  · have routes : Call.routes calls (.install (some handler) irqNo : Call ι κ) = some (irqNo + 32) :=
      if_pos ⟨rfl, low, first.mpr empty⟩
    obtain ⟨chip, routed, lines, line⟩ := route_programs a madt (irqNo + 32) few
    rw [BitVec.add_sub_cancel] at routed
    rw [if_pos empty, if_pos empty, routed, routes]
    exact ⟨_, rfl, rfl, rfl, lines, line⟩
  · have routes : Call.routes calls (.install (some handler) irqNo : Call ι κ) = none :=
      if_neg fun routes => empty (first.mp routes.2.2)
    rw [if_neg empty, if_neg empty, routes, List.append_nil]
    exact ⟨_, rfl, rfl, rfl, rfl, fun i _ => rfl⟩

theorem uacpiHandler_concat (calls : List (Call ι κ)) (call : Call ι κ) (vector : Nat) :
    uacpiHandler (calls ++ [call]) vector =
      match call with
      | .install _ _ => uacpiHandler calls vector
      | .uacpiInstall irq new =>
        if vector = ((irq + 32).setWidth 8).toNat then some new else uacpiHandler calls vector
      | .uacpiUninstall irqHandle =>
        if vector = ((irqHandle.setWidth 32 + 32 : BitVec 32).setWidth 8).toNat then none
        else uacpiHandler calls vector := by
  rw [uacpiHandler, List.foldl_append]
  rfl

/-- The lines after a call that did what it is meant to do to them. -/
theorem Represents.line_concat (rep : Represents a madt c calls s) {chip : Chip}
    (changed : ∀ i < s.chip.lines, chip.line i =
      match call.routes calls with
      | some v => if i = pinOf a madt (v - 32) then lineOf madt v else s.chip.line i
      | none => s.chip.line i) :
    ∀ i < c.lines, chip.line i =
      ((lastVector a madt (calls ++ [call]) i).map (lineOf madt)).getD (c.line i) := by
  intro i inside
  have before := rep.line i inside
  rw [changed i (by rw [rep.lines]; exact inside), lastVector_concat]
  cases call.routes calls with
  | none => exact before
  | some v =>
    dsimp only
    by_cases here : i = pinOf a madt (v - 32)
    · rw [if_pos here, if_pos here]
      rfl
    · rw [if_neg here, if_neg here]
      exact before

theorem represents_install (rep : Represents a madt c calls s) (few : c.lines ≤ 120)
    (handler : Option ι) (irqNo : BitVec 8) :
    ∃ s', s.installHandler a madt handler irqNo = some s' ∧
      Represents a madt c (calls ++ [.install handler irqNo]) s' := by
  have table : installAll (installed (calls ++ [.install handler irqNo])) =
      Hpet.installHandler handler irqNo.toNat s.table := by
    rw [installed_concat, rep.table]
    exact Idt.installAll_concat ..
  by_cases refused : Idt.Refused s.table handler irqNo.toNat
  · obtain ⟨ran, routes⟩ := install_refused a madt rep.table refused
    refine ⟨s, ran, ?_, fun v => ?_, rep.lines, rep.line_concat fun i _ => ?_⟩
    · rw [table, Idt.installHandler_refused refused]
    · rw [uacpiHandler_concat]
      exact rep.uacpi v
    · rw [routes]
  · obtain ⟨handler, rfl, low, room⟩ := Idt.taken_of_not_refused refused
    obtain ⟨s', ran, table', uacpi, lines, line⟩ := install_taken a madt handler low room
      (by rw [rep.lines]; exact few) rep.table
    refine ⟨s', ran, ?_, fun v => ?_, lines.trans rep.lines, rep.line_concat line⟩
    · rw [table, table']
    · rw [uacpiHandler_concat, uacpi]
      exact rep.uacpi v

theorem represents_installUacpiHandler (rep : Represents a madt c calls s) {handler : Option κ}
    {vector : BitVec 8} {chip : Chip} (lines : chip.lines = s.chip.lines)
    (changed : ∀ i < s.chip.lines, chip.line i =
      match call.routes calls with
      | some v => if i = pinOf a madt (v - 32) then lineOf madt v else s.chip.line i
      | none => s.chip.line i)
    (kept : installed [call] = []) (handles : ∀ v, uacpiHandler (calls ++ [call]) v =
      if v = vector.toNat then handler else uacpiHandler calls v) :
    Represents a madt c (calls ++ [call]) ({ s with chip }.installUacpiHandler handler vector) := by
  refine ⟨?_, fun v => ?_, lines.trans rep.lines, rep.line_concat changed⟩
  · rw [installed_concat, kept, List.append_nil]
    exact rep.table
  · rw [handles, ← rep.uacpi v]
    exact Function.update_apply ..

theorem represents_uacpiInstall (rep : Represents a madt c calls s) (few : c.lines ≤ 120)
    (irq : BitVec 32) (handler : κ) :
    ∃ s', s.uacpiInstall a madt irq handler = some s' ∧
      Represents a madt c (calls ++ [.uacpiInstall irq handler]) s' := by
  have line : (irq + 32).setWidth 8 - 32 = irq.setWidth 8 := by
    rw [BitVec.setWidth_add irq 32 (by decide : 8 ≤ 32)]
    exact BitVec.add_sub_cancel _ 32
  obtain ⟨chip, routed, lines, changed⟩ := route_programs (s := s) a madt ((irq + 32).setWidth 8)
    (by rw [rep.lines]; exact few)
  rw [line] at routed
  refine ⟨{ s with chip }.installUacpiHandler (some handler) ((irq + 32).setWidth 8), ?_, ?_⟩
  · rw [Kernel.uacpiInstall, routed, Option.bind_eq_bind, Option.bind_some]
  · exact represents_installUacpiHandler rep lines changed rfl (uacpiHandler_concat calls _)

theorem represents_uacpiUninstall (rep : Represents a madt c calls s) (irqHandle : BitVec 64) :
    Represents a madt c (calls ++ [.uacpiUninstall irqHandle]) (s.uacpiUninstall irqHandle) :=
  represents_installUacpiHandler rep rfl (fun _ _ => rfl) rfl (uacpiHandler_concat calls _)

theorem represents_step (rep : Represents a madt c calls s) (few : c.lines ≤ 120) (call : Call ι κ) :
    ∃ s', s.step a madt call = some s' ∧ Represents a madt c (calls ++ [call]) s' := by
  cases call with
  | install handler irqNo => exact represents_install rep few handler irqNo
  | uacpiInstall irq handler => exact represents_uacpiInstall rep few irq handler
  | uacpiUninstall irqHandle => exact ⟨_, rfl, represents_uacpiUninstall rep irqHandle⟩

/-- Every sequence of calls returns, and the tables and the lines are as the calls ask for. -/
theorem represents_runs (a : IOAPIC) (madt : Option (List Subtable)) (few : c.lines ≤ 120)
    (calls : List (Call ι κ)) :
    ∃ s, (Kernel.boot c).runs a madt calls = some s ∧ Represents a madt c calls s := by
  induction calls using List.reverseRecOn with
  | nil => exact ⟨_, rfl, rfl, fun _ => rfl, rfl, fun _ _ => rfl⟩
  | append_singleton calls call ih =>
    obtain ⟨s, ran, rep⟩ := ih
    obtain ⟨s', stepped, rep'⟩ := represents_step rep few call
    refine ⟨s', ?_, rep'⟩
    rw [Kernel.runs] at ran
    rw [Kernel.runs, List.foldlM_append, ran]
    simpa using stepped

/-! ### Raising a pin -/

variable {m : Idt.Machine ι κ} {regs : Idt.IsrRegisters} {row : List ι}

open Idt (Row DispatchOp)

/-- The operation does not call a handler of uACPI. -/
def NotUacpi (o : DispatchOp ι κ) : Prop := ∀ h v, o ≠ .callUacpiHandler h v

/-- The loop over the row does not call uACPI. -/
theorem callHandlers_all (holds : Row m.table regs.intNo row) (left i : Nat) :
    (Idt.callHandlers regs left i).All dispatchHandler
      (fun o _ => NotUacpi o) m := by
  induction left generalizing i m with
  | zero => exact Program.all_stuck m
  | succ left ih =>
    refine (Program.all_perform_bind ..).mpr ⟨fun _ _ => nofun, ?_⟩
    rintro ⟨count, m⟩ ⟨⟩
    dsimp only
    split
    · refine (Program.all_perform_bind ..).mpr ⟨fun _ _ => nofun, ?_⟩
      rintro ⟨handler, m⟩ ⟨⟩
      refine (Program.all_perform_bind ..).mpr ⟨fun _ _ => nofun, ?_⟩
      rintro ⟨_, m'⟩ called
      cases handlers : m.table.handlers regs.intNo i with
      | none =>
        rw [handlers] at called
        cases called
      | some handler =>
        rw [handlers] at called
        cases called
        exact ih (m := { m with calls := m.calls ++ [(handler, regs)] }) ⟨holds.count, holds.handlers⟩ (i + 1)
    · exact Program.all_ret () m

theorem visits_callUacpi {h : κ} {t : Idt.Machine ι κ} (vector : Nat) :
    (Idt.callUacpi vector).Visits dispatchHandler m (.callUacpiHandler h vector) t ↔
      m.uacpiHandlers vector = some h ∧ m = t := by
  constructor
  · rintro (⟨⟨⟩, -⟩ | ⟨⟨answer, m'⟩, asked, rest⟩)
    cases asked
    cases handler : m.uacpiHandlers vector with
    | none =>
      rw [handler] at rest
      exact rest.elim
    | some handler' =>
      rw [handler] at rest
      rcases rest with ⟨⟨⟩, rfl⟩ | ⟨_, _, ⟨⟩⟩
      exact ⟨rfl, rfl⟩
  · rintro ⟨handler, rfl⟩
    refine .inr ⟨(some h, m), congrArg (fun answer => some (answer, m)) handler, .inl ⟨rfl, rfl⟩⟩

theorem endOfInterrupt_always (vector : Nat) :
    (Idt.endOfInterrupt vector : Idt.DispatchProgram ι κ Unit).Always NotUacpi := by
  refine ⟨fun _ _ => nofun, fun _ => ⟨fun _ _ => nofun, fun enabled => ?_⟩⟩
  cases enabled with
  | true => exact ⟨fun _ _ => nofun, fun _ => trivial⟩
  | false => trivial

/-- The end of `isr_common`, behind the handlers. -/
def afterHandlers (regs : Idt.IsrRegisters) : Idt.DispatchProgram ι κ Unit := do
  if regs.intNo = 32 then Idt.perform .incTick else pure ()
  if 32 ≤ regs.intNo then Idt.endOfInterrupt regs.intNo else pure ()

theorem afterHandlers_always (regs : Idt.IsrRegisters) :
    (afterHandlers regs : Idt.DispatchProgram ι κ Unit).Always NotUacpi := by
  have tail : (if 32 ≤ regs.intNo then Idt.endOfInterrupt regs.intNo else pure () :
      Idt.DispatchProgram ι κ Unit).Always NotUacpi := by
    split
    · exact endOfInterrupt_always regs.intNo
    · trivial
  unfold afterHandlers
  dsimp only
  split
  · exact Program.Always.bind ⟨fun _ _ => nofun, fun _ => trivial⟩ fun _ => tail
  · exact tail

/-- For a vector from 32 on the handler of uACPI is called, if there is one. -/
theorem isrCommon_visits {h : κ} (holds : Row m.table regs.intNo row) (short : row.length < 256)
    (device : 32 ≤ regs.intNo) :
    (∃ t, (isrCommon regs).Visits dispatchHandler m (.callUacpiHandler h regs.intNo) t) ↔
      m.uacpiHandlers regs.intNo = some h := by
  have loop := Idt.run_callHandlers holds 256 0 (by omega) (Nat.zero_le _)
  have regular : ¬regs.intNo ≤ 31 := by omega
  have parts : isrCommon regs = (do
      Idt.callHandlers regs 256 0
      Idt.callUacpi regs.intNo
      afterHandlers regs : Idt.DispatchProgram ι κ Unit) := by
    rw [isrCommon, if_neg regular]
    rfl
  have visits : ∀ t, (isrCommon regs).Visits dispatchHandler m (.callUacpiHandler h regs.intNo) t ↔
      m.uacpiHandlers regs.intNo = some h ∧
        { m with calls := m.calls ++ (row.drop 0).map fun handler => (handler, regs) } = t := by
    intro t
    have row : ¬(Idt.callHandlers regs 256 0).Visits dispatchHandler m (.callUacpiHandler h regs.intNo) t :=
      fun visit => callHandlers_all holds 256 0 _ t visit h regs.intNo rfl
    have rest : ∀ m' : Idt.Machine ι κ,
        ¬(afterHandlers regs).Visits dispatchHandler m' (.callUacpiHandler h regs.intNo) t := by
      intro m' visit
      have never := (afterHandlers_always regs).all (h := dispatchHandler)
        (P := fun (o : DispatchOp ι κ) _ => NotUacpi o) (fun _ _ not => not) m'
      exact never _ t visit h regs.intNo rfl
    rw [parts, Program.visits_bind_of_run loop, or_iff_right row,
      Program.visits_bind_of_run (Idt.run_callUacpi regs.intNo), or_iff_left (rest _), visits_callUacpi]
  simp only [visits, exists_and_left, exists_eq', and_true]

/-! ### Pins and handlers -/

/-- What happens when a vector is raised: the drivers' handlers are called, and then that of uACPI. -/
structure Serves (s : Kernel ι κ) (vector : Nat) (drivers : List ι) (uacpi : Option κ) : Prop where
  drivers : ∀ (m : Idt.Machine ι κ) (regs : Idt.IsrRegisters), m.table = s.table → regs.intNo = vector →
    ∃ m', (isrCommon regs).run dispatchHandler m = some ((), m') ∧
      m'.calls = m.calls ++ drivers.map fun handler => (handler, regs)
  uacpi : ∀ (m : Idt.Machine ι κ) (regs : Idt.IsrRegisters), m.table = s.table →
    m.uacpiHandlers = s.uacpiHandlers → regs.intNo = vector →
      ∀ h, (∃ t, (isrCommon regs).Visits dispatchHandler m (.callUacpiHandler h vector) t) ↔ uacpi = some h

theorem Represents.serves (rep : Represents a madt c calls s) {vector : Nat} (device : 32 ≤ vector) :
    Serves s vector (accepted (installed calls) (vector - 32)) (uacpiHandler calls vector) := by
  have row : Row s.table vector (accepted (installed calls) (vector - 32)) := by
    have holds := Idt.row_installAll (installed calls) vector
    rw [Idt.rowOf, if_pos device] at holds
    rw [rep.table]
    exact holds
  have short : (accepted (installed calls) (vector - 32)).length < 256 :=
    Nat.lt_of_le_of_lt (Idt.length_accepted ..) (by decide)
  constructor
  · rintro m regs table rfl
    rw [← table] at row
    exact Idt.run_isrCommon row short device
  · rintro m regs table uacpi rfl h
    rw [← table] at row
    rw [isrCommon_visits row short device, uacpi, rep.uacpi]

/-- A pin that was masked at first raises the vector that it was given last. -/
theorem Represents.raise_eq (rep : Represents a madt c calls s) {i : Nat} (inside : i < c.lines)
    (masked : (c.line i).masked = true) : s.raise i = lastVector a madt calls i := by
  rw [Kernel.raise, rep.line i inside]
  cases lastVector a madt calls i with
  | none => exact if_pos masked
  | some v => rfl

theorem pinOf_of_lastVector {i : Nat} {v : BitVec 8} (last : lastVector a madt calls i = some v) :
    v ∈ routedVectors [] calls ∧ pinOf a madt (v - 32) = i := by
  have member := List.mem_of_getLast? last
  rw [List.mem_filter, decide_eq_true_iff] at member
  exact member

/-- If no other vector has been given to its pin, a vector that was routed is the last one there. -/
theorem lastVector_of_unshared {v : BitVec 8} (routed : v ∈ routedVectors [] calls)
    (alone : ∀ w ∈ routedVectors [] calls, pinOf a madt (w - 32) = pinOf a madt (v - 32) → w = v) :
    lastVector a madt calls (pinOf a madt (v - 32)) = some v := by
  cases last : lastVector a madt calls (pinOf a madt (v - 32)) with
  | none =>
    have member : v ∈ (routedVectors [] calls).filter fun w =>
        pinOf a madt (w - 32) = pinOf a madt (v - 32) :=
      List.mem_filter.mpr ⟨routed, decide_eq_true rfl⟩
    rw [List.getLast?_eq_none_iff.mp last] at member
    cases member
  | some w =>
    obtain ⟨member, pin⟩ := pinOf_of_lastVector last
    rw [alone w member pin]

/-- The line of every handler that was accepted has been routed. -/
theorem routed_of_accepted {irq : BitVec 8} (low : irq < 24)
    (some : accepted (installed calls) irq.toNat ≠ []) : irq + 32 ∈ routedVectors [] calls := by
  induction calls using List.reverseRecOn with
  | nil =>
    refine (some ?_).elim
    rw [installed, accepted, List.filterMap_nil, List.take_nil, ite_self]
  | append_singleton calls call ih =>
    rw [routedVectors_concat, List.mem_append, List.nil_append]
    by_cases earlier : accepted (installed calls) irq.toNat = []
    · -- the call is the first that is accepted for its line
      right
      cases call with
      | install handler irqNo =>
        rw [installed_concat] at some
        by_cases other : irqNo.toNat ≠ irq.toNat ∨ handler = none
        · refine (some ?_).elim
          rw [← earlier]
          exact Idt.accepted_concat_other other
        · obtain ⟨same, present⟩ := not_or.mp other
          obtain rfl := BitVec.eq_of_toNat_eq (not_not.mp same)
          rw [Call.routes, if_pos ⟨Option.isSome_iff_ne_none.mpr present, low, earlier⟩]
          exact List.mem_singleton.mpr rfl
      | uacpiInstall _ _ =>
        rw [installed_concat] at some
        exact (some ((congrArg (accepted · irq.toNat) (List.append_nil _)).trans earlier)).elim
      | uacpiUninstall _ =>
        rw [installed_concat] at some
        exact (some ((congrArg (accepted · irq.toNat) (List.append_nil _)).trans earlier)).elim
    · exact .inl (ih earlier)

/-- After every sequence of calls, from a controller with its pins masked: a pin raises the vector that it
was given last, as the MADT describes the line of that vector, and the handlers that were accepted for
the line are called, and then that of uACPI. No vector comes from two pins, and where no two vectors
were given to one pin every accepted handler has its pin. -/
theorem pins_reach_handlers (a : IOAPIC) (madt : Option (List Subtable)) (few : c.lines ≤ 120)
    (masked : ∀ i < c.lines, (c.line i).masked = true) (calls : List (Call ι κ)) :
    ∃ s, (Kernel.boot c).runs a madt calls = some s ∧ s.table = installAll (installed calls) ∧
      (∀ i < c.lines, s.raise i = lastVector a madt calls i ∧
        ∀ v, s.raise i = some v → s.chip.line i = lineOf madt v ∧ i = pinOf a madt (v - 32) ∧
          (32 ≤ v.toNat → Serves s v.toNat (accepted (installed calls) (v.toNat - 32))
            (uacpiHandler calls v.toNat))) ∧
      ∀ irq < 24, accepted (installed calls) irq.toNat ≠ [] → pinOf a madt irq < c.lines →
        (∀ w ∈ routedVectors [] calls, pinOf a madt (w - 32) = pinOf a madt irq → w = irq + 32) →
        s.raise (pinOf a madt irq) = some (irq + 32) := by
  obtain ⟨s, ran, rep⟩ := represents_runs a madt few calls
  refine ⟨s, ran, rep.table, fun i inside => ?_, fun irq low some inside alone => ?_⟩
  · have raises := rep.raise_eq inside (masked i inside)
    refine ⟨raises, fun v raised => ?_⟩
    have last := raises.symm.trans raised
    refine ⟨?_, (pinOf_of_lastVector last).2.symm, fun device => rep.serves device⟩
    rw [rep.line i inside, last]
    rfl
  · rw [rep.raise_eq inside (masked _ inside)]
    have line : irq + 32 - 32 = irq := BitVec.add_sub_cancel irq 32
    have alone' : ∀ w ∈ routedVectors [] calls,
        pinOf a madt (w - 32) = pinOf a madt (irq + 32 - 32) → w = irq + 32 := by
      rw [line]
      exact alone
    have last := lastVector_of_unshared (routed_of_accepted low some) alone'
    rw [line] at last
    exact last

/-- A controller with 24 masked lines, and a table that moves line 0 to pin 2. -/
def quietChip : Chip where
  lines := 24
  select := 0
  registers _ := 0x00010000

def movedTimer : Option (List Subtable) :=
  some [.ioapic 0 0xFEC00000 0, .interruptSourceOverride 0 2 0, .interruptSourceOverride 9 9 0xD]

theorem masked_quietChip (i : Nat) : (quietChip.line i).masked = true := by
  rw [Chip.line, Line.of]
  dsimp only [quietChip, Chip.raw]
  decide

/-- The timer is on pin 2 and the keyboard on pin 1. -/
theorem pins_reach_handlers_timer :
    ∃ s, (Kernel.boot (κ := Unit) quietChip).runs ⟨0, 0x11, 24, 0⟩ movedTimer
        [.install (some 't') 0, .install (some 'k') 1] = some s ∧
      s.raise 2 = some 32 ∧ s.raise 1 = some 33 ∧ s.raise 0 = none := by
  obtain ⟨s, ran, -, pins, -⟩ := pins_reach_handlers ⟨0, 0x11, 24, 0⟩ movedTimer
    (c := quietChip) (by decide) (fun i _ => masked_quietChip i)
    [Call.install (κ := Unit) (some 't') 0, .install (some 'k') 1]
  refine ⟨s, ran, ?_, ?_, ?_⟩
  · rw [(pins 2 (by decide)).1]
    rfl
  · rw [(pins 1 (by decide)).1]
    rfl
  · rw [(pins 0 (by decide)).1]
    rfl

end KopalniaOS.Apic
