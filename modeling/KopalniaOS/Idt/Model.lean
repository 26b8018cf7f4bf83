import KopalniaOS.Hpet.Model
import KopalniaOS.Library.Program

/-!
# Interrupt dispatch

Drivers install their handlers in rows of four, one row for each vector, and `isr_common` calls the
handlers in the row of the vector that was raised. `installHandler` stands where the timers use it.
-/
namespace KopalniaOS.Idt

open Library
open Hpet (HandlerTable installHandler)

variable {ι κ : Type}

/-! ### Installing -/

/-- `custom_handlers` and `custom_handlers_count` before anything is installed. -/
def noHandlers : HandlerTable ι where
  handlers _ _ := none
  count _ := 0
  routed := []

/-- The calls of `Install_handler` one after the other, each with its handler and its line. -/
def installAll (calls : List (Option ι × Nat)) : HandlerTable ι :=
  calls.foldl (fun t call => installHandler call.1 call.2 t) noHandlers

/-! ### Dispatching -/

def getExceptionName : Nat → String
  | 0 => "Divide Error"
  | 1 => "Debug"
  | 2 => "Non Maskable Interrupt"
  | 3 => "Breakpoint"
  | 4 => "Overflow"
  | 5 => "Bound Range Exceeded"
  | 6 => "Invalid Opcode"
  | 7 => "Device Not Available"
  | 8 => "Double Fault"
  | 10 => "Invalid TSS"
  | 11 => "Segment Not Present"
  | 12 => "Stack-Segment Fault"
  | 13 => "General Protection"
  | 14 => "Page Fault"
  | 16 => "x87 FPU Floating-Point"
  | 17 => "Alignment Check"
  | 18 => "Machine Check"
  | 19 => "SIMD Floating-Point"
  | 20 => "Virtualization Exception"
  | 21 => "Control Protection Exception (yes its acronym is #CP)"
  | 28 => "Hypervisor Injection Exception"
  | 29 => "VMM Communication Exception"
  | 30 => "Security Exception"
  | _ => "Unknown"

/-- The registers that `isr_common` looks at. -/
structure IsrRegisters where
  intNo : Nat
  errorCode : Nat
  rip : Nat
deriving DecidableEq, Repr

/-- `ι` are the installed handlers and `κ` those of uACPI. -/
inductive DispatchOp (ι κ : Type) where
  | error (format : String) (name : Option String) (values : List Nat)
  | readCr2
  | swap
  | halt
  | readCount (vector : Nat)
  | readHandler (vector i : Nat)
  | call (handler : Option ι) (regs : IsrRegisters)
  | readUacpiHandler (vector : Nat)
  | callUacpiHandler (handler : κ) (vector : Nat)
  | incTick
  | writeApic (reg value : Nat)
  | readPicEnabled
  | picSendEoi (irq : Nat)

abbrev DispatchOp.Answer : DispatchOp ι κ → Type
  | .readCr2 => Nat
  | .readCount _ => Nat
  | .readHandler _ _ => Option ι
  | .readUacpiHandler _ => Option κ
  | .readPicEnabled => Bool
  | _ => Unit

abbrev DispatchProgram (ι κ : Type) := Program (DispatchOp ι κ) DispatchOp.Answer

def perform (o : DispatchOp ι κ) : DispatchProgram ι κ o.Answer := Program.perform o

/-- `calls` are the calls of installed handlers, the latest last. No handler installs another. -/
structure Machine (ι κ : Type) where
  table : HandlerTable ι
  uacpiHandlers : Nat → Option κ
  cr2 : Nat
  picEnabled : Bool
  tick : Nat
  calls : List (ι × IsrRegisters)

/-- Calling the null pointer faults, and with interrupts off `hlt` does not return. -/
def dispatchHandler : Handler (DispatchOp ι κ) DispatchOp.Answer (Machine ι κ)
  | .error _ _ _, m => some ((), m)
  | .readCr2, m => some (m.cr2, m)
  | .swap, m => some ((), m)
  | .halt, _ => none
  | .readCount vector, m => some (m.table.count vector, m)
  | .readHandler vector i, m => some (m.table.handlers vector i, m)
  | .call none _, _ => none
  | .call (some handler) regs, m => some ((), { m with calls := m.calls ++ [(handler, regs)] })
  | .readUacpiHandler vector, m => some (m.uacpiHandlers vector, m)
  | .callUacpiHandler _ _, m => some ((), m)
  | .incTick, m => some ((), { m with tick := (m.tick + 1) % 2 ^ 64 })
  | .writeApic _ _, m => some ((), m)
  | .readPicEnabled, m => some (m.picEnabled, m)
  | .picSendEoi _, m => some ((), m)

/-- The loop over the row; the count has eight bits. -/
def callHandlers (regs : IsrRegisters) : (left i : Nat) → DispatchProgram ι κ Unit
  | 0, _ => .stuck
  | left + 1, i => do
    let count ← perform (.readCount regs.intNo)
    if i < count then do
      let handler ← perform (.readHandler regs.intNo i)
      perform (.call handler regs)
      callHandlers regs left (i + 1)
    else pure ()

def isrException (regs : IsrRegisters) : DispatchProgram ι κ Unit := do
  perform (.error "%s &c%x\n&4Caused by RIP: &e%x" (some (getExceptionName regs.intNo))
    [regs.errorCode, regs.rip])
  let cr2 ← perform .readCr2
  perform (.error "CR2: %x" none [cr2])
  perform .swap
  perform .halt

def callUacpi (vector : Nat) : DispatchProgram ι κ Unit := do
  let handler ← perform (.readUacpiHandler vector)
  match handler with
  | none => pure ()
  | some handler => perform (.callUacpiHandler handler vector)

def endOfInterrupt (vector : Nat) : DispatchProgram ι κ Unit := do
  perform (.writeApic 0xB0 0)
  let enabled ← perform .readPicEnabled
  if enabled = true then perform (.picSendEoi ((vector - 32) % 256)) else pure ()

def isrCommon (regs : IsrRegisters) : DispatchProgram ι κ Unit := do
  if regs.intNo ≤ 31 then isrException regs else pure ()
  callHandlers regs 256 0
  callUacpi regs.intNo
  if regs.intNo = 32 then perform .incTick else pure ()
  if 32 ≤ regs.intNo then endOfInterrupt regs.intNo else pure ()

end KopalniaOS.Idt
