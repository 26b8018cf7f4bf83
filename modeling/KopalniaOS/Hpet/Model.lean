import KopalniaOS.Library.BitField
import Mathlib.Logic.Function.Basic

/-!
# The event timers

`hpet::init` gives every timer of the device the first interrupt line that its register offers and
that no timer has, and installs the same handler on each line.
-/
namespace KopalniaOS.Hpet

open Library

/-! ### Interrupt handlers -/

/-- `custom_handlers` and `custom_handlers_count`; `routed` are the lines that the IO APIC was told to
route, with their vectors. -/
structure HandlerTable (ι : Type) where
  handlers : Nat → Nat → Option ι
  count : Nat → Nat
  routed : List (Nat × Nat)

variable {ι : Type}

/-- `Install_handler`; a handler is a pointer that may be null. -/
def installHandler (handler : Option ι) (irqNo : Nat) (t : HandlerTable ι) : HandlerTable ι :=
  if handler.isNone = true then t
  else if 24 ≤ irqNo then t
  else
    let vector := irqNo + 32
    if 4 ≤ t.count vector then t
    else
      -- the first handler of a row has its line routed
      let t := if t.count vector = 0 then { t with routed := t.routed ++ [(irqNo, vector)] } else t
      { t with
        handlers := Function.update t.handlers vector
          (Function.update (t.handlers vector) (t.count vector) handler)
        count := Function.update t.count vector (t.count vector + 1) }

/-- `isr_common` calls the handlers of a row up to its count. -/
def Registered (handler : ι) (vector : Nat) (t : HandlerTable ι) : Prop :=
  ∃ j < t.count vector, t.handlers vector j = some handler

/-! ### Registers -/

def capabilityRegisterOffset : Nat := 0x0
def configurationRegisterOffset : Nat := 0x10
def mainCounterRegisterOffset : Nat := 0xF0

/-- `TIMER_N_CONFIGURATION_REGISTER` -/
def timerRegister (num : Nat) : Nat := 0x100 + 0x20 * num

/-- `capability_register` -/
def numTimers : BitField := ⟨8, 5⟩
def counterClockPeriod : BitField := ⟨32, 32⟩

/-- `configuration_register` -/
def enabled : BitField := ⟨0, 1⟩

/-- `timer_configuration_register`; one bit is reserved in front of the vectors. -/
def interruptType : BitField := ⟨1, 1⟩
def enableInterrupts : BitField := ⟨2, 1⟩
def enablePeriodic : BitField := ⟨3, 1⟩
def enable32b : BitField := ⟨8, 1⟩
def ioapicRoute : BitField := ⟨9, 5⟩
def enableFsb : BitField := ⟨14, 1⟩
def supportedInterruptVectors : BitField := ⟨17, 32⟩

def supported (config : BitVec 64) : BitVec 32 := supportedInterruptVectors.get config

/-! ### The driver -/

/-- `vec` is `0xFF` until a line is found. -/
structure Timer where
  vec : Nat
  timerNum : Nat
  doesExist : Bool
deriving DecidableEq, Repr

def Timer.unset : Timer := ⟨0xFF, 0, false⟩

/-- The device keeps what is written to a register, at its offset from `hpet_base`. -/
structure State (ι : Type) where
  registers : Nat → BitVec 64
  usedVectors : BitVec 32
  timers : Nat → Timer
  table : HandlerTable ι
  frequency : Nat
  ticksPerMs : Nat
  ticksPerUs : Nat

def State.write (s : State ι) (offset : Nat) (value : BitVec 64) : State ι :=
  { s with registers := Function.update s.registers offset value }

/-- Before `hpet::init`: any registers, and any handlers that others have installed. -/
def start (registers : Nat → BitVec 64) (table : HandlerTable ι) : State ι where
  registers
  usedVectors := 0
  timers _ := .unset
  table
  frequency := 0
  ticksPerMs := 0
  ticksPerUs := 0

/-- The loop of `timer::init`, with `config` on the stack. -/
def selectVector (timerHandler : ι) (num : Nat) :
    (left i : Nat) → BitVec 64 → State ι → BitVec 64 × State ι
  | 0, _, config, s => (config, s)
  | left + 1, i, config, s =>
    if supported config &&& 1#32 <<< i ≠ 0#32 ∧
        s.usedVectors &&& 1#32 <<< i = 0#32 then
      (ioapicRoute.set config i,
        { s with
          usedVectors := s.usedVectors ||| 1#32 <<< i
          timers := Function.update s.timers num { s.timers num with vec := i }
          -- nothing tells whether the handler was refused
          table := installHandler (some timerHandler) i s.table })
    else selectVector timerHandler num left (i + 1) config s

/-- The fields that `timer::init` sets before it looks for a line. -/
def prepare (config : BitVec 64) : BitVec 64 :=
  let config := enableInterrupts.set config 1
  let config := interruptType.set config 0
  let config := enable32b.set config 0
  let config := enableFsb.set config 0
  enablePeriodic.set config 0

/-- `timer::init` -/
def initTimer (timerHandler : ι) (num : Nat) (s : State ι) : State ι :=
  let s := { s with timers := Function.update s.timers num { s.timers num with timerNum := num } }
  let config := prepare (s.registers (timerRegister num))
  let r := selectVector timerHandler num 30 0 config s
  -- without a line the register keeps what it had
  if (r.2.timers num).vec = 0xFF then r.2
  else
    let s := r.2.write (timerRegister num) r.1
    { s with timers := Function.update s.timers num { s.timers num with doesExist := true } }

/-- The timers before `n`, one after the other. -/
def initTimers (timerHandler : ι) : (n : Nat) → State ι → State ι
  | 0, s => s
  | n + 1, s => initTimer timerHandler n (initTimers timerHandler n s)

/-- `hpet::init`; `found` tells whether there is a table. A period of zero traps in the division. -/
def init (timerHandler : ι) (found : Bool) (s : State ι) : Option (Bool × State ι) :=
  if found = false then some (false, s)
  else
    let cap := s.registers capabilityRegisterOffset
    let conf := enabled.set (s.registers configurationRegisterOffset) 1
    let period := (counterClockPeriod.get cap).toNat
    if period = 0 then none
    else
      let frequency := 1000000000000000 / period
      let s := { s with
        frequency
        ticksPerMs := frequency / 1000
        ticksPerUs := frequency / 1000000 }
      let s := s.write mainCounterRegisterOffset 0
      let s := s.write configurationRegisterOffset conf
      some (true, initTimers timerHandler ((numTimers.get cap).toNat + 1) s)

end KopalniaOS.Hpet
