import KopalniaOS.Keyboard.Model
import KopalniaOS.Ps2.Model

/-!
# The controller and the keyboard

The controller takes a byte that was written when it gets to it, and a device sends a byte when its port
is on and the output buffer is empty. The driver only sees the two ports.
-/
namespace KopalniaOS.Ps2

open Library Relation

/-! ### Devices -/

/-- `pending` is what the keyboard still has to send. After the command to choose a set of scan codes an
argument follows. -/
structure Keyboard where
  pending : List (BitVec 8)
  scanning : Bool
  set : BitVec 8
  argument : Bool

/-- What differs from one machine to the other. A controller that is not prompt may still have a command
in its input buffer when the next byte is written to it, and that one replaces it. -/
structure Board where
  dual : Bool
  prompt : Bool
  line : BitVec 8
  id2 : BitVec 8
  translate : BitVec 8 → BitVec 8
  second : BitVec 8 → List (BitVec 8)

/-- What the keyboard answers. -/
def Board.answer (b : Board) (k : Keyboard) (value : BitVec 8) : List (BitVec 8) :=
  if k.argument = true then [ack]
  else if value = 0xFF then [ack, 0xAA]
  else if value = 0xF2 then [ack, 0xAB, b.id2]
  else if value = 0xF5 ∨ value = 0xF4 ∨ value = 0xF0 then [ack]
  else [0xFE]

/-- How it is set then; after a reset it scans, and uses the second set. -/
def Keyboard.obey (k : Keyboard) (value : BitVec 8) : Keyboard :=
  if k.argument = true then { k with set := value, argument := false }
  else if value = 0xFF then { k with scanning := true, set := 2 }
  else if value = 0xF5 then { k with scanning := false }
  else if value = 0xF4 then { k with scanning := true }
  else if value = 0xF0 then { k with argument := true }
  else k

/-- The keyboard gets a byte. -/
def Board.tell (b : Board) (k : Keyboard) (value : BitVec 8) : Keyboard :=
  { k.obey value with pending := k.pending ++ b.answer k value }

/-! ### The controller -/

inductive Source where
  | controller
  | keyboard
  | second
deriving DecidableEq, Repr

/-- Where a byte goes that is written to the port for data. -/
inductive Target where
  | keyboard
  | config
  | second
deriving DecidableEq, Repr

/-- Everything but the input buffer. `last` is what a read finds if nothing new is there. -/
structure Chip where
  output : Option (Source × BitVec 8)
  last : BitVec 8
  config : BitVec 8
  target : Target
  keyboard : Keyboard
  second : List (BitVec 8)

/-- The input buffer says whether its byte is a command. -/
structure Controller where
  input : Option (Bool × BitVec 8)
  chip : Chip

/-- Without a second port its clock is always off. -/
def Board.normal (b : Board) (config : BitVec 8) : BitVec 8 :=
  if b.dual = true then config else secondPortClock.set config 1

def Board.withConfig (b : Board) (c : Chip) (config : BitVec 8) : Chip :=
  { c with config := b.normal config }

/-- What a byte does when it is taken out of the input buffer; a byte that is answered waits until the
output buffer is empty. The self-test leaves the configuration at `reset`. -/
def Board.take (b : Board) (reset : BitVec 8) : Bool × BitVec 8 → Chip → Option Chip
  | (true, value), c =>
    if value = 0x20 then
      if c.output.isSome = true then none else some { c with output := some (.controller, c.config) }
    else if value = 0xAA then
      if c.output.isSome = true then none
      else some (b.withConfig { c with output := some (.controller, 0x55) } reset)
    else if value = 0x60 then some { c with target := .config }
    else if value = 0xA7 then some (b.withConfig c (secondPortClock.set c.config 1))
    else if value = 0xA8 then some (b.withConfig c (secondPortClock.set c.config 0))
    else if value = 0xAD then some (b.withConfig c (firstPortClock.set c.config 1))
    else if value = 0xAE then some (b.withConfig c (firstPortClock.set c.config 0))
    else if value = 0xD4 then some { c with target := .second }
    else some c
  | (false, value), c =>
    match c.target with
    | .keyboard => some { c with keyboard := b.tell c.keyboard value }
    | .config => some { b.withConfig c value with target := .keyboard }
    | .second => some { c with
        second := c.second ++ if b.dual = true then b.second value else []
        target := .keyboard }

/-- A device sends a byte. Codes of the keyboard are translated if the configuration says so. -/
inductive Board.Sends (b : Board) : Chip → Chip → Prop
  | keyboard {c value rest} : c.output = none → c.config.getLsbD 4 = false →
      c.keyboard.pending = value :: rest →
        b.Sends c { c with
          output := some (.keyboard, if c.config.getLsbD 6 = true then b.translate value else value)
          keyboard := { c.keyboard with pending := rest } }
  | second {c value rest} : c.output = none → c.config.getLsbD 5 = false → c.second = value :: rest →
      b.Sends c { c with output := some (.second, value), second := rest }

inductive Board.Runs (b : Board) : Controller → Controller → Prop
  | take {x reset c c'} : b.take reset x c = some c' → b.Runs ⟨some x, c⟩ ⟨none, c'⟩
  | send {input c c'} : b.Sends c c' → b.Runs ⟨input, c⟩ ⟨input, c'⟩

/-! ### The ports -/

def Controller.status (c : Controller) : BitVec 8 :=
  (if c.chip.output.isSome = true then 1 else 0) ||| if c.input.isSome = true then 2 else 0

def Chip.read (c : Chip) : BitVec 8 × Chip :=
  match c.output with
  | some (_, value) => (value, { c with output := none, last := value })
  | none => (c.last, c)

def Controller.inb (port : Nat) (c : Controller) : BitVec 8 × Controller :=
  if port = inputPort then (c.status, c) else (c.chip.read.1, { c with chip := c.chip.read.2 })

def Board.outb (b : Board) (port : Nat) (value : BitVec 8) (c : Controller) : Controller :=
  if port = inputPort then
    if b.prompt = true ∧ value = 0x60 then { c with chip := { c.chip with target := .config } }
    else { c with input := some (true, value) }
  else { c with input := some (false, value) }

def Board.hardware (b : Board) : Hardware Controller where
  inb := Controller.inb
  outb := b.outb

/-- The controller runs. It interrupts when it may, for a byte that is not the second port's. -/
inductive Board.Moves (b : Board) : Machine Controller → Machine Controller → Prop
  | device {m c} : b.Runs m.hw c → b.Moves m { m with hw := c }
  | interrupt {m source value} : m.intFlag = true → b.line ∈ m.installed →
      m.hw.chip.config.getLsbD 0 = true → m.hw.chip.output = some (source, value) → source ≠ .second →
        b.Moves m { m with
          hw := (m.hw.inb outputPort).2
          received := m.received ++ [(m.hw.inb outputPort).1] }

/-- The handler of a run in which no wait reaches its limit. -/
def patient (b : Board) : Handler Ps2Op Ps2Op.Answer (Machine Controller) := fun o m =>
  if o = .log .commandTimedOut ∨ o = .log .readTimedOut then none else ps2Handler b.hardware o m

/-! ### Bits -/

/-! ### A board that does not wait -/

/-- Nothing takes longer than it has to. -/
def Board.eager (b : Board) (c : Controller) : Controller :=
  match c.input with
  | some x =>
    match b.take 0 x c.chip with
    | some chip => ⟨none, chip⟩
    | none => c
  | none =>
    if c.chip.output.isSome = true then c
    else
      match c.chip.keyboard.pending, c.chip.second with
      | value :: rest, _ =>
        if c.chip.config.getLsbD 4 = true then c
        else ⟨none, { c.chip with
          output := some (.keyboard,
            if c.chip.config.getLsbD 6 = true then b.translate value else value)
          keyboard := { c.chip.keyboard with pending := rest } }⟩
      | [], value :: rest =>
        if c.chip.config.getLsbD 5 = true then c
        else ⟨none, { c.chip with output := some (.second, value), second := rest }⟩
      | [], [] => c

theorem runs_eager {b : Board} (c : Controller) : b.eager c = c ∨ b.Runs c (b.eager c) := by
  obtain ⟨input, chip⟩ := c
  unfold Board.eager
  cases input with
  | some x =>
    cases taken : b.take 0 x chip with
    | some chip' => exact .inr (by simpa only [taken] using Board.Runs.take taken)
    | none => exact .inl (by simp only [taken])
  | none =>
    dsimp only
    split
    · exact .inl rfl
    · rename_i notFull
      have empty : chip.output = none := Option.not_isSome_iff_eq_none.mp notFull
      -- the keyboard comes first
      split
      · rename_i pending
        split
        · exact .inl rfl
        · rename_i on
          exact .inr (.send (.keyboard empty (Bool.eq_false_iff.mpr on) pending))
      · rename_i waiting
        split
        · exact .inl rfl
        · rename_i on
          exact .inr (.send (.second empty (Bool.eq_false_iff.mpr on) waiting))
      · exact .inl rfl

/-- A board with a mouse, whose codes the firmware has translated. -/
def desktop : Board where
  dual := true
  prompt := true
  line := 1
  id2 := 0x83
  translate value := value
  second value := if value = 0xFF then [ack, 0xAA, 0x00] else [ack]

def switchedOn : Machine Controller where
  hw := ⟨none, {
    output := some (.keyboard, 0x1C)
    last := 0
    config := 0x47
    target := .keyboard
    keyboard := ⟨[], true, 2, false⟩
    second := [] }⟩
  intFlag := true
  fadt := some 0x3
  resources := some [.other, .irq 1]
  held := 0
  installed := []
  received := []

end KopalniaOS.Ps2
