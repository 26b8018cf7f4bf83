import KopalniaOS.Keyboard.Delivery
import KopalniaOS.Ps2.SetUp

/-!
# From the keys to the reader

The probe leaves the controller to itself. What is typed then goes through it to the handler, unless a
byte of the second port is in the way.
-/
namespace KopalniaOS.Ps2

open Library Relation
open KopalniaOS.Keyboard (ScanCode KeyboardState decode decodeByte keyboard)

/-! ### Typing -/

/-- A machine, and the scan codes that were typed. -/
structure Desk where
  machine : Machine Controller
  codes : List ScanCode

def Machine.press (m : Machine Controller) (code : ScanCode) : Machine Controller :=
  let keyboard := m.hw.chip.keyboard
  { m with hw := { m.hw with chip := { m.hw.chip with
    keyboard := { keyboard with pending := keyboard.pending ++ code.bytes.map UInt8.toBitVec } } } }

/-- A keyboard that scans sends the codes of its set. -/
inductive Board.Works (b : Board) : Desk → Desk → Prop
  | moves {m m' : Machine Controller} {codes : List ScanCode} : b.Moves m m' →
      b.Works ⟨m, codes⟩ ⟨m', codes⟩
  | key {m : Machine Controller} {codes : List ScanCode} (code : ScanCode) :
      m.hw.chip.keyboard.scanning = true → m.hw.chip.keyboard.set = 1 →
        b.Works ⟨m, codes⟩ ⟨m.press code, codes ++ [code]⟩

def wire (codes : List ScanCode) : List (BitVec 8) := (codes.flatMap ScanCode.bytes).map UInt8.toBitVec

/-- What the keyboard has sent or will send, and the handler has not read. -/
def Chip.underWay (c : Chip) : List (BitVec 8) :=
  ((c.output.filter fun answer => answer.1 ≠ .second).map Prod.snd).toList ++ c.keyboard.pending

section Wire

variable {b : Board} {k : Machine Controller} {config : BitVec 8} {start received : List (BitVec 8)}
variable {c c' : Chip} {codes : List ScanCode}

/-- The bytes that were there before, and the codes that were typed, are on their way or received. -/
structure Flows (config : BitVec 8) (start : List (BitVec 8)) (c : Chip) (received : List (BitVec 8))
    (codes : List ScanCode) : Prop where
  config : c.config = config
  scanning : c.keyboard.scanning = true
  set : c.keyboard.set = 1
  order : received ++ c.underWay = start ++ wire codes

/-- The machine is `k` apart from this. -/
def Typed (k : Machine Controller) (config : BitVec 8) (start : List (BitVec 8)) (d : Desk) : Prop :=
  ∃ c received, d.machine = { k with hw := ⟨none, c⟩, received } ∧ Flows config start c received d.codes

/-! ### Progress -/

/-- The handler is called for the line of the keyboard. -/
structure Listens (b : Board) (k : Machine Controller) (config : BitVec 8) : Prop where
  intFlag : k.intFlag = true
  installed : b.line ∈ k.installed
  enabled : config.getLsbD 0 = true
  clock : config.getLsbD 4 = false

end Wire

/-! ### The reader -/

/-- Where the codes that were typed at a desk have got to. -/
structure Arrives (b : Board) (d : Desk) : Prop where
  /-- The handler has read the first part of what was sent. -/
  order : ∃ acks, (∀ value ∈ acks, value = ack) ∧
    d.machine.received ++ d.machine.hw.chip.underWay = acks ++ wire d.codes
  /-- The codes that were popped and those that wait are keys that were pressed, or all of them. -/
  reader : ∀ s : KeyboardState, keyboard.Reachable Keyboard.start (.idle s) →
    s.delivered = d.machine.received.map UInt8.ofBitVec →
      s.popped ++ s.waiting <+: d.codes.filterMap ScanCode.make ∧
        (d.machine.hw.chip.underWay = [] → s.popped ++ s.waiting = d.codes.filterMap ScanCode.make)
  /-- The handler can read the rest, unless the output buffer has a byte of the second port. -/
  progress : (∀ value, d.machine.hw.chip.output ≠ some (.second, value)) →
    ∃ d', ReflTransGen b.Works d d' ∧ d'.codes = d.codes ∧ d'.machine.hw.chip.underWay = []
  blocked : (∃ value, d.machine.hw.chip.output = some (.second, value)) →
    ∀ d', ReflTransGen b.Works d d' → d'.machine.received = d.machine.received

/-! ### After the probe -/

def keyA : ScanCode := ⟨false, 0x1E, by decide⟩

end KopalniaOS.Ps2
