import KopalniaOS.Ps2.Probe

/-!
# The end of the probe

Of what the keyboard has answered, one byte is not read. With the handler installed it can take that
byte before the buffers are flushed, and a device on the second port may answer whatever it likes.
-/
namespace KopalniaOS.Ps2

open Library Relation

variable {b : Board} {k m m' : Machine Controller} {config : BitVec 8} {P : Chip → Prop}

/-! ### After the keyboard was set up -/

/-- Only what the second port sends, and acknowledgements of the keyboard, can still come. -/
structure Chip.Settled (b : Board) (config : BitVec 8) (target : Target) (c : Chip) : Prop where
  target : c.target = target
  config : c.config = config
  scanning : c.keyboard.scanning = true
  set : c.keyboard.set = 1
  argument : c.keyboard.argument = false
  pending : ∀ value ∈ c.keyboard.pending, value = ack
  output : ∀ answer ∈ c.output, answer.1 = .second ∨ answer.2 = ack
  single : b.dual = false → c.second = [] ∧ ∀ answer ∈ c.output, answer.1 ≠ .second

/-! ### The rest of the machine -/

/-! ### With interrupts -/

/-- The machine is `k`, but the handler may have read acknowledgements. -/
def Settling (b : Board) (k : Machine Controller) (config : BitVec 8) (m : Machine Controller) : Prop :=
  ∃ c acks, m = { k with hw := ⟨none, c⟩, received := k.received ++ acks } ∧
    (∀ value ∈ acks, value = ack) ∧ c.Settled b config .keyboard

/-! ### The whole probe -/

/-- Nothing is under way, except that a byte may have been left in the output buffer. -/
structure Controller.Quiet (c : Controller) : Prop where
  input : c.input = none
  target : c.chip.target = .keyboard
  pending : c.chip.keyboard.pending = []
  argument : c.chip.keyboard.argument = false
  second : c.chip.second = []

/-- The keyboard is set up: its port is on and interrupts, its codes are not translated, and it sends
those of the first set. The handler is installed, and no list of resources is lost. -/
def SetUp (b : Board) (line : BitVec 8) (m m' : Machine Controller) : Prop :=
  ∃ config, Bits b (enabledBits b.dual) config ∧
    Settling b { m with intFlag := true, installed := m.installed ++ [line] } config m'

/-! ### A run -/

end KopalniaOS.Ps2
