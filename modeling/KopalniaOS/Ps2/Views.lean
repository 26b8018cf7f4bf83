import KopalniaOS.Ps2.Exchange

/-!
# What the driver finds

A view puts together what the controller and the keyboard still have to send. The exchanges of the
driver are functions of views, although the machine takes its time with each of them.
-/
namespace KopalniaOS.Ps2

open Library Relation

structure View where
  out : List (BitVec 8)
  config : BitVec 8
  scanning : Bool
  set : BitVec 8
  argument : Bool

/-- Nothing is under way apart from `out`, and no code is translated. -/
structure Chip.Shows (c : Chip) (v : View) : Prop where
  target : c.target = .keyboard
  out : (c.output.map Prod.snd).toList ++ c.keyboard.pending = v.out
  source : ∀ answer ∈ c.output, answer.1 ≠ .second
  plain : c.keyboard.pending = [] ∨ c.config.getLsbD 6 = false
  config : c.config = v.config
  scanning : c.keyboard.scanning = v.scanning
  set : c.keyboard.set = v.set
  argument : c.keyboard.argument = v.argument
  second : c.second = []

variable {b : Board} {k : Machine Controller} {v : View} {c c' : Chip}

/-! ### Bytes -/

/-- How the keyboard is set after a byte. -/
def View.tell (b : Board) (v : View) (value : BitVec 8) : View :=
  let keyboard : Keyboard := ⟨[], v.scanning, v.set, v.argument⟩
  { v with
    out := v.out ++ b.answer keyboard value
    scanning := (keyboard.obey value).scanning
    set := (keyboard.obey value).set
    argument := (keyboard.obey value).argument }

/-! ### Commands -/

end KopalniaOS.Ps2
