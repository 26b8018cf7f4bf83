import KopalniaOS.Ps2.Controller

/-!
# One exchange after the other

Without interrupts the controller can only get on with what it was told. The exchanges of the driver
leave a view of it behind: what is still to be read, whether the controller has it or the keyboard, and
how the two are set.
-/
namespace KopalniaOS.Ps2

open Library Relation

variable {b : Board} {k : Machine Controller} {P Q : Chip → Prop} {x : Bool × BitVec 8}

/-! ### Assertions -/

/-- The machine is `k`, with an empty input buffer. -/
def Has (k : Machine Controller) (P : Chip → Prop) (m : Machine Controller) : Prop :=
  ∃ c, m = { k with hw := ⟨none, c⟩ } ∧ P c

/-- The byte waits to be taken, or it has been. -/
def Sent (k : Machine Controller) (x : Bool × BitVec 8) (P Q : Chip → Prop) (m : Machine Controller) :
    Prop :=
  (∃ c, m = { k with hw := ⟨some x, c⟩ } ∧ P c) ∨ Has k Q m

/-- No interrupt of the keyboard is let through. -/
def Board.Off (b : Board) (k : Machine Controller) : Prop := k.intFlag = true → b.line ∉ k.installed

/-- Whenever the byte is taken, it makes `Q` out of `P`. -/
def Board.Turns (b : Board) (x : Bool × BitVec 8) (P Q : Chip → Prop) : Prop :=
  ∀ reset c c', P c → b.take reset x c = some c' → Q c'

/-! ### Ports -/

end KopalniaOS.Ps2
