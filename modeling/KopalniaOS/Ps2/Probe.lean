import KopalniaOS.Ps2.AnyController
import KopalniaOS.Ps2.Views

/-!
# The probe of a keyboard

On a machine that has a controller with a keyboard, `probe` turns the keyboard on as the interrupt
handler expects it, however long every byte takes, as long as no wait reaches its limit and no key is
pressed.
-/
namespace KopalniaOS.Ps2

open Library Relation

variable {b : Board} {k : Machine Controller} {v : View} {C : BitVec 8 → Prop} {P : Chip → Prop}

/-! ### The controller -/

/-- The view with some configuration of this kind. -/
def Configured (k : Machine Controller) (v : View) (C : BitVec 8 → Prop) (m : Machine Controller) :
    Prop :=
  ∃ config, C config ∧ Has k (fun c => c.Shows { v with config }) m

/-- A configuration that the controller can have, with these bits. -/
structure Bits (b : Board) (bits : List (Nat × Bool)) (config : BitVec 8) : Prop where
  normal : b.normal config = config
  bits : ∀ p ∈ bits, config.getLsbD p.1 = p.2

/-- Nothing is under way, but a byte may have been left in the output buffer. -/
def Chip.Idle (v : View) (c : Chip) : Prop :=
  { c with output := none }.Shows { v with config := c.config }

/-- How the ports are left. -/
def enabledBits (dualChannel : Bool) : List (Nat × Bool) :=
  (if dualChannel = true then [(1, true), (5, false)] else []) ++ [(0, true), (4, false), (6, false)]

/-! ### The keyboard -/

section Device

variable {out rest : List (BitVec 8)} {config set value data : BitVec 8} {scanning argument : Bool}
variable {α : Type} {Q : α → Machine Controller → Prop}

end Device

end KopalniaOS.Ps2
