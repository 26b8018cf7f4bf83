import Mathlib.Logic.Function.Basic

/-!
# Character terminals

A grid of `h` rows of `w` cells with a cursor in it. What does not fit on the last row pushes the
rows up.
-/
namespace KopalniaOS.Library

/-- `cells y x` is the cell in row `y` and column `x`. -/
structure Terminal (w h : Nat) (α : Type) where
  cells : Nat → Nat → α
  x : Nat
  y : Nat
  x_lt : x < w
  y_lt : y < h

namespace Terminal

variable {w h : Nat} {α : Type} (blank : α) (t : Terminal w h α)

/-- An empty grid with the cursor at the origin. -/
def empty (width : 0 < w) (height : 0 < h) : Terminal w h α :=
  ⟨fun _ _ => blank, 0, 0, width, height⟩

/-- All rows move up by one, and the last one gets blank. -/
def scrolled (y x : Nat) : α :=
  if y + 1 < h then t.cells (y + 1) x else blank

/-- The cell under the cursor. -/
def put (a : α) : Terminal w h α :=
  { t with cells := Function.update t.cells t.y (Function.update (t.cells t.y) t.x a) }

@[simp] theorem cells_put_self (a : α) : (t.put a).cells t.y t.x = a := by
  simp [put]

theorem cells_put_of_ne (a : α) {y x : Nat} (other : ¬(y = t.y ∧ x = t.x)) :
    (t.put a).cells y x = t.cells y x := by
  by_cases row : y = t.y
  · simp [put, row, show x ≠ t.x from fun col => other ⟨row, col⟩]
  · simp [put, row]

/-- To the start of the next row; from the last row on, the grid scrolls. -/
def newline : Terminal w h α :=
  if below : t.y + 1 < h then
    { t with x := 0, y := t.y + 1, x_lt := Nat.zero_lt_of_lt t.x_lt, y_lt := below }
  else
    { t with cells := t.scrolled blank, x := 0, x_lt := Nat.zero_lt_of_lt t.x_lt }

def advance (amount : Nat) : Terminal w h α :=
  if right : t.x + amount < w then { t with x := t.x + amount, x_lt := right }
  else t.newline blank

/-- One cell to the left; from the first one to the end of the row before, or of the first row. -/
def stepBack : Terminal w h α :=
  if t.x = 0 then
    { t with
      x := w - 1, y := t.y - 1, x_lt := Nat.sub_one_lt_of_lt t.x_lt,
      y_lt := Nat.lt_of_le_of_lt (Nat.sub_le t.y 1) t.y_lt }
  else { t with x := t.x - 1, x_lt := Nat.lt_of_le_of_lt (Nat.sub_le t.x 1) t.x_lt }

def write (a : α) : Terminal w h α := (t.put a).advance blank 1

/-- Blanks the cell under the cursor and the one that it steps back to. -/
def erase (space : α) : Terminal w h α := ((t.put space).stepBack).put space

end Terminal

end KopalniaOS.Library
