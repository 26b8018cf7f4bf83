import KopalniaOS.Gpu.Framebuffer
import Mathlib.Data.Int.Init

/-!
# Filled rectangles

`renderer::rectangle` tests the start corner and then draws as many pixels as the size asks for.
Start and size come from user space. What `screen_pos` and `screen_size` return for them is any
pair of `int`; sums of `int` wrap here, as the code that is built without optimisation does.
-/
namespace KopalniaOS.Gpu

open Library Stdlib

/-- `glm::ivec2` -/
structure IVec2 where
  x : Int32
  y : Int32
deriving DecidableEq

/-- Calls of `set_pixel`. -/
inductive DrawOp where
  | setPixel (x y : Nat) (color : UInt32)

abbrev DrawOp.Answer : DrawOp → Type := fun _ => Unit

abbrev DrawProgram := Program DrawOp DrawOp.Answer

theorem toInt_add_one {x stop : Int32} (before : x < stop) : (x + 1).toInt = x.toInt + 1 := by
  have less := Int32.lt_iff_toInt_lt.mp before
  have low := x.le_toInt
  have high := stop.toInt_lt
  rw [Int32.toInt_add]
  show Int.bmod (x.toInt + 1) (2 ^ 32) = _
  apply Int.bmod_eq_of_le <;> omega

/-! ### The function -/

/-- The loop over `x`. The conversions to `u32` are those of the call. -/
def fillRow (color : UInt32) (y stop x : Int32) : DrawProgram Unit :=
  if x < stop then do
    Program.perform (DrawOp.setPixel (u32 x.toInt) (u32 y.toInt) color)
    fillRow color y stop (x + 1)
  else pure ()
termination_by (stop.toInt - x.toInt).toNat
decreasing_by
  rename_i before
  have less := Int32.lt_iff_toInt_lt.mp before
  rw [toInt_add_one before]
  omega

/-- The loop over `y`. -/
def fillRows (color : UInt32) (start s : IVec2) (y : Int32) : DrawProgram Unit :=
  if y < start.y + s.y then do
    fillRow color y (start.x + s.x) start.x
    fillRows color start s (y + 1)
  else pure ()
termination_by ((start.y + s.y).toInt - y.toInt).toNat
decreasing_by
  rename_i before
  have less := Int32.lt_iff_toInt_lt.mp before
  rw [toInt_add_one before]
  omega

/-- The start corner is not on the screen. The comparisons with the size are unsigned. -/
def Rejected (info : Info) (start : IVec2) : Prop :=
  start.x < 0 ∨ start.y < 0 ∨ info.width ≤ u32 start.x.toInt ∨ info.height ≤ u32 start.y.toInt

instance (info : Info) (start : IVec2) : Decidable (Rejected info start) :=
  inferInstanceAs (Decidable (_ ∨ _))

/-- `start` and `s` are what `screen_pos` and `screen_size` return. -/
def rectangle (fb : Framebuffer) (start s : IVec2) (color : UInt32) : DrawProgram Framebuffer := do
  if Rejected fb.info start then pure fb
  else do
    fillRows color start s start.y
    pure { fb with isDirty := true }

/-! ### Which pixels it draws -/

section Pixels

variable {Q : DrawOp → Prop}

theorem fillRow_always_iff (color : UInt32) (y stop x : Int32) :
    (fillRow color y stop x).Always Q ↔
      ∀ px, x.toInt ≤ px → px < stop.toInt → Q (.setPixel (u32 px) (u32 y.toInt) color) := by
  induction x using fillRow.induct stop with
  | case1 x before ih =>
    have next := toInt_add_one before
    have less := Int32.lt_iff_toInt_lt.mp before
    rw [fillRow, if_pos before, Program.always_perform_bind]
    simp only [ih, next, forall_const]
    constructor
    · rintro ⟨first, rest⟩ px low high
      -- the first pixel of what is left, or a later one
      by_cases here : px = x.toInt
      · rw [here]
        exact first
      · exact rest px (by omega) high
    · intro all
      exact ⟨all x.toInt (Int.le_refl _) less, fun px low high => all px (by omega) high⟩
  | case2 x after =>
    have past : stop.toInt ≤ x.toInt := by
      rw [Int32.lt_iff_toInt_lt] at after
      omega
    rw [fillRow, if_neg after]
    exact ⟨fun _ px low high => absurd high (by omega), fun _ => trivial⟩

theorem fillRows_always_iff (color : UInt32) (start s : IVec2) (y : Int32) :
    (fillRows color start s y).Always Q ↔
      ∀ py, y.toInt ≤ py → py < (start.y + s.y).toInt →
        ∀ px, start.x.toInt ≤ px → px < (start.x + s.x).toInt →
          Q (.setPixel (u32 px) (u32 py) color) := by
  induction y using fillRows.induct start s with
  | case1 y before ih =>
    have next := toInt_add_one before
    have less := Int32.lt_iff_toInt_lt.mp before
    rw [fillRows, if_pos before, Program.always_bind_unit, ih, fillRow_always_iff, next]
    constructor
    · rintro ⟨first, rest⟩ py low high
      -- the first row of what is left, or a later one
      by_cases here : py = y.toInt
      · rw [here]
        exact first
      · exact rest py (by omega) high
    · intro all
      exact ⟨all y.toInt (Int.le_refl _) less, fun py low high => all py (by omega) high⟩
  | case2 y after =>
    have past : (start.y + s.y).toInt ≤ y.toInt := by
      rw [Int32.lt_iff_toInt_lt] at after
      omega
    rw [fillRows, if_neg after]
    exact ⟨fun _ py low high => absurd high (by omega), fun _ => trivial⟩

/-- The calls are those for the pixels of the rectangle. -/
theorem rectangle_always_iff (fb : Framebuffer) (start s : IVec2) (color : UInt32) :
    (rectangle fb start s color).Always Q ↔ Rejected fb.info start ∨
      ∀ py, start.y.toInt ≤ py → py < (start.y + s.y).toInt →
        ∀ px, start.x.toInt ≤ px → px < (start.x + s.x).toInt →
          Q (.setPixel (u32 px) (u32 py) color) := by
  unfold rectangle
  split
  next rejected => exact ⟨fun _ => .inl rejected, fun _ => trivial⟩
  next accepted =>
    rw [Program.always_bind_unit, fillRows_always_iff, or_iff_right accepted]
    exact and_iff_left trivial

end Pixels

/-! ### Where the pixels are -/

/-- The index that `set_pixel` writes. -/
def pixelIndex (info : Info) (x y : Nat) : Nat := (y * info.pixelsInScanline + x) % 2 ^ 32

/-- The call is for a pixel of the screen, and its index is one of the back buffer. -/
def OnScreen (info : Info) : DrawOp → Prop
  | .setPixel x y _ => x < info.width ∧ y < info.height ∧
    pixelIndex info x y < info.height * info.pixelsInScanline

/-- Nothing is drawn, or the rectangle ends on the screen. -/
def Fits (info : Info) (start s : IVec2) : Prop :=
  Rejected info start ∨ (start.x + s.x).toInt ≤ start.x.toInt ∨
    (start.y + s.y).toInt ≤ start.y.toInt ∨
    ((start.x + s.x).toInt ≤ info.width ∧ (start.y + s.y).toInt ≤ info.height)

theorem u32_toNat {x : Int} (nonneg : 0 ≤ x) (small : x < 2 ^ 31) : (u32 x : Int) = x := by
  unfold u32
  omega

theorem onScreen_iff {info : Info} (wide : info.width ≤ info.pixelsInScanline) (x y : Nat)
    (color : UInt32) : OnScreen info (.setPixel x y color) ↔ x < info.width ∧ y < info.height := by
  constructor
  · rintro ⟨inRow, inside, -⟩
    exact ⟨inRow, inside⟩
  · rintro ⟨inRow, inside⟩
    refine ⟨inRow, inside, ?_⟩
    have next := Nat.mul_le_mul_right info.pixelsInScanline (Nat.succ_le_of_lt inside)
    rw [Nat.succ_mul] at next
    have reduced := Nat.mod_le (y * info.pixelsInScanline + x) (2 ^ 32)
    unfold pixelIndex
    omega

theorem accepted_nonneg {info : Info} {start : IVec2} (accepted : ¬ Rejected info start) :
    0 ≤ start.x.toInt ∧ 0 ≤ start.y.toInt := by
  simp only [Rejected, not_or, Int32.lt_iff_toInt_lt, Int.not_lt] at accepted
  exact ⟨accepted.1, accepted.2.1⟩

section Screen

variable {fb : Framebuffer} {start s : IVec2} (color : UInt32)
  (wide : fb.info.width ≤ fb.info.pixelsInScanline)
include wide

theorem onScreen_of_fits (fits : Fits fb.info start s) :
    (rectangle fb start s color).Always (OnScreen fb.info) := by
  rw [rectangle_always_iff]
  rcases fits with rejected | fits
  · exact .inl rejected
  by_cases rejected : Rejected fb.info start
  · exact .inl rejected
  right
  intro py low high px low' high'
  obtain ⟨left, top⟩ := accepted_nonneg rejected
  have farRight := (start.x + s.x).toInt_lt
  have bottom := (start.y + s.y).toInt_lt
  have x := u32_toNat (x := px) (by omega) (by omega)
  have y := u32_toNat (x := py) (by omega) (by omega)
  rw [onScreen_iff wide]
  omega

theorem fits_of_onScreen (calls : (rectangle fb start s color).Always (OnScreen fb.info)) :
    Fits fb.info start s := by
  rw [rectangle_always_iff] at calls
  rcases calls with rejected | all
  · exact .inl rejected
  by_cases rejected : Rejected fb.info start
  · exact .inl rejected
  obtain ⟨left, top⟩ := accepted_nonneg rejected
  have farRight := (start.x + s.x).toInt_lt
  have bottom := (start.y + s.y).toInt_lt
  by_contra outside
  simp only [Fits, not_or, not_and_or, Int.not_le] at outside
  obtain ⟨-, someX, someY, past⟩ := outside
  -- the pixel in the last column and row is one that is drawn
  have last := all ((start.y + s.y).toInt - 1) (by omega) (by omega)
    ((start.x + s.x).toInt - 1) (by omega) (by omega)
  rw [onScreen_iff wide] at last
  have x := u32_toNat (x := (start.x + s.x).toInt - 1) (by omega) (by omega)
  have y := u32_toNat (x := (start.y + s.y).toInt - 1) (by omega) (by omega)
  omega

end Screen

/-- A rectangle whose start corner is on the screen stays on it exactly if it ends there. -/
theorem rectangle_onScreen_iff (fb : Framebuffer) (start s : IVec2) (color : UInt32)
    (wide : fb.info.width ≤ fb.info.pixelsInScanline) :
    (rectangle fb start s color).Always (OnScreen fb.info) ↔ Fits fb.info start s :=
  ⟨fits_of_onScreen color wide, onScreen_of_fits color wide⟩

/-! ### In memory -/

/-- `set_pixel` for every call. -/
def drawn (fb : Framebuffer) : (o : DrawOp) → MemProgram (DrawOp.Answer o)
  | .setPixel x y color => setPixel fb x y color

/-- Stores go to pixels of the back buffer. -/
def InPixels (fb : Framebuffer) : MemOp → Prop
  | .load .. => True
  | .store w a _ =>
    fb.backBuffer ≤ a ∧ a + w ≤ fb.backBuffer + 4 * (fb.info.height * fb.info.pixelsInScanline)

/-- A pixel of the screen is one of the back buffer. -/
theorem drawn_inPixels {fb : Framebuffer} {o : DrawOp} (on : OnScreen fb.info o) :
    (drawn fb o).Always (InPixels fb) := by
  obtain ⟨x, y, color⟩ := o
  obtain ⟨-, -, index⟩ := on
  unfold pixelIndex at index
  refine ⟨⟨Nat.le_add_right .., ?_⟩, fun _ => trivial⟩
  rw [Nat.add_assoc]
  omega

/-! ### A screen of 800 by 600 pixels -/

def smallScreen : Framebuffer :=
  { initialized := true, info := ⟨0xC0000000, 800, 600, 800, 4 * (600 * 800)⟩ }

/-- The lower right quarter. -/
theorem rectangle_onScreen_iff_quarter :
    (rectangle smallScreen ⟨400, 300⟩ ⟨400, 300⟩ 0xFF0000).Always (OnScreen smallScreen.info) ↔
      Fits smallScreen.info ⟨400, 300⟩ ⟨400, 300⟩ :=
  rectangle_onScreen_iff smallScreen ⟨400, 300⟩ ⟨400, 300⟩ 0xFF0000 (by decide)

/-- From the upper left corner, twice as wide as the screen. -/
theorem not_onScreen_wide :
    ¬ (rectangle smallScreen ⟨0, 0⟩ ⟨1600, 600⟩ 0xFF0000).Always (OnScreen smallScreen.info) := by
  rw [rectangle_always_iff]
  rintro (rejected | all)
  · exact absurd rejected (by decide)
  · -- the first pixel behind the first row
    have outside := all 0 (by decide) (by decide) 800 (by decide) (by decide)
    exact absurd outside.1 (by decide)

end KopalniaOS.Gpu
