import KopalniaOS.Gpu.Framebuffer
import KopalniaOS.Library.Terminal

/-!
# The framebuffer shows a character grid

The back buffer is read as a picture. What `put_char` does to it is what a terminal of cells does
to the rendering of its grid.
-/
namespace KopalniaOS.Gpu

open Library Stdlib

/-- What a bootloader hands over for a terminal of at least one character, with the back buffer
that it gets. Both buffers hold all pixels, and they are different objects. -/
structure Screen extends Info where
  backBuffer : Nat
  base_ne_zero : base ≠ 0
  one_col : 1 ≤ width / 8
  one_row : 1 ≤ height / 16
  width_le : width ≤ pixelsInScanline
  pixels_lt : height * pixelsInScanline < 2 ^ 32
  holds : 4 * (height * pixelsInScanline) ≤ size
  apart : base + size ≤ backBuffer ∨ backBuffer + size ≤ base

namespace Screen

variable (screen : Screen)

/-- Stores go to pixels of the back buffer. -/
def InBackBuffer : MemOp → Memory → Prop
  | .load .., _ => True
  | .store w a _, _ =>
    screen.backBuffer ≤ a ∧
      a + w ≤ screen.backBuffer + 4 * (screen.height * screen.pixelsInScanline)

/-- `picture y x` is the colour of the pixel in row `y` and column `x` of the back buffer. -/
def Shows (m : Memory) (picture : Nat → Nat → UInt32) : Prop :=
  ∀ y < screen.height, ∀ x < screen.pixelsInScanline,
    m.load 4 (screen.backBuffer + 4 * (y * screen.pixelsInScanline + x)) = (picture y x).toNat

end Screen

/-! ### Rendering -/

/-- A character and its colour. -/
abbrev Cell := UInt8 × UInt32

/-- A space that is not seen, whatever its glyph is. -/
def blank : Cell := (charSpace, backgroundColor)

def pixelOf (bits : UInt8) (color : UInt32) (col : Nat) : UInt32 :=
  if isSet bits col then color else backgroundColor

variable (font8x16 : Nat → UInt8)

/-- Cells are glyphs of 8 by 16 pixels, and everything else is background. -/
def render {w h : Nat} (t : Terminal w h Cell) (y x : Nat) : UInt32 :=
  if y / 16 < h ∧ x / 8 < w then
    pixelOf (glyph font8x16 (t.cells (y / 16) (x / 8)).1 (y % 16)) (t.cells (y / 16) (x / 8)).2 (x % 8)
  else backgroundColor

/-- What `put_char` means for the grid. -/
def typed {w h : Nat} (t : Terminal w h Cell) (call : Cell) : Terminal w h Cell :=
  if call.1 = charTab then (t.advance blank 4).write blank (charSpace, call.2)
  else if call.1 = charNewline then t.newline blank
  else if call.1 = charBackspace then t.erase (charSpace, call.2)
  else t.write blank call

variable {font8x16} {screen : Screen}

/-! ### Pictures in memory -/

namespace Screen

theorem pitch_lt (screen : Screen) : screen.pixelsInScanline < 2 ^ 32 := by
  have row : 0 < screen.height := Nat.pos_of_div_pos screen.one_row
  exact Nat.lt_of_le_of_lt (Nat.le_mul_of_pos_left _ row) screen.pixels_lt

theorem height_lt (screen : Screen) : screen.height < 2 ^ 32 := by
  have col : 0 < screen.pixelsInScanline :=
    Nat.lt_of_lt_of_le (Nat.pos_of_div_pos screen.one_col) screen.width_le
  exact Nat.lt_of_le_of_lt (Nat.le_mul_of_pos_right _ col) screen.pixels_lt

theorem index_lt {x y : Nat} (inRow : x < screen.pixelsInScanline) (inside : y < screen.height) :
    y * screen.pixelsInScanline + x < screen.height * screen.pixelsInScanline := by
  have next := Nat.mul_le_mul_right screen.pixelsInScanline (Nat.succ_le_of_lt inside)
  rw [Nat.succ_mul] at next
  omega

/-- Different pixels have different indices. -/
theorem index_inj {x y x' y' : Nat} (inRow : x < screen.pixelsInScanline)
    (inRow' : x' < screen.pixelsInScanline)
    (same : y * screen.pixelsInScanline + x = y' * screen.pixelsInScanline + x') :
    y = y' ∧ x = x' := by
  have positive := Nat.zero_lt_of_lt inRow
  have row := congrArg (· / screen.pixelsInScanline) same
  have col := congrArg (· % screen.pixelsInScanline) same
  simp only [Nat.mul_comm _ screen.pixelsInScanline, Nat.mul_add_div positive, Nat.mul_add_mod,
    Nat.div_eq_of_lt, Nat.mod_eq_of_lt, inRow, inRow', Nat.add_zero] at row col
  exact ⟨row, col⟩

theorem Shows.congr {m : Memory} {picture picture' : Nat → Nat → UInt32}
    (shown : screen.Shows m picture)
    (same : ∀ y < screen.height, ∀ x < screen.pixelsInScanline, picture y x = picture' y x) :
    screen.Shows m picture' := by
  intro y inside x inRow
  rw [← same y inside x inRow]
  exact shown y inside x inRow

/-- One more pixel. -/
theorem Shows.store {m : Memory} {picture : Nat → Nat → UInt32} (shown : screen.Shows m picture)
    {x y : Nat} (inRow : x < screen.pixelsInScanline) (color : UInt32) :
    screen.Shows
      (m.store 4 (screen.backBuffer + 4 * (y * screen.pixelsInScanline + x)) color.toNat)
      fun y' x' => if y' = y ∧ x' = x then color else picture y' x' := by
  intro y' inside x' inRow'
  dsimp only
  by_cases here : y' = y ∧ x' = x
  · obtain ⟨rfl, rfl⟩ := here
    rw [if_pos ⟨rfl, rfl⟩, Memory.load_store_same _ color.toNat_lt]
  · have elsewhere : y' * screen.pixelsInScanline + x' ≠ y * screen.pixelsInScanline + x :=
      fun same => here (index_inj inRow' inRow same)
    rw [if_neg here, Memory.load_store_disjoint _ (by omega)]
    exact shown y' inside x' inRow'

end Screen

/-! ### Drawing a character -/

/-- The object for this screen. -/
structure On (screen : Screen) (fb : Framebuffer) : Prop where
  info : fb.info = screen.toInfo
  backBuffer : fb.backBuffer = screen.backBuffer
  initialized : fb.initialized = true

variable {fb : Framebuffer} {m : Memory} {picture : Nat → Nat → UInt32}

/-- The rest of one row of a glyph. -/
theorem putCols_ensures (on : On screen fb) (bits : UInt8) {x y : Nat} (color : UInt32)
    (fits : x + 8 ≤ screen.width) (inside : y < screen.height) (left col : Nat)
    (ahead : col + left = 8) (shown : screen.Shows m picture) :
    (putCols fb bits x y color left col).Ensures memHandler screen.InBackBuffer m fun _ m' =>
      screen.Shows m' fun y' x' =>
        if y' = y ∧ x + col ≤ x' ∧ x' < x + 8 then pixelOf bits color (x' - x)
        else picture y' x' := by
  induction left generalizing col m picture with
  | zero =>
    refine shown.congr fun y' _ x' _ => ?_
    rw [if_neg (by omega)]
  | succ left ih =>
    have wide := screen.width_le
    have narrow := screen.pitch_lt
    have inRow : x + col < screen.pixelsInScanline := by omega
    have index := Screen.index_lt inRow inside
    have pixels := screen.pixels_lt
    rw [putCols, on.info, Nat.mod_eq_of_lt (by omega), if_neg (by omega), setPixel, on.info,
      on.backBuffer, Nat.mod_eq_of_lt (by omega)]
    refine Program.ensures_perform (memHandler_store _ _ _ _) ⟨by omega, by omega⟩ ?_
    refine (ih (col + 1) (by omega) (shown.store inRow _)).mono fun _ m' drawn => ?_
    refine drawn.congr fun y' _ x' _ => ?_
    -- the pixel of this turn comes before those of the others
    by_cases here : y' = y ∧ x' = x + col
    · obtain ⟨rfl, rfl⟩ := here
      rw [if_neg (by omega), if_pos ⟨rfl, rfl⟩, Nat.add_sub_cancel_left,
        if_pos (show y' = y' ∧ x + col ≤ x + col ∧ x + col < x + 8 by omega)]
      rfl
    · rw [if_neg here]
      by_cases later : y' = y ∧ x + (col + 1) ≤ x' ∧ x' < x + 8
      · rw [if_pos later, if_pos (by omega)]
      · rw [if_neg later, if_neg (by omega)]

theorem putRows_ensures (on : On screen fb) (c : UInt8) {x y : Nat} (color : UInt32)
    (fits : x + 8 ≤ screen.width) (inside : y + 16 ≤ screen.height) (left row : Nat)
    (ahead : row + left = 16) (shown : screen.Shows m picture) :
    (putRows font8x16 fb c x y color left row).Ensures memHandler screen.InBackBuffer m fun _ m' =>
      screen.Shows m' fun y' x' =>
        if (y + row ≤ y' ∧ y' < y + 16) ∧ x ≤ x' ∧ x' < x + 8 then
          pixelOf (glyph font8x16 c (y' - y)) color (x' - x)
        else picture y' x' := by
  induction left generalizing row m picture with
  | zero =>
    refine shown.congr fun y' _ x' _ => ?_
    rw [if_neg (by omega)]
  | succ left ih =>
    have low := screen.height_lt
    rw [putRows, on.info, Nat.mod_eq_of_lt (by omega), if_neg (by omega)]
    refine Program.ensures_bind (putCols_ensures on _ color fits (y := y + row) (by omega) 8 0 rfl shown) ?_
    intro _ m₁ drawn
    refine (ih (row + 1) (by omega) drawn).mono fun _ m' drawn => ?_
    refine drawn.congr fun y' _ x' _ => ?_
    -- the row of this turn lies above those of the others
    by_cases here : y' = y + row ∧ x + 0 ≤ x' ∧ x' < x + 8
    · obtain ⟨rfl, cell⟩ := here
      rw [if_neg (by omega), if_pos ⟨rfl, cell⟩, if_pos (by omega), Nat.add_sub_cancel_left]
    · rw [if_neg here]
      by_cases later : (y + (row + 1) ≤ y' ∧ y' < y + 16) ∧ x ≤ x' ∧ x' < x + 8
      · rw [if_pos later, if_pos (by omega)]
      · rw [if_neg later, if_neg (by omega)]

/-! ### Displaying a grid -/

/-- A terminal for this screen. -/
abbrev Grid (screen : Screen) := Terminal (screen.width / 8) (screen.height / 16) Cell

/-- The object has the cursor of the grid, and the memory shows its cells. -/
structure Displays (font8x16 : Nat → UInt8) (screen : Screen) (fb : Framebuffer) (m : Memory)
    (t : Grid screen) : Prop extends On screen fb where
  widthInChars : fb.widthInChars = (screen.width / 8 : Nat)
  heightInChars : fb.heightInChars = (screen.height / 16 : Nat)
  cursorX : fb.cursorX = t.x
  cursorY : fb.cursorY = t.y
  shown : screen.Shows m (render font8x16 t)

variable {t : Grid screen}

theorem pixelOf_blank (bits : UInt8) (col : Nat) : pixelOf bits backgroundColor col = backgroundColor := by
  simp [pixelOf]

/-- The cell under the cursor is redrawn. -/
theorem render_put (t : Grid screen) (c : UInt8) (color : UInt32) (y x : Nat) :
    (if (16 * t.y + 0 ≤ y ∧ y < 16 * t.y + 16) ∧ 8 * t.x ≤ x ∧ x < 8 * t.x + 8 then
        pixelOf (glyph font8x16 c (y - 16 * t.y)) color (x - 8 * t.x)
      else render font8x16 t y x) = render font8x16 (t.put (c, color)) y x := by
  have inGrid := And.intro t.y_lt t.x_lt
  by_cases here : y / 16 = t.y ∧ x / 8 = t.x
  · have cell : (t.put (c, color)).cells (y / 16) (x / 8) = (c, color) := by
      rw [here.1, here.2, Terminal.cells_put_self]
    rw [if_pos (by omega), render, if_pos (by omega), cell]
    congr 2 <;> omega
  · rw [if_neg (by omega), render, render, Terminal.cells_put_of_ne t _ here]

theorem putCharAt_ensures (displays : Displays font8x16 screen fb m t) (c : UInt8) (color : UInt32) :
    (putCharAt font8x16 fb c (u32 fb.cursorX) (u32 fb.cursorY) color).Ensures memHandler
      screen.InBackBuffer m fun fb' m' => Displays font8x16 screen fb' m' (t.put (c, color)) := by
  have low := screen.height_lt
  have wide := screen.width_le
  have narrow := screen.pitch_lt
  have inGrid := And.intro t.y_lt t.x_lt
  -- the cursor is in the grid, so its pixels are in the frame buffer and nothing wraps
  have x : u32 fb.cursorX * 8 % 2 ^ 32 = 8 * t.x := by
    rw [displays.cursorX, u32]
    omega
  have y : u32 fb.cursorY * 16 % 2 ^ 32 = 16 * t.y := by
    rw [displays.cursorY, u32]
    omega
  rw [putCharAt, if_neg (by simp [displays.initialized]), x, y]
  have on : On screen { fb with isDirty := true } :=
    ⟨displays.info, displays.backBuffer, displays.initialized⟩
  refine Program.ensures_bind
    (putRows_ensures on c color (by omega) (by omega) 16 0 rfl displays.shown) ?_
  intro _ m' drawn
  exact { displays with shown := drawn.congr fun y _ x _ => render_put t c color y x }

/-! ### Moving the cursor -/

/-- Rows that move up leave the last one blank; below it and beside it was background before. -/
theorem render_scrolled (t : Grid screen) (y x : Nat) :
    (if y + 16 < screen.height then render font8x16 t (y + 16) x else backgroundColor) =
      render font8x16 { t with cells := t.scrolled blank } y x := by
  have row : (y + 16) / 16 = y / 16 + 1 := by omega
  have line : (y + 16) % 16 = y % 16 := by omega
  unfold render
  dsimp only [Terminal.scrolled]
  rw [row, line]
  by_cases next : y / 16 + 1 < screen.height / 16
  · rw [if_pos (by omega), if_pos next]
    congr 1
    apply propext
    omega
  · have below : ¬(y / 16 + 1 < screen.height / 16 ∧ x / 8 < screen.width / 8) := fun inside =>
      next inside.1
    simp only [if_neg next, if_neg below, blank, pixelOf_blank, ite_self]

/-- The picture after `clear`. -/
theorem clear_ensures (info : fb.info = screen.toInfo)
    (backBuffer : fb.backBuffer = screen.backBuffer) (m : Memory) :
    (clear fb backgroundColor).Ensures memHandler screen.InBackBuffer m fun fb' m' =>
      fb' = { fb with isDirty := true } ∧ screen.Shows m' fun _ _ => backgroundColor := by
  rw [clear, info, backBuffer, Nat.mod_eq_of_lt screen.pixels_lt]
  refine Program.ensures_bind
    ((memset32_ensures m screen.backBuffer backgroundColor.toNat_lt _).weaken ?_) ?_
  · rintro (⟨w, a⟩ | ⟨w, a, v⟩) _ range
    · trivial
    · exact range
  · intro _ m' filled
    exact ⟨rfl, fun y inside x inRow => filled.inside _ (Screen.index_lt inRow inside)⟩

theorem scroll_ensures (on : On screen fb) (t : Grid screen)
    (shown : screen.Shows m (render font8x16 t)) :
    (scroll fb 1).Ensures memHandler screen.InBackBuffer m fun fb' m' =>
      fb' = { fb with isDirty := true } ∧
        screen.Shows m' (render font8x16 { t with cells := t.scrolled blank }) := by
  rw [scroll, if_neg (by simp [on.initialized]), if_neg (by decide)]
  dsimp only
  split
  · rename_i low
    rw [on.info] at low
    refine (clear_ensures on.info on.backBuffer m).mono ?_
    rintro fb' m' ⟨rfl, cleared⟩
    refine ⟨rfl, cleared.congr fun y inside x _ => ?_⟩
    rw [← render_scrolled, if_neg (by omega)]
  · rename_i high
    rw [on.info] at high ⊢
    rw [on.backBuffer]
    have tall : 16 ≤ screen.height := by omega
    have all : (screen.height - 16) * screen.pixelsInScanline + 16 * screen.pixelsInScanline =
        screen.height * screen.pixelsInScanline := by
      rw [← Nat.add_mul, Nat.sub_add_cancel tall]
    have pixels := screen.pixels_lt
    rw [show 1 * 16 % 2 ^ 32 = 16 from rfl, Nat.mod_eq_of_lt (by omega), Nat.mod_eq_of_lt (by omega)]
    -- the rows that stay move to lower addresses
    refine Program.ensures_bind ((memcpy_ensures m (.inl (Nat.le_add_right _ _))).weaken ?_) ?_
    · rintro (⟨w, a⟩ | ⟨w, a, v⟩) _ range
      · trivial
      · exact ⟨range.1, by have := range.2; omega⟩
    rintro _ m' rfl
    refine Program.ensures_bind
      ((memset32_ensures _ _ backgroundColor.toNat_lt _).weaken ?_) ?_
    · rintro (⟨w, a⟩ | ⟨w, a, v⟩) _ range
      · trivial
      · exact ⟨by have := range.1; omega, by have := range.2; omega⟩
    intro _ m'' filled
    refine ⟨rfl, fun y inside x inRow => ?_⟩
    rw [← render_scrolled]
    have index := Screen.index_lt inRow inside
    split
    · -- a row that moved up: the fill begins behind it
      rename_i stays
      have below := Screen.index_lt inRow stays
      have row : (y + 16) * screen.pixelsInScanline =
          y * screen.pixelsInScanline + 16 * screen.pixelsInScanline := Nat.add_mul ..
      rw [← shown (y + 16) stays x inRow, row,
        Memory.load_congr (m := m.copyFrom m _ _ _) 4 _ fun a low high => filled.outside a (by omega)]
      refine Memory.load_shift 4 _ _ fun i inWord => ?_
      rw [Nat.add_assoc, Memory.copyFrom_inside _ _ (by omega)]
      congr 1
      omega
    · -- one of the sixteen rows that were filled
      rename_i last
      have past := Nat.mul_le_mul_right screen.pixelsInScanline
        (show screen.height - 16 ≤ y by omega)
      have word := filled.inside
        (y * screen.pixelsInScanline + x - (screen.height - 16) * screen.pixelsInScanline) (by omega)
      rw [← word]
      congr 1
      omega

/-- The end of `inc_cursor` at the right border, and all of a newline. -/
theorem newline_ensures (displays : Displays font8x16 screen fb m t) :
    (if fb.heightInChars ≤ fb.cursorY + 1 then do
        let fb ← scroll { fb with cursorX := 0, cursorY := fb.cursorY + 1 } 1
        pure { fb with cursorY := fb.heightInChars - 1 }
      else pure { fb with cursorX := 0, cursorY := fb.cursorY + 1 } : MemProgram Framebuffer).Ensures
      memHandler screen.InBackBuffer m fun fb' m' =>
        Displays font8x16 screen fb' m' (t.newline blank) := by
  have rows := displays.heightInChars
  have y := displays.cursorY
  rw [Terminal.newline]
  split
  · -- from the last row on the cursor stays there and the picture moves
    rename_i last
    rw [dif_neg (by omega)]
    have on : On screen { fb with cursorX := 0, cursorY := fb.cursorY + 1 } :=
      ⟨displays.info, displays.backBuffer, displays.initialized⟩
    refine Program.ensures_bind (scroll_ensures on t displays.shown) ?_
    rintro fb' m' ⟨rfl, scrolled⟩
    have := t.y_lt
    exact { displays with
      cursorX := rfl
      cursorY := by
        dsimp only
        omega
      shown := scrolled }
  · rename_i more
    rw [dif_pos (by omega)]
    exact { displays with
      cursorX := rfl
      cursorY := by
        dsimp only
        omega
      shown := displays.shown }

theorem incCursor_ensures (displays : Displays font8x16 screen fb m t) (amount : Nat) :
    (incCursor fb amount).Ensures memHandler screen.InBackBuffer m fun fb' m' =>
      Displays font8x16 screen fb' m' (t.advance blank amount) := by
  have cols := displays.widthInChars
  have x := displays.cursorX
  rw [incCursor, Terminal.advance]
  dsimp only
  split
  · rw [dif_neg (by omega)]
    exact newline_ensures displays
  · rw [dif_pos (by omega)]
    exact { displays with
      cursorX := by
        dsimp only
        omega
      shown := displays.shown }

theorem decCursor_displays (displays : Displays font8x16 screen fb m t) :
    Displays font8x16 screen (decCursor fb 1) m t.stepBack := by
  have cols := displays.widthInChars
  have x := displays.cursorX
  have y := displays.cursorY
  have one_col := screen.one_col
  rw [decCursor, Terminal.stepBack]
  dsimp only
  split
  · -- from the first column to the end of the line before, if there is one
    rw [if_pos (show t.x = 0 by omega)]
    split
    all_goals exact { displays with
      cursorX := by
        dsimp only
        omega
      cursorY := by
        dsimp only
        omega
      shown := displays.shown }
  · rw [if_neg (show ¬t.x = 0 by omega)]
    exact { displays with
      cursorX := by
        dsimp only
        omega
      shown := displays.shown }

theorem writeChar_ensures (displays : Displays font8x16 screen fb m t) (c : UInt8) (color : UInt32) :
    (do let fb ← putCharAt font8x16 fb c (u32 fb.cursorX) (u32 fb.cursorY) color
        incCursor fb 1).Ensures memHandler screen.InBackBuffer m fun fb' m' =>
      Displays font8x16 screen fb' m' (t.write blank (c, color)) := by
  refine Program.ensures_bind (putCharAt_ensures displays c color) ?_
  intro fb₁ m₁ displays
  exact incCursor_ensures displays 1

/-- One character: the step of the terminal. -/
theorem putChar_ensures (displays : Displays font8x16 screen fb m t) (c : UInt8) (color : UInt32) :
    (putChar font8x16 fb c color).Ensures memHandler screen.InBackBuffer m fun fb' m' =>
      Displays font8x16 screen fb' m' (typed t (c, color)) := by
  rw [putChar, if_neg (by simp [displays.initialized]), typed]
  dsimp only
  split
  · -- a tab is a move, and then the character for a space
    refine Program.ensures_bind (incCursor_ensures displays 4) ?_
    intro fb₁ m₁ displays
    rw [putChar, if_neg (by simp [displays.initialized]), if_neg (by decide), if_neg (by decide),
      if_neg (by decide)]
    exact writeChar_ensures displays charSpace color
  · split
    · exact newline_ensures displays
    · split
      · refine Program.ensures_bind (putCharAt_ensures displays charSpace color) ?_
        intro fb₁ m₁ displays
        exact putCharAt_ensures (decCursor_displays displays) charSpace color
      · exact writeChar_ensures displays c color

/-- A text, character by character. -/
theorem putChars_ensures (displays : Displays font8x16 screen fb m t) (calls : List Cell) :
    (putChars font8x16 fb calls).Ensures memHandler screen.InBackBuffer m fun fb' m' =>
      Displays font8x16 screen fb' m' (calls.foldl typed t) := by
  induction calls generalizing fb m t with
  | nil => exact displays
  | cons call rest ih =>
    obtain ⟨c, color⟩ := call
    exact Program.ensures_bind (putChar_ensures displays c color) fun _ _ displays => ih displays

/-! ### From the start -/

/-- The grid after `init`. -/
def emptyGrid (screen : Screen) : Grid screen :=
  Terminal.empty blank screen.one_col screen.one_row

/-- The copy to the screen does not touch the back buffer. -/
theorem Screen.Shows.swapped (shown : screen.Shows m picture) :
    screen.Shows (m.copyFrom m screen.base screen.backBuffer screen.size) picture := by
  intro y inside x inRow
  have index := Screen.index_lt inRow inside
  have apart := screen.apart
  have holds := screen.holds
  rw [Memory.load_copyFrom_disjoint _ _ (by omega)]
  exact shown y inside x inRow

theorem init_ensures (font8x16 : Nat → UInt8) (screen : Screen) (m : Memory) :
    (init {} screen.toInfo screen.backBuffer).Ensures memHandler (fun _ _ => True) m fun fb m' =>
      Displays font8x16 screen fb m' (emptyGrid screen) := by
  rw [init, if_neg screen.base_ne_zero]
  dsimp only
  refine Program.ensures_bind ((clear_ensures rfl rfl m).weaken fun _ _ _ => trivial) ?_
  rintro fb m' ⟨rfl, cleared⟩
  -- an empty grid is all background
  have empty : screen.Shows m' (render font8x16 (emptyGrid screen)) := by
    refine cleared.congr fun y _ x _ => ?_
    simp [render, emptyGrid, Terminal.empty, blank, pixelOf_blank]
  rw [swap, if_neg (by simp)]
  have apart : screen.base ≤ screen.backBuffer ∨ screen.backBuffer + screen.size ≤ screen.base :=
    screen.apart.imp_left (Nat.le_trans (Nat.le_add_right _ _))
  refine Program.ensures_bind ((memcpy_ensures m' apart).weaken fun _ _ _ => trivial) ?_
  rintro _ m'' rfl
  exact ⟨⟨rfl, rfl, rfl⟩, rfl, rfl, rfl, rfl, empty.swapped⟩

/-- After every text the cursor is on the screen, the back buffer shows the grid that the text was
typed into, and nothing else was written. -/
theorem terminal_shows_grid (font8x16 : Nat → UInt8) (screen : Screen) (m : Memory) :
    ∃ fb m', (init {} screen.toInfo screen.backBuffer).run memHandler m = some (fb, m') ∧
      ∀ calls : List Cell,
        (putChars font8x16 fb calls).All memHandler screen.InBackBuffer m' ∧
          ∃ fb' m'', (putChars font8x16 fb calls).run memHandler m' = some (fb', m'') ∧
            (0 ≤ fb'.cursorX ∧ fb'.cursorX < (screen.width / 8 : Nat)) ∧
            (0 ≤ fb'.cursorY ∧ fb'.cursorY < (screen.height / 16 : Nat)) ∧
            Displays font8x16 screen fb' m'' (calls.foldl typed (emptyGrid screen)) := by
  obtain ⟨fb, m', started, displays⟩ := (init_ensures font8x16 screen m).returns
  refine ⟨fb, m', started, fun calls => ?_⟩
  have ensures := putChars_ensures displays calls
  obtain ⟨fb', m'', ran, displays'⟩ := ensures.returns
  refine ⟨ensures.all, fb', m'', ran, ?_, ?_, displays'⟩
  · rw [displays'.cursorX]
    exact ⟨Int.natCast_nonneg _, Int.ofNat_lt.mpr (Terminal.x_lt _)⟩
  · rw [displays'.cursorY]
    exact ⟨Int.natCast_nonneg _, Int.ofNat_lt.mpr (Terminal.y_lt _)⟩

/-- A screen of 800 by 600 pixels, with half a line of characters at the bottom. -/
example : Nonempty Screen :=
  ⟨{ base := 0xE0000000, width := 800, height := 600, pixelsInScanline := 832, size := 1996800,
     backBuffer := 0x200000, base_ne_zero := by decide, one_col := by decide, one_row := by decide,
     width_le := by decide, pixels_lt := by decide, holds := by decide, apart := by decide }⟩

end KopalniaOS.Gpu
