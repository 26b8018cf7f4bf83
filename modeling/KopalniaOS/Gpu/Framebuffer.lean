import KopalniaOS.Stdlib.MemCommon

/-!
# The framebuffer terminal

`put_char` draws glyphs of 8 by 16 pixels into the back buffer, which `swap` copies to the screen.
The cursor counts characters; below the last line the picture moves up.
-/
namespace KopalniaOS.Gpu

open Library Stdlib

/-- `framebuffer_info` -/
structure Info where
  base : Nat
  width : Nat
  height : Nat
  pixelsInScanline : Nat
  size : Nat
deriving DecidableEq, Repr

structure Framebuffer where
  initialized : Bool := false
  isDirty : Bool := true
  heightInChars : Int := 0
  widthInChars : Int := 0
  cursorX : Int := 0
  cursorY : Int := 0
  backBuffer : Nat := 0
  frontBuffer : Nat := 0
  info : Info := ⟨0, 0, 0, 0, 0⟩
deriving DecidableEq, Repr

def backgroundColor : UInt32 := 0x0F0F0F

/-- `drivers::vga::TAB_SIZE` -/
def tabSize : Int := 4

/-- The conversion of an `i32` to an `u32`. -/
def u32 (x : Int) : Nat := (x % 2 ^ 32).toNat

/-- `glyph::get(c)[row]` -/
def glyph (font8x16 : Nat → UInt8) (c : UInt8) (row : Nat) : UInt8 := font8x16 (c.toNat * 16 + row)

/-- Whether the glyph row has the pixel in this column. -/
def isSet (bits : UInt8) (col : Nat) : Bool := bits.toNat &&& (0b10000000 >>> col) != 0

/-! ### Drawing -/

def clear (fb : Framebuffer) (color : UInt32) : MemProgram Framebuffer := do
  memset32 fb.backBuffer color.toNat (fb.info.height * fb.info.pixelsInScanline % 2 ^ 32)
  pure { fb with isDirty := true }

def setPixel (fb : Framebuffer) (x y : Nat) (color : UInt32) : MemProgram Unit :=
  storeBytes 4 (fb.backBuffer + 4 * ((y * fb.info.pixelsInScanline + x) % 2 ^ 32)) color.toNat

/-- The loop over `col` of `put_char_at`, with the number of turns that are left. -/
def putCols (fb : Framebuffer) (bits : UInt8) (pixelX y : Nat) (color : UInt32) :
    (left col : Nat) → MemProgram Unit
  | 0, _ => pure ()
  | left + 1, col =>
    if fb.info.width ≤ (pixelX + col) % 2 ^ 32 then pure ()
    else do
      setPixel fb ((pixelX + col) % 2 ^ 32) y (if isSet bits col then color else backgroundColor)
      putCols fb bits pixelX y color left (col + 1)

variable (font8x16 : Nat → UInt8)

/-- The loop over `row`. -/
def putRows (fb : Framebuffer) (c : UInt8) (pixelX pixelY : Nat) (color : UInt32) :
    (left row : Nat) → MemProgram Unit
  | 0, _ => pure ()
  | left + 1, row =>
    if fb.info.height ≤ (pixelY + row) % 2 ^ 32 then pure ()
    else do
      putCols fb (glyph font8x16 c row) pixelX ((pixelY + row) % 2 ^ 32) color 8 0
      putRows fb c pixelX pixelY color left (row + 1)

def putCharAt (fb : Framebuffer) (c : UInt8) (x y : Nat) (color : UInt32) :
    MemProgram Framebuffer :=
  if fb.initialized = false then pure fb
  else do
    let fb := { fb with isDirty := true }
    putRows font8x16 fb c (x * 8 % 2 ^ 32) (y * 16 % 2 ^ 32) color 16 0
    pure fb

/-! ### Moving -/

/-- A call for no lines is an error, whose message is printed to this framebuffer: it has no meaning
here. Before `init` the message leaves no trace in it. -/
def scroll (fb : Framebuffer) (lines : Nat) : MemProgram Framebuffer :=
  if fb.initialized = false then pure fb
  else if lines = 0 then .stuck
  else
    let scrollPx := lines * 16 % 2 ^ 32
    if fb.info.height ≤ scrollPx then clear fb backgroundColor
    else do
      let pitch := fb.info.pixelsInScanline
      let kept := (fb.info.height - scrollPx) * pitch % 2 ^ 32
      let gone := scrollPx * pitch % 2 ^ 32
      memcpy fb.backBuffer (fb.backBuffer + 4 * gone) (kept * 4)
      memset32 (fb.backBuffer + 4 * kept) backgroundColor.toNat gone
      pure { fb with isDirty := true }

def incCursor (fb : Framebuffer) (amount : Int) : MemProgram Framebuffer :=
  let fb := { fb with cursorX := fb.cursorX + amount }
  if fb.widthInChars ≤ fb.cursorX then
    let fb := { fb with cursorX := 0, cursorY := fb.cursorY + 1 }
    if fb.heightInChars ≤ fb.cursorY then do
      let fb ← scroll fb 1
      pure { fb with cursorY := fb.heightInChars - 1 }
    else pure fb
  else pure fb

def decCursor (fb : Framebuffer) (amount : Int) : Framebuffer :=
  let fb := { fb with cursorX := fb.cursorX - amount }
  if fb.cursorX < 0 then
    let fb := { fb with cursorX := fb.widthInChars - 1 }
    if 0 < fb.cursorY then { fb with cursorY := fb.cursorY - 1 } else fb
  else fb

def charBackspace : UInt8 := 8
def charTab : UInt8 := 9
def charNewline : UInt8 := 10
def charSpace : UInt8 := 32

def putChar (fb : Framebuffer) (c : UInt8) (color : UInt32) : MemProgram Framebuffer :=
  if fb.initialized = false then pure fb
  else if c = charTab then do
    let fb ← incCursor fb tabSize
    putChar fb charSpace color
  else if c = charNewline then
    let fb := { fb with cursorX := 0, cursorY := fb.cursorY + 1 }
    if fb.heightInChars ≤ fb.cursorY then do
      let fb ← scroll fb 1
      pure { fb with cursorY := fb.heightInChars - 1 }
    else pure fb
  else if c = charBackspace then do
    let fb ← putCharAt font8x16 fb charSpace (u32 fb.cursorX) (u32 fb.cursorY) color
    let fb := decCursor fb 1
    putCharAt font8x16 fb charSpace (u32 fb.cursorX) (u32 fb.cursorY) color
  else do
    let fb ← putCharAt font8x16 fb c (u32 fb.cursorX) (u32 fb.cursorY) color
    incCursor fb 1
termination_by if c = charTab then 1 else 0
decreasing_by simp_all [charTab, charSpace]

def putChars (fb : Framebuffer) : List (UInt8 × UInt32) → MemProgram Framebuffer
  | [] => pure fb
  | (c, color) :: rest => do
    let fb ← putChar font8x16 fb c color
    putChars fb rest

/-! ### Start -/

def swap (fb : Framebuffer) : MemProgram Framebuffer :=
  if fb.initialized = false ∨ fb.isDirty = false then pure fb
  else do
    memcpy fb.frontBuffer fb.backBuffer fb.info.size
    pure { fb with isDirty := false }

/-- `backBuffer` is what `heap::malloc` gives for it. -/
def init (fb : Framebuffer) (framebuffer : Info) (backBuffer : Nat) : MemProgram Framebuffer :=
  if framebuffer.base = 0 then pure fb
  else do
    let fb := { fb with info := framebuffer, frontBuffer := framebuffer.base, backBuffer }
    let fb ← clear fb backgroundColor
    swap
      { fb with
        heightInChars := (fb.info.height / 16 : Nat), widthInChars := (fb.info.width / 8 : Nat)
        initialized := true }

end KopalniaOS.Gpu
