import KopalniaOS.Library.Interrupts
import KopalniaOS.Stdlib.RingBuffer

/-!
# Reading the keyboard

The interrupt handler decodes scan codes and pushes the codes of pressed keys into a ring buffer
of 256 bytes. `get_char` and `read_char` pop them, and can be interrupted between any two of
their accesses to the buffer.
-/
namespace KopalniaOS.Keyboard

open Library Stdlib

/-- The size of `kb::buf`. -/
def bufSize : Nat := 256

/-! ### Readers -/

/-- `storeTail` also names the code that was read: with this store it counts as popped. -/
inductive ReadOp where
  | loadHead
  | loadTail
  | loadData (index : Nat)
  | storeTail (value : Nat) (code : UInt8)
  | swap
  | halt

abbrev ReadOp.Answer : ReadOp → Type
  | .loadHead => Nat
  | .loadTail => Nat
  | .loadData _ => UInt8
  | _ => Unit

abbrev ReadProgram := Program ReadOp ReadOp.Answer

def perform (o : ReadOp) : ReadProgram o.Answer := Program.perform o

/-- `Ring_Buffer::empty` -/
def empty : ReadProgram Bool := do
  let tail ← perform .loadTail
  let head ← perform .loadHead
  pure (tail == head)

/-- `Ring_Buffer::pop`, which changes its parameter unless the buffer is empty. -/
def pop (out : UInt8) : ReadProgram (Bool × UInt8) := do
  let isEmpty ← empty
  if isEmpty = true then pure (false, out)
  else do
    let tail ← perform .loadTail
    let out ← perform (.loadData tail)
    let tail ← perform .loadTail
    perform (.storeTail ((tail + 1) % bufSize) out)
    pure (true, out)

/-- `key_code::KEY_NULL` -/
def keyNull : UInt8 := 0

/-- The variable of the code starts with whatever the stack contains; `turns` bounds the wait. -/
def getChar : (turns : Nat) → (sc : UInt8) → ReadProgram UInt8
  | 0, _ => .stuck
  | turns + 1, sc => do
    let isEmpty ← empty
    if isEmpty = true then do
      perform .swap
      perform .halt
      getChar turns sc
    else do
      let r ← pop sc
      pure r.2

def readChar (sc : UInt8) : ReadProgram UInt8 := do
  let isEmpty ← empty
  if isEmpty = true then pure keyNull
  else do
    let r ← pop sc
    pure r.2

/-! ### The handler -/

/-- `delivered` are the bytes that the keyboard has sent, `popped` the codes that were taken out
of the buffer, and `returned` those that calls have returned. -/
structure KeyboardState where
  buf : RingBuffer UInt8
  extended : Bool
  delivered : List UInt8
  popped : List UInt8
  returned : List UInt8

def KeyboardState.waiting (s : KeyboardState) : List UInt8 := s.buf.waiting bufSize

/-- `keyboard_interrupt`, which nothing interrupts, with the byte that it reads from the port. -/
def keyboardInterrupt (raw : UInt8) (s : KeyboardState) : KeyboardState :=
  if raw = 0xE0 then { s with extended := true }
  else
    let release := raw &&& 0x80 ≠ 0
    let sc := raw &&& 0x7F
    let code := if s.extended then sc + 0x59 else sc
    let s := if ¬release then { s with buf := (s.buf.push bufSize code).2 } else s
    { s with extended := false }

def readHandler : Handler ReadOp ReadOp.Answer KeyboardState
  | .loadHead, s => some (s.buf.head, s)
  | .loadTail, s => some (s.buf.tail, s)
  | .loadData index, s => some (s.buf.data index, s)
  | .storeTail value code, s =>
    some ((), { s with buf := { s.buf with tail := value }, popped := s.popped ++ [code] })
  | .swap, s => some ((), s)
  | .halt, s => some ((), s)

/-! ### Runs -/

inductive ReadCall where
  | getChar (turns : Nat) (sc : UInt8)
  | readChar (sc : UInt8)

/-- The keyboard sends a byte. A key may be pressed only while fewer than 255 codes wait. -/
inductive Interrupt (s : KeyboardState) : KeyboardState → Prop where
  | deliver (raw : UInt8) : (raw < 0x80 → s.waiting.length < bufSize - 1) →
      Interrupt s (keyboardInterrupt raw { s with delivered := s.delivered ++ [raw] })

def keyboard : Session ReadOp ReadOp.Answer KeyboardState ReadCall fun _ => UInt8 where
  handler := readHandler
  enter _ s t := t = s
  code c _ :=
    match c with
    | .getChar turns sc => getChar turns sc
    | .readChar sc => readChar sc
  leave _ code s := { s with returned := s.returned ++ [code] }
  busyEnv _ _ := Interrupt
  idleEnv := Interrupt

/-- The buffer and the flag as they are initialised. -/
def start : KeyboardState where
  buf := ⟨fun _ => 0, 0, 0⟩
  extended := false
  delivered := []
  popped := []
  returned := []

/-! ### Scan codes -/

/-- A scan code of set 1: a make or break byte, or either of them after a prefix. -/
structure ScanCode where
  extended : Bool
  byte : UInt8
  plain : byte ≠ 0xE0

def ScanCode.bytes (code : ScanCode) : List UInt8 :=
  if code.extended then [0xE0, code.byte] else [code.byte]

/-- The key that is pressed, if one is. -/
def ScanCode.make (code : ScanCode) : Option UInt8 :=
  if code.byte < 0x80 then some (if code.extended then code.byte + 0x59 else code.byte) else none

end KopalniaOS.Keyboard
