import KopalniaOS.Stdlib.IntegerText

/-!
# The two `printf`s

`std::kernel::printf` draws on the framebuffer itself; `std::printf` makes a system call for every
piece of text. Both go over the same kind of format string: `%` and a letter print an argument, `&`
and a letter change the colour. `num_buf` is a local of either function.
-/
namespace KopalniaOS.Stdlib

open Library

/-! ### Colours -/

inductive Color where
  | black | blue | green | cyan | red | magenta | brown | lightGray
  | darkGray | lightBlue | lightGreen | lightCyan | lightRed | pink | yellow | white
deriving DecidableEq, Repr

def Color.value : Color → Nat
  | .black => 0 | .blue => 1 | .green => 2 | .cyan => 3
  | .red => 4 | .magenta => 5 | .brown => 6 | .lightGray => 7
  | .darkGray => 8 | .lightBlue => 9 | .lightGreen => 10 | .lightCyan => 11
  | .lightRed => 12 | .pink => 13 | .yellow => 14 | .white => 15

/-- `static_cast<Color>`: the underlying type is a byte, and only 16 of its values are colours. -/
def Color.ofValue (x : Nat) : Option Color :=
  [black, blue, green, cyan, red, magenta, brown, lightGray, darkGray, lightBlue, lightGreen,
    lightCyan, lightRed, pink, yellow, white][x % 256]?

/-- `color_to_rgb` -/
def colorToRgb : Color → UInt32
  | .black => 0x000000 | .blue => 0x0000AA | .green => 0x00AA00 | .cyan => 0x00AAAA
  | .red => 0xAA0000 | .magenta => 0xAA00AA | .brown => 0xAA5500 | .lightGray => 0xAAAAAA
  | .darkGray => 0x555555 | .lightBlue => 0x5555FF | .lightGreen => 0x55FF55
  | .lightCyan => 0x55FFFF | .lightRed => 0xFF5555 | .pink => 0xFF55FF | .yellow => 0xFFFF55
  | .white => 0xDFDFDF

/-! ### Arguments -/

/-- What follows the format string. `δ` stands for `double`. -/
inductive Arg (δ : Type) where
  | int (v : IntType.int.Value)
  | string (s : Option CString)
  | longLong (v : IntType.longLong.Value)
  | unsignedInt (v : IntType.unsignedInt.Value)
  | unsignedLongLong (v : UInt64)
  | double (d : δ)

section VaArg

variable {σ : Type} {ρ : σ → Type} {δ : Type}

/-! `__builtin_va_arg`: asking for another type than the argument has is undefined. -/

def vaInt : List (Arg δ) → Program σ ρ (IntType.int.Value × List (Arg δ))
  | .int v :: args => pure (v, args)
  | _ => .stuck

def vaString : List (Arg δ) → Program σ ρ (Option CString × List (Arg δ))
  | .string s :: args => pure (s, args)
  | _ => .stuck

def vaLongLong : List (Arg δ) → Program σ ρ (IntType.longLong.Value × List (Arg δ))
  | .longLong v :: args => pure (v, args)
  | _ => .stuck

def vaUnsignedInt : List (Arg δ) → Program σ ρ (IntType.unsignedInt.Value × List (Arg δ))
  | .unsignedInt v :: args => pure (v, args)
  | _ => .stuck

def vaUnsignedLongLong : List (Arg δ) → Program σ ρ (UInt64 × List (Arg δ))
  | .unsignedLongLong v :: args => pure (v, args)
  | _ => .stuck

def vaDouble : List (Arg δ) → Program σ ρ (δ × List (Arg δ))
  | .double d :: args => pure (d, args)
  | _ => .stuck

end VaArg

/-- `static_cast<char>` -/
def intToChar (v : Int) : UInt8 := UInt8.ofNat (v % 256).toNat

/-! ### Operations -/

/-- A `const char*` is null, a string, or `num_buf`. -/
inductive Pointer where
  | null
  | string (s : CString)
  | numBuf

def Pointer.ofArg : Option CString → Pointer
  | none => .null
  | some s => .string s

/-- What both functions do themselves; `to_str` of a `double` is one operation. -/
inductive TextOp (δ : Type) where
  | load (text : Pointer) (index : Nat)
  | numBuf (o : BufferOp)
  | doubleToStr (d : δ)

/-- In the kernel a character goes to `framebuffer::put_char`, or to the serial port. -/
inductive KernelOp (δ : Type) where
  | text (o : TextOp δ)
  | putChar (c : UInt8) (rgb : UInt32)
  | outSerial (c : UInt8)

/-- A register of a system call holds a number or an address. -/
inductive Register where
  | word (x : Nat)
  | address (p : Pointer)

inductive UserOp (δ : Type) where
  | text (o : TextOp δ)
  | syscall (id : Nat) (arg1 arg2 : Register)

abbrev TextOp.Answer {δ : Type} : TextOp δ → Type
  | .load .. => UInt8
  | .numBuf o => o.Answer
  | .doubleToStr _ => Unit

abbrev KernelOp.Answer {δ : Type} : KernelOp δ → Type
  | .text o => o.Answer
  | _ => Unit

abbrev UserOp.Answer {δ : Type} : UserOp δ → Type
  | .text o => o.Answer
  | .syscall .. => Nat

abbrev KernelProgram (δ : Type) := Program (KernelOp δ) KernelOp.Answer

abbrev UserProgram (δ : Type) := Program (UserOp δ) UserOp.Answer

variable {δ : Type}

/-- More turns than an `int` can count. -/
def intTurns : Nat := 2 ^ 31

def percent : UInt8 := 37
def ampersand : UInt8 := 38

namespace Kernel

def load (text : Pointer) (index : Nat) : KernelProgram δ UInt8 :=
  Program.perform (KernelOp.text (.load text index))

def numBuf {α : Type} (p : BufferProgram α) : KernelProgram δ α :=
  p.interp fun o => Program.perform (KernelOp.text (.numBuf o))

def doubleToStr (d : δ) : KernelProgram δ Unit := Program.perform (KernelOp.text (.doubleToStr d))

/-- `systemPL::fb.put_char` -/
def framebufferPutChar (c : UInt8) (rgb : UInt32) : KernelProgram δ Unit :=
  Program.perform (KernelOp.putChar c rgb)

def outSerial (c : UInt8) : KernelProgram δ Unit := Program.perform (KernelOp.outSerial c)

def putChar (c : UInt8) (color : Color) : KernelProgram δ Unit :=
  framebufferPutChar c (colorToRgb color)

def printFrom (text : Pointer) (color : Color) : (left i : Nat) → KernelProgram δ Unit
  | 0, _ => .stuck
  | left + 1, i => do
    let c ← load text i
    if c = 0 then pure ()
    else do
      let c ← load text i
      framebufferPutChar c (colorToRgb color)
      printFrom text color left (i + 1)

def print (text : Pointer) (color : Color) : KernelProgram δ Unit := printFrom text color intTurns 0

/-- The switch behind `%`, with the arguments that are left; nothing for any other letter. -/
def convert (arg : UInt8) (args : List (Arg δ)) (color : Color) :
    KernelProgram δ (Option (List (Arg δ))) :=
  match Char.ofUInt8 arg with
  | 'c' => do
    let (v, args) ← vaInt args
    putChar (intToChar v.val) color
    pure (some args)
  | 's' => do
    let (s, args) ← vaString args
    print (.ofArg s) color
    pure (some args)
  | 'l' => do
    let (v, args) ← vaLongLong args
    numBuf (toStr .longLong v.val)
    print .numBuf color
    pure (some args)
  | 'i' | 'd' => do
    let (v, args) ← vaInt args
    numBuf (toStr .int v.val)
    print .numBuf color
    pure (some args)
  | 'u' => do
    let (v, args) ← vaUnsignedInt args
    numBuf (toStr .unsignedInt v.val)
    print .numBuf color
    pure (some args)
  | 'x' => do
    let (v, args) ← vaUnsignedLongLong args
    numBuf (toHexStr v.toNat)
    print .numBuf color
    pure (some args)
  | 'f' => do
    let (d, args) ← vaDouble args
    doubleToStr d
    print .numBuf color
    pure (some args)
  | _ => pure none

/-- The switch behind `&`. -/
def activeColor (arg : UInt8) : Option Color :=
  match Char.ofUInt8 arg with
  | '0' => some .black
  | '1' => some .blue
  | '2' => some .green
  | '3' => some .cyan
  | '4' => some .red
  | '5' => some .magenta
  | '6' => some .brown
  | '7' => some .lightGray
  | '8' => some .darkGray
  | '9' => some .lightBlue
  | 'a' => some .lightGreen
  | 'b' => some .lightCyan
  | 'c' => some .lightRed
  | 'd' => some .pink
  | 'e' => some .yellow
  | 'f' => some .white
  | _ => none

/-- The loop over the format string; gives the arguments that were not taken. -/
def printfFrom (text : Pointer) :
    (left i : Nat) → Color → List (Arg δ) → KernelProgram δ (List (Arg δ))
  | 0, _, _, _ => .stuck
  | left + 1, i, color, args => do
    let c ← load text i
    if c = 0 then pure args
    else do
      let c ← load text i
      if c = percent then do
        let arg ← load text (i + 1)
        match ← convert arg args color with
        | some args => printfFrom text left (i + 2) color args
        | none => do
          -- the `%` is shown itself, and the letter behind it is read again
          putChar c color
          printfFrom text left (i + 1) color args
      else if c = ampersand then do
        let arg ← load text (i + 1)
        match activeColor arg with
        | some color => printfFrom text left (i + 2) color args
        | none => do
          putChar c color
          printfFrom text left (i + 1) color args
      else do
        putChar c color
        printfFrom text left (i + 1) color args

/-- `std::kernel::printf` -/
def printf (text : CString) (args : List (Arg δ)) : KernelProgram δ (List (Arg δ)) :=
  printfFrom (.string text) intTurns 0 .white args

end Kernel

/-! ### System calls -/

/-- `Output` -/
inductive OutputPort where
  | stdOut
  | stdSerial
deriving DecidableEq, Repr

/-- A `char` is signed, so it is sign-extended to a register. -/
def charToWord (c : UInt8) : Nat :=
  if c.toNat < 128 then c.toNat else c.toNat + (2 ^ 64 - 256)

def sysWrite (str : Pointer) (color : Nat) : UserProgram δ Nat :=
  Program.perform (UserOp.syscall 0 (.address str) (.word color))

def sysPutChar (c : UInt8) (color : Nat) : UserProgram δ Nat :=
  Program.perform (UserOp.syscall 1 (.word (charToWord c)) (.word color))

def sysSerialWrite (c : Pointer) : UserProgram δ Nat :=
  Program.perform (UserOp.syscall 2 (.address c) (.word 0))

def sysSerialPutChar (c : UInt8) : UserProgram δ Nat :=
  Program.perform (UserOp.syscall 3 (.word (charToWord c)) (.word 0))

def validateUserPtr : Register → Bool
  | .word x => x != 0
  | .address .null => false
  | .address _ => true

/-- `reinterpret_cast<const char*>`; only what is an address can be read. -/
def Register.pointer : Register → Option Pointer
  | .word _ => none
  | .address p => some p

/-- The number in a register; the number of an address is not known. -/
def Register.number : Register → Option Nat
  | .word x => some x
  | .address _ => none

def orStuck {σ α : Type} {ρ : σ → Type} : Option α → Program σ ρ α
  | some a => pure a
  | none => .stuck

/-- The loop of `write`. -/
def writeChars (text : Pointer) (arg2 : Register) : (left i : Nat) → KernelProgram δ Unit
  | 0, _ => .stuck
  | left + 1, i => do
    let c ← Kernel.load text i
    if c = 0 then pure ()
    else do
      let c ← Kernel.load text i
      let color ← orStuck (arg2.number.bind Color.ofValue)
      Kernel.framebufferPutChar c (colorToRgb color)
      writeChars text arg2 left (i + 1)

/-- The loop of `serial_write`. -/
def serialChars (text : Pointer) : (left i : Nat) → KernelProgram δ Unit
  | 0, _ => .stuck
  | left + 1, i => do
    let c ← Kernel.load text i
    if c = 0 then pure ()
    else do
      let c ← Kernel.load text i
      Kernel.outSerial c
      serialChars text left (i + 1)

def errorCode : Nat := 2 ^ 64 - 1

/-- `dispatch_syscall`, for the calls that print. The other ones are left out. -/
def dispatchSyscall (id : Nat) (arg1 arg2 : Register) : KernelProgram δ Nat :=
  match id with
  | 0 =>
    if validateUserPtr arg1 = false then pure errorCode
    else do
      let text ← orStuck arg1.pointer
      writeChars text arg2 intTurns 0
      pure 0
  | 1 => do
    let c ← orStuck arg1.number
    let color ← orStuck (arg2.number.bind Color.ofValue)
    Kernel.framebufferPutChar (UInt8.ofNat c) (colorToRgb color)
    pure 0
  | 2 =>
    if validateUserPtr arg1 = false then pure errorCode
    else do
      let text ← orStuck arg1.pointer
      serialChars text intTurns 0
      pure 0
  | 3 => do
    let c ← orStuck arg1.number
    Kernel.outSerial (UInt8.ofNat c)
    pure 0
  | _ => .stuck

/-- A program in user mode, as the machine runs it. -/
def enterKernel : (o : UserOp δ) → KernelProgram δ o.Answer
  | .text o => Program.perform (KernelOp.text o)
  | .syscall id arg1 arg2 => dispatchSyscall id arg1 arg2

namespace User

def load (text : Pointer) (index : Nat) : UserProgram δ UInt8 :=
  Program.perform (UserOp.text (.load text index))

def numBuf {α : Type} (p : BufferProgram α) : UserProgram δ α :=
  p.interp fun o => Program.perform (UserOp.text (.numBuf o))

def doubleToStr (d : δ) : UserProgram δ Unit := Program.perform (UserOp.text (.doubleToStr d))

def putChar (c : UInt8) (out : OutputPort) (color : Color) : UserProgram δ Unit :=
  match out with
  | .stdOut => do
    let _ ← sysPutChar c color.value
    pure ()
  | .stdSerial => do
    let _ ← sysSerialPutChar c
    pure ()

def print (text : Pointer) (out : OutputPort) (color : Color) : UserProgram δ Unit :=
  match out with
  | .stdOut => do
    let _ ← sysWrite text color.value
    pure ()
  | .stdSerial => do
    let _ ← sysSerialWrite text
    pure ()

/-- The switch behind `%`. -/
def convert (out : OutputPort) (arg : UInt8) (args : List (Arg δ)) (color : Color) :
    UserProgram δ (Option (List (Arg δ))) :=
  match Char.ofUInt8 arg with
  | 'c' => do
    let (v, args) ← vaInt args
    putChar (intToChar v.val) out color
    pure (some args)
  | 's' => do
    let (s, args) ← vaString args
    print (.ofArg s) out color
    pure (some args)
  | 'l' => do
    let (v, args) ← vaLongLong args
    numBuf (toStr .longLong v.val)
    print .numBuf out color
    pure (some args)
  | 'i' | 'd' => do
    let (v, args) ← vaInt args
    numBuf (toStr .int v.val)
    print .numBuf out color
    pure (some args)
  | 'u' => do
    let (v, args) ← vaUnsignedInt args
    numBuf (toStr .unsignedInt v.val)
    print .numBuf out color
    pure (some args)
  | 'x' => do
    let (v, args) ← vaUnsignedLongLong args
    numBuf (toHexStr v.toNat)
    print .numBuf out color
    pure (some args)
  | 'f' => do
    let (d, args) ← vaDouble args
    doubleToStr d
    print .numBuf out color
    pure (some args)
  | _ => pure none

/-- The switch behind `&`. -/
def activeColor (arg : UInt8) : Option Color :=
  match Char.ofUInt8 arg with
  | '0' => some .black
  | '1' => some .blue
  | '2' => some .green
  | '3' => some .cyan
  | '4' => some .red
  | '5' => some .magenta
  | '6' => some .brown
  | '7' => some .lightGray
  | '8' => some .darkGray
  | '9' => some .lightBlue
  | 'a' => some .lightGreen
  | 'b' => some .lightCyan
  | 'c' => some .lightRed
  | 'd' => some .pink
  | 'e' => some .yellow
  | 'f' => some .white
  | _ => none

/-- The loop over the format string. -/
def printfFrom (text : Pointer) (out : OutputPort) :
    (left i : Nat) → Color → List (Arg δ) → UserProgram δ (List (Arg δ))
  | 0, _, _, _ => .stuck
  | left + 1, i, color, args => do
    let c ← load text i
    if c = 0 then pure args
    else do
      let c ← load text i
      if c = percent then do
        let arg ← load text (i + 1)
        match ← convert out arg args color with
        | some args => printfFrom text out left (i + 2) color args
        | none => do
          putChar c out color
          printfFrom text out left (i + 1) color args
      else if c = ampersand then do
        let arg ← load text (i + 1)
        match activeColor arg with
        | some color => printfFrom text out left (i + 2) color args
        | none => do
          putChar c out color
          printfFrom text out left (i + 1) color args
      else do
        putChar c out color
        printfFrom text out left (i + 1) color args

/-- `std::printf` -/
def printf (text : CString) (out : OutputPort) (args : List (Arg δ)) :
    UserProgram δ (List (Arg δ)) :=
  printfFrom (.string text) out intTurns 0 .white args

end User

/-! ### Runs -/

/-- `num_buf`, what was drawn, and what was sent to the serial port. -/
structure PrintState where
  numBuf : Memory
  shown : List (UInt8 × UInt32)
  serial : List UInt8

/-- Only where there is something can be read. The text of a `double` is a parameter. -/
def textHandler (doubleText : δ → CString) : Handler (TextOp δ) TextOp.Answer Memory
  | .load .null _, _ => none
  | .load (.string s) index, m => some (s.at index, m)
  | .load .numBuf index, m => some (m index, m)
  | .numBuf o, m => bufferHandler o m
  | .doubleToStr d, m => some ((), m.splice 0 ((doubleText d).text ++ [0]))

def kernelHandler (doubleText : δ → CString) :
    Handler (KernelOp δ) KernelOp.Answer PrintState
  | .text o, s => (textHandler doubleText o s.numBuf).map fun r => (r.1, { s with numBuf := r.2 })
  | .putChar c rgb, s => some ((), { s with shown := s.shown ++ [(c, rgb)] })
  | .outSerial c, s => some ((), { s with serial := s.serial ++ [c] })

end KopalniaOS.Stdlib
