import KopalniaOS.Stdlib.Printf

/-!
# Format strings

A format string is a list of pieces, and printing goes over the pieces. Both functions follow it,
with the two ways in which a character and a text get out.
-/
namespace KopalniaOS.Stdlib

open Library

variable {δ : Type}

/-! ### Pieces -/

/-- What a letter behind `%` stands for. -/
inductive Conversion where
  | char
  | string
  | longLong
  | int
  | unsignedInt
  | hex
  | double
deriving DecidableEq, Repr

inductive Piece where
  | char (c : UInt8)
  | color (color : Color)
  | convert (k : Conversion)
deriving DecidableEq, Repr

def conversionOf (arg : UInt8) : Option Conversion :=
  match Char.ofUInt8 arg with
  | 'c' => some .char
  | 's' => some .string
  | 'l' => some .longLong
  | 'i' | 'd' => some .int
  | 'u' => some .unsignedInt
  | 'x' => some .hex
  | 'f' => some .double
  | _ => none

/-- An escape with an unknown letter, or none, is a character like any other. -/
def pieces : List UInt8 → List Piece
  | [] => []
  | [c] => [.char c]
  | c :: arg :: rest =>
    if c = percent then
      match conversionOf arg with
      | some k => .convert k :: pieces rest
      | none => .char c :: pieces (arg :: rest)
    else if c = ampersand then
      match Kernel.activeColor arg with
      | some color => .color color :: pieces rest
      | none => .char c :: pieces (arg :: rest)
    else .char c :: pieces (arg :: rest)

/-- An argument of the right type, which is not a null pointer. -/
def Conversion.Takes : Conversion → Arg δ → Prop
  | .char, .int _ => True
  | .string, .string s => s ≠ none
  | .longLong, .longLong _ => True
  | .int, .int _ => True
  | .unsignedInt, .unsignedInt _ => True
  | .hex, .unsignedLongLong _ => True
  | .double, .double _ => True
  | _, _ => False

/-- Every conversion finds an argument that it takes. -/
def WellTyped : List Piece → List (Arg δ) → Prop
  | [], _ => True
  | .convert k :: rest, a :: args => k.Takes a ∧ WellTyped rest args
  | .convert _ :: _, [] => False
  | .char _ :: rest, args => WellTyped rest args
  | .color _ :: rest, args => WellTyped rest args

/-- The text of an argument. -/
def Conversion.text (doubleText : δ → CString) : Conversion → Arg δ → List UInt8
  | .char, .int v => [intToChar v.val]
  | .string, .string (some s) => s.text
  | .longLong, .longLong v => toStrText .longLong v.val
  | .int, .int v => toStrText .int v.val
  | .unsignedInt, .unsignedInt v => toStrText .unsignedInt v.val
  | .hex, .unsignedLongLong v => hexText v.toNat
  | .double, .double d => (doubleText d).text
  | _, _ => []

/-- The characters with their colours. -/
def render (doubleText : δ → CString) : List Piece → Color → List (Arg δ) → List (UInt8 × Color)
  | [], _, _ => []
  | .char c :: rest, color, args => (c, color) :: render doubleText rest color args
  | .color color :: rest, _, args => render doubleText rest color args
  | .convert k :: rest, color, a :: args =>
    (k.text doubleText a).map (·, color) ++ render doubleText rest color args
  | .convert _ :: _, _, [] => []

/-- The number of arguments that are taken. -/
def conversions : List Piece → Nat
  | [] => 0
  | .convert _ :: rest => conversions rest + 1
  | _ :: rest => conversions rest

/-! ### Printing the pieces -/

/-- How a character and a text get out. -/
structure Sink (δ : Type) where
  put : UInt8 → Color → KernelProgram δ Unit
  print : Pointer → Color → KernelProgram δ Unit

namespace Sink

variable (sink : Sink δ)

def convert (k : Conversion) (a : Arg δ) (color : Color) : KernelProgram δ Unit :=
  match k, a with
  | .char, .int v => sink.put (intToChar v.val) color
  | .string, .string s => sink.print (.ofArg s) color
  | .longLong, .longLong v => do
    Kernel.numBuf (toStr .longLong v.val)
    sink.print .numBuf color
  | .int, .int v => do
    Kernel.numBuf (toStr .int v.val)
    sink.print .numBuf color
  | .unsignedInt, .unsignedInt v => do
    Kernel.numBuf (toStr .unsignedInt v.val)
    sink.print .numBuf color
  | .hex, .unsignedLongLong v => do
    Kernel.numBuf (toHexStr v.toNat)
    sink.print .numBuf color
  | .double, .double d => do
    Kernel.doubleToStr d
    sink.print .numBuf color
  | _, _ => .stuck

def program : List Piece → Color → List (Arg δ) → KernelProgram δ (List (Arg δ))
  | [], _, args => pure args
  | .char c :: rest, color, args => do
    sink.put c color
    program rest color args
  | .color color :: rest, _, args => program rest color args
  | .convert k :: rest, color, a :: args => do
    sink.convert k a color
    program rest color args
  | .convert _ :: _, _, [] => .stuck

/-- The loop over the characters. -/
def loop (text : Pointer) :
    (left i : Nat) → Color → List (Arg δ) → KernelProgram δ (List (Arg δ))
  | 0, _, _, _ => .stuck
  | left + 1, i, color, args => do
    let c ← Kernel.load text i
    if c = 0 then pure args
    else do
      let c ← Kernel.load text i
      if c = percent then do
        let arg ← Kernel.load text (i + 1)
        match conversionOf arg, args with
        | some k, a :: args => do
          sink.convert k a color
          loop text left (i + 2) color args
        | some _, [] => .stuck
        | none, args => do
          sink.put c color
          loop text left (i + 1) color args
      else if c = ampersand then do
        let arg ← Kernel.load text (i + 1)
        match Kernel.activeColor arg with
        | some color => loop text left (i + 2) color args
        | none => do
          sink.put c color
          loop text left (i + 1) color args
      else do
        sink.put c color
        loop text left (i + 1) color args

end Sink

/-- The kernel's own. -/
def kernelSink : Sink δ := ⟨Kernel.putChar, Kernel.print⟩

/-- By system calls. -/
def userSink (out : OutputPort) : Sink δ where
  put c color := (User.putChar c out color).interp enterKernel
  print text color := (User.print text out color).interp enterKernel

/-! ### The two functions -/

/-- The switch of the kernel by the conversion. -/
theorem Kernel.convert_eq (arg : UInt8) (args : List (Arg δ)) (color : Color) :
    Kernel.convert arg args color =
      match conversionOf arg, args with
      | some k, a :: args => do
        kernelSink.convert k a color
        pure (some args)
      | some _, [] => .stuck
      | none, _ => pure none := by
  unfold Kernel.convert conversionOf
  generalize Char.ofUInt8 arg = letter
  split
  -- the letters of the switch, and last any other letter
  case h_9 => simp [*]
  all_goals
    rcases args with _ | ⟨a, args⟩
    · rfl
    · cases a <;> first | rfl | exact (Program.bind_assoc _ _ _).symm

theorem Kernel.printfFrom_eq (text : Pointer) (left i : Nat) (color : Color) (args : List (Arg δ)) :
    Kernel.printfFrom text left i color args = kernelSink.loop text left i color args := by
  induction left generalizing i color args with
  | zero => rfl
  | succ left ih =>
    -- both look at the same characters in the same order
    rw [Kernel.printfFrom, Sink.loop]
    refine bind_congr fun c => ?_
    split
    · rfl
    · refine bind_congr fun c => ?_
      split
      · refine bind_congr fun arg => ?_
        rw [Kernel.convert_eq]
        cases conversionOf arg with
        | none => exact bind_congr fun _ => ih _ _ _
        | some k =>
          cases args with
          | nil => rfl
          | cons a args =>
            rw [Program.bind_assoc]
            exact bind_congr fun _ => ih _ _ _
      · split
        · refine bind_congr fun arg => ?_
          cases Kernel.activeColor arg with
          | none => exact bind_congr fun _ => ih _ _ _
          | some color => exact ih _ _ _
        · exact bind_congr fun _ => ih _ _ _

@[simp] theorem User.interp_load (text : Pointer) (index : Nat) :
    (User.load text index : UserProgram δ UInt8).interp enterKernel = Kernel.load text index :=
  Program.interp_perform enterKernel (UserOp.text (.load text index))

@[simp] theorem User.interp_numBuf {α : Type} (p : BufferProgram α) :
    (User.numBuf p : UserProgram δ α).interp enterKernel = Kernel.numBuf p := by
  rw [User.numBuf, Program.interp_interp]
  simp only [Program.interp_perform]
  rfl

@[simp] theorem User.interp_doubleToStr (d : δ) :
    (User.doubleToStr d : UserProgram δ Unit).interp enterKernel = Kernel.doubleToStr d :=
  Program.interp_perform enterKernel (UserOp.text (.doubleToStr d))

/-- The switch in user mode makes the same calls, each of them through its sink. -/
theorem User.convert_eq (out : OutputPort) (arg : UInt8) (args : List (Arg δ)) (color : Color) :
    (User.convert out arg args color).interp enterKernel =
      match conversionOf arg, args with
      | some k, a :: args => do
        (userSink out).convert k a color
        pure (some args)
      | some _, [] => .stuck
      | none, _ => pure none := by
  unfold User.convert conversionOf
  generalize Char.ofUInt8 arg = letter
  -- eight letters are conversions; the last case are all others
  split
  case h_9 =>
    simp [*]
    rfl
  all_goals
    rcases args with _ | ⟨a, args⟩
    · rfl
    · cases a <;> first
        | rfl
        | (simp [vaInt, vaString, vaLongLong, vaUnsignedInt, vaUnsignedLongLong, vaDouble,
            Program.interp_bind, Sink.convert, userSink, Program.interp])

theorem User.activeColor_eq : User.activeColor = Kernel.activeColor := rfl

theorem User.printfFrom_eq (text : Pointer) (out : OutputPort) (left i : Nat) (color : Color)
    (args : List (Arg δ)) :
    (User.printfFrom text out left i color args).interp enterKernel =
      (userSink out).loop text left i color args := by
  induction left generalizing i color args with
  | zero => rfl
  | succ left ih =>
    -- in user mode every character goes through the same read
    rw [User.printfFrom, Sink.loop, Program.interp_bind, User.interp_load]
    refine bind_congr fun c => ?_
    split
    · rfl
    · rw [Program.interp_bind, User.interp_load]
      refine bind_congr fun c => ?_
      split
      · rw [Program.interp_bind, User.interp_load]
        refine bind_congr fun arg => ?_
        rw [Program.interp_bind, User.convert_eq]
        cases conversionOf arg with
        | none =>
          simp only [Program.pure_eq, Program.ret_bind, Program.interp_bind]
          exact bind_congr fun _ => ih _ _ _
        | some k =>
          cases args with
          | nil => rfl
          | cons a args =>
            rw [Program.bind_assoc]
            exact bind_congr fun _ => ih _ _ _
      · split
        · rw [Program.interp_bind, User.interp_load, User.activeColor_eq]
          refine bind_congr fun arg => ?_
          cases Kernel.activeColor arg with
          | none =>
            simp only [Program.interp_bind]
            exact bind_congr fun _ => ih _ _ _
          | some color => exact ih _ _ _
        · rw [Program.interp_bind]
          exact bind_congr fun _ => ih _ _ _

/-! ### The loop goes over the pieces -/

/-- The terminator behind the last character is no letter of an escape. -/
theorem pieces_cons (c : UInt8) (rest : List UInt8) :
    pieces (c :: rest) =
      if c = percent then
        match conversionOf (rest.headD 0) with
        | some k => .convert k :: pieces (rest.drop 1)
        | none => .char c :: pieces rest
      else if c = ampersand then
        match Kernel.activeColor (rest.headD 0) with
        | some color => .color color :: pieces (rest.drop 1)
        | none => .char c :: pieces rest
      else .char c :: pieces rest := by
  cases rest with
  | nil =>
    have noLetter : conversionOf 0 = none := by decide
    have noColor : Kernel.activeColor 0 = none := by decide
    simp [pieces, noLetter, noColor]
  | cons arg rest => rw [pieces]; rfl

variable {doubleText : δ → CString} {P : KernelOp δ → PrintState → Prop}

/-- A character of the format string, as the loop reads it. -/
theorem equivalent_load (quiet : ∀ text index s, P (.text (.load text index)) s) (text : CString)
    (i : Nat) {α : Type} {f : UInt8 → KernelProgram δ α} {q : KernelProgram δ α}
    (same : (f (text.at i)).Equivalent (kernelHandler doubleText) P q) :
    (Kernel.load (.string text) i >>= f).Equivalent (kernelHandler doubleText) P q :=
  Program.Equivalent.perform (fun _ => rfl) (quiet _ _) same

theorem Sink.loop_equivalent (sink : Sink δ) (quiet : ∀ text index s, P (.text (.load text index)) s)
    (text : CString) (left i : Nat) (inside : i ≤ text.text.length)
    (enough : text.text.length < i + left) (color : Color) (args : List (Arg δ)) :
    (sink.loop (.string text) left i color args).Equivalent (kernelHandler doubleText) P
      (sink.program (pieces (text.text.drop i)) color args) := by
  induction left generalizing i color args with
  | zero => omega
  | succ left ih =>
    rw [Sink.loop]
    apply equivalent_load quiet
    by_cases last : i = text.text.length
    · rw [if_pos ((text.at_eq_zero_iff inside).mpr last), last, List.drop_length]
      exact .refl _
    · have before : i < text.text.length := Nat.lt_of_le_of_ne inside last
      have next := ih (i + 1) before (by omega)
      rw [if_neg fun ended => last ((text.at_eq_zero_iff inside).mp ended), text.drop_eq before,
        pieces_cons, ← CString.at_eq, List.drop_drop]
      apply equivalent_load quiet
      split
      · apply equivalent_load quiet
        cases letter : conversionOf (text.at (i + 1)) with
        | none => exact .bind _ fun _ => next color args
        | some k =>
          -- the terminator is not a letter, so the escape is in the string
          have within : i + 1 < text.text.length := by
            apply text.lt_length before
            intro ended
            rw [ended] at letter
            cases letter
          cases args with
          | nil => exact .refl _
          | cons a args => exact .bind _ fun _ => ih (i + 2) within (by omega) color args
      · split
        · apply equivalent_load quiet
          cases letter : Kernel.activeColor (text.at (i + 1)) with
          | none => exact .bind _ fun _ => next color args
          | some color =>
            have within : i + 1 < text.text.length := by
              apply text.lt_length before
              intro ended
              rw [ended] at letter
              cases letter
            exact ih (i + 2) within (by omega) color args
        · exact .bind _ fun _ => next color args

/-- Where reading the format string does not count, the functions do what its pieces say. -/
theorem Kernel.printf_equivalent (quiet : ∀ text index s, P (.text (.load text index)) s)
    (text : CString) (args : List (Arg δ)) :
    (Kernel.printf text args).Equivalent (kernelHandler doubleText) P
      (kernelSink.program (pieces text.text) .white args) := by
  have counted := text.counted
  rw [Kernel.printf, Kernel.printfFrom_eq]
  exact Sink.loop_equivalent kernelSink quiet text intTurns 0 (Nat.zero_le _)
    (by unfold intTurns; omega) .white args

theorem User.printf_equivalent (quiet : ∀ text index s, P (.text (.load text index)) s)
    (text : CString) (out : OutputPort) (args : List (Arg δ)) :
    ((User.printf text out args).interp enterKernel).Equivalent (kernelHandler doubleText) P
      ((userSink out).program (pieces text.text) .white args) := by
  have counted := text.counted
  rw [User.printf, User.printfFrom_eq]
  exact Sink.loop_equivalent (userSink out) quiet text intTurns 0 (Nat.zero_le _)
    (by unfold intTurns; omega) .white args

end KopalniaOS.Stdlib
