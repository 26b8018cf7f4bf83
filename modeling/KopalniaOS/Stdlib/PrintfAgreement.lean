import KopalniaOS.Stdlib.FormatString

/-!
# The two `printf`s agree

A character and a text come out of a system call as they went in, so both functions show the same.
Each text is printed from where it is, and a number from `num_buf`.
-/
namespace KopalniaOS.Stdlib

open Library

variable {δ : Type} {doubleText : δ → CString}

/-! ### Texts of numbers -/

theorem length_toStrText_le (T : IntType) (v : T.Value) :
    (toStrText T v.val).length ≤ T.width := by
  have bound := IntType.natAbs_lt v
  have larger : 10 ^ (T.width - 1) ≤ 10 ^ (T.width - 1 + 1) :=
    Nat.pow_le_pow_right (by decide) (Nat.le_succ _)
  have digits : 0 < T.width - 1 := by cases T <;> decide
  have low : (10 : Int) ^ (T.width - 1) = (10 ^ (T.width - 1) : Nat) := by simp
  have high : (10 : Int) ^ (T.width - 1 + 1) = (10 ^ (T.width - 1 + 1) : Nat) := by simp
  have length := (length_decimal_le_iff v.val digits).mpr (by rw [low, high]; omega)
  rw [← T.width_pos] at length
  unfold toStrText
  split
  · exact length
  · have := T.width_pos
    simp
    omega

theorem toStrText_plain (T : IntType) (v : Int) : ∀ c ∈ toStrText T v, c ≠ 0 := by
  intro c member
  unfold toStrText at member
  split at member
  · exact decimal_plain v c member
  · rw [List.mem_singleton.mp member]
    decide

def intText (T : IntType) (v : T.Value) : CString where
  text := toStrText T v.val
  plain := toStrText_plain T v.val
  counted := by
    have length := length_toStrText_le T v
    have width : T.width ≤ 64 := by cases T <;> decide
    omega

theorem hexChar_ne_zero : ∀ nibble < 16, hexChar nibble ≠ 0 := by decide

theorem length_hexText_le_iff {k value : Nat} (pos : 0 < k) :
    (hexText value).length ≤ k + 2 ↔ value < 16 ^ k := by
  rw [hexText, List.length_append, List.length_map, Nat.add_comm]
  exact (Nat.add_le_add_iff_right (n := 2)).trans (length_numeral_le_iff (by decide) pos)

def hexCString (value : UInt64) : CString where
  text := hexText value.toNat
  plain := by
    intro c member
    rcases List.mem_append.mp member with sign | member
    · revert sign
      simp only [List.mem_cons, List.not_mem_nil, or_false]
      rintro (rfl | rfl) <;> decide
    · obtain ⟨nibble, inside, rfl⟩ := List.mem_map.mp member
      exact hexChar_ne_zero nibble (lt_of_mem_numeral (by decide) inside)
  counted := by
    have length := (length_hexText_le_iff (k := 16) (by decide)).mpr value.toNat_lt
    omega

/-! ### What a run leaves -/

/-- A pointer to this text. -/
def Pointer.Holds (m : Memory) (text : CString) : Pointer → Prop
  | .null => False
  | .string s => s = text
  | .numBuf => m.Spells text.text

/-- The state after these characters went to a port. -/
def PrintState.emit (s : PrintState) (out : OutputPort) (cs : List (UInt8 × Color)) : PrintState :=
  match out with
  | .stdOut => { s with shown := s.shown ++ cs.map fun x => (x.1, colorToRgb x.2) }
  | .stdSerial => { s with serial := s.serial ++ cs.map fun x => x.1 }

@[simp] theorem PrintState.numBuf_emit (s : PrintState) (out : OutputPort)
    (cs : List (UInt8 × Color)) : (s.emit out cs).numBuf = s.numBuf := by
  cases out <;> rfl

@[simp] theorem PrintState.emit_nil (s : PrintState) (out : OutputPort) : s.emit out [] = s := by
  cases out <;> simp [emit]

@[simp] theorem PrintState.emit_emit (s : PrintState) (out : OutputPort)
    (cs rest : List (UInt8 × Color)) : (s.emit out cs).emit out rest = s.emit out (cs ++ rest) := by
  cases out <;> simp [emit]

/-- What was emitted does not depend on `num_buf`. -/
theorem PrintState.emit_numBuf (s : PrintState) (out : OutputPort) (cs : List (UInt8 × Color))
    (m : Memory) : { s with numBuf := m }.emit out cs = { s.emit out cs with numBuf := m } := by
  cases out <;> rfl

/-- Every store of a number is in `num_buf`, which has 16 bytes. -/
def InNumBuf : KernelOp δ → PrintState → Prop
  | .text (.numBuf (.store index _)), _ => index < 16
  | _, _ => True

/-- A run that returns in the postcondition, with its numbers in their buffer. -/
abbrev Prints {α : Type} (doubleText : δ → CString) (p : KernelProgram δ α) (s : PrintState)
    (post : PrintState → Prop) : Prop :=
  p.Ensures (kernelHandler doubleText) InNumBuf s fun _ t => post t

/-! ### Characters out of a text -/

/-- Every loop over a text is this one, with what it does for a character. -/
def eachChar (text : Pointer) (act : UInt8 → KernelProgram δ Unit) :
    (left i : Nat) → KernelProgram δ Unit
  | 0, _ => .stuck
  | left + 1, i => do
    let c ← Kernel.load text i
    if c = 0 then pure ()
    else do
      let c ← Kernel.load text i
      act c
      eachChar text act left (i + 1)

theorem Kernel.printFrom_eq (text : Pointer) (color : Color) (left i : Nat) :
    (Kernel.printFrom text color left i : KernelProgram δ Unit) =
      eachChar text (Kernel.putChar · color) left i := by
  induction left generalizing i with
  | zero => rfl
  | succ left ih =>
    rw [Kernel.printFrom, eachChar]
    simp only [ih]
    rfl

theorem Color.ofValue_value (color : Color) : Color.ofValue color.value = some color := by
  cases color <;> rfl

/-- The colour arrives as it was sent. -/
theorem writeChars_eq (text : Pointer) (color : Color) (left i : Nat) :
    (writeChars text (.word color.value) left i : KernelProgram δ Unit) =
      eachChar text (Kernel.putChar · color) left i := by
  induction left generalizing i with
  | zero => rfl
  | succ left ih =>
    rw [writeChars, eachChar]
    simp only [ih, Register.number, Option.bind_some, Color.ofValue_value, orStuck,
      Program.pure_eq, Program.ret_bind]
    rfl

theorem serialChars_eq (text : Pointer) (left i : Nat) :
    (serialChars text left i : KernelProgram δ Unit) =
      eachChar text Kernel.outSerial left i := by
  induction left generalizing i with
  | zero => rfl
  | succ left ih =>
    rw [serialChars, eachChar]
    simp only [ih]

/-- A character arrives as it was sent. -/
theorem charToWord_cast (c : UInt8) : UInt8.ofNat (charToWord c) = c := by
  have small := c.toNat_lt
  apply UInt8.toNat_inj.mp
  rw [charToWord, UInt8.toNat_ofNat']
  split <;> omega

variable {s : PrintState} {out : OutputPort}

/-- A pointer to a text reads as the text. -/
theorem prints_load {α : Type} {p : Pointer} {text : CString} (holds : p.Holds s.numBuf text)
    {i : Nat} (inside : i ≤ text.text.length) {f : UInt8 → KernelProgram δ α}
    {post : PrintState → Prop} (next : Prints doubleText (f (text.at i)) s post) :
    Prints doubleText (Kernel.load p i >>= f) s post := by
  have answer : kernelHandler doubleText (.text (.load p i)) s = some (text.at i, s) := by
    cases p with
    | null => cases holds
    | string other =>
      cases holds
      rfl
    | numBuf =>
      have char : s.numBuf i = text.at i := holds i inside
      simp [kernelHandler, textHandler, char]
  exact Program.ensures_perform answer trivial next

theorem prints_eachChar {p : Pointer} {act : UInt8 → KernelProgram δ Unit} {color : Color}
    (acts : ∀ c s, Prints doubleText (act c) s fun t => t = s.emit out [(c, color)])
    {text : CString} (holds : p.Holds s.numBuf text) (left i : Nat)
    (inside : i ≤ text.text.length) (enough : text.text.length < i + left) :
    Prints doubleText (eachChar p act left i) s fun t =>
      t = s.emit out ((text.text.drop i).map (·, color)) := by
  induction left generalizing i s with
  | zero => omega
  | succ left ih =>
    rw [eachChar]
    apply prints_load holds inside
    -- the text ends at its zero, which is not printed
    by_cases last : i = text.text.length
    · rw [if_pos ((text.at_eq_zero_iff inside).mpr last), last]
      simp [Program.Meets]
    · have before : i < text.text.length := Nat.lt_of_le_of_ne inside last
      rw [if_neg fun ended => last ((text.at_eq_zero_iff inside).mp ended)]
      apply prints_load holds inside
      refine Program.ensures_bind (acts (text.at i) s) ?_
      rintro - t rfl
      have rest := ih (s := s.emit out [(text.at i, color)]) (by simpa using holds) (i + 1) before
        (by omega)
      rw [PrintState.emit_emit] at rest
      rwa [text.drop_eq before]

/-! ### The sinks -/

/-- A sink that brings characters and texts to a port. -/
structure Sink.Shows (sink : Sink δ) (doubleText : δ → CString) (out : OutputPort) : Prop where
  put : ∀ c color s, Prints doubleText (sink.put c color) s fun t => t = s.emit out [(c, color)]
  print : ∀ p color s (text : CString), p.Holds s.numBuf text →
    Prints doubleText (sink.print p color) s fun t => t = s.emit out (text.text.map (·, color))

theorem prints_putChar (c : UInt8) (color : Color) (s : PrintState) :
    Prints doubleText (Kernel.putChar c color) s fun t => t = s.emit .stdOut [(c, color)] := by
  intro _
  refine ⟨trivial, nofun, ?_⟩
  rintro r answer
  cases answer
  rfl

theorem prints_outSerial (c : UInt8) (color : Color) (s : PrintState) :
    Prints doubleText (Kernel.outSerial c) s fun t =>
      t = s.emit .stdSerial [(c, color)] := by
  intro _
  refine ⟨trivial, nofun, ?_⟩
  rintro r answer
  cases answer
  rfl

/-- Any loop over the whole of a text. -/
theorem prints_text {p : Pointer} {act : UInt8 → KernelProgram δ Unit} {color : Color}
    (acts : ∀ c s, Prints doubleText (act c) s fun t => t = s.emit out [(c, color)])
    {text : CString} (holds : p.Holds s.numBuf text) :
    Prints doubleText (eachChar p act intTurns 0) s fun t =>
      t = s.emit out (text.text.map (·, color)) := by
  have counted := text.counted
  exact prints_eachChar acts holds intTurns 0 (Nat.zero_le _) (by unfold intTurns; omega)

theorem kernelSink_shows : (kernelSink : Sink δ).Shows doubleText .stdOut where
  put := prints_putChar
  print p color s text holds := by
    rw [show kernelSink.print p color = Kernel.printFrom p color intTurns 0 from rfl,
      Kernel.printFrom_eq]
    exact prints_text (fun c s => prints_putChar c color s) holds

/-- The caller of a system call does not look at its result. -/
theorem prints_syscall {id : Nat} {arg1 arg2 : Register} {post : PrintState → Prop}
    (dispatched : Prints doubleText (dispatchSyscall id arg1 arg2) s post) :
    Prints doubleText
      ((Program.perform (UserOp.syscall id arg1 arg2) >>= fun _ => pure () : UserProgram δ Unit).interp
        enterKernel) s post := by
  rw [Program.interp_bind, Program.interp_perform]
  exact Program.ensures_bind dispatched fun _ _ holds => holds

/-- An address that is not null is valid, and the kernel reads from it. -/
theorem Pointer.Holds.valid {p : Pointer} {m : Memory} {text : CString} (holds : p.Holds m text) :
    validateUserPtr (.address p) = true := by
  cases p with
  | null => cases holds
  | string _ => rfl
  | numBuf => rfl

theorem userSink_shows (out : OutputPort) : (userSink out : Sink δ).Shows doubleText out := by
  -- on either side of the call the same characters reach the same port
  cases out with
  | stdOut =>
    refine ⟨fun c color s => ?_, fun p color s text holds => ?_⟩
    · refine prints_syscall ?_
      simp only [dispatchSyscall, Register.number, Option.bind_some, Color.ofValue_value, orStuck,
        charToWord_cast, Program.pure_eq, Program.ret_bind]
      exact Program.ensures_bind (prints_putChar c color s) fun _ _ holds => holds
    · refine prints_syscall ?_
      rw [dispatchSyscall, if_neg (by simp [holds.valid])]
      simp only [Register.pointer, orStuck, Program.pure_eq, Program.ret_bind, writeChars_eq]
      exact Program.ensures_bind (prints_text (fun c s => prints_putChar c color s) holds)
        fun _ _ holds => holds
  | stdSerial =>
    refine ⟨fun c color s => ?_, fun p color s text holds => ?_⟩
    · refine prints_syscall ?_
      simp only [dispatchSyscall, Register.number, orStuck, charToWord_cast, Program.pure_eq,
        Program.ret_bind]
      exact Program.ensures_bind (prints_outSerial c color s) fun _ _ holds => holds
    · refine prints_syscall ?_
      rw [dispatchSyscall, if_neg (by simp [holds.valid])]
      simp only [Register.pointer, orStuck, Program.pure_eq, Program.ret_bind, serialChars_eq]
      exact Program.ensures_bind (prints_text (fun c s => prints_outSerial c color s) holds)
        fun _ _ holds => holds

/-! ### Runs over the pieces -/

/-- Writing a number changes `num_buf` only. -/
theorem run_numBuf {α : Type} (p : BufferProgram α) (s : PrintState) :
    (Kernel.numBuf p).run (kernelHandler doubleText) s =
      (p.run bufferHandler s.numBuf).map fun r => (r.1, { s with numBuf := r.2 }) := by
  refine Program.run_interp bufferHandler PrintState.numBuf (fun s m => { s with numBuf := m })
    (fun _ => rfl) (fun _ _ => rfl) (fun _ _ _ => rfl) (fun o s => ?_) p s
  rw [Program.run_perform]
  rfl

theorem run_int (T : IntType) (v : T.Value) (s : PrintState) :
    (Kernel.numBuf (toStr T v.val)).run (kernelHandler doubleText) s =
      some ((), { s with numBuf := s.numBuf.splice 0 ((intText T v).text ++ [0]) }) := by
  rw [run_numBuf, run_toStr]
  rfl

theorem run_hex (v : UInt64) (s : PrintState) :
    (Kernel.numBuf (toHexStr v.toNat)).run (kernelHandler doubleText) s =
      some ((), { s with numBuf := s.numBuf.splice 0 ((hexCString v).text ++ [0]) }) := by
  rw [run_numBuf, run_toHexStr v.toNat_lt]
  rfl

theorem run_double (d : δ) (s : PrintState) :
    (Kernel.doubleToStr d).run (kernelHandler doubleText) s =
      some ((), { s with numBuf := s.numBuf.splice 0 ((doubleText d).text ++ [0]) }) := by
  rw [Kernel.doubleToStr, Program.run_perform]
  rfl

namespace Sink.Shows

variable {sink : Sink δ} (shows : sink.Shows doubleText out)

include shows

theorem run_print {p : Pointer} {text : CString} (holds : p.Holds s.numBuf text) (color : Color) :
    (sink.print p color).run (kernelHandler doubleText) s =
      some ((), s.emit out (text.text.map (·, color))) := by
  obtain ⟨_, _, ran, rfl⟩ := (shows.print p color s text holds).returns
  exact ran

/-- A number is printed from the buffer that it was just written to. -/
theorem run_number {text : CString} {write : KernelProgram δ Unit}
    (written : write.run (kernelHandler doubleText) s =
      some ((), { s with numBuf := s.numBuf.splice 0 (text.text ++ [0]) })) (color : Color) :
    ∃ m, (write >>= fun _ => sink.print .numBuf color).run (kernelHandler doubleText) s =
      some ((), { s.emit out (text.text.map (·, color)) with numBuf := m }) := by
  have holds : Pointer.numBuf.Holds (s.numBuf.splice 0 (text.text ++ [0])) text :=
    Memory.spells_splice s.numBuf text.text
  have print := shows.run_print
    (s := { s with numBuf := s.numBuf.splice 0 (text.text ++ [0]) }) holds color
  rw [PrintState.emit_numBuf] at print
  refine ⟨s.numBuf.splice 0 (text.text ++ [0]), ?_⟩
  rw [Program.run_bind, written, Option.bind_some, print]

theorem run_convert {k : Conversion} {a : Arg δ} (takes : k.Takes a) (color : Color)
    (s : PrintState) :
    ∃ m, (sink.convert k a color).run (kernelHandler doubleText) s =
      some ((), { s.emit out ((k.text doubleText a).map (·, color)) with numBuf := m }) := by
  -- the argument has the type of the conversion
  cases k <;> cases a <;> try cases takes
  case char.int v =>
    obtain ⟨_, _, ran, rfl⟩ := (shows.put (intToChar v.val) color s).returns
    refine ⟨s.numBuf, ran.trans ?_⟩
    cases out <;> rfl
  case string.string text =>
    cases text with
    | none => exact (takes rfl).elim
    | some text =>
      have holds : (Pointer.string text).Holds s.numBuf text := rfl
      refine ⟨s.numBuf, (shows.run_print holds color).trans ?_⟩
      cases out <;> rfl
  case longLong.longLong v => exact shows.run_number (run_int .longLong v s) color
  case int.int v => exact shows.run_number (run_int .int v s) color
  case unsignedInt.unsignedInt v => exact shows.run_number (run_int .unsignedInt v s) color
  case hex.unsignedLongLong v => exact shows.run_number (run_hex v s) color
  case double.double d => exact shows.run_number (run_double d s) color

/-- Printing emits what the pieces render to, and takes an argument for each conversion. -/
theorem run_program (ps : List Piece) (color : Color) {args : List (Arg δ)}
    (wellTyped : WellTyped ps args) (s : PrintState) :
    ∃ m, (sink.program ps color args).run (kernelHandler doubleText) s =
      some (args.drop (conversions ps),
        { s.emit out (render doubleText ps color args) with numBuf := m }) := by
  induction ps generalizing color args s with
  | nil => exact ⟨s.numBuf, by simp [program, conversions, render]⟩
  | cons piece ps ih =>
    -- the pieces that print extend the output; a color only holds for what follows
    cases piece with
    | char c =>
      obtain ⟨_, _, ran, rfl⟩ := (shows.put c color s).returns
      obtain ⟨m, rest⟩ := ih color wellTyped (s.emit out [(c, color)])
      refine ⟨m, ?_⟩
      rw [program, Program.run_bind, ran, Option.bind_some, rest, PrintState.emit_emit]
      rfl
    | color color' => exact ih color' wellTyped s
    | convert k =>
      cases args with
      | nil => cases wellTyped
      | cons a args =>
        obtain ⟨takes, wellTyped⟩ := wellTyped
        obtain ⟨m, ran⟩ := shows.run_convert takes color s
        obtain ⟨m', rest⟩ := ih color wellTyped
          { s.emit out ((k.text doubleText a).map (·, color)) with numBuf := m }
        refine ⟨m', ?_⟩
        rw [program, Program.run_bind, ran, Option.bind_some, rest, PrintState.emit_numBuf,
          PrintState.emit_emit]
        rfl

end Sink.Shows

/-! ### Agreement -/

theorem Kernel.run_printf (doubleText : δ → CString) (text : CString) {args : List (Arg δ)}
    (wellTyped : WellTyped (pieces text.text) args) (s : PrintState) :
    ∃ m, (Kernel.printf text args).run (kernelHandler doubleText) s =
      some (args.drop (conversions (pieces text.text)),
        { s.emit .stdOut (render doubleText (pieces text.text) .white args) with numBuf := m }) := by
  rw [(Kernel.printf_equivalent (P := fun _ _ => True) (fun _ _ _ => trivial) text args s).1]
  exact kernelSink_shows.run_program _ _ wellTyped s

theorem User.run_printf (doubleText : δ → CString) (text : CString) (out : OutputPort)
    {args : List (Arg δ)} (wellTyped : WellTyped (pieces text.text) args) (s : PrintState) :
    ∃ m, ((User.printf text out args).interp enterKernel).run (kernelHandler doubleText) s =
      some (args.drop (conversions (pieces text.text)),
        { s.emit out (render doubleText (pieces text.text) .white args) with numBuf := m }) := by
  rw [(User.printf_equivalent (P := fun _ _ => True) (fun _ _ _ => trivial) text out args s).1]
  exact (userSink_shows out).run_program _ _ wellTyped s

/-- Whatever the two copies of `num_buf` hold, both functions return, show the same characters in
the same colours, and leave the same arguments. -/
theorem printf_agree (doubleText : δ → CString) (text : CString) (args : List (Arg δ))
    (wellTyped : WellTyped (pieces text.text) args) (s : PrintState) (m m' : Memory) :
    ∃ shown rest n n',
      (Kernel.printf text args).run (kernelHandler doubleText) { s with numBuf := m } =
        some (rest, { s with numBuf := n, shown := s.shown ++ shown }) ∧
      ((User.printf text .stdOut args).interp enterKernel).run (kernelHandler doubleText)
          { s with numBuf := m' } =
        some (rest, { s with numBuf := n', shown := s.shown ++ shown }) := by
  obtain ⟨n, inKernel⟩ := Kernel.run_printf doubleText text wellTyped { s with numBuf := m }
  obtain ⟨n', inUser⟩ := User.run_printf doubleText text .stdOut wellTyped { s with numBuf := m' }
  exact ⟨_, _, n, n', inKernel, inUser⟩

/-- `&4%c%`: a red character, and a trailing escape that is none. -/
def redFormat : CString := ⟨[38, 52, 37, 99, 37], by simp, by simp⟩

theorem printf_agree_red : ∃ shown rest n n',
    (Kernel.printf redFormat [Arg.int ⟨65, by decide⟩]).run (kernelHandler fun _ : Unit => redFormat)
        ⟨fun _ => 0, [], []⟩ = some (rest, ⟨n, [] ++ shown, []⟩) ∧
    ((User.printf redFormat .stdOut [Arg.int ⟨65, by decide⟩]).interp enterKernel).run
        (kernelHandler fun _ : Unit => redFormat) ⟨fun _ => 1, [], []⟩ =
      some (rest, ⟨n', [] ++ shown, []⟩) :=
  printf_agree (fun _ : Unit => redFormat) redFormat [Arg.int ⟨65, by decide⟩] ⟨trivial, trivial⟩
    ⟨fun _ => 0, [], []⟩ (fun _ => 0) fun _ => 1

end KopalniaOS.Stdlib
