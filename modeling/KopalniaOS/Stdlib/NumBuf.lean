import KopalniaOS.Stdlib.PrintfAgreement

/-!
# The number buffer

`num_buf` has 16 bytes. A number is written from the start of it, and the terminator goes behind
the last character, so the length of the text decides whether it fits.
-/
namespace KopalniaOS.Stdlib

open Library

/-! ### Where a number is written -/

def StoresBelow (limit : Nat) : BufferOp → Prop
  | .load _ => True
  | .store index _ => index < limit

/-- All stores of a conversion are below a limit. -/
abbrev StaysBelow {α : Type} (limit : Nat) (p : BufferProgram α) (m : Memory) : Prop :=
  p.All bufferHandler (fun o _ => StoresBelow limit o) m

variable {limit : Nat} {m : Memory}

theorem staysBelow_store (index : Nat) (value : UInt8) :
    StaysBelow limit (storeChar index value) m ↔ index < limit :=
  (Program.all_op (BufferOp.store index value) Program.ret m).trans (by simp [StoresBelow])

theorem staysBelow_bind {α β : Type} {p : BufferProgram α} {f : α → BufferProgram β} {a : α}
    {m' : Memory} (ran : p.run bufferHandler m = some (a, m')) :
    StaysBelow limit (p >>= f) m ↔ StaysBelow limit p m ∧ StaysBelow limit (f a) m' :=
  Program.all_bind_of_run ran

theorem staysBelow_store_bind {α : Type} {index : Nat} {value : UInt8} {f : Unit → BufferProgram α}
    (inside : index < limit) (rest : StaysBelow limit (f ()) (Function.update m index value)) :
    StaysBelow limit (storeChar index value >>= f) m :=
  (staysBelow_bind (run_storeChar index value m)).mpr
    ⟨(staysBelow_store index value).mpr inside, rest⟩

theorem staysBelow_writeDigits (left n i : Nat) (enough : n < 10 ^ left)
    (room : i + (Nat.digits 10 n).length ≤ limit) :
    StaysBelow limit (writeDigits (left + 1) n i) m := by
  induction left generalizing n i m with
  | zero =>
    have zero : n = 0 := by simpa using enough
    simp [writeDigits, zero]
  | succ left ih =>
    rw [writeDigits]
    split
    · rename_i pos
      -- C++ division truncates towards zero, which is the same for what is not negative
      have quotient : (n : Int).tdiv 10 = (n / 10 : Nat) := by
        rw [Int.tdiv_eq_ediv_of_nonneg (Int.natCast_nonneg n)]
        simp
      rw [Nat.digits_def' (by decide) (by omega), List.length_cons] at room
      refine staysBelow_store_bind (by omega) ?_
      rw [quotient]
      exact ih (n / 10) (i + 1) (by rw [Nat.pow_succ] at enough; omega) (by omega)
    · simp

theorem staysBelow_reverseChars (left : Nat) {i j : Nat} (half : 2 * (j + left) ≤ i)
    (room : i ≤ limit) : StaysBelow limit (reverseChars i left j) m := by
  induction left generalizing j m with
  | zero => simp [reverseChars]
  | succ left ih =>
    rw [reverseChars]
    refine (staysBelow_bind (run_loadChar j m)).mpr ⟨?_, ?_⟩
    · exact (Program.all_op _ _ _).mpr ⟨trivial, by simp⟩
    · refine (staysBelow_bind (run_loadChar (i - j - 1) m)).mpr ⟨?_, ?_⟩
      · exact (Program.all_op _ _ _).mpr ⟨trivial, by simp⟩
      · refine staysBelow_store_bind (by omega) (staysBelow_store_bind (by omega) ?_)
        exact ih (by omega)

theorem staysBelow_writeMagnitude (T : IntType) {n : Nat} (enough : n < 10 ^ (T.width - 1))
    (room : (numeral 10 n).length ≤ limit) : StaysBelow limit (writeMagnitude T n) m := by
  rw [writeMagnitude]
  by_cases zero : n = 0
  · subst zero
    rw [if_pos (show ((0 : Nat) : Int) = 0 from rfl)]
    exact staysBelow_store_bind room (by simp)
  · rw [if_neg (by omega), T.width_pos]
    rw [numeral_pos 10 zero, List.length_reverse] at room
    exact staysBelow_writeDigits _ n 0 enough (by simpa using room)

theorem staysBelow_writeReversed (T : IntType) (v : T.Value)
    (room : (toStrText T v.val).length ≤ limit) : StaysBelow limit (writeReversed T v.val) m := by
  have digits := run_writeMagnitude T (IntType.natAbs_lt v) m
  unfold writeReversed
  rcases IntType.sign_cases v with
    ⟨negative, noNegative, still⟩ | ⟨negative, fits, magnitude⟩ | ⟨positive, fits, magnitude⟩
  · -- no digits, and the sign is at the start
    rw [toStrText, if_neg (Int.not_le.mpr noNegative)] at room
    simp only [negative, decide_true, if_true]
    rw [writeMagnitude_negative still]
    exact staysBelow_store_bind room (by simp)
  · rw [toStrText, if_pos fits, decimal, if_pos negative, List.length_cons, List.length_map] at room
    simp only [negative, decide_true, if_true]
    rw [magnitude]
    refine (staysBelow_bind digits).mpr
      ⟨staysBelow_writeMagnitude T (IntType.natAbs_lt v) (Nat.le_of_lt room), ?_⟩
    exact staysBelow_store_bind room (by simp)
  · rw [toStrText, if_pos fits, decimal, if_neg positive, List.length_map] at room
    have start : StaysBelow limit (writeMagnitude T v.val) m := by
      rw [magnitude]
      exact staysBelow_writeMagnitude T (IntType.natAbs_lt v) room
    rw [← magnitude] at digits
    simp only [positive, decide_false, Bool.false_eq_true, if_false]
    exact (staysBelow_bind digits).mpr ⟨start, by simp [writeSign]⟩

/-- `to_str` needs a byte more than its text has. -/
theorem staysBelow_toStr_iff (T : IntType) (v : T.Value) :
    StaysBelow limit (toStr T v.val) m ↔ (toStrText T v.val).length < limit := by
  have reversed := run_reverse m (toStrText T v.val).reverse
  rw [toStr, staysBelow_bind (run_writeReversed T v m), staysBelow_bind reversed,
    staysBelow_store, List.length_reverse]
  refine ⟨fun all => all.2.2, fun room => ⟨?_, ?_, room⟩⟩
  · exact staysBelow_writeReversed T v (Nat.le_of_lt room)
  · exact staysBelow_reverseChars _ (by omega) (Nat.le_of_lt room)

theorem staysBelow_writeNibbles_started (value left ptr : Nat) (room : ptr + left ≤ limit) :
    StaysBelow limit (writeNibbles value left ptr true) m := by
  induction left generalizing ptr m with
  | zero => simp [writeNibbles]
  | succ left ih =>
    rw [writeNibbles, if_neg (by simp)]
    exact staysBelow_store_bind (by omega) (ih (ptr + 1) (by omega))

theorem staysBelow_writeNibbles {value : Nat} (pos : value ≠ 0) (left ptr : Nat)
    (small : value < 16 ^ left) (room : ptr + (numeral 16 value).length ≤ limit) :
    StaysBelow limit (writeNibbles value left ptr false) m := by
  induction left with
  | zero => omega
  | succ left ih =>
    rw [writeNibbles, nibble_eq]
    rcases Nat.lt_or_ge value (16 ^ left) with zeros | first
    · rw [Nat.div_eq_of_lt zeros, if_pos ⟨rfl, rfl⟩]
      exact ih zeros
    · have length : (numeral 16 value).length = left + 1 := by
        simp [numeral_eq_places (b := 16) (by decide) first small, places]
      have digit := leading_place_ne_zero first small
      rw [if_neg fun both => digit both.2]
      exact staysBelow_store_bind (by omega)
        (staysBelow_writeNibbles_started value left (ptr + 1) (by omega))

theorem staysBelow_writeNibbles_zero (left ptr : Nat) :
    StaysBelow limit (writeNibbles 0 left ptr false) m := by
  induction left with
  | zero => simp [writeNibbles]
  | succ left ih =>
    rw [writeNibbles, nibble_eq, Nat.zero_div, if_pos ⟨rfl, rfl⟩]
    exact ih

/-- And so does `to_hex_str`. -/
theorem staysBelow_toHexStr_iff {value : Nat} (small : value < 2 ^ 64) :
    StaysBelow limit (toHexStr value) m ↔ (hexText value).length < limit := by
  have length : (hexText value).length = 2 + (numeral 16 value).length := by
    simp only [hexText, List.length_append, List.length_cons, List.length_nil, List.length_map]
  have digits := List.length_pos_iff.mpr (numeral_ne_nil 16 value)
  rw [toHexStr, staysBelow_bind (run_storeChar 0 48 m), staysBelow_store,
    staysBelow_bind (run_storeChar 1 120 _), staysBelow_store]
  -- zero is written as one digit of its own
  by_cases zero : value = 0
  · subst zero
    have zero : (numeral 16 0).length = 1 := rfl
    rw [staysBelow_bind (run_writeNibbles_zero 16 2 _)]
    simp only [writeZero, if_true, Program.pure_eq]
    rw [Program.bind_assoc, staysBelow_bind (run_storeChar 2 48 _), staysBelow_store,
      Program.ret_bind, staysBelow_store, length, zero]
    refine ⟨fun all => all.2.2.2.2, fun room => ⟨by omega, by omega, ?_, by omega, room⟩⟩
    exact staysBelow_writeNibbles_zero 16 2
  · rw [staysBelow_bind (run_writeNibbles zero 16 2 small _)]
    simp only [writeZero, Bool.true_eq_false, if_false, Program.pure_eq, Program.ret_bind]
    rw [staysBelow_store, length]
    refine ⟨fun all => all.2.2.2, fun room => ⟨by omega, by omega, ?_, room⟩⟩
    exact staysBelow_writeNibbles zero 16 2 small (Nat.le_of_lt room)

/-! ### Which arguments fit -/

/-- The text of the number and its terminator have at most 16 bytes. -/
def Arg.Fits {δ : Type} : Arg δ → Prop
  | .longLong v => -10 ^ 14 < v.val ∧ v.val < 10 ^ 15 ∨ v.val = -2 ^ 63
  | .unsignedLongLong v => v.toNat < 16 ^ 13
  | _ => True

theorem longLong_fits_iff (v : IntType.longLong.Value) :
    (toStrText .longLong v.val).length < 16 ↔
      -10 ^ 14 < v.val ∧ v.val < 10 ^ 15 ∨ v.val = -2 ^ 63 := by
  obtain ⟨v, lower, upper⟩ := v
  simp only [IntType.min, IntType.max, IntType.signed, IntType.width] at lower upper
  have length := length_decimal_le_iff (k := 14) v (by decide)
  unfold toStrText
  split
  · rename_i fits
    simp only [IntType.max, IntType.signed, IntType.width] at fits
    rw [Nat.lt_succ_iff, length]
    simp at lower upper fits ⊢
    omega
  · rename_i least
    simp [IntType.max, IntType.signed, IntType.width] at least lower upper ⊢
    omega

/-- A 32-bit number always fits. -/
theorem int_fits (T : IntType) (v : T.Value) (narrow : T.width = 32) :
    (toStrText T v.val).length < 16 := by
  have length := (length_decimal_le_iff (k := 14) v.val (by decide)).mpr
  have bound : -10 ^ 14 < v.val ∧ v.val < 10 ^ 15 := by
    obtain ⟨lower, upper⟩ := v.property
    cases T <;> simp [IntType.min, IntType.max, IntType.signed, IntType.width] at * <;> omega
  unfold toStrText
  split
  · exact Nat.lt_succ_of_le (length bound)
  · decide

theorem hex_fits_iff (v : UInt64) : (hexText v.toNat).length < 16 ↔ v.toNat < 16 ^ 13 :=
  Nat.lt_succ_iff.trans (length_hexText_le_iff (k := 13) (by decide))

/-! ### The conversions -/

variable {δ : Type} {doubleText : δ → CString} {out : OutputPort} {s : PrintState}

/-- The stores of a number inside a `printf`. -/
theorem all_numBuf_iff {α : Type} (p : BufferProgram α) (s : PrintState) :
    (Kernel.numBuf p).All (kernelHandler doubleText) InNumBuf s ↔ StaysBelow 16 p s.numBuf := by
  induction p generalizing s with
  | ret a => simp [Kernel.numBuf, Program.interp, StaysBelow]
  | op o k ih =>
    rw [Kernel.numBuf, Program.interp, Program.all_perform_bind, StaysBelow, Program.all_op]
    refine and_congr ?_ ⟨fun rest r answer => ?_, fun rest r answer => ?_⟩
    · cases o <;> rfl
    · refine (ih r.1 { s with numBuf := r.2 }).mp (rest (r.1, { s with numBuf := r.2 }) ?_)
      simp [kernelHandler, textHandler, answer]
    · obtain ⟨r', answer', rfl⟩ := Option.map_eq_some_iff.mp answer
      exact (ih r'.1 { s with numBuf := r'.2 }).mpr (rest r' answer')
  | stuck => simp [Kernel.numBuf, Program.interp, StaysBelow]

namespace Sink.Shows

variable {sink : Sink δ} (shows : sink.Shows doubleText out)

include shows

/-- Printing the number does not write to the buffer again. -/
theorem all_number_iff {text : CString} {p : BufferProgram Unit}
    (written : (Kernel.numBuf p).run (kernelHandler doubleText) s =
      some ((), { s with numBuf := s.numBuf.splice 0 (text.text ++ [0]) })) (color : Color) :
    (Kernel.numBuf p >>= fun _ => sink.print .numBuf color).All (kernelHandler doubleText) InNumBuf
      s ↔ StaysBelow 16 p s.numBuf := by
  have holds : Pointer.numBuf.Holds (s.numBuf.splice 0 (text.text ++ [0])) text :=
    Memory.spells_splice s.numBuf text.text
  have print := (shows.print .numBuf color
    { s with numBuf := s.numBuf.splice 0 (text.text ++ [0]) } text holds).all
  rw [Program.all_bind_of_run written, all_numBuf_iff]
  exact and_iff_left print

theorem all_convert_iff {k : Conversion} {a : Arg δ} (takes : k.Takes a) (color : Color)
    (s : PrintState) :
    (sink.convert k a color).All (kernelHandler doubleText) InNumBuf s ↔ a.Fits := by
  -- of the integers only those of 64 bits can be too long for the buffer
  cases k <;> cases a <;> try cases takes
  case char.int v => exact iff_of_true (shows.put _ color s).all trivial
  case string.string text =>
    cases text with
    | none => exact (takes rfl).elim
    | some text => exact iff_of_true (shows.print (.string text) color s text rfl).all trivial
  case longLong.longLong v =>
    exact (shows.all_number_iff (run_int .longLong v s) color).trans
      ((staysBelow_toStr_iff .longLong v).trans (longLong_fits_iff v))
  case int.int v =>
    exact (shows.all_number_iff (run_int .int v s) color).trans
      ((staysBelow_toStr_iff .int v).trans (iff_of_true (int_fits .int v rfl) trivial))
  case unsignedInt.unsignedInt v =>
    exact (shows.all_number_iff (run_int .unsignedInt v s) color).trans
      ((staysBelow_toStr_iff .unsignedInt v).trans
        (iff_of_true (int_fits .unsignedInt v rfl) trivial))
  case hex.unsignedLongLong v =>
    exact (shows.all_number_iff (run_hex v s) color).trans
      ((staysBelow_toHexStr_iff v.toNat_lt).trans (hex_fits_iff v))
  case double.double d =>
    have written : (Kernel.doubleToStr d).run (kernelHandler doubleText) s = _ := run_double d s
    have holds : Pointer.numBuf.Holds (s.numBuf.splice 0 ((doubleText d).text ++ [0])) _ :=
      Memory.spells_splice s.numBuf (doubleText d).text
    refine iff_of_true ((Program.all_bind_of_run written).mpr ⟨?_, ?_⟩) trivial
    · exact (Program.all_op _ _ _).mpr ⟨trivial, by simp⟩
    · exact (shows.print .numBuf color
        { s with numBuf := s.numBuf.splice 0 ((doubleText d).text ++ [0]) } _ holds).all

/-- Over all pieces: the numbers that are taken are the ones that have to fit. -/
theorem all_program_iff (ps : List Piece) (color : Color) {args : List (Arg δ)}
    (wellTyped : WellTyped ps args) (s : PrintState) :
    (sink.program ps color args).All (kernelHandler doubleText) InNumBuf s ↔
      ∀ a ∈ args.take (conversions ps), a.Fits := by
  induction ps generalizing color args s with
  | nil => simp [program, conversions]
  | cons piece ps ih =>
    cases piece with
    | char c =>
      -- what fits does not depend on the color and on what the buffer holds
      obtain ⟨_, _, ran, -⟩ := (shows.put c color s).returns
      rw [program, Program.all_bind_of_run ran, ih color wellTyped]
      exact and_iff_right (shows.put c color s).all
    | color color' => exact ih color' wellTyped s
    | convert k =>
      cases args with
      | nil => cases wellTyped
      | cons a args =>
        obtain ⟨takes, wellTyped⟩ := wellTyped
        obtain ⟨m, ran⟩ := shows.run_convert takes color s
        rw [program, Program.all_bind_of_run ran, ih color wellTyped,
          shows.all_convert_iff takes color s, conversions, List.take_succ_cons,
          List.forall_mem_cons]

end Sink.Shows

theorem Kernel.all_printf_iff (doubleText : δ → CString) (text : CString) {args : List (Arg δ)}
    (wellTyped : WellTyped (pieces text.text) args) (s : PrintState) :
    (Kernel.printf text args).All (kernelHandler doubleText) InNumBuf s ↔
      ∀ a ∈ args.take (conversions (pieces text.text)), a.Fits := by
  rw [(Kernel.printf_equivalent (fun _ _ _ => trivial) text args s).2]
  exact kernelSink_shows.all_program_iff _ _ wellTyped s

theorem User.all_printf_iff (doubleText : δ → CString) (text : CString) (out : OutputPort)
    {args : List (Arg δ)} (wellTyped : WellTyped (pieces text.text) args) (s : PrintState) :
    ((User.printf text out args).interp enterKernel).All (kernelHandler doubleText) InNumBuf s ↔
      ∀ a ∈ args.take (conversions (pieces text.text)), a.Fits := by
  rw [(User.printf_equivalent (fun _ _ _ => trivial) text out args s).2]
  exact (userSink_shows out).all_program_iff _ _ wellTyped s

/-- Both functions keep their numbers in `num_buf` exactly if the arguments that they take fit. -/
theorem printf_inNumBuf_iff (doubleText : δ → CString) (text : CString) (out : OutputPort)
    (args : List (Arg δ)) (wellTyped : WellTyped (pieces text.text) args) (s : PrintState) :
    ((Kernel.printf text args).All (kernelHandler doubleText) InNumBuf s ↔
      ∀ a ∈ args.take (conversions (pieces text.text)), a.Fits) ∧
    (((User.printf text out args).interp enterKernel).All (kernelHandler doubleText) InNumBuf s ↔
      ∀ a ∈ args.take (conversions (pieces text.text)), a.Fits) :=
  ⟨Kernel.all_printf_iff doubleText text wellTyped s,
    User.all_printf_iff doubleText text out wellTyped s⟩

/-- The format string `%l`. -/
def longLongFormat : CString := ⟨[37, 108], by simp, by simp⟩

/-- A `long long` with 15 digits fits. -/
theorem printf_inNumBuf_fifteen :
    (Kernel.printf longLongFormat [Arg.longLong ⟨999999999999999, by decide⟩]).All
      (kernelHandler fun _ : Unit => longLongFormat) InNumBuf ⟨fun _ => 0, [], []⟩ :=
  (printf_inNumBuf_iff (fun _ : Unit => longLongFormat) longLongFormat .stdOut
    [Arg.longLong ⟨999999999999999, by decide⟩] ⟨trivial, trivial⟩ ⟨fun _ => 0, [], []⟩).1.mpr
    fun a member => by
      rw [List.mem_singleton.mp (List.mem_of_mem_take member)]
      exact .inl (by decide)

/-- The greatest `long long` does not. -/
theorem printf_max_not_inNumBuf : ¬∀ (text : CString) (args : List (Arg Unit)),
    WellTyped (pieces text.text) args →
    (Kernel.printf text args).All (kernelHandler fun _ => longLongFormat) InNumBuf
      ⟨fun _ => 0, [], []⟩ := by
  intro fits
  have wellTyped : WellTyped (pieces longLongFormat.text)
      [(Arg.longLong ⟨2 ^ 63 - 1, by decide⟩ : Arg Unit)] := ⟨trivial, trivial⟩
  have all := (Kernel.all_printf_iff _ _ wellTyped _).mp (fits _ _ wellTyped)
  exact absurd (all _ (List.mem_cons_self ..)) (by
    unfold Arg.Fits
    decide)

end KopalniaOS.Stdlib
