import KopalniaOS.Keyboard.Model

/-!
# Keys reach the reader

Whatever the handler does between the accesses of a reader, the codes that were popped and those
that wait are the keys that were pressed, in order. The handler only writes the head and the
slot in front of it, and a reader only the tail, which it moves after it has read the slot.
-/
namespace KopalniaOS.Keyboard

open Library Stdlib

/-! ### Decoding -/

/-- One byte of a stream: the keys pressed so far, and whether a prefix is pending. -/
def decodeByte (d : List UInt8 × Bool) (raw : UInt8) : List UInt8 × Bool :=
  if raw = 0xE0 then (d.1, true)
  else if raw < 0x80 then (d.1 ++ [if d.2 then raw + 0x59 else raw], false)
  else (d.1, false)

def decode (raws : List UInt8) : List UInt8 × Bool := raws.foldl decodeByte ([], false)

@[simp] theorem decode_append (raws more : List UInt8) :
    decode (raws ++ more) = more.foldl decodeByte (decode raws) :=
  List.foldl_append

/-- A whole scan code leaves no prefix pending. -/
theorem decode_code (d : List UInt8) (code : ScanCode) :
    code.bytes.foldl decodeByte (d, false) = (d ++ code.make.toList, false) := by
  have plain := code.plain
  cases extended : code.extended <;> by_cases press : code.byte < 0x80 <;>
    simp [ScanCode.bytes, ScanCode.make, decodeByte, extended, press, plain]

/-- What a stream of scan codes means, also when it ends in a prefix. -/
theorem decode_codes (codes : List ScanCode) :
    decode (codes.flatMap ScanCode.bytes) = (codes.filterMap ScanCode.make, false) := by
  have general (d : List UInt8) : (codes.flatMap ScanCode.bytes).foldl decodeByte (d, false) =
      (d ++ codes.filterMap ScanCode.make, false) := by
    induction codes generalizing d with
    | nil => simp
    | cons code codes ih =>
      rw [List.flatMap_cons, List.foldl_append, decode_code, ih]
      cases pressed : code.make <;> simp [pressed]
  exact (general []).trans (by rw [List.nil_append])

/-- The bits that the handler looks at tell make from break bytes. -/
theorem release_bit (raw : UInt8) : raw &&& 0x80 = 0 ↔ raw < 0x80 := by
  have bits : ∀ x : BitVec 8, x &&& 0x80#8 = 0#8 ↔ x < 0x80#8 := by decide
  rw [← UInt8.toBitVec_inj]
  exact bits raw.toBitVec

theorem code_bits {raw : UInt8} (press : raw < 0x80) : raw &&& 0x7F = raw := by
  have bits : ∀ x : BitVec 8, x < 0x80#8 → x &&& 0x7F#8 = x := by decide
  rw [← UInt8.toBitVec_inj]
  exact bits raw.toBitVec press

/-- The handler decodes, and pushes the keys. -/
theorem keyboardInterrupt_eq (raw : UInt8) (s : KeyboardState) :
    keyboardInterrupt raw s =
      if raw = 0xE0 then { s with extended := true }
      else if raw < 0x80 then
        { s with
          buf := (s.buf.push bufSize (if s.extended then raw + 0x59 else raw)).2
          extended := false }
      else { s with extended := false } := by
  unfold keyboardInterrupt
  by_cases pending : raw = 0xE0
  · simp [pending]
  · by_cases press : raw < 0x80
    · simp [pending, press, release_bit, code_bits press]
    · simp [pending, press, release_bit]

/-! ### The invariant -/

/-- The keys that were pressed. -/
def KeyboardState.pressed (s : KeyboardState) : List UInt8 := (decode s.delivered).1

structure InOrder (s : KeyboardState) : Prop where
  buf : s.buf.Holds bufSize s.pressed s.popped.length
  popped : s.popped = s.pressed.take s.popped.length
  extended : s.extended = (decode s.delivered).2

variable {s t : KeyboardState}

theorem InOrder.waiting (inOrder : InOrder s) : s.popped ++ s.waiting = s.pressed := by
  rw [KeyboardState.waiting, inOrder.buf.waiting]
  conv => lhs; arg 1; rw [inOrder.popped]
  exact List.take_append_drop _ _

theorem inOrder_start : InOrder start where
  buf := RingBuffer.holds_empty _ (by decide)
  popped := rfl
  extended := rfl

/-- A byte presses a key, which goes into the buffer, or changes nothing but the pending prefix. -/
theorem interrupt_cases (step : Interrupt s t) :
    t.popped = s.popped ∧ t.returned = s.returned ∧ t.extended = (decode t.delivered).2 ∧
      ((t.buf = s.buf ∧ t.pressed = s.pressed) ∨
        ∃ raw : UInt8, s.waiting.length < bufSize - 1 ∧
          t.buf = (s.buf.push bufSize (if s.extended then raw + 0x59 else raw)).2 ∧
          t.pressed = s.pressed ++ [if (decode s.delivered).2 then raw + 0x59 else raw]) := by
  obtain ⟨raw, room⟩ := step
  rw [keyboardInterrupt_eq]
  -- a prefix, a press or a release; only a press is pushed
  by_cases pending : raw = 0xE0
  · rw [if_pos pending]
    exact ⟨rfl, rfl, by simp [decodeByte, pending],
      .inl ⟨rfl, by simp [KeyboardState.pressed, decodeByte, pending]⟩⟩
  rw [if_neg pending]
  by_cases press : raw < 0x80
  · rw [if_pos press]
    exact ⟨rfl, rfl, by simp [decodeByte, pending, press],
      .inr ⟨raw, room press, rfl, by simp [KeyboardState.pressed, decodeByte, pending, press]⟩⟩
  · rw [if_neg press]
    exact ⟨rfl, rfl, by simp [decodeByte, pending, press],
      .inl ⟨rfl, by simp [KeyboardState.pressed, decodeByte, pending, press]⟩⟩

/-- A new key goes behind those that were pressed before. -/
theorem InOrder.interrupt (inOrder : InOrder s) (step : Interrupt s t) : InOrder t := by
  obtain ⟨popped, -, extended, ⟨buf, pressed⟩ | ⟨raw, few, buf, pressed⟩⟩ := interrupt_cases step
  · constructor
    · rw [buf, popped, pressed]
      exact inOrder.buf
    · rw [popped, pressed]
      exact inOrder.popped
    · exact extended
  · rw [KeyboardState.waiting, inOrder.buf.waiting, List.length_drop] at few
    have behind := inOrder.buf.behind
    have fits : s.pressed.length + 1 < s.popped.length + bufSize := by
      unfold bufSize at few ⊢
      omega
    -- the handler's flag is that of the stream, so it pushes the key that was pressed
    rw [← inOrder.extended] at pressed
    constructor
    · rw [buf, popped, pressed]
      exact (inOrder.buf.push fits _).2
    · rw [popped, pressed, List.take_append_of_le_length behind]
      exact inOrder.popped
    · exact extended

/-- What the handler leaves to the readers. -/
theorem interrupt_keeps (step : Interrupt s t) : t.buf.tail = s.buf.tail ∧ t.popped = s.popped ∧
    t.returned = s.returned ∧ ∃ more, t.pressed = s.pressed ++ more := by
  obtain ⟨popped, returned, -, ⟨buf, pressed⟩ | ⟨raw, -, buf, pressed⟩⟩ := interrupt_cases step
  · exact ⟨by rw [buf], popped, returned, [], by rw [pressed, List.append_nil]⟩
  · refine ⟨?_, popped, returned, _, pressed⟩
    rw [buf]
    unfold RingBuffer.push
    dsimp only
    split <;> rfl

/-! ### Readers -/

/-- Apart from `KEY_NULL`, which also stands for no key, calls have returned what was popped. -/
structure Between (s : KeyboardState) : Prop extends InOrder s where
  returned : s.returned.filter (· ≠ keyNull) = s.popped.filter (· ≠ keyNull)

/-- This code is the next one to pop. -/
structure Next (code : UInt8) (s : KeyboardState) : Prop extends Between s where
  next : s.pressed[s.popped.length]? = some code

/-- A call has popped this code and is about to return it. -/
structure Returns (code : UInt8) (s : KeyboardState) : Prop extends InOrder s where
  returns : (s.returned ++ [code]).filter (· ≠ keyNull) = s.popped.filter (· ≠ keyNull)

theorem Between.interrupt (between : Between s) (step : Interrupt s t) : Between t := by
  obtain ⟨-, popped, returned, -⟩ := interrupt_keeps step
  refine ⟨between.toInOrder.interrupt step, ?_⟩
  rw [popped, returned]
  exact between.returned

theorem Next.interrupt {code : UInt8} (next : Next code s) (step : Interrupt s t) : Next code t := by
  obtain ⟨-, popped, -, more, pressed⟩ := interrupt_keeps step
  refine ⟨next.toBetween.interrupt step, ?_⟩
  have inside := (List.getElem?_eq_some_iff.mp next.next).1
  rw [popped, pressed, List.getElem?_append_left inside]
  exact next.next

section Calls

variable {α : Type} {tr : History ReadOp ReadOp.Answer} {P : KeyboardState → Prop}
variable {post : History ReadOp ReadOp.Answer → α → KeyboardState → Prop}

abbrev interrupted : History ReadOp ReadOp.Answer → KeyboardState → KeyboardState → Prop :=
  fun _ => Interrupt

abbrev watched : History ReadOp ReadOp.Answer → KeyboardState → Prop := fun _ => InOrder

/-- `empty` tells whether anything was waiting when it read the head. -/
theorem robust_empty {f : Bool → ReadProgram α} (inOrder : ∀ s, P s → InOrder s)
    (stable : ∀ s t, P s → Interrupt s t → P t) (holds : P s)
    (next : ∀ t tr', P t → (f (t.popped.length == t.pressed.length)).Robust readHandler interrupted
      watched tr' t post) :
    (empty >>= f).Robust readHandler interrupted watched tr s post := by
  rw [empty, bind_assoc]
  refine Program.robust_perform_bind holds stable (fun t holds => inOrder t holds) ?_
  rintro t holds r answer
  cases answer
  rw [bind_assoc]
  -- the handler does not move the tail
  refine Program.robust_perform_bind (P := fun u => P u ∧ u.buf.tail = t.buf.tail) ⟨holds, rfl⟩
    (fun u v both step => ⟨stable u v both.1 step, (interrupt_keeps step).1.trans both.2⟩)
    (fun u both => inOrder u both.1) ?_
  rintro u ⟨holds, tail⟩ r answer
  cases answer
  have same : (t.buf.tail == u.buf.head) = (u.popped.length == u.pressed.length) := by
    rw [← tail, Bool.eq_iff_iff, beq_iff_eq, beq_iff_eq]
    exact (inOrder u holds).buf.empty_iff
  rw [pure_bind, same]
  exact next u _ holds

/-- Moving the tail pops the code that was read. -/
theorem Next.take {code : UInt8} (next : Next code s) :
    Returns code { s with
      buf := { s.buf with tail := (s.buf.tail + 1) % bufSize }
      popped := s.popped ++ [code] } := by
  have inside := (List.getElem?_eq_some_iff.mp next.next).1
  have taken : (s.popped ++ [code]).length = s.popped.length + 1 := by simp
  constructor
  · constructor
    · show RingBuffer.Holds bufSize s.pressed (s.popped ++ [code]).length _
      rw [taken]
      exact next.buf.take inside
    · show s.popped ++ [code] = s.pressed.take (s.popped ++ [code]).length
      rw [taken, List.take_add_one, ← next.popped, next.next]
      rfl
    · exact next.extended
  · show (s.returned ++ [code]).filter _ = (s.popped ++ [code]).filter _
    rw [List.filter_append, List.filter_append, next.returned]

theorem robust_pop {code : UInt8} {f : Bool × UInt8 → ReadProgram α} (out : UInt8)
    (next : Next code s)
    (rest : ∀ t tr', Returns code t →
      (f (true, code)).Robust readHandler interrupted watched tr' t post) :
    (pop out >>= f).Robust readHandler interrupted watched tr s post := by
  rw [pop, bind_assoc]
  refine robust_empty (fun t next => next.toInOrder) (fun t u next => next.interrupt) next ?_
  intro t tr next
  have some : t.popped.length ≠ t.pressed.length :=
    Nat.ne_of_lt (List.getElem?_eq_some_iff.mp next.next).1
  rw [beq_eq_false_iff_ne.mpr some, if_neg Bool.false_ne_true, bind_assoc]
  refine Program.robust_perform_bind next (fun u v next => next.interrupt)
    (fun u next => next.toInOrder) ?_
  rintro t next r answer
  cases answer
  -- from here on the tail is known, for only this call moves it
  have stable (u v : KeyboardState) (both : Next code u ∧ u.buf.tail = t.buf.tail)
      (step : Interrupt u v) : Next code v ∧ v.buf.tail = t.buf.tail :=
    ⟨both.1.interrupt step, (interrupt_keeps step).1.trans both.2⟩
  rw [bind_assoc]
  refine Program.robust_perform_bind ⟨next, rfl⟩ stable (fun u both => both.1.toInOrder) ?_
  rintro u ⟨next, tail⟩ r answer
  cases answer
  have read : u.buf.data t.buf.tail = code := by
    rw [← tail]
    exact next.buf.read next.next
  rw [read, bind_assoc]
  refine Program.robust_perform_bind ⟨next, tail⟩ stable (fun u both => both.1.toInOrder) ?_
  rintro u ⟨next, tail⟩ r answer
  cases answer
  rw [bind_assoc, tail]
  refine Program.robust_perform_bind ⟨next, tail⟩ stable (fun u both => both.1.toInOrder) ?_
  rintro u ⟨next, tail⟩ r answer
  cases answer
  rw [pure_bind, ← tail]
  exact rest _ _ next.take

end Calls

theorem Between.next (between : Between s) (some : s.popped.length ≠ s.pressed.length) :
    ∃ code, Next code s := by
  have inside : s.popped.length < s.pressed.length := Nat.lt_of_le_of_ne between.buf.behind some
  exact ⟨s.pressed[s.popped.length], between, List.getElem?_eq_getElem inside⟩

theorem robust_getChar (turns : Nat) (sc : UInt8) {tr : History ReadOp ReadOp.Answer}
    (between : Between s) :
    (getChar turns sc).Robust readHandler interrupted watched tr s
      fun _ code t => Returns code t := by
  induction turns generalizing s tr with
  | zero => trivial
  | succ turns ih =>
    rw [getChar]
    refine robust_empty (fun t between => between.toInOrder)
      (fun t u between => between.interrupt) between ?_
    intro t tr between
    -- an empty buffer makes the call wait, and then look again
    by_cases none : t.popped.length = t.pressed.length
    · rw [beq_iff_eq.mpr none, if_pos rfl]
      refine Program.robust_perform_bind between (fun t u between => between.interrupt)
        (fun t between => between.toInOrder) ?_
      rintro t between r answer
      cases answer
      refine Program.robust_perform_bind between (fun t u between => between.interrupt)
        (fun t between => between.toInOrder) ?_
      rintro t between r answer
      cases answer
      exact ih between
    · obtain ⟨code, next⟩ := between.next none
      rw [beq_eq_false_iff_ne.mpr none, if_neg Bool.false_ne_true]
      exact robust_pop sc next fun t tr returns => returns

theorem robust_readChar (sc : UInt8) {tr : History ReadOp ReadOp.Answer} (between : Between s) :
    (readChar sc).Robust readHandler interrupted watched tr s fun _ code t => Returns code t := by
  rw [readChar]
  refine robust_empty (fun t between => between.toInOrder)
    (fun t u between => between.interrupt) between ?_
  intro t tr between
  by_cases none : t.popped.length = t.pressed.length
  · rw [beq_iff_eq.mpr none, if_pos rfl]
    refine ⟨between.toInOrder, ?_⟩
    rw [List.filter_append, between.returned]
    simp
  · obtain ⟨code, next⟩ := between.next none
    rw [beq_eq_false_iff_ne.mpr none, if_neg Bool.false_ne_true]
    exact robust_pop sc next fun t tr returns => returns

/-! ### Whole runs -/

theorem keyboard_keeps (between : Between s) {x} (reached : keyboard.Reachable s x) :
    keyboard.Keeps (fun _ => watched) Between x := by
  refine Session.invariant ?_ (fun s t between step => between.interrupt step) between reached
  rintro c s t between rfl
  have restores (code : UInt8) (t : KeyboardState) (returns : Returns code t) :
      Between (keyboard.leave c code t) := ⟨{ returns with }, returns.returns⟩
  cases c with
  | getChar turns sc =>
    exact (robust_getChar turns sc between).mono fun _ code t => restores code t
  | readChar sc => exact (robust_readChar sc between).mono fun _ code t => restores code t

/-- What was popped and what waits are the keys of the scan codes that were sent, whole or up to a
prefix. At most 255 wait, and then one more is dropped and nothing changes. -/
def Delivers (s : KeyboardState) : Prop :=
  (∀ (codes : List ScanCode) rest, rest = [] ∨ rest = [0xE0] →
    s.delivered = codes.flatMap ScanCode.bytes ++ rest →
      s.popped ++ s.waiting = codes.filterMap ScanCode.make) ∧
    s.waiting.length ≤ bufSize - 1 ∧
      (s.waiting.length = bufSize - 1 → ∀ code, s.buf.push bufSize code = (false, s.buf))

theorem InOrder.delivers (inOrder : InOrder s) : Delivers s := by
  have length : s.waiting.length = s.pressed.length - s.popped.length := by
    rw [KeyboardState.waiting, inOrder.buf.waiting, List.length_drop]
  have behind := inOrder.buf.behind
  have room := inOrder.buf.room
  refine ⟨fun codes rest whole sent => ?_, ?_, fun full code => ?_⟩
  · rw [inOrder.waiting, KeyboardState.pressed, sent, decode_append, decode_codes]
    rcases whole with rfl | rfl
    · rfl
    · simp [decodeByte]
  · unfold bufSize at room ⊢
    omega
  · refine inOrder.buf.push_full ?_ code
    unfold bufSize at full ⊢
    omega

/-- Every key reaches the reader: at every point of every run the codes that were popped and those
that wait are the keys pressed, and the calls have returned the codes that were popped. -/
theorem keyboard_delivers {x} (reached : keyboard.Reachable start x) :
    keyboard.Everywhere Delivers x ∧ ∀ t, x = .idle t →
      t.returned.filter (· ≠ keyNull) = t.popped.filter (· ≠ keyNull) := by
  have keeps := keyboard_keeps ⟨inOrder_start, rfl⟩ reached
  constructor
  · exact keeps.everywhere (fun s between => between.toInOrder.delivers)
      fun _ _ s inOrder => inOrder.delivers
  · rintro t rfl
    have between : Between t := keeps
    exact between.returned

def aPressed : KeyboardState := keyboardInterrupt 0x1E { start with delivered := [0x1E] }

/-- And then the key up, which has a prefix. -/
def upPressed : KeyboardState :=
  keyboardInterrupt 0x48 { keyboardInterrupt 0xE0 { aPressed with delivered := [0x1E, 0xE0] } with
    delivered := [0x1E, 0xE0, 0x48] }

def aRead : KeyboardState :=
  keyboard.leave (.readChar 0) 0x1E { upPressed with
    buf := { upPressed.buf with tail := 1 }
    popped := [0x1E] }

/-- The second key is pressed between the accesses of a call that pops the first. -/
theorem reaches_aRead : keyboard.Reachable start (.idle aRead) := by
  have pressed : keyboard.Step (.idle start) (.idle aPressed) := .rest (.deliver 0x1E (by decide))
  have called : keyboard.Step (.idle aPressed)
      (.busy (.readChar 0) [] (readChar 0) aPressed) := .call rfl
  -- the slot has been read, and the tail is where it was
  obtain ⟨tr, slot⟩ : ∃ tr, Relation.ReflTransGen keyboard.Step
      (.busy (.readChar 0) [] (readChar 0) aPressed)
      (.busy (.readChar 0) tr (perform .loadTail >>= fun tail =>
        perform (.storeTail ((tail + 1) % bufSize) 0x1E) >>= fun _ => pure 0x1E) aPressed) :=
    ⟨_, .head (.op rfl) (.head (.op rfl) (.head (.op rfl) (.head (.op rfl) (.head (.op rfl)
      (.head (.op rfl) .refl)))))⟩
  have escaped := slot.tail (Session.step_interrupt (.deliver 0xE0 (by decide)))
  have up := escaped.tail (Session.step_interrupt (.deliver 0x48 (by decide)))
  obtain ⟨tr', popped⟩ := Session.steps_of_run (M := keyboard) (c := .readChar 0)
    (p := perform .loadTail >>= fun tail =>
      perform (.storeTail ((tail + 1) % bufSize) 0x1E) >>= fun _ => pure 0x1E) (s := upPressed) rfl tr
  exact .trans (.tail (.single pressed) called) (.tail (up.trans popped) .ret)

theorem keyboard_delivers_aRead : aRead.popped = [0x1E] ∧ aRead.waiting = [0xA1] ∧ Delivers aRead ∧
    aRead.returned.filter (· ≠ keyNull) = aRead.popped.filter (· ≠ keyNull) :=
  have holds := keyboard_delivers reaches_aRead
  ⟨rfl, rfl, holds.1, holds.2 aRead rfl⟩

end KopalniaOS.Keyboard
