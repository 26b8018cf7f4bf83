import KopalniaOS.Keyboard.Delivery
import KopalniaOS.Library.Client
import KopalniaOS.Shell.History

/-!
# The console

The loop of `user_space_main` gets its keys from `get_char`, which waits for the keyboard. Keys are
pressed at any time: while the shell waits, while it is reading the buffer, and while it is at work.
-/
namespace KopalniaOS.Shell

open Library Relation
open Keyboard (KeyboardState ReadOp ReadCall ScanCode keyboard keyNull)

variable {turns : Nat} {sc : UInt8} {s : ShellState} {i : Int}

/-- `user_space_main`; `get_char` waits so many turns and finds `sc` on its stack. -/
def console (turns : Nat) (sc : UInt8) :
    Client ShellOp ShellOp.Answer ShellState ReadCall UInt8 Int where
  handler := shellHandler
  ask _ := .getChar turns sc
  turn := handleKey

/-- The keyboard and the shell together. -/
abbrev Console := Client.Joint ShellOp ShellOp.Answer ReadOp ReadOp.Answer ShellState KeyboardState ReadCall
  UInt8 Int

theorem turns_eq_typeKeys (keys : List UInt8) (i : Int) :
    (console turns sc).turns keys i = typeKeys keys i := by
  induction keys generalizing i with
  | nil => rfl
  | cons key keys ih => exact congrArg (handleKey i key >>= ·) (funext ih)

/-- `KEY_NULL`, which the keyboard can send as well, changes nothing. -/
theorem run_handleKey_null (i : Int) (s : ShellState) :
    (handleKey i keyNull).run shellHandler s = some (i, s) := rfl

theorem run_typeKeys_filter (keys : List UInt8) (i : Int) (s : ShellState) :
    (typeKeys (keys.filter (· ≠ keyNull)) i).run shellHandler s =
      (typeKeys keys i).run shellHandler s := by
  induction keys generalizing i s with
  | nil => rfl
  | cons key keys ih =>
    by_cases null : key = keyNull
    · have dropped : (key :: keys).filter (· ≠ keyNull) = keys.filter (· ≠ keyNull) := by simp [null]
      rw [dropped, ih, typeKeys, Program.run_bind, null, run_handleKey_null]
      rfl
    · have kept : (key :: keys).filter (· ≠ keyNull) = key :: keys.filter (· ≠ keyNull) := by simp [null]
      rw [kept, typeKeys, typeKeys, Program.run_bind, Program.run_bind]
      exact congrArg (Option.bind _) (funext fun r => ih r.1 r.2)

/-- The calls of the keyboard driver record what they return. -/
theorem answers_returned {x : Console}
    (reached : (console turns sc).Reachable keyboard Keyboard.start 0 start x) :
    x.component.returned = x.answers := by
  refine Client.reachable_recorded KeyboardState.returned ?_ ?_ ?_ ?_ ?_ rfl reached
  · rintro c k t rfl
    rfl
  · rintro o k r answer
    cases o <;> cases answer <;> rfl
  · exact fun c tr k t step => (Keyboard.interrupt_keeps step).2.2.1
  · exact fun k t step => (Keyboard.interrupt_keeps step).2.2.1
  · exact fun c a k => rfl

/-- The keys that the scan codes press. The code of `KEY_NULL` is no key. -/
def keysOf (codes : List ScanCode) : List UInt8 := (codes.filterMap ScanCode.make).filter (· ≠ keyNull)

/-- While a code waits, `get_char` returns the first one. -/
theorem run_getChar (sc : UInt8) {k : KeyboardState} (inOrder : Keyboard.InOrder k) {code : UInt8}
    (waits : k.waiting.head? = some code) (turns : Nat) :
    (Keyboard.getChar (turns + 1) sc).run Keyboard.readHandler k = some (code, { k with
      buf := { k.buf with tail := (k.buf.tail + 1) % Keyboard.bufSize }
      popped := k.popped ++ [code] }) := by
  rw [KeyboardState.waiting, inOrder.buf.waiting, List.head?_drop] at waits
  have more := (List.getElem?_eq_some_iff.mp waits).1
  have some : (k.buf.tail == k.buf.head) = false := by
    rw [beq_eq_false_iff_ne]
    exact fun none => Nat.ne_of_lt more (inOrder.buf.empty_iff.mp none)
  have read : k.buf.data k.buf.tail = code := inOrder.buf.read waits
  have alone : (Keyboard.getChar (turns + 1) sc).run Keyboard.readHandler k =
      (if (k.buf.tail == k.buf.head) = true then do
        Keyboard.perform .swap
        Keyboard.perform .halt
        Keyboard.getChar turns sc
      else do
        let r ← Keyboard.pop sc
        pure r.2 : Keyboard.ReadProgram UInt8).run Keyboard.readHandler k := rfl
  have popped : (Keyboard.pop sc).run Keyboard.readHandler k =
      (if (k.buf.tail == k.buf.head) = true then pure (false, sc)
      else do
        let tail ← Keyboard.perform .loadTail
        let out ← Keyboard.perform (.loadData tail)
        let tail ← Keyboard.perform .loadTail
        Keyboard.perform (.storeTail ((tail + 1) % Keyboard.bufSize) out)
        pure (true, out) : Keyboard.ReadProgram (Bool × UInt8)).run Keyboard.readHandler k := rfl
  rw [alone, some, if_neg Bool.false_ne_true, Program.run_bind, popped, some, if_neg Bool.false_ne_true,
    ← read]
  rfl

/-- Whatever the keyboard and the shell do at the same time: what the shell has done and has left to do
is what it does alone with the keys that it has got, and these, followed by the keys that wait, are the
keys that were pressed, in order, each of them once. While one waits, the shell can go on with it. -/
theorem console_in_order {x : Console}
    (reached : (console turns sc).Reachable keyboard Keyboard.start 0 start x) :
    (typeKeys (x.answers.filter (· ≠ keyNull)) 0).run shellHandler start =
        x.phase.left.run shellHandler x.state ∧
      (∀ k, x.server = .idle k → ∀ (codes : List ScanCode) rest, rest = [] ∨ rest = [0xE0] →
        k.delivered = codes.flatMap ScanCode.bytes ++ rest →
          x.answers.filter (· ≠ keyNull) ++ k.waiting.filter (· ≠ keyNull) = keysOf codes) ∧
      ∀ k i code, x.server = .idle k → x.phase = .asking i → k.waiting.head? = some code → 0 < turns →
        ∃ y, ReflTransGen ((console turns sc).Step keyboard) x y ∧ y.state = x.state ∧
          y.answers = x.answers ++ [code] ∧ y.phase = .working (handleKey i code) := by
  refine ⟨?_, ?_, ?_⟩
  · have follows := Client.reachable_follows reached
    unfold Client.Follows at follows
    rw [turns_eq_typeKeys] at follows
    rw [run_typeKeys_filter]
    exact follows
  · intro k idle codes rest whole sent
    have answers := answers_returned reached
    have served := Client.reachable_server reached
    rw [Client.Joint.component, idle] at answers
    rw [idle] at served
    have between : Keyboard.Between k :=
      Keyboard.keyboard_keeps ⟨Keyboard.inOrder_start, rfl⟩ served
    have pressed := (Keyboard.InOrder.delivers between.toInOrder).1 codes rest whole sent
    have returned := between.returned
    dsimp only at answers
    rw [← answers, returned, ← List.filter_append, pressed]
    rfl
  · intro k i code idle asks waits wait
    have served := Client.reachable_server reached
    rw [idle] at served
    have between : Keyboard.Between k :=
      Keyboard.keyboard_keeps ⟨Keyboard.inOrder_start, rfl⟩ served
    obtain ⟨n, rfl⟩ := Nat.exists_eq_add_of_lt wait
    obtain ⟨server, answers, phase, state⟩ := x
    cases idle
    cases asks
    have ran := run_getChar sc between.toInOrder waits n
    rw [Nat.zero_add] at *
    exact ⟨_, Client.steps_ask (M := keyboard) (K := console (n + 1) sc) rfl ran, rfl, rfl, rfl⟩

/-- The key `a` has been pressed. -/
def pressedOnce : Console where
  server := .idle (Keyboard.keyboardInterrupt 0x1E { Keyboard.start with delivered := [0x1E] })
  answers := []
  phase := .asking 0
  state := start

theorem reaches_pressedOnce : (console 1 0).Reachable keyboard Keyboard.start 0 start pressedOnce :=
  .single (.rest (.deliver 0x1E fun _ => by decide))

/-- The shell gets to handle it. -/
theorem console_in_order_pressed : ∃ y, (console 1 0).Reachable keyboard Keyboard.start 0 start y ∧
    y.answers = [0x1E] ∧ y.phase = .working (handleKey 0 0x1E) := by
  obtain ⟨-, -, goesOn⟩ := console_in_order reaches_pressedOnce
  obtain ⟨y, steps, -, answers, phase⟩ := goesOn _ 0 0x1E rfl rfl (by decide) (by decide)
  exact ⟨y, .trans reaches_pressedOnce steps, answers, phase⟩

end KopalniaOS.Shell
