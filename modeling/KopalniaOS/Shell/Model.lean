import KopalniaOS.Library.Program
import KopalniaOS.Stdlib.RingBuffer

/-!
# The shell

`user_space_main` takes one key after the other. Keys edit a line of at most 255 characters, and
ENTER splits it at spaces and looks for the command that its first word names.
-/
namespace KopalniaOS.Shell

open Library Stdlib

/-! ### Keys -/

def keyBackspace : UInt8 := 0x0E
def keyTab : UInt8 := 0x0F
def keyEnter : UInt8 := 0x1C
def keyUp : UInt8 := 0xA1

/-- `ascii_map` for the keys without a prefix. -/
def asciiMap : List UInt8 :=
  [0, 0, 49, 50, 51, 52, 53, 54, 55, 56, 57, 48, 45, 61, 8, 9,
    113, 119, 101, 114, 116, 121, 117, 105, 111, 112, 91, 93, 10, 0, 97, 115,
    100, 102, 103, 104, 106, 107, 108, 59, 39, 96, 0, 92, 122, 120, 99, 118,
    98, 110, 109, 44, 46, 47, 0, 42, 0, 32, 0, 0, 0, 0, 0, 0,
    0, 0, 0, 0, 0, 0, 0, 55, 56, 57, 45, 52, 53, 54, 43, 49,
    50, 51, 48, 46]

/-- `kb::to_char`; two keys with a prefix have a character. -/
def toChar (key : UInt8) : UInt8 :=
  if key = 0x75 then 10 else if key = 0x8E then 47 else asciiMap.getD key.toNat 0

/-- `drivers::vga::TAB_SIZE` -/
def tabSize : Int := 4

/-! ### Objects and operations -/

/-- The static line, and two locals: `command_name`, and the buffer of `command`. -/
inductive Object where
  | buffer
  | commandName
  | command
deriving DecidableEq, Repr

/-- Objects are accessed at `int` indices; an argument is an index into the line. -/
inductive ShellOp where
  | load (o : Object) (index : Int)
  | store (o : Object) (index : Int) (value : UInt8)
  | zero (o : Object)
  | storeArg (argc index : Nat)
  | call (name : String) (argc : Nat)
  | popCommand
  | pushCommand
  | putChar (c : UInt8)
  | print (text : String)
  | printString (text : String) (o : Object)
  | swapFramebuffer
  | sleep (milliseconds : Nat)

abbrev ShellOp.Answer : ShellOp → Type
  | .load .. => UInt8
  | _ => Unit

abbrev ShellProgram := Program ShellOp ShellOp.Answer

def perform (o : ShellOp) : ShellProgram o.Answer := Program.perform o

inductive Output where
  | char (c : UInt8)
  | text (text : String)
  | string (text : String) (content : List UInt8)
deriving DecidableEq, Repr

/-- `called` are the commands that were run, with the number of their arguments. -/
structure ShellState where
  mem : Object → Int → UInt8
  args : Nat → Nat
  history : RingBuffer (Int → UInt8)
  called : List (String × Nat)
  output : List Output

/-- The bytes in front of the terminator, as far as the object goes. -/
def cString (m : Int → UInt8) : List UInt8 :=
  ((List.range 256).map fun k : Nat => m k).takeWhile (· ≠ 0)

def ShellState.write (s : ShellState) (o : Object) (index : Int) (value : UInt8) : ShellState :=
  { s with mem := Function.update s.mem o (Function.update (s.mem o) index value) }

/-- The size of `previous_commands`. -/
def historySize : Nat := 64

def ShellState.emit (s : ShellState) (output : Output) : ShellState :=
  { s with output := s.output ++ [output] }

/-- The commands themselves are outside: they read their arguments and change nothing here. -/
def shellHandler : Handler ShellOp ShellOp.Answer ShellState
  | .load o index, s => some (s.mem o index, s)
  | .store o index value, s => some ((), s.write o index value)
  | .zero o, s => some ((), { s with mem := Function.update s.mem o fun _ => 0 })
  | .storeArg argc index, s => some ((), { s with args := Function.update s.args argc index })
  | .call name argc, s => some ((), { s with called := s.called ++ [(name, argc)] })
  | .popCommand, s =>
    let r := s.history.pop historySize (s.mem .command)
    some ((), { s with mem := Function.update s.mem .command r.2.1, history := r.2.2 })
  | .pushCommand, s =>
    some ((), { s with history := (s.history.push historySize (s.mem .command)).2 })
  | .putChar c, s => some ((), s.emit (.char c))
  | .print text, s => some ((), s.emit (.text text))
  | .printString text o, s => some ((), s.emit (.string text (cString (s.mem o))))
  | .swapFramebuffer, s => some ((), s)
  | .sleep _, s => some ((), s)

def load (o : Object) (index : Int) : ShellProgram UInt8 := perform (.load o index)

def store (o : Object) (index : Int) (value : UInt8) : ShellProgram Unit :=
  perform (.store o index value)

/-! ### Loops over the line -/

/-- More turns than an `int` can count. -/
def turns : Nat := 2 ^ 31

def space : UInt8 := 32

/-- `while (cond(buffer[k])) k++` -/
def scan (cond : UInt8 → Bool) : (left k : Nat) → ShellProgram Nat
  | 0, _ => .stuck
  | left + 1, k => do
    let c ← load .buffer k
    if cond c = true then scan cond left (k + 1) else pure k

def skipBlanks (k : Nat) : ShellProgram Nat := scan (fun c => c == space) turns k

def skipWord (k : Nat) : ShellProgram Nat := scan (fun c => c != 0 && c != space) turns k

/-- The first loop also stops at the end of the line. -/
def skipLeading (k : Nat) : ShellProgram Nat := scan (fun c => c != 0 && c == space) turns k

/-- Copies the first word; gives the length of the copy. -/
def copyName : (left k j : Nat) → ShellProgram Nat
  | 0, _, _ => .stuck
  | left + 1, k, j => do
    let c ← load .buffer k
    if c ≠ 0 ∧ c ≠ space ∧ j < 255 then do
      let c ← load .buffer k
      store .commandName j c
      copyName left (k + 1) (j + 1)
    else pure j

/-- Points `args` to the words from `k` on; gives `argc`. -/
def splitArgs : (left k argc : Nat) → ShellProgram Nat
  | 0, _, _ => .stuck
  | left + 1, k, argc => do
    let c ← load .buffer k
    if c = 0 then pure argc
    else do
      let k ← skipBlanks k
      let c ← load .buffer k
      if c = 0 then pure argc
      else do
        perform (.storeArg argc k)
        let k ← skipWord k
        splitArgs left k (argc + 1)

/-- Ends every word with a terminator. -/
def terminate : (left k : Nat) → ShellProgram Unit
  | 0, _ => .stuck
  | left + 1, k => do
    let c ← load .buffer k
    if c = 0 then pure ()
    else if c ≠ space then terminate left (k + 1)
    else do
      store .buffer k 0
      let k ← skipBlanks (k + 1)
      terminate left k

/-- `std::str_cmp` with a literal, by its characters. -/
def strCmp (o : Object) : (index : Nat) → List UInt8 → ShellProgram Bool
  | index, [] => do
    let c ← load o index
    pure (c == 0)
  | index, x :: rest => do
    let c ← load o index
    if c = x then strCmp o (index + 1) rest else pure false

/-- Two objects never overlap, so it does not matter in which direction `memmove` goes. -/
def memmove (dst src : Object) : (left index : Nat) → ShellProgram Unit
  | 0, _ => pure ()
  | left + 1, index => do
    let c ← load src index
    store dst index c
    memmove dst src left (index + 1)

/-! ### `user_space_main` -/

/-- The names in `commands`. -/
def commands : List String :=
  ["help", "clear", "chess", "poweroff", "sleep", "heap", "pci", "size", "usb", "colors",
    "partitions"]

def bytesOf (name : String) : List UInt8 := name.toList.map fun c => UInt8.ofNat c.toNat

/-- Runs the command with the name, and tells whether there is one. -/
def dispatch (argc : Nat) : List String → ShellProgram Bool
  | [] => pure false
  | name :: rest => do
    let same ← strCmp .commandName 0 (bytesOf name)
    if same = true then do
      perform (.call name argc)
      pure true
    else dispatch argc rest

/-- ENTER, with the line in front of `i`. -/
def enter (i : Int) : ShellProgram Unit := do
  store .buffer i 0
  perform (.putChar 10)
  perform (.zero .commandName)
  let k ← skipLeading 0
  let j ← copyName turns k 0
  store .commandName j 0
  let argc ← splitArgs turns 0 0
  terminate turns 0
  let foundCommand ← dispatch argc commands
  if foundCommand = false then do
    perform (.printString "&7\tUnknown command: &c%s \n" .buffer)
    perform (.sleep 250)
  else pure ()
  perform (.zero .command)
  memmove .command .buffer 256 0
  perform .pushCommand
  perform (.print "&fPlum-OS> ")

/-- UP: the oldest command that was kept and is not recalled yet. -/
def recallCommand : ShellProgram Unit := do
  perform (.zero .command)
  perform .popCommand
  memmove .buffer .command 256 0
  perform (.printString "%s" .buffer)

/-- Any other key; gives the next `i`. -/
def typeKey (i : Int) (key : UInt8) : ShellProgram Int :=
  if toChar key = 0 then pure i
  else if 255 ≤ i then pure i
  else do
    perform (.putChar (toChar key))
    store .buffer i (toChar key)
    if key = keyTab then pure (i + 1 + (tabSize - 1)) else pure (i + 1)

/-- One turn of the loop of `user_space_main`, with the key that it gets. -/
def handleKey (i : Int) (key : UInt8) : ShellProgram Int := do
  perform .swapFramebuffer
  if key = keyBackspace then
    if i = 0 then pure i
    else do
      perform (.putChar 8)
      store .buffer (i - 1) 0
      pure (i - 1)
  else if key = keyEnter then do
    enter i
    pure 0
  else if key = keyUp then do
    recallCommand
    typeKey i key
  else typeKey i key

/-- Before the first key: static memory is zero. -/
def start : ShellState where
  mem _ _ := 0
  args _ := 0
  history := ⟨fun _ _ => 0, 0, 0⟩
  called := []
  output := []

end KopalniaOS.Shell
