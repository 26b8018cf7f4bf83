import KopalniaOS.Shell.Parse

/-!
# The words of the line

The command name and the arguments that ENTER makes out of the line. Three passes find the same
words: each starts where an argument points, and ends at a blank that is overwritten.
-/
namespace KopalniaOS.Shell

open Library Stdlib

variable {s : ShellState} {text : List UInt8} {k : Nat}

/-- The characters of an object, by indices that are not negative. -/
def ShellState.bytes (s : ShellState) (o : Object) : Memory := fun k => s.mem o k

/-- The string that starts at an index. -/
def stringAt (m : Int → UInt8) (start : Nat) : List UInt8 :=
  ((List.range (256 - start)).map fun k => m (start + k : Nat)).takeWhile (· ≠ 0)

/-- A text in front of a terminator is the string there. -/
theorem stringAt_eq {m : Int → UInt8} {start : Nat} {word : List UInt8}
    (plain : ∀ c ∈ word, c ≠ 0) (char : ∀ x ≤ word.length, m (start + x : Nat) = word.getD x 0)
    (short : start + word.length ≤ 255) : stringAt m start = word := by
  obtain ⟨r, room⟩ := Nat.exists_eq_add_of_lt (show word.length < 256 - start by omega)
  have before : ((List.range word.length).map fun k => m (start + k : Nat)) = word := by
    refine List.ext_getElem (by simp) fun x _ inside => ?_
    have here := char x (Nat.le_of_lt inside)
    simpa [inside] using here
  have ended : m (start + word.length) = 0 := by simpa using char word.length (Nat.le_refl _)
  rw [stringAt, room, Nat.add_assoc, List.range_add, List.map_append, before,
    List.takeWhile_append_of_pos fun c member => by simpa using plain c member]
  simp [List.range_succ_eq_map, ended]

theorem cString_eq_stringAt (m : Int → UInt8) : cString m = stringAt m 0 := by
  simp [cString, stringAt]

/-! ### The first word -/

theorem bytes_write (s : ShellState) (o : Object) (k : Nat) (value : UInt8) :
    (s.write o k value).bytes o = Function.update (s.bytes o) k value := by
  funext x
  by_cases here : x = k
  · simp [ShellState.bytes, ShellState.write, here]
  · have other : (x : Int) ≠ k := by omega
    simp [ShellState.bytes, ShellState.write, here, other]

/-- The copy has the characters up to the next blank. -/
theorem parses_copyName (left k j : Nat) (spells : Spells (s.mem .buffer) text k)
    (inside : k ≤ text.length) (enough : text.length < k + left)
    (room : j + (text.length - k) ≤ 255) :
    Parses text.length (copyName left k j) s fun j' t =>
      j' = j + (firstWord (text.drop k)).length ∧ t.args = s.args ∧
        t.mem .buffer = s.mem .buffer ∧
        t.bytes .commandName =
          (s.bytes .commandName).splice j (firstWord (text.drop k)) := by
  induction left generalizing k j s with
  | zero => omega
  | succ left ih =>
    rw [copyName]
    apply parses_load inside
    split
    · rename_i goes
      obtain ⟨more, solid, -⟩ := goes
      have before := spells.lt_length inside more
      apply parses_load inside
      refine Program.ensures_perform rfl (show (0 : Int) ≤ j ∧ (j : Int) ≤ 255 by omega) ?_
      have ahead : Spells ((s.write .commandName j (s.mem .buffer k)).mem .buffer) text (k + 1) :=
        spells.mono (Nat.le_succ k)
      refine (ih (s := s.write .commandName j (s.mem .buffer k)) (k + 1) (j + 1) ahead before
        (by omega) (by omega)).mono ?_
      rintro j' t ⟨rfl, args, line, name⟩
      rw [spells.drop before, firstWord_cons solid, List.length_cons]
      refine ⟨by omega, args, line, ?_⟩
      rw [name, bytes_write, Memory.splice_update]
    · rename_i stops
      -- there is room for the whole line, so the word has ended
      have none : firstWord (text.drop k) = [] := by
        rcases Nat.eq_or_lt_of_le inside with last | before
        · rw [last, List.drop_length, firstWord, List.takeWhile_nil]
        · have char := fun last => Nat.ne_of_lt before ((spells.char_eq_zero inside).mp last)
          have blank : s.mem .buffer k = space := by
            by_contra solid
            exact stops ⟨char, solid, by omega⟩
          rw [spells.drop before, blank, firstWord_blank]
      rw [none, List.length_nil, Memory.splice_nil]
      exact ⟨rfl, rfl, rfl, rfl⟩

/-! ### All passes -/

/-- The part of ENTER that takes the line apart; gives `argc`. -/
def parseLine : ShellProgram Nat := do
  perform (.zero .commandName)
  let k ← skipLeading 0
  let j ← copyName turns k 0
  store .commandName j 0
  let argc ← splitArgs turns 0 0
  terminate turns 0
  pure argc

/-- The rest of ENTER runs the command and keeps the line in the history. -/
def runLine (argc : Nat) : ShellProgram Unit := do
  let foundCommand ← dispatch argc commands
  if foundCommand = false then do
    perform (.printString "&7\tUnknown command: &c%s \n" .buffer)
    perform (.sleep 250)
  else pure ()
  perform (.zero .command)
  memmove .command .buffer 256 0
  perform .pushCommand
  perform (.print "&fPlum-OS> ")

theorem enter_eq (i : Int) :
    enter i =
      store .buffer i 0 >>= fun _ => perform (.putChar 10) >>= fun _ => parseLine >>= runLine := by
  simp only [enter, parseLine, runLine, Program.bind_assoc, Program.pure_eq, Program.ret_bind]

/-- Where the characters of a word are in the text. -/
theorem WordAt.char {start : Nat} {word : List UInt8} (here : WordAt text start word) {x : Nat}
    (inside : x < word.length) : text[start + x]? = some word[x] := by
  obtain ⟨rest, parts, -⟩ := here.here
  rw [← List.getElem?_drop, parts, List.getElem?_append_left inside,
    List.getElem?_eq_getElem inside]

theorem WordAt.length_le {start : Nat} {word : List UInt8} (here : WordAt text start word) :
    start + word.length ≤ text.length := by
  obtain ⟨rest, parts, -⟩ := here.here
  have length := congrArg List.length parts
  have nonempty := List.length_pos_iff.mpr here.nonempty
  simp only [List.length_drop, List.length_append] at length
  omega

/-- Behind a word is the end of the text or a blank. -/
theorem WordAt.behind {start : Nat} {word : List UInt8} (here : WordAt text start word) {c : UInt8}
    (found : text[start + word.length]? = some c) : c = space := by
  obtain ⟨rest, parts, ended⟩ := here.here
  rw [← List.getElem?_drop, parts, List.getElem?_append_right (Nat.le_refl _), Nat.sub_self,
    ← List.head?_eq_getElem?] at found
  exact ended c found

/-- A word reads as a string when the blanks are cut. -/
theorem stringAt_word {m m' : Int → UInt8} {start : Nat} {word : List UInt8}
    (here : WordAt text start word) (spells : Spells m text 0) (short : text.length ≤ 255)
    (line : ∀ x : Nat, m' x = if Cut text 0 x then 0 else m x) : stringAt m' start = word := by
  have length := here.length_le
  have char : ∀ x : Nat, x ≤ text.length → m x = text.getD x 0 := fun x inside =>
    spells.char x (Nat.zero_le x) inside
  refine stringAt_eq (fun c member => ?_) (fun x inside => ?_) (by omega)
  · obtain ⟨x, inside, rfl⟩ := List.getElem_of_mem member
    exact spells.plain _ (List.mem_of_getElem? (here.char inside))
  · rw [line]
    rcases Nat.eq_or_lt_of_le inside with rfl | within
    · have ended : word.getD word.length 0 = 0 := by simp
      rw [ended]
      split
      · rfl
      · rename_i kept
        rw [char _ (by omega), List.getD_eq_getElem?_getD]
        cases found : text[start + word.length]? with
        | none => rfl
        | some c =>
          -- a blank behind the last character of a word is the first of its row
          obtain ⟨last, nonempty⟩ : ∃ n, word.length = n + 1 :=
            Nat.exists_eq_add_one.mpr (List.length_pos_iff.mpr here.nonempty)
          have solid := here.solid _ (List.getElem_mem (show last < word.length by omega))
          have before := here.char (show last < word.length by omega)
          rw [here.behind found] at found
          refine absurd ⟨Nat.zero_le _, found, .inr ?_⟩ kept
          rw [nonempty, ← Nat.add_assoc, Nat.add_sub_cancel, before]
          simpa using solid
    · have found := here.char within
      have kept : ¬Cut text 0 (start + x) := by
        rintro ⟨-, blank, -⟩
        rw [found] at blank
        exact here.solid _ (List.getElem_mem within) (Option.some.inj blank)
      rw [if_neg kept, char _ (by omega), List.getD_eq_getElem?_getD, found]
      simp [within]

/-- Behind the leading blanks there is the first word, or nothing. -/
theorem firstWord_skipped {k : Nat} (inside : k ≤ text.length)
    (blanks : text.drop k = (text.drop 0).dropWhile fun c => c == space) :
    firstWord (text.drop k) = (wordsOf text).head?.getD [] := by
  rcases Nat.eq_or_lt_of_le inside with last | before
  · have none := wordsOf_blank blanks last
    rw [List.drop_zero] at none
    rw [none, last, List.drop_length]
    rfl
  · have words := (wordsOf_drop blanks before).1
    rw [List.drop_zero] at words
    rw [words]
    rfl

theorem length_firstWord_le (text : List UInt8) (k : Nat) :
    (firstWord (text.drop k)).length ≤ text.length := by
  have part := (firstWord_start (text.drop k)).length_le
  rw [List.length_drop] at part
  exact Nat.le_trans part (Nat.sub_le _ _)

/-- A word and a terminator in an object read as the word. -/
theorem cString_word {m : Int → UInt8} {word : List UInt8} (plain : ∀ c ∈ word, c ≠ 0)
    (short : word.length ≤ 255)
    (copied : (fun x : Nat => m x) = Memory.splice (fun _ => 0) 0 (word ++ [0])) :
    cString m = word := by
  rw [cString_eq_stringAt]
  refine stringAt_eq plain (fun x within => ?_) (by omega)
  rw [Nat.zero_add]
  exact (congrFun copied x).trans (Memory.spells_splice _ _ x within)

/-- What taking the line apart leaves. -/
structure Parsed (text : List UInt8) (s : ShellState) (argc : Nat) (t : ShellState) : Prop where
  argc_eq : argc = (wordsOf text).length
  arg : ∀ j word, (wordsOf text)[j]? = some word → stringAt (t.mem .buffer) (t.args j) = word
  name : cString (t.mem .commandName) = (wordsOf text).head?.getD []
  line : ∀ x : Nat, t.mem .buffer x = if Cut text 0 x then 0 else s.mem .buffer x

theorem parses_parseLine (spells : Spells (s.mem .buffer) text 0) (short : text.length ≤ 255)
    (fits : (wordsOf text).length ≤ 32) : Parses text.length parseLine s (Parsed text s) := by
  have enough : text.length < turns := by
    unfold turns
    omega
  rw [parseLine]
  refine Program.ensures_perform rfl trivial ?_
  refine parses_bind (parses_skipLeading (s := { s with
    mem := Function.update s.mem .commandName fun _ => 0 }) spells (Nat.zero_le _) short) ?_
  rintro k t ⟨rfl, -, inside, blanks⟩
  refine parses_bind (parses_copyName turns k 0 (spells.mono (Nat.zero_le k)) inside
    (Nat.lt_add_left k enough) (by omega)) ?_
  rintro j t ⟨length, -, line, name⟩
  rw [Nat.zero_add] at length
  -- the name ends with a terminator, in an object that the other passes leave alone
  have wordLength := length_firstWord_le text k
  refine Program.ensures_perform rfl (show (0 : Int) ≤ j ∧ (j : Int) ≤ 255 by omega) ?_
  have spells' : Spells ((t.write .commandName j 0).mem .buffer) text 0 := by
    rw [show (t.write .commandName j 0).mem .buffer = t.mem .buffer from rfl, line]
    exact spells
  refine parses_bind (parses_splitArgs turns 0 0 spells' (Nat.zero_le _) short
    (by simpa using enough) (by simpa using fits)) ?_
  rintro argc u ⟨argcEq, mem, -, args⟩
  rw [List.drop_zero, Nat.zero_add] at argcEq
  have spells'' : Spells (u.mem .buffer) text 0 := by
    rw [mem]
    exact spells'
  refine parses_bind (parses_terminate turns 0 spells'' (Nat.zero_le _) short
    (by simpa using enough)) ?_
  rintro _ v ⟨args', others, cut⟩
  have same : u.mem .buffer = s.mem .buffer := by
    rw [mem]
    exact line
  refine ⟨argcEq, fun i word found => ?_, ?_, fun x => ?_⟩
  · have here := args i word (by simpa using found)
    rw [Nat.zero_add, ← args'] at here
    exact stringAt_word here spells'' short cut
  · have copied : v.bytes .commandName =
        Memory.splice (fun _ => 0) 0 (firstWord (text.drop k) ++ [0]) := by
      have terminator := Memory.splice_splice (fun _ => 0) 0 (firstWord (text.drop k)) [0]
      rw [Nat.zero_add, Memory.splice_singleton] at terminator
      have kept : v.bytes .commandName = (t.write .commandName j 0).bytes .commandName := by
        funext x
        exact congrFun ((others .commandName nofun).trans (congrFun mem _)) x
      rw [← terminator, ← length, kept, bytes_write, name]
      rfl
    rw [← firstWord_skipped inside blanks]
    refine cString_word (fun c member => ?_) (Nat.le_trans wordLength short) copied
    exact spells.plain c (List.mem_of_mem_drop ((firstWord_start _).subset member))
  · rw [cut, same]

/-- The three passes agree: for every line of at most 255 characters with at most 32 words, `argc`
and `args` are its words, the command name is the first of them, and every access to the line is to
its text or its terminator. -/
theorem parseLine_tokens (s : ShellState) (text : List UInt8) (spells : Spells (s.mem .buffer) text 0)
    (short : text.length ≤ 255) (fits : (wordsOf text).length ≤ 32) :
    parseLine.All shellHandler (InText text.length) s ∧
      ∃ argc t, parseLine.run shellHandler s = some (argc, t) ∧ Parsed text s argc t :=
  ⟨(parses_parseLine spells short fits).all, (parses_parseLine spells short fits).returns⟩

/-- The line `a  b`, with two blanks. -/
def twoWords : ShellState :=
  (((start.write .buffer 0 97).write .buffer 1 32).write .buffer 2 32).write .buffer 3 98

theorem parseLine_tokens_two :
    parseLine.All shellHandler (InText 4) twoWords ∧
      ∃ argc t, parseLine.run shellHandler twoWords = some (argc, t) ∧
        Parsed [97, 32, 32, 98] twoWords argc t :=
  parseLine_tokens twoWords [97, 32, 32, 98]
    ⟨fun x _ inside => by
      have : x = 0 ∨ x = 1 ∨ x = 2 ∨ x = 3 ∨ x = 4 := by
        simp at inside
        omega
      rcases this with rfl | rfl | rfl | rfl | rfl <;> rfl, by simp⟩
    (by simp) (by decide)

end KopalniaOS.Shell
