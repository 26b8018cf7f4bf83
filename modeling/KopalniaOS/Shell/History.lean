import KopalniaOS.Shell.Typing

/-!
# Recalling commands

ENTER keeps a copy of the line, which it has cut at its blanks by then, and UP takes the oldest copy
out of the history. The index does not follow what UP writes to the line.
-/
namespace KopalniaOS.Shell

open Library Stdlib

variable {s t : ShellState} {i : Int}

/-! ### Sessions -/

/-- Keys one after the other, from an index on. -/
def typeKeys : List UInt8 → Int → ShellProgram Int
  | [], i => pure i
  | key :: keys, i => do
    let i ← handleKey i key
    typeKeys keys i

/-- The lines that were entered since the start, as ENTER found them, and the state after that. No key
leads out of the objects. -/
inductive Session : List (List UInt8) → ShellState → Prop where
  | fresh : Session [] start
  | enter {lines : List (List UInt8)} {s t u : ShellState} {keys : List UInt8} {i i' : Int}
      (session : Session lines s) (edits : ∀ key ∈ keys, Edits key)
      (allowed : AllAllowed (keys ++ [keyEnter]) 0 s)
      (typed : (typeKeys keys 0).run shellHandler s = some (i, t))
      (entered : (handleKey i keyEnter).run shellHandler t = some (i', u)) :
      Session (lines ++ [lineOf (t.mem .buffer) i]) u

/-- UP is pressed `k` times: this line is displayed by the last of them, and taken apart by ENTER. -/
def Recalls (s : ShellState) (k : Nat) (line : List UInt8) : Prop :=
  ∃ i t, (typeKeys (List.replicate k keyUp) 0).run shellHandler s = some (i, t) ∧
    t.output.getLast? = some (.string "%s" line) ∧
    Spells ((t.write .buffer i 0).mem .buffer) line 0

/-! ### What the parts leave alone -/

section Keeps

variable {γ : Type} {part : ShellState → γ}

theorem keeps_any {o : ShellOp} (keeps : ∀ s r, shellHandler o s = some r → part r.2 = part s) :
    (perform o).Keeps shellHandler part :=
  Program.keeps_perform keeps

theorem keeps_load (o : Object) (index : Int) : (load o index).Keeps shellHandler part :=
  keeps_any fun _ _ answer => by
    cases answer
    rfl

theorem keeps_store {o : Object} {index : Int} {value : UInt8}
    (keeps : ∀ s, part (s.write o index value) = part s) :
    (store o index value).Keeps shellHandler part :=
  keeps_any fun s _ answer => by
    cases answer
    exact keeps s

theorem keeps_scan (cond : UInt8 → Bool) (left k : Nat) :
    (scan cond left k).Keeps shellHandler part := by
  induction left generalizing k with
  | zero => exact Program.keeps_stuck
  | succ left ih =>
    refine (keeps_load _ _).bind fun c => ?_
    split
    · exact ih (k + 1)
    · exact Program.keeps_ret k

theorem keeps_copyName (keeps : ∀ s index value, part (s.write .commandName index value) = part s)
    (left k j : Nat) : (copyName left k j).Keeps shellHandler part := by
  induction left generalizing k j with
  | zero => exact Program.keeps_stuck
  | succ left ih =>
    refine (keeps_load _ _).bind fun c => ?_
    split
    · refine (keeps_load _ _).bind fun d => ?_
      exact (keeps_store fun s => keeps s j d).bind fun _ => ih (k + 1) (j + 1)
    · exact Program.keeps_ret j

theorem keeps_splitArgs
    (keeps : ∀ s argc index, part { s with args := Function.update s.args argc index } = part s)
    (left k argc : Nat) : (splitArgs left k argc).Keeps shellHandler part := by
  induction left generalizing k argc with
  | zero => exact Program.keeps_stuck
  | succ left ih =>
    refine (keeps_load _ _).bind fun c => ?_
    split
    · exact Program.keeps_ret argc
    · refine (keeps_scan _ _ _).bind fun k => (keeps_load _ _).bind fun c => ?_
      split
      · exact Program.keeps_ret argc
      · refine (keeps_any fun s r answer => ?_).bind fun _ => ?_
        · cases answer
          exact keeps s argc k
        · exact (keeps_scan _ _ _).bind fun k => ih k (argc + 1)

theorem keeps_terminate (keeps : ∀ s index, part (s.write .buffer index 0) = part s)
    (left k : Nat) : (terminate left k).Keeps shellHandler part := by
  induction left generalizing k with
  | zero => exact Program.keeps_stuck
  | succ left ih =>
    refine (keeps_load _ _).bind fun c => ?_
    split
    · exact Program.keeps_ret ()
    · split
      · exact ih (k + 1)
      · exact (keeps_store fun s => keeps s k).bind fun _ =>
          (keeps_scan _ _ _).bind fun k => ih k

theorem keeps_strCmp (o : Object) (index : Nat) (text : List UInt8) :
    (strCmp o index text).Keeps shellHandler part := by
  induction text generalizing index with
  | nil => exact (keeps_load _ _).bind fun c => Program.keeps_ret (c == 0)
  | cons x rest ih =>
    refine (keeps_load _ _).bind fun c => ?_
    split
    · exact ih (index + 1)
    · exact Program.keeps_ret false

theorem keeps_dispatch
    (keeps : ∀ s call, part { s with called := s.called ++ [call] } = part s) (argc : Nat)
    (names : List String) : (dispatch argc names).Keeps shellHandler part := by
  induction names with
  | nil => exact Program.keeps_ret false
  | cons name rest ih =>
    refine (keeps_strCmp _ _ _).bind fun same => ?_
    split
    · refine (keeps_any fun s r answer => ?_).bind fun _ => Program.keeps_ret true
      cases answer
      exact keeps s (name, argc)
    · exact ih

end Keeps

/-! ### Typing a line -/

/-- The last place of the line and what is behind it have not been written. -/
def Ended (s : ShellState) : Prop := ∀ x : Nat, 255 ≤ x → s.mem .buffer x = 0

theorem Ended.write (ended : Ended s) {index : Int} {value : UInt8}
    (inside : index < 255 ∨ value = 0) : Ended (s.write .buffer index value) := by
  intro x behind
  by_cases here : (x : Int) = index
  · have zero : value = 0 := inside.resolve_left (by omega)
    simp [ShellState.write, here, zero]
  · simp [ShellState.write, here, ended x behind]

/-- Behind the last place a key does nothing. -/
theorem run_full {key : UInt8} (char : toChar key ≠ 0) (noBackspace : key ≠ keyBackspace)
    (noEnter : key ≠ keyEnter) (noUp : key ≠ keyUp) (full : 255 ≤ i) (s : ShellState) :
    (handleKey i key).run shellHandler s = some (i, s) := by
  rw [handleKey, if_neg noBackspace, if_neg noEnter, if_neg noUp, typeKey, if_neg char, if_pos full]
  rfl

theorem types_key {key : UInt8} {i' : Int} (edits : Edits key) (nonneg : 0 ≤ i) (ended : Ended s)
    (typed : (handleKey i key).run shellHandler s = some (i', t)) :
    0 ≤ i' ∧ Ended t ∧ t.history = s.history := by
  -- a key that edits is the backspace or a character, and a full line drops it
  by_cases back : key = keyBackspace
  · subst back
    rw [run_backspace] at typed
    split at typed
    · cases typed
      exact ⟨nonneg, ended, rfl⟩
    · cases typed
      have printed : Ended (s.emit (.char 8)) := ended
      exact ⟨by omega, printed.write (.inr rfl), rfl⟩
  · obtain ⟨char, noEnter, noUp⟩ := edits.resolve_left back
    by_cases full : 255 ≤ i
    · rw [run_full char back noEnter noUp full] at typed
      cases typed
      exact ⟨nonneg, ended, rfl⟩
    · have room := Int.not_le.mp full
      rw [run_character char back noEnter noUp room] at typed
      cases typed
      have printed : Ended (s.emit (.char (toChar key))) := ended
      refine ⟨?_, printed.write (.inl room), rfl⟩
      split <;> omega

theorem types_keys {keys : List UInt8} {i' : Int} (edits : ∀ key ∈ keys, Edits key) (nonneg : 0 ≤ i)
    (ended : Ended s) (typed : (typeKeys keys i).run shellHandler s = some (i', t)) :
    0 ≤ i' ∧ Ended t ∧ t.history = s.history := by
  induction keys generalizing i s with
  | nil =>
    cases typed
    exact ⟨nonneg, ended, rfl⟩
  | cons key keys ih =>
    rw [typeKeys, Program.run_bind] at typed
    obtain ⟨⟨j, u⟩, first, rest⟩ := Option.bind_eq_some_iff.mp typed
    obtain ⟨nonneg', ended', same⟩ := types_key (edits key List.mem_cons_self) nonneg ended first
    obtain ⟨nonneg'', ended'', same'⟩ :=
      ih (fun key member => edits key (List.mem_cons_of_mem _ member)) nonneg' ended' rest
    exact ⟨nonneg'', ended'', same'.trans same⟩

/-! ### ENTER -/

/-- A line is at most as long as its object. -/
theorem Ended.short (ended : Ended s) (i : Int) : (lineOf (s.mem .buffer) i).length ≤ 255 := by
  by_contra long
  have inside : 255 < (lineOf (s.mem .buffer) i).length := Nat.lt_of_not_le long
  -- the place behind the last one would be in the line
  have nonzero := List.mem_takeWhile_imp (List.getElem_mem inside)
  have char : (lineOf (s.mem .buffer) i)[255] = 0 := by
    have start : lineOf (s.mem .buffer) i <+: _ := List.takeWhile_prefix _
    rw [start.getElem inside, List.getElem_map, List.getElem_range]
    exact ended 255 (Nat.le_refl _)
  simp [char] at nonzero

/-- What ENTER changes only at the end. -/
def kept (s : ShellState) : (Int → UInt8) × RingBuffer (Int → UInt8) := (s.mem .buffer, s.history)

/-- Taking a line apart cuts it, however many words it has. -/
theorem cuts_parseLine {text : List UInt8} {argc : Nat} (spells : Spells (s.mem .buffer) text 0)
    (short : text.length ≤ 255) (ran : parseLine.run shellHandler s = some (argc, t)) :
    t.history = s.history ∧
      ∀ x : Nat, t.mem .buffer x = if Cut text 0 x then 0 else s.mem .buffer x := by
  simp only [parseLine, Program.run_bind, Option.bind_eq_some_iff] at ran
  obtain ⟨⟨_, s₁⟩, zeroed, ⟨k, s₂⟩, leading, ⟨j, s₃⟩, copied, ⟨_, s₄⟩, stored, ⟨n, s₅⟩, split,
    ⟨_, s₆⟩, terminated, done⟩ := ran
  cases done
  -- the passes in front of the last one leave the line and the history alone
  have zeroed : kept s₁ = kept s := by
    cases zeroed
    rfl
  have leading : kept s₂ = kept s₁ := keeps_scan _ _ _ _ _ _ leading
  have copied : kept s₃ = kept s₂ := keeps_copyName (fun _ _ _ => rfl) _ _ _ _ _ _ copied
  have stored : kept s₄ = kept s₃ := keeps_store (fun _ => rfl) _ _ _ stored
  have split : kept s₅ = kept s₄ := keeps_splitArgs (fun _ _ _ => rfl) _ _ _ _ _ _ split
  have history : s₆.history = s₅.history := keeps_terminate (fun _ _ => rfl) _ _ _ _ _ terminated
  obtain ⟨before, history'⟩ :=
    Prod.mk.inj (split.trans (stored.trans (copied.trans (leading.trans zeroed))))
  have enough : text.length < 0 + turns := by
    unfold turns
    omega
  have spells : Spells (s₅.mem .buffer) text 0 := by
    rw [before]
    exact spells
  have parses := parses_terminate turns 0 spells (Nat.zero_le _) short enough
  obtain ⟨_, u, ran, -, -, cut⟩ := parses.returns
  rw [terminated] at ran
  cases ran
  refine ⟨history.trans history', fun x => ?_⟩
  rw [cut, before]

theorem cString_ended {m : Int → UInt8} (ended : m 0 = 0) : cString m = [] := by
  rw [cString, List.range_succ_eq_map]
  simp [ended]

/-- A line that was cut is its characters up to the first blank. -/
theorem cString_cut {text : List UInt8} {m m' : Int → UInt8} (spells : Spells m text 0)
    (short : text.length ≤ 255) (cut : ∀ x : Nat, m' x = if Cut text 0 x then 0 else m x) :
    cString m' = firstWord text := by
  rcases text with _ | ⟨c, rest⟩
  · have ended := cut 0
    rw [if_neg (by simp [Cut]), spells.char 0 (Nat.le_refl 0) (Nat.le_refl 0)] at ended
    exact cString_ended ended
  · by_cases blank : c = space
    · have ended := cut 0
      rw [if_pos ⟨Nat.le_refl 0, congrArg some blank, .inl rfl⟩] at ended
      rw [blank, firstWord_blank]
      exact cString_ended ended
    · have noBlanks : (c :: rest).drop 0 = ((c :: rest).drop 0).dropWhile fun c => c == space := by
        simp [blank]
      have here := (wordsOf_drop noBlanks (Nat.zero_lt_succ _)).2
      rw [cString_eq_stringAt]
      exact stringAt_word here spells short cut

/-! ### Copies -/

/-- The copy of `left` places from an index on. -/
def copied (old source : Int → UInt8) (index left : Nat) : Int → UInt8 := fun x =>
  if (index : Int) ≤ x ∧ x < (index + left : Nat) then source x else old x

theorem run_memmove {dst src : Object} (apart : src ≠ dst) (left index : Nat) (s : ShellState) :
    (memmove dst src left index).run shellHandler s =
      some ((), { s with
        mem := Function.update s.mem dst (copied (s.mem dst) (s.mem src) index left) }) := by
  induction left generalizing index s with
  | zero =>
    have same : copied (s.mem dst) (s.mem src) index 0 = s.mem dst := by
      funext x
      exact if_neg (by omega)
    rw [same, Function.update_eq_self]
    rfl
  | succ left ih =>
    have ran : (memmove dst src (left + 1) index).run shellHandler s =
        (memmove dst src left (index + 1)).run shellHandler (s.write dst index (s.mem src index)) :=
      rfl
    have source : (s.write dst index (s.mem src index)).mem src = s.mem src :=
      Function.update_of_ne apart ..
    have same : copied ((s.write dst index (s.mem src index)).mem dst) (s.mem src) (index + 1) left =
        copied (s.mem dst) (s.mem src) index (left + 1) := by
      -- the copied part grows at its front
      funext x
      by_cases here : x = index
      · have inside : (index : Int) ≤ x ∧ x < (index + (left + 1) : Nat) := by omega
        rw [copied, copied, if_pos inside, if_neg (by omega), here]
        simp [ShellState.write]
      · simp only [copied, ShellState.write, Function.update_self, Function.update_of_ne here]
        exact if_congr (by omega) rfl rfl
    rw [ran, ih, source, same]
    simp [ShellState.write]

theorem cString_copied (old source : Int → UInt8) :
    cString (copied old source 0 256) = cString source := by
  rw [cString, cString]
  refine congrArg _ (List.map_congr_left fun x inside => ?_)
  rw [List.mem_range] at inside
  exact if_pos (by omega)

/-- The end of ENTER. -/
def keepLine : ShellProgram Unit := do
  perform (.zero .command)
  memmove .command .buffer 256 0
  perform .pushCommand
  perform (.print "&fPlum-OS> ")

/-- The line and the history after a copy of the line was kept. -/
def LineKept (s t : ShellState) : Prop :=
  t.mem .buffer = s.mem .buffer ∧ ∃ value, cString value = cString (s.mem .buffer) ∧
    t.history = (s.history.push historySize value).2

theorem keepLine_keeps (ran : keepLine.run shellHandler s = some ((), t)) : LineKept s t := by
  simp only [keepLine, Program.run_bind, Option.bind_eq_some_iff] at ran
  obtain ⟨⟨_, s₁⟩, zeroed, ⟨_, s₂⟩, moved, ⟨_, s₃⟩, pushed, printed⟩ := ran
  rw [run_memmove (by decide)] at moved
  cases zeroed
  cases moved
  cases pushed
  cases printed
  exact ⟨rfl, _, cString_copied _ _, rfl⟩

theorem runLine_eq (argc : Nat) :
    runLine argc = dispatch argc commands >>= fun foundCommand =>
      if foundCommand = false then
        perform (.printString "&7\tUnknown command: &c%s \n" .buffer) >>= fun _ =>
          perform (.sleep 250) >>= fun _ => keepLine
      else keepLine :=
  rfl

/-- The rest of ENTER runs a command first, which changes neither. -/
theorem runLine_keeps {argc : Nat} (ran : (runLine argc).run shellHandler s = some ((), t)) :
    LineKept s t := by
  rw [runLine_eq, Program.run_bind] at ran
  obtain ⟨⟨found, u⟩, dispatched, rest⟩ := Option.bind_eq_some_iff.mp ran
  have dispatched : kept u = kept s := keeps_dispatch (fun _ _ => rfl) _ _ _ _ _ dispatched
  obtain ⟨line, history⟩ := Prod.mk.inj dispatched
  have done : ∃ v, kept v = kept u ∧ keepLine.run shellHandler v = some ((), t) := by
    dsimp only at rest
    split at rest
    · rw [Program.run_bind] at rest
      obtain ⟨⟨_, v⟩, printed, rest⟩ := Option.bind_eq_some_iff.mp rest
      rw [Program.run_bind] at rest
      obtain ⟨⟨_, w⟩, slept, rest⟩ := Option.bind_eq_some_iff.mp rest
      -- the message and the pause for an unknown command
      cases printed
      cases slept
      refine ⟨_, ?_, rest⟩
      rfl
    · exact ⟨u, rfl, rest⟩
  obtain ⟨v, same, done⟩ := done
  obtain ⟨line', history'⟩ := Prod.mk.inj same
  obtain ⟨same, value, text, pushed⟩ := keepLine_keeps done
  refine ⟨same.trans (line'.trans line), value, ?_, ?_⟩
  · rw [text, line', line]
  · rw [pushed, history', history]

/-- ENTER puts the characters up to the first blank into the history. -/
theorem enter_pushes {i' : Int} (nonneg : 0 ≤ i) (ended : Ended s)
    (entered : (handleKey i keyEnter).run shellHandler s = some (i', t)) :
    Ended t ∧ ∃ value, cString value = firstWord (lineOf (s.mem .buffer) i) ∧
      t.history = (s.history.push historySize value).2 := by
  rw [handleKey, if_neg (by decide), if_pos rfl, enter_eq] at entered
  simp only [Program.run_bind, Option.bind_eq_some_iff] at entered
  obtain ⟨⟨_, s₁⟩, swapped, ⟨_, s₂⟩, ⟨⟨_, s₃⟩, stored, ⟨_, s₄⟩, printed, ⟨argc, s₅⟩, parsed, executed⟩,
    done⟩ := entered
  cases swapped
  cases stored
  cases printed
  cases done
  have spells : Spells (((s.write .buffer i 0).emit (.char 10)).mem .buffer)
      (lineOf (s.mem .buffer) i) 0 := spells_lineOf s nonneg
  -- parsing cuts the line at the end of its first word, which is what is pushed
  obtain ⟨history, cut⟩ := cuts_parseLine spells (ended.short i) parsed
  obtain ⟨line, value, text, pushed⟩ := runLine_keeps executed
  refine ⟨fun x behind => ?_, value, ?_, ?_⟩
  · rw [line, cut]
    split
    · rfl
    · exact ended.write (.inr rfl) x behind
  · rw [text, cString_cut spells (ended.short i) cut]
  · rw [pushed, history]
    rfl

/-- The history has what was kept of the first 63 lines. -/
def Remembers (lines : List (List UInt8)) (s : ShellState) : Prop :=
  ∃ items, RingBuffer.Holds historySize items 0 s.history ∧
    items.map cString = (lines.take 63).map firstWord

theorem Remembers.enter {lines : List (List UInt8)} {line : List UInt8} {value : Int → UInt8}
    (remembers : Remembers lines s) (text : cString value = firstWord line)
    (pushed : t.history = (s.history.push historySize value).2) : Remembers (lines ++ [line]) t := by
  obtain ⟨items, holds, same⟩ := remembers
  have length : items.length = min 63 lines.length := by simpa using congrArg List.length same
  by_cases room : lines.length < 63
  · have space : items.length + 1 < 0 + historySize := by
      unfold historySize
      omega
    refine ⟨items ++ [value], ?_, ?_⟩
    · rw [pushed]
      exact (holds.push space value).2
    · rw [List.take_of_length_le (by simp; omega), List.map_append, List.map_append, same,
        List.take_of_length_le (Nat.le_of_lt room), List.map_singleton, List.map_singleton, text]
  · -- the history is full, and refuses the line
    have full : items.length + 1 = 0 + historySize := by
      unfold historySize
      omega
    refine ⟨items, ?_, ?_⟩
    · rw [pushed, holds.push_full full]
      exact holds
    · rw [same, List.take_append_of_le_length (Nat.le_of_not_lt room)]

theorem session_remembers {lines : List (List UInt8)} (session : Session lines s) :
    Remembers lines s ∧ Ended s := by
  induction session with
  | fresh => exact ⟨⟨[], RingBuffer.holds_empty _ (by decide), rfl⟩, fun _ _ => rfl⟩
  | enter session edits _ typed entered ih =>
    obtain ⟨⟨items, holds, same⟩, ended⟩ := ih
    obtain ⟨nonneg, ended, history⟩ := types_keys edits (Int.le_refl 0) ended typed
    rw [← history] at holds
    obtain ⟨ended, value, text, pushed⟩ := enter_pushes nonneg ended entered
    exact ⟨Remembers.enter ⟨items, holds, same⟩ text pushed, ended⟩

/-! ### UP -/

/-- UP displays what it pops, or nothing, and leaves the index where it was. -/
theorem run_up (i : Int) (s : ShellState) :
    ∃ t, (handleKey i keyUp).run shellHandler s = some (i, t) ∧
      t.history = (s.history.pop historySize fun _ => 0).2.2 ∧
      t.output.getLast? =
        some (.string "%s" (cString (s.history.pop historySize fun _ => 0).2.1)) := by
  rw [handleKey, if_neg (by decide), if_neg (by decide), if_pos rfl, typeKey, if_pos (by decide),
    recallCommand]
  simp only [Program.run_bind, Option.bind_eq_some_iff]
  refine ⟨_, ⟨((), s), rfl, _, ⟨_, rfl, _, rfl, _, run_memmove (by decide) 256 0 _, rfl⟩, rfl⟩, rfl, ?_⟩
  simp [ShellState.emit, cString_copied]

/-- UP displays the oldest item that is left, and nothing when none is. -/
theorem up_pops {items : List (Int → UInt8)} {n : Nat} (i : Int)
    (holds : RingBuffer.Holds historySize items n s.history) :
    ∃ t m, (handleKey i keyUp).run shellHandler s = some (i, t) ∧
      t.output.getLast? = some (.string "%s" ((items.map cString)[n]?.getD [])) ∧
      RingBuffer.Holds historySize items m t.history ∧
      ∀ k, (items.map cString)[m + k]? = (items.map cString)[n + (k + 1)]? := by
  obtain ⟨t, ran, history, displayed⟩ := run_up i s
  by_cases more : n < items.length
  · have popped : s.history.pop historySize (fun _ => 0) =
        (true, items[n], { s.history with tail := (s.history.tail + 1) % historySize }) := by
      rw [RingBuffer.pop, if_neg fun empty => Nat.ne_of_lt more (holds.empty_iff.mp empty),
        holds.read (List.getElem?_eq_getElem more)]
    rw [popped] at history displayed
    refine ⟨t, n + 1, ran, by simpa [more] using displayed, ?_, fun k => ?_⟩
    · rw [history]
      exact holds.take more
    · rw [Nat.add_assoc, Nat.add_comm 1 k]
  · -- an empty history stays as it is
    have length : n = items.length := Nat.le_antisymm holds.behind (Nat.le_of_not_lt more)
    have popped : s.history.pop historySize (fun _ => 0) = (false, fun _ => 0, s.history) := by
      rw [RingBuffer.pop, if_pos (holds.empty_iff.mpr length)]
    rw [popped] at history displayed
    refine ⟨t, n, ran, ?_, ?_, fun k => ?_⟩
    · rw [displayed, cString_ended rfl]
      simp [length]
    · rw [history]
      exact holds
    · simp [length]

theorem run_ups {items : List (Int → UInt8)} {n : Nat} (k : Nat) (i : Int)
    (holds : RingBuffer.Holds historySize items n s.history) :
    ∃ t, (typeKeys (List.replicate (k + 1) keyUp) i).run shellHandler s = some (i, t) ∧
      t.output.getLast? = some (.string "%s" ((items.map cString)[n + k]?.getD [])) := by
  induction k generalizing s n with
  | zero =>
    obtain ⟨t, -, ran, displayed, -⟩ := up_pops i holds
    refine ⟨t, ?_, displayed⟩
    rw [List.replicate_one, typeKeys, Program.run_bind, ran]
    rfl
  | succ k ih =>
    obtain ⟨t, m, ran, -, holds', moved⟩ := up_pops i holds
    obtain ⟨u, rest, displayed⟩ := ih holds'
    rw [moved] at displayed
    refine ⟨u, ?_, displayed⟩
    rw [List.replicate_succ, typeKeys, Program.run_bind, ran, Option.bind_some]
    exact rest

/-- With the index at the start ENTER finds nothing. -/
theorem spells_ended (s : ShellState) (text : List UInt8) :
    Spells ((s.write .buffer 0 0).mem .buffer) text 0 ↔ text = [] := by
  have empty : Spells ((s.write .buffer 0 0).mem .buffer) [] 0 := by
    refine ⟨fun x _ inside => ?_, nofun⟩
    obtain rfl := Nat.le_zero.mp inside
    simp [ShellState.write]
  constructor
  · intro spells
    exact spells.unique empty
  · rintro rfl
    exact empty

/-- For all lines and every number of times that UP is pressed: the line that was entered so many
lines before is recalled and taken apart exactly if it is empty and UP displays nothing, because the
oldest lines are all gone or the one that it pops has no character in front of its first blank. -/
theorem history_recalled_iff (lines : List (List UInt8)) (s : ShellState) (k : Nat)
    (session : Session lines s) (some_up : 1 ≤ k) (entered : k ≤ lines.length) :
    Recalls s k (lines.getD (lines.length - k) []) ↔
      lines.getD (lines.length - k) [] = [] ∧
        (63 < k ∨ firstWord (lines.getD (k - 1) []) = []) := by
  obtain ⟨⟨items, holds, same⟩, -⟩ := session_remembers session
  obtain ⟨n, rfl⟩ := Nat.exists_eq_add_of_le' some_up
  obtain ⟨t, ran, displayed⟩ := run_ups n 0 holds
  rw [same, Nat.zero_add] at displayed
  have nothing : ((lines.take 63).map firstWord)[n]?.getD [] = [] ↔
      63 < n + 1 ∨ firstWord (lines.getD (n + 1 - 1) []) = [] := by
    have inside : n < lines.length := entered
    by_cases kept : n < 63
    · rw [List.getElem?_map, List.getElem?_take_of_lt kept, Nat.add_sub_cancel,
        List.getD_eq_getElem?_getD, List.getElem?_eq_getElem inside]
      exact (or_iff_right (Nat.not_lt.mpr kept)).symm
    · have gone : ((lines.take 63).map firstWord)[n]? = none := by
        rw [List.getElem?_eq_none]
        rw [List.length_map, List.length_take]
        exact Nat.le_trans (Nat.min_le_left ..) (Nat.le_of_not_lt kept)
      rw [gone]
      exact iff_of_true rfl (.inl (Nat.succ_lt_succ_iff.mpr (by omega)))
  -- the index is where it was, so ENTER executes an empty line
  rw [← nothing]
  constructor
  · rintro ⟨i, u, ran', displayed', spells⟩
    rw [ran] at ran'
    cases ran'
    have empty := (spells_ended t _).mp spells
    rw [displayed, empty] at displayed'
    exact ⟨empty, by simpa using displayed'⟩
  · rintro ⟨empty, shown⟩
    refine ⟨0, t, ran, ?_, (spells_ended t _).mpr empty⟩
    rw [displayed, shown, empty]

/-- One more key. -/
theorem allAllowed_concat {key : UInt8} {keys : List UInt8} {j : Int}
    (typed : (typeKeys keys i).run shellHandler s = some (j, t)) (careful : AllAllowed keys i s)
    (last : Allowed j key t) : AllAllowed (keys ++ [key]) i s := by
  induction keys generalizing i s with
  | nil =>
    cases typed
    exact ⟨last, fun _ _ _ => trivial⟩
  | cons first keys ih =>
    rw [typeKeys, Program.run_bind] at typed
    obtain ⟨⟨i₁, s₁⟩, moved, rest⟩ := Option.bind_eq_some_iff.mp typed
    refine ⟨careful.1, fun i' s' moved' => ?_⟩
    rw [moved] at moved'
    cases moved'
    exact ih rest (careful.2 i₁ s₁ moved)

/-- A short line can be entered. -/
theorem session_entered {lines : List (List UInt8)} (keys text : List UInt8)
    (session : Session lines s) (edits : ∀ key ∈ keys, Edits key) (careful : AllAllowed keys 0 s)
    (typed : (typeKeys keys 0).run shellHandler s = some (i, t)) (nonneg : 0 ≤ i) (inside : i ≤ 255)
    (line : lineOf (t.mem .buffer) i = text) (fits : words text ≤ 32) :
    ∃ u, Session (lines ++ [text]) u := by
  subst line
  have allowed : Allowed i keyEnter t := ⟨fun tab => absurd tab (by decide), fun _ => fits⟩
  obtain ⟨i', u, entered, -⟩ := (fine_handleKey keyEnter nonneg inside allowed).returns
  exact ⟨u, .enter session edits (allAllowed_concat typed careful allowed) typed entered⟩

/-- An empty line is recalled. -/
theorem history_recalled_empty : ∃ s, Session [[]] s ∧ Recalls s 1 [] := by
  obtain ⟨u, session⟩ := session_entered [] [] .fresh nofun trivial rfl (Int.le_refl 0)
    (by decide) rfl (by decide)
  exact ⟨u, session, (history_recalled_iff [[]] u 1 session (by decide) (by decide)).mpr
    ⟨rfl, .inr rfl⟩⟩

/-- The line `a` is displayed, and nothing is executed. -/
theorem history_not_recalled :
    ¬∀ (lines : List (List UInt8)) (s : ShellState) (k : Nat), Session lines s → 1 ≤ k →
      k ≤ lines.length → Recalls s k (lines.getD (lines.length - k) []) := by
  intro recalls
  have careful : AllAllowed [0x1E] 0 start :=
    ⟨⟨fun tab => absurd tab (by decide), fun enter => absurd enter (by decide)⟩, fun _ _ _ => trivial⟩
  obtain ⟨u, session⟩ := session_entered [0x1E] [97] (i := 1) .fresh
    (by simpa using .inr (by decide)) careful rfl (by decide) (by decide) rfl (by decide)
  obtain ⟨⟨items, holds, -⟩, -⟩ := session_remembers session
  obtain ⟨t, ran, -⟩ := run_ups 0 0 holds
  obtain ⟨i, t, ran', -, spells⟩ := recalls _ u 1 session (by decide) (by decide)
  rw [ran] at ran'
  cases ran'
  exact absurd ((spells_ended _ _).mp spells) (by decide)

end KopalniaOS.Shell
