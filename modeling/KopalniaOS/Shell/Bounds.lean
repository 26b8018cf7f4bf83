import KopalniaOS.Shell.Tokens

/-!
# The line stays in its buffer

Where the loop over the keys stays in bounds. TAB moves the index by four and is only checked
before, and nothing but the line itself limits the number of words.
-/
namespace KopalniaOS.Shell

open Library Stdlib

variable {α β : Type} {s : ShellState} {text : List UInt8} {k : Nat}

/-! ### Words -/

/-- The number of words, counted where they end. -/
def words : List UInt8 → Nat
  | [] => 0
  | c :: rest => words rest + if c ≠ space ∧ rest.head?.getD space = space then 1 else 0

/-- They are the maximal runs between blanks. -/
theorem words_eq (text : List UInt8) : words text = (wordsOf text).length := by
  induction text with
  | nil => simp [words]
  | cons c rest ih =>
    rw [words, ih]
    by_cases blank : c = space
    · simp [blank, wordsOf_space]
    · rw [wordsOf_cons blank]
      rcases rest with _ | ⟨d, rest⟩
      · simp [blank]
      · by_cases last : d = space
        · simp [blank, last]
        · -- the word goes on, so both lists have it
          rw [wordsOf_cons last]
          simp [last]

/-! ### The loops -/

theorem fine_skipBlanks (spells : Spells (s.mem .buffer) text k) (inside : k ≤ text.length)
    (short : text.length ≤ 255) :
    Fine (skipBlanks k) s fun k' t =>
      t = s ∧ k ≤ k' ∧ k' ≤ text.length ∧
        text.drop k' = (text.drop k).dropWhile fun c => c == space :=
  (parses_skipBlanks spells inside short).fine short

theorem fine_skipWord (spells : Spells (s.mem .buffer) text k) (inside : k ≤ text.length)
    (short : text.length ≤ 255) :
    Fine (skipWord k) s fun k' t =>
      t = s ∧ k ≤ k' ∧ k' ≤ text.length ∧
        text.drop k' = (text.drop k).dropWhile fun c => !(c == space) :=
  (parses_skipWord spells inside short).fine short

/-- Without room for all words `args` does not keep its bound. -/
theorem splitArgs_fits (left k argc : Nat) (spells : Spells (s.mem .buffer) text k)
    (inside : k ≤ text.length) (short : text.length ≤ 255) (enough : text.length < k + left)
    (room : argc ≤ 32) (stays : Stays (splitArgs left k argc) s) :
    argc + (wordsOf (text.drop k)).length ≤ 32 := by
  induction left generalizing k argc s with
  | zero => omega
  | succ left ih =>
    rw [splitArgs, stays_load] at stays
    split at stays
    · rename_i last
      rw [(spells.char_eq_zero inside).mp last]
      simpa [wordsOf] using room
    · obtain ⟨k', t, ⟨rfl, later, inside', blanks⟩, ahead⟩ :=
        stays.after (fine_skipBlanks spells inside short)
      have spells' := spells.mono later
      rw [stays_load] at ahead
      split at ahead
      · rename_i last
        rw [wordsOf_blank blanks ((spells'.char_eq_zero inside').mp last)]
        exact room
      · rename_i more
        have before : k' < text.length :=
          Nat.lt_of_le_of_ne inside' fun last => more ((spells'.char_eq_zero inside').mpr last)
        obtain ⟨words, here⟩ := wordsOf_drop blanks before
        -- this word was stored, so there was an entry for it
        have below : argc < 32 := ((Program.all_perform_bind _ _ _).mp ahead).1
        have ahead := ahead.next rfl
        obtain ⟨k'', u, ⟨rfl, later', inside'', behind⟩, further⟩ :=
          ahead.after (fine_skipWord spells' inside' short)
        rw [← behind] at words
        have moved := here.lt_of_behind inside'' behind
        have fits := ih (s := { t with args := Function.update t.args argc k' }) k'' (argc + 1)
          (spells'.mono later') inside'' (by omega) below further
        rw [words, List.length_cons]
        omega

theorem fine_strCmp (o : Object) (index : Nat) (text : List UInt8) :
    Fine (strCmp o index text) s fun _ _ => True := by
  induction text generalizing index with
  | nil =>
    rw [strCmp]
    exact fine_load trivial
  | cons x rest ih =>
    rw [strCmp]
    refine fine_load ?_
    split
    · exact ih (index + 1)
    · exact trivial

theorem fine_dispatch (argc : Nat) (names : List String) :
    Fine (dispatch argc names) s fun _ _ => True := by
  induction names generalizing s with
  | nil => exact trivial
  | cons name rest ih =>
    rw [dispatch]
    refine fine_bind (fine_strCmp .commandName 0 (bytesOf name)) fun same t _ => ?_
    split
    · refine fine_perform trivial ?_
      rintro r answer
      cases answer
      exact trivial
    · exact ih

theorem fine_memmove (dst src : Object) (left index : Nat) (inside : index + left ≤ 256) :
    Fine (memmove dst src left index) s fun _ _ => True := by
  induction left generalizing index s with
  | zero => exact trivial
  | succ left ih =>
    rw [memmove]
    exact fine_load (fine_store (by omega) (ih (index + 1) (by omega)))

/-! ### The keys -/

variable {i : Int}

theorem length_lineOf_le (m : Int → UInt8) (i : Int) : (lineOf m i).length ≤ i.toNat := by
  simpa [lineOf] using
    (List.takeWhile_sublist (fun c => decide (c ≠ 0))
      (l := (List.range i.toNat).map fun k : Nat => m k)).length_le

/-- The line that ENTER has ended. -/
theorem spells_lineOf (s : ShellState) (nonneg : 0 ≤ i) :
    Spells ((s.write .buffer i 0).mem .buffer) (lineOf (s.mem .buffer) i) 0 := by
  have short := length_lineOf_le (s.mem .buffer) i
  -- in front of `i` are the line and what a terminator cuts off
  obtain ⟨rest, parts, stops⟩ : ∃ rest : List UInt8,
      lineOf (s.mem .buffer) i ++ rest = (List.range i.toNat).map (fun k : Nat => s.mem .buffer k) ∧
        ∀ c, rest.head? = some c → c = 0 := by
    refine ⟨_, List.takeWhile_append_dropWhile, fun c head => ?_⟩
    have stops := List.head?_dropWhile_not (fun c => decide (c ≠ 0))
      ((List.range i.toNat).map fun k : Nat => s.mem .buffer k)
    rw [head] at stops
    simpa using stops
  have typed : ∀ x : Nat, x < i.toNat →
      (lineOf (s.mem .buffer) i ++ rest)[x]? = some (s.mem .buffer x) := by
    intro x before
    rw [parts]
    simp [before]
  refine ⟨fun x _ inside => ?_, fun c member => ?_⟩
  · rcases Nat.eq_or_lt_of_le (Nat.le_trans inside short) with last | before
    · have there : (x : Int) = i := by omega
      have ended : (lineOf (s.mem .buffer) i).length ≤ x := by omega
      simp [ShellState.write, there, List.getElem?_eq_none ended]
    · have other : (x : Int) ≠ i := by omega
      have found := typed x before
      rcases Nat.eq_or_lt_of_le inside with ended | within
      · have past := Nat.le_of_eq ended.symm
        rw [List.getElem?_append_right past, Nat.sub_eq_zero_of_le inside,
          ← List.head?_eq_getElem?] at found
        have terminator := stops _ found
        simp [ShellState.write, other, terminator, List.getElem?_eq_none past]
      · rw [List.getElem?_append_left within] at found
        simp [ShellState.write, other, found]
  · simpa using List.mem_takeWhile_imp member

theorem lineOf_short (inside : i ≤ 255) : (lineOf (s.mem .buffer) i).length ≤ 255 := by
  have short := length_lineOf_le (s.mem .buffer) i
  omega

/-- What follows the words does not depend on the line. -/
theorem fine_runLine (argc : Nat) : Fine (runLine argc) s fun _ _ => True := by
  have history : ∀ t, Fine (do
      perform (.zero .command)
      memmove .command .buffer 256 0
      perform .pushCommand
      perform (.print "&fPlum-OS> ")) t fun _ _ => True := by
    intro t
    refine fine_any trivial fun _ t => ?_
    refine fine_bind (fine_memmove .command .buffer 256 0 (by omega)) fun _ t _ => ?_
    exact fine_any trivial fun _ t => fine_any trivial fun _ _ => trivial
  rw [runLine]
  refine fine_bind (fine_dispatch argc commands) fun foundCommand t _ => ?_
  split
  · exact fine_any trivial fun _ t => fine_any trivial fun _ t => history t
  · exact history t

theorem fine_enter (nonneg : 0 ≤ i) (inside : i ≤ 255)
    (fits : words (lineOf (s.mem .buffer) i) ≤ 32) : Fine (enter i) s fun _ _ => True := by
  have short := lineOf_short (s := s) inside
  rw [words_eq] at fits
  rw [enter_eq]
  refine fine_store ⟨nonneg, inside⟩ (fine_perform trivial ?_)
  rintro r answer
  cases answer
  have parses := parses_parseLine (s := (s.write .buffer i 0).emit (.char 10))
    (spells_lineOf s nonneg) short fits
  exact fine_bind (parses.fine short) fun argc t _ => fine_runLine argc

/-- A part of ENTER that stays in bounds had room for the words. -/
theorem parseLine_fits (spells : Spells (s.mem .buffer) text 0) (short : text.length ≤ 255)
    (stays : Stays parseLine s) : (wordsOf text).length ≤ 32 := by
  have enough : text.length < turns := by
    unfold turns
    omega
  rw [parseLine] at stays
  have spells : Spells (({ s with mem := Function.update s.mem .commandName fun _ => 0 } :
    ShellState).mem .buffer) text 0 := spells
  obtain ⟨k, t, ⟨rfl, -, inside, -⟩, stays⟩ := (stays.next rfl).after
    ((parses_skipLeading spells (Nat.zero_le _) short).fine short)
  obtain ⟨j, t, ⟨-, -, same, -⟩, stays⟩ := stays.after
    ((parses_copyName turns k 0 (spells.mono (Nat.zero_le k)) inside (Nat.lt_add_left k enough)
      (by omega)).fine short)
  rw [← same] at spells
  -- the accesses stay inside through the whole line, so also while it is split
  have splits := ((Program.all_bind _ _ _).mp (stays.next rfl)).1
  have fits := splitArgs_fits (s := t.write .commandName j 0) turns 0 0 spells (Nat.zero_le _) short
    (by simpa using enough) (Nat.zero_le _) splits
  simpa using fits

theorem enter_fits (nonneg : 0 ≤ i) (inside : i ≤ 255) (stays : Stays (enter i) s) :
    words (lineOf (s.mem .buffer) i) ≤ 32 := by
  rw [enter_eq] at stays
  rw [words_eq]
  have parses := ((Program.all_bind _ _ _).mp ((stays.next rfl).next rfl)).1
  exact parseLine_fits (s := (s.write .buffer i 0).emit (.char 10)) (spells_lineOf s nonneg)
    (lineOf_short inside) parses

/-! ### The keys -/

theorem fine_typeKey (key : UInt8) (nonneg : 0 ≤ i) (inside : i ≤ 255)
    (tab : key = keyTab → i ≤ 251 ∨ 255 ≤ i) :
    Fine (typeKey i key) s fun i' _ => 0 ≤ i' ∧ i' ≤ 255 := by
  rw [typeKey]
  split
  · exact ⟨nonneg, inside⟩
  · split
    · exact ⟨nonneg, inside⟩
    · rename_i room
      refine fine_any trivial fun _ t => fine_store (by omega) ?_
      split
      · rename_i tabbed
        have := tab tabbed
        unfold tabSize
        exact ⟨by omega, by omega⟩
      · exact ⟨by omega, by omega⟩

theorem fine_recallCommand (f : Unit → ShellProgram α) {post : α → ShellState → Prop}
    (next : ∀ t, Fine (f ()) t post) : Fine (recallCommand >>= f) s post := by
  refine fine_bind (?_ : Fine recallCommand s fun _ _ => True) fun _ t _ => next t
  rw [recallCommand]
  refine fine_any trivial fun _ t => fine_any trivial fun _ t => ?_
  refine fine_bind (fine_memmove .buffer .command 256 0 (by omega)) fun _ t _ => ?_
  exact fine_any trivial fun _ _ => trivial

/-- The keys that are safe: TAB unless it jumps over the end, and ENTER unless the line has more
words than `args` has entries. -/
def Allowed (i : Int) (key : UInt8) (s : ShellState) : Prop :=
  (key = keyTab → i ≤ 251 ∨ 255 ≤ i) ∧
    (key = keyEnter → words (lineOf (s.mem .buffer) i) ≤ 32)

theorem fine_handleKey (key : UInt8) (nonneg : 0 ≤ i) (inside : i ≤ 255)
    (allowed : Allowed i key s) :
    Fine (handleKey i key) s fun i' _ => 0 ≤ i' ∧ i' ≤ 255 := by
  rw [handleKey]
  refine fine_perform trivial ?_
  rintro r answer
  cases answer
  -- only ENTER and a typed key can leave the objects
  split
  · split
    · exact ⟨nonneg, inside⟩
    · exact fine_any trivial fun _ t => fine_store (by omega) ⟨by omega, by omega⟩
  · split
    · rename_i entered
      refine fine_bind (fine_enter nonneg inside (allowed.2 entered)) fun _ t _ => ?_
      exact ⟨by omega, by omega⟩
    · split
      · exact fine_recallCommand _ fun t => fine_typeKey key nonneg inside allowed.1
      · exact fine_typeKey key nonneg inside allowed.1

/-- TAB checks the index before it moves, and moves by four. -/
theorem fine_handleKey_tab (nonneg : 0 ≤ i) (before : i ≤ 254) :
    Fine (handleKey i keyTab) s fun i' _ => i' = i + 4 := by
  rw [handleKey]
  refine fine_any trivial fun _ t => ?_
  rw [if_neg (by decide), if_neg (by decide), if_neg (by decide), typeKey, if_neg (by decide),
    if_neg (by omega)]
  refine fine_any trivial fun _ t => fine_store (by omega) ?_
  rw [if_pos rfl]
  show i + 1 + (4 - 1) = i + 4
  omega

theorem tab_moves (nonneg : 0 ≤ i) (before : i ≤ 254) {i' : Int} {t : ShellState}
    (ran : (handleKey i keyTab).run shellHandler s = some (i', t)) : i' = i + 4 := by
  obtain ⟨j, u, moved, rfl⟩ := (fine_handleKey_tab (s := s) nonneg before).returns
  rw [ran] at moved
  cases moved
  rfl

/-- An ENTER that is fine had a line that `args` can hold. -/
theorem handleKey_enter_fits (nonneg : 0 ≤ i) (inside : i ≤ 255)
    (stays : Stays (handleKey i keyEnter) s) : words (lineOf (s.mem .buffer) i) ≤ 32 := by
  rw [handleKey] at stays
  have stays := stays.next rfl
  rw [if_neg (by decide), if_pos rfl] at stays
  exact enter_fits nonneg inside ((Program.all_bind _ _ _).mp stays).1

/-! ### Sessions -/

/-- From the head of the loop on: the index is in the line there, every turn writes inside the
objects, and it gets to the head again. -/
def InLine : List UInt8 → Int → ShellState → Prop
  | [], i, _ => 0 ≤ i ∧ i ≤ 255
  | key :: keys, i, s =>
    (0 ≤ i ∧ i ≤ 255) ∧ Stays (handleKey i key) s ∧
      ∃ i' t, (handleKey i key).run shellHandler s = some (i', t) ∧ InLine keys i' t

/-- Every key is one that is allowed when it is pressed. -/
def AllAllowed : List UInt8 → Int → ShellState → Prop
  | [], _, _ => True
  | key :: keys, i, s =>
    Allowed i key s ∧
      ∀ i' t, (handleKey i key).run shellHandler s = some (i', t) → AllAllowed keys i' t

theorem InLine.index {keys : List UInt8} (inLine : InLine keys i s) : 0 ≤ i ∧ i ≤ 255 := by
  cases keys with
  | nil => exact inLine
  | cons key keys => exact inLine.1

theorem InLine.allowed {key : UInt8} {keys : List UInt8} (inLine : InLine (key :: keys) i s) :
    Allowed i key s := by
  obtain ⟨⟨nonneg, inside⟩, stays, i', t, ran, rest⟩ := inLine
  constructor
  · rintro rfl
    by_contra late
    have moved := tab_moves nonneg (by omega) ran
    have index := rest.index
    omega
  · rintro rfl
    exact handleKey_enter_fits nonneg inside stays

theorem inLine_iff (keys : List UInt8) (nonneg : 0 ≤ i) (inside : i ≤ 255) :
    InLine keys i s ↔ AllAllowed keys i s := by
  induction keys generalizing i s with
  | nil => exact ⟨fun _ => trivial, fun _ => ⟨nonneg, inside⟩⟩
  | cons key keys ih =>
    constructor
    · intro inLine
      refine ⟨inLine.allowed, fun j u moved => ?_⟩
      obtain ⟨-, -, i', t, ran, rest⟩ := inLine
      rw [ran] at moved
      cases moved
      have index := rest.index
      exact (ih index.1 index.2).mp rest
    · rintro ⟨allowed, rest⟩
      have fine := fine_handleKey (s := s) key nonneg inside allowed
      obtain ⟨i', t, ran, nonneg', inside'⟩ := fine.returns
      exact ⟨⟨nonneg, inside⟩, fine.stays, i', t, ran, (ih nonneg' inside').mpr (rest i' t ran)⟩

/-- The line editor stays in its line exactly as long as every key is allowed. -/
theorem line_editor_in_line (keys : List UInt8) : InLine keys 0 start ↔ AllAllowed keys 0 start :=
  inLine_iff keys (Int.le_refl 0) (by decide)

theorem tabs_not_inLine (n : Nat) (i : Int) (left : i + 4 * n = 252) (nonneg : 0 ≤ i) :
    ¬InLine (List.replicate (n + 1) keyTab) i s := by
  induction n generalizing i s with
  | zero =>
    -- the index is 252, and the next one is outside
    rintro ⟨-, -, i', t, ran, rest⟩
    have moved := tab_moves nonneg (by omega) ran
    have index := rest.index
    omega
  | succ n ih =>
    rintro ⟨-, -, i', t, ran, rest⟩
    obtain rfl := tab_moves nonneg (by omega) ran
    exact ih (i + 4) (by omega) (by omega) rest

/-- With nothing but TAB the index gets to 256. -/
theorem tabs_leave_line : ¬∀ keys : List UInt8, InLine keys 0 start := fun inLine =>
  tabs_not_inLine 63 0 (by decide) (Int.le_refl 0) (inLine (List.replicate 64 keyTab))

end KopalniaOS.Shell
