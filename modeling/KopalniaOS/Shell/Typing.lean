import KopalniaOS.Shell.Bounds

/-!
# What is typed and what is executed

A character takes one place in the line and TAB takes four, of which only the first is written.
BACKSPACE goes back by one place, whatever was typed there.
-/
namespace KopalniaOS.Shell

open Library Stdlib

/-! ### The text that was typed -/

/-- A key that edits the line: BACKSPACE, or one with a character, which TAB is. -/
def Edits (key : UInt8) : Prop :=
  key = keyBackspace ∨ (toChar key ≠ 0 ∧ key ≠ keyEnter ∧ key ≠ keyUp)

/-- The characters that were typed and not erased, when one more key is pressed. -/
def edit (typed : List UInt8) (key : UInt8) : List UInt8 :=
  if key = keyBackspace then typed.dropLast else typed ++ [toChar key]

def tabChar : UInt8 := 9

def isBlank (c : UInt8) : Bool := c == space || c == tabChar

/-- The characters of a text that are not blank. -/
def solid (text : List UInt8) : List UInt8 := text.filter fun c => !isBlank c

/-- The text that ENTER would take apart has the characters that were typed. -/
def AsTyped (typed : List UInt8) (i : Int) (s : ShellState) : Prop :=
  ∃ text, Spells ((s.write .buffer i 0).mem .buffer) text 0 ∧ solid text = solid typed

/-! ### Keys one after the other -/

/-- Something holds of what was typed, the index and the state, before and after every key. -/
def Throughout (P : List UInt8 → Int → ShellState → Prop) :
    List UInt8 → List UInt8 → Int → ShellState → Prop
  | [], typed, i, s => P typed i s
  | key :: keys, typed, i, s =>
    P typed i s ∧ ∃ i' t, (handleKey i key).run shellHandler s = some (i', t) ∧
      Throughout P keys (edit typed key) i' t

/-- Something holds of every key where it is pressed. -/
def Along (P : UInt8 → List UInt8 → Int → ShellState → Prop) :
    List UInt8 → List UInt8 → Int → ShellState → Prop
  | [], _, _, _ => True
  | key :: keys, typed, i, s =>
    P key typed i s ∧ ∃ i' t, (handleKey i key).run shellHandler s = some (i', t) ∧
      Along P keys (edit typed key) i' t

/-- The line fits. -/
def LineFits (_ : List UInt8) (i : Int) (_ : ShellState) : Prop := i < 252

instance (typed : List UInt8) (i : Int) (s : ShellState) : Decidable (LineFits typed i s) :=
  inferInstanceAs (Decidable (i < 252))

/-- The text is what was typed, and would be if another character were typed. -/
def KeepsTyped (typed : List UInt8) (i : Int) (s : ShellState) : Prop :=
  AsTyped typed i s ∧ ∀ key, Edits key → key ≠ keyBackspace → key ≠ keyTab →
    ∃ i' t, (handleKey i key).run shellHandler s = some (i', t) ∧ AsTyped (edit typed key) i' t

/-- The three places that TAB does not write. -/
def gap (s : ShellState) (i : Int) : List UInt8 := [1, 2, 3].map fun d : Nat => s.mem .buffer (i + d)

/-- TAB leaves blanks in the line, and BACKSPACE takes from it the character that was typed last, or
a blank for a blank. -/
def Harmless (key : UInt8) (typed : List UInt8) (i : Int) (s : ShellState) : Prop :=
  (key = keyTab → ∀ b ∈ gap s i, isBlank b = true) ∧
    (key = keyBackspace → 0 < i →
      solid [s.mem .buffer (i - 1)] = solid typed.getLast?.toList)

/-! ### One key -/

variable {s : ShellState} {i : Int} {key : UInt8} {typed : List UInt8}

theorem run_backspace (i : Int) (s : ShellState) :
    (handleKey i keyBackspace).run shellHandler s =
      if i = 0 then some (i, s) else some (i - 1, (s.emit (.char 8)).write .buffer (i - 1) 0) := by
  by_cases first : i = 0
  · simp [handleKey, first]
    rfl
  · simp [handleKey, store, first]
    rfl

/-- A character is stored at the index. -/
theorem run_character (char : toChar key ≠ 0) (noBackspace : key ≠ keyBackspace)
    (noEnter : key ≠ keyEnter) (noUp : key ≠ keyUp) (room : i < 255) (s : ShellState) :
    (handleKey i key).run shellHandler s =
      some (if key = keyTab then i + 4 else i + 1,
        (s.emit (.char (toChar key))).write .buffer i (toChar key)) := by
  have inside : ¬255 ≤ i := Int.not_le.mpr room
  have moves : i + 1 + (tabSize - 1) = i + 4 := by
    unfold tabSize
    omega
  rw [handleKey, if_neg noBackspace, if_neg noEnter, if_neg noUp, typeKey, if_neg char,
    if_neg inside]
  by_cases tab : key = keyTab
  · rw [if_pos tab, if_pos tab, moves]
    rfl
  · rw [if_neg tab, if_neg tab]
    rfl

/-! ### The bytes in front of the index -/

def front (m : Int → UInt8) (i : Int) : List UInt8 := (List.range i.toNat).map fun k : Nat => m k

theorem front_succ (m : Int → UInt8) (nonneg : 0 ≤ i) : front m (i + 1) = front m i ++ [m i] := by
  obtain ⟨n, rfl⟩ := Int.eq_ofNat_of_zero_le nonneg
  have next : ((n : Int) + 1).toNat = n + 1 := by omega
  simp [front, next, List.range_succ]

/-- A write at the index or behind it does not show. -/
theorem front_write {index : Int} (behind : i ≤ index) (value : UInt8) :
    front ((s.write .buffer index value).mem .buffer) i = front (s.mem .buffer) i := by
  apply List.map_congr_left
  intro k before
  rw [List.mem_range] at before
  have other : (k : Int) ≠ index := by omega
  simp [ShellState.write, other]

/-- Without a terminator in front of the index all of it is the line. -/
theorem lineOf_eq_front (plain : 0 ∉ front (s.mem .buffer) i) :
    lineOf (s.mem .buffer) i = front (s.mem .buffer) i := by
  rw [lineOf, ← front, List.takeWhile_eq_self_iff]
  intro c member
  have nonzero : c ≠ 0 := fun zero => plain (zero ▸ member)
  simpa using nonzero

/-- A line spells one text only. -/
theorem Spells.unique {m : Int → UInt8} {text other : List UInt8} (spells : Spells m text 0)
    (also : Spells m other 0) : text = other :=
  Memory.Spells.unique (m := fun k : Nat => m k) (fun x inside => spells.char x (Nat.zero_le x) inside)
    (fun x inside => also.char x (Nat.zero_le x) inside) spells.plain also.plain

theorem asTyped_iff (nonneg : 0 ≤ i) :
    AsTyped typed i s ↔ solid (lineOf (s.mem .buffer) i) = solid typed := by
  constructor
  · rintro ⟨text, spells, same⟩
    rw [← same, spells.unique (spells_lineOf s nonneg)]
  · intro same
    exact ⟨_, spells_lineOf s nonneg, same⟩

theorem solid_append (text rest : List UInt8) : solid (text ++ rest) = solid text ++ solid rest :=
  List.filter_append ..

/-- The line has no gaps, and the characters that were typed. -/
structure Sound (typed : List UInt8) (i : Int) (s : ShellState) : Prop where
  plain : 0 ∉ front (s.mem .buffer) i
  same : solid (front (s.mem .buffer) i) = solid typed

/-- A character that is stored at the index is the last one in front of the next. -/
theorem front_typed (nonneg : 0 ≤ i) (s : ShellState) (c : UInt8) :
    front ((s.write .buffer i c).mem .buffer) (i + 1) = front (s.mem .buffer) i ++ [c] := by
  rw [front_succ _ nonneg, front_write (Int.le_refl i)]
  simp [ShellState.write]

theorem Sound.append (sound : Sound typed i s) (nonneg : 0 ≤ i) {c : UInt8} (char : c ≠ 0) :
    Sound (typed ++ [c]) (i + 1) (s.write .buffer i c) := by
  constructor
  · rw [front_typed nonneg, List.mem_append, List.mem_singleton]
    rintro (before | here)
    · exact sound.plain before
    · exact char here.symm
  · rw [front_typed nonneg, solid_append, solid_append, sound.same]

/-- Typing one more character tells whether there is a gap. -/
theorem sound_iff (nonneg : 0 ≤ i) (room : i < 255) : KeepsTyped typed i s ↔ Sound typed i s := by
  constructor
  · rintro ⟨now, next⟩
    rw [asTyped_iff nonneg] at now
    -- with an `x` behind it, a line that a gap cuts short would stay as it is
    obtain ⟨i', t, ran, later⟩ := next 0x2D (.inr (by decide)) (by decide) (by decide)
    rw [run_character (by decide) (by decide) (by decide) (by decide) room] at ran
    cases ran
    rw [if_neg (by decide), asTyped_iff (by omega), lineOf, ← front, front_succ _ nonneg,
      front_write (Int.le_refl i), List.takeWhile_append] at later
    split at later
    · rename_i whole
      have line := (List.takeWhile_prefix _).eq_of_length whole
      refine ⟨fun zero => ?_, ?_⟩
      · rw [List.takeWhile_eq_self_iff] at line
        simpa using line 0 zero
      · rw [lineOf, ← front] at now
        rw [← now]
        exact congrArg solid line.symm
    · rw [lineOf, ← front] at now
      have grows := later.symm.trans now
      rw [edit, if_neg (by decide), solid_append] at grows
      exact absurd (List.append_right_eq_self.mp grows) (by decide)
  · intro sound
    refine ⟨?_, fun key edits noBackspace noTab => ?_⟩
    · rw [asTyped_iff nonneg, lineOf_eq_front sound.plain, sound.same]
    · obtain ⟨char, noEnter, noUp⟩ := edits.resolve_left noBackspace
      refine ⟨_, _, run_character char noBackspace noEnter noUp room s, ?_⟩
      have typed : Sound (typed ++ [toChar key]) (i + 1)
          ((s.emit (.char (toChar key))).write .buffer i (toChar key)) :=
        Sound.append (s := s.emit _) ⟨sound.plain, sound.same⟩ nonneg char
      rw [if_neg noTab, edit, if_neg noBackspace, asTyped_iff (by omega),
        lineOf_eq_front typed.plain, typed.same]

/-! ### Every key -/

theorem dropLast_append_toList (typed : List UInt8) :
    typed.dropLast ++ typed.getLast?.toList = typed := by
  rcases typed.eq_nil_or_concat with rfl | ⟨rest, c, rfl⟩ <;> simp

/-- BACKSPACE takes the last byte in front of the index. -/
theorem sound_backspace (sound : Sound typed i s) (after : 0 < i) :
    Sound typed.dropLast (i - 1) ((s.emit (.char 8)).write .buffer (i - 1) 0) ↔
      solid [s.mem .buffer (i - 1)] = solid typed.getLast?.toList := by
  have last := front_succ (s.mem .buffer) (show 0 ≤ i - 1 by omega)
  rw [Int.sub_add_cancel] at last
  have kept : front (((s.emit (.char 8)).write .buffer (i - 1) 0).mem .buffer) (i - 1) =
      front (s.mem .buffer) (i - 1) := front_write (Int.le_refl _) 0
  -- without blanks the line is its front and the character that is erased
  have split : solid (front (s.mem .buffer) (i - 1)) ++ solid [s.mem .buffer (i - 1)] =
      solid typed.dropLast ++ solid typed.getLast?.toList := by
    rw [← solid_append, ← solid_append, ← last, dropLast_append_toList, sound.same]
  constructor
  · rintro ⟨-, same⟩
    rw [kept] at same
    rw [same] at split
    exact List.append_cancel_left split
  · intro erased
    rw [erased] at split
    refine ⟨fun zero => sound.plain ?_, ?_⟩
    · rw [kept] at zero
      rw [last]
      exact List.mem_append_left _ zero
    · rw [kept]
      exact List.append_cancel_right split

theorem front_tab (nonneg : 0 ≤ i) (s : ShellState) (c : UInt8) :
    front ((s.write .buffer i c).mem .buffer) (i + 4) =
      front (s.mem .buffer) i ++ [c] ++ gap s i := by
  have places : i + 4 = i + 1 + 1 + 1 + 1 := by omega
  have unwritten : ∀ d : Int, 0 < d → (s.write .buffer i c).mem .buffer (i + d) =
      s.mem .buffer (i + d) := by
    intro d behind
    have other : i + d ≠ i := by omega
    simp [ShellState.write, other]
  rw [places, front_succ _ (by omega), front_succ _ (by omega), front_succ _ (by omega),
    front_typed nonneg]
  simp [gap, Int.add_assoc, unwritten]

theorem sound_tab (sound : Sound typed i s) (nonneg : 0 ≤ i) :
    Sound (typed ++ [tabChar]) (i + 4) (s.write .buffer i tabChar) ↔
      ∀ b ∈ gap s i, isBlank b = true := by
  have written := sound.append nonneg (show tabChar ≠ 0 by decide)
  have plain := written.plain
  have same := written.same
  rw [front_typed nonneg] at plain same
  -- the tab itself is blank, so only what was in the gap can show
  constructor
  · rintro ⟨plain', same'⟩ b member
    rw [front_tab nonneg, solid_append, same, List.append_right_eq_self, solid,
      List.filter_eq_nil_iff] at same'
    simpa using same' b member
  · intro blanks
    refine ⟨?_, ?_⟩
    · rw [front_tab nonneg, List.mem_append]
      rintro (before | inGap)
      · exact plain before
      · exact absurd (blanks 0 inGap) (by decide)
    · rw [front_tab nonneg, solid_append, same, List.append_right_eq_self, solid,
        List.filter_eq_nil_iff]
      intro b member
      simp [blanks b member]

/-- A key keeps the line sound exactly if it is harmless. -/
theorem sound_step (edits : Edits key) (sound : Sound typed i s) (nonneg : 0 ≤ i) (room : i < 252) :
    ∃ i' t, (handleKey i key).run shellHandler s = some (i', t) ∧ 0 ≤ i' ∧
      (Sound (edit typed key) i' t ↔ Harmless key typed i s) := by
  by_cases back : key = keyBackspace
  · subst back
    rw [run_backspace, edit, if_pos rfl]
    by_cases first : i = 0
    · -- at the start of the line nothing is erased
      subst first
      refine ⟨0, s, if_pos rfl, Int.le_refl 0, ?_⟩
      have nothing : solid typed = [] := sound.same.symm
      have harmless : Harmless keyBackspace typed 0 s :=
        ⟨fun tab => absurd tab (by decide), fun _ after => absurd after (Int.lt_irrefl 0)⟩
      refine iff_of_true ⟨sound.plain, ?_⟩ harmless
      rw [← dropLast_append_toList typed, solid_append, List.append_eq_nil_iff] at nothing
      exact nothing.1.symm
    · have after : 0 < i := by omega
      refine ⟨_, _, if_neg first, by omega, ?_⟩
      rw [sound_backspace sound after]
      have noTab : keyBackspace ≠ keyTab := by decide
      simp [Harmless, noTab, after]
  · obtain ⟨char, noEnter, noUp⟩ := edits.resolve_left back
    refine ⟨_, _, run_character char back noEnter noUp (by omega) s, ?_⟩
    have printed : Sound typed i (s.emit (.char (toChar key))) := ⟨sound.plain, sound.same⟩
    rw [edit, if_neg back]
    by_cases tab : key = keyTab
    · subst tab
      rw [if_pos rfl, show toChar keyTab = tabChar from rfl]
      refine ⟨by omega, (sound_tab (s := s.emit _) printed nonneg).trans ?_⟩
      exact ⟨fun blanks => ⟨fun _ => blanks, fun isBack => absurd isBack back⟩,
        fun harmless => harmless.1 rfl⟩
    · rw [if_neg tab]
      refine ⟨by omega, iff_of_true (printed.append nonneg char) ?_⟩
      exact ⟨fun isTab => absurd isTab tab, fun isBack => absurd isBack back⟩

/-! ### All keys -/

theorem Throughout.now {P : List UInt8 → Int → ShellState → Prop} {keys : List UInt8}
    (throughout : Throughout P keys typed i s) : P typed i s := by
  cases keys with
  | nil => exact throughout
  | cons key keys => exact throughout.1

theorem keepsTyped_run (keys : List UInt8) (edits : ∀ key ∈ keys, Edits key)
    (fits : Throughout LineFits keys typed i s) (sound : Sound typed i s) (nonneg : 0 ≤ i) :
    Throughout KeepsTyped keys typed i s ↔ Along Harmless keys typed i s := by
  have room : i < 252 := fits.now
  have keeps : KeepsTyped typed i s := (sound_iff nonneg (by omega)).mpr sound
  induction keys generalizing typed i s with
  | nil => exact iff_of_true keeps trivial
  | cons key keys ih =>
    obtain ⟨-, i', t, ran, fits⟩ := fits
    obtain ⟨j, u, same, nonneg', preserved⟩ :=
      sound_step (edits key List.mem_cons_self) sound nonneg room
    obtain ⟨rfl, rfl⟩ : i' = j ∧ t = u := by simpa [ran] using same
    have room' : i' < 252 := fits.now
    have edits' : ∀ key ∈ keys, Edits key := fun key member =>
      edits key (List.mem_cons_of_mem _ member)
    -- both sides go on from the same state, in which the line is sound if this key did no harm
    constructor
    · rintro ⟨-, j, u, same, throughout⟩
      obtain ⟨rfl, rfl⟩ : i' = j ∧ t = u := by simpa [ran] using same
      have sound' := (sound_iff nonneg' (by omega)).mp throughout.now
      refine ⟨preserved.mp sound', i', t, ran, ?_⟩
      exact (ih edits' fits sound' nonneg' room' throughout.now).mp throughout
    · rintro ⟨harmless, j, u, same, along⟩
      obtain ⟨rfl, rfl⟩ : i' = j ∧ t = u := by simpa [ran] using same
      have sound' := preserved.mpr harmless
      have keeps' := (sound_iff nonneg' (by omega)).mpr sound'
      exact ⟨keeps, i', t, ran, (ih edits' fits sound' nonneg' room' keeps').mpr along⟩

/-- For all keys that edit a line that fits, whatever earlier lines left: what is typed is what ENTER
takes apart, also if one more character follows, exactly as long as every key is harmless. -/
theorem typed_is_executed_iff (keys : List UInt8) (s : ShellState) (edits : ∀ key ∈ keys, Edits key)
    (fits : Throughout LineFits keys [] 0 s) :
    Throughout KeepsTyped keys [] 0 s ↔ Along Harmless keys [] 0 s :=
  keepsTyped_run keys edits fits ⟨by simp [front], by simp [front]⟩ (Int.le_refl 0)

/-- The keys `a`, SPACE, `b` and BACKSPACE. -/
theorem typed_is_executed_erased : Throughout KeepsTyped [0x1E, 0x39, 0x30, 0x0E] [] 0 start := by
  refine (typed_is_executed_iff [0x1E, 0x39, 0x30, 0x0E] start ?_ ?_).mpr ?_
  · simp only [List.mem_cons, List.not_mem_nil, or_false]
    rintro key (rfl | rfl | rfl | rfl)
    iterate 3 exact .inr (by decide)
    exact .inl rfl
  · exact ⟨by decide, 1, _, rfl, by decide, 2, _, rfl, by decide, 3, _, rfl, by decide, 2, _, rfl,
      (by decide : (2 : Int) < 252)⟩
  · refine ⟨⟨by decide, by decide⟩, 1, _, rfl, ⟨by decide, by decide⟩, 2, _, rfl,
      ⟨by decide, by decide⟩, 3, _, rfl, ⟨by decide, fun _ _ => by decide⟩, 2, _, rfl, trivial⟩

/-- Behind TAB the line ends: of `a`, TAB and `b` only `a` is taken apart. -/
theorem tab_hides_typed : ¬∀ (keys : List UInt8) (s : ShellState), (∀ key ∈ keys, Edits key) →
    Throughout LineFits keys [] 0 s → Throughout AsTyped keys [] 0 s := by
  intro typed
  have edits : ∀ key ∈ ([0x1E, 0x0F, 0x30] : List UInt8), Edits key := by
    simp only [List.mem_cons, List.not_mem_nil, or_false]
    rintro key (rfl | rfl | rfl) <;> exact .inr (by decide)
  have fits : Throughout LineFits [0x1E, 0x0F, 0x30] [] 0 start :=
    ⟨by decide, 1, _, rfl, by decide, 5, _, rfl, by decide, 6, _, rfl, (by decide : (6 : Int) < 252)⟩
  obtain ⟨-, _, _, ran, -, _, _, ran', -, _, _, ran'', asTyped⟩ := typed _ start edits fits
  cases ran
  cases ran'
  cases ran''
  exact absurd ((asTyped_iff (by decide)).mp asTyped) (by decide)

end KopalniaOS.Shell
