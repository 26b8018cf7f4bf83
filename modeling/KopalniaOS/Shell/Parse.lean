import KopalniaOS.Library.CString
import KopalniaOS.Library.Runs
import KopalniaOS.Shell.Model

/-!
# Splitting the line

What each loop over the line reads, writes and finds. Three of them go over the same text: one
copies the first word, one notes where words start, and one ends them.
-/
namespace KopalniaOS.Shell

open Library Stdlib

/-- The three objects have 256 bytes, and `args` has 32 entries. -/
def InBounds : ShellOp → ShellState → Prop
  | .store _ index _, _ => 0 ≤ index ∧ index ≤ 255
  | .storeArg argc _, _ => argc < 32
  | _, _ => True

abbrev Stays {α : Type} (p : ShellProgram α) (s : ShellState) : Prop :=
  p.All shellHandler InBounds s

/-- A part that returns and stays in bounds, whatever the rest does. -/
abbrev Fine {α : Type} (p : ShellProgram α) (s : ShellState) (post : α → ShellState → Prop) : Prop :=
  p.Meets shellHandler ⟨fun _ _ => True, InBounds, False⟩ s post

variable {α β : Type} {s : ShellState}

/-- No operation of the shell fails. -/
theorem shellHandler_some (o : ShellOp) (s : ShellState) : ∃ r, shellHandler o s = some r := by
  cases o <;> exact ⟨_, rfl⟩

theorem fine_perform {o : ShellOp} {f : o.Answer → ShellProgram α} {post : α → ShellState → Prop}
    (inside : InBounds o s) (next : ∀ r, shellHandler o s = some r → Fine (f r.1) r.2 post) :
    Fine (perform o >>= f) s post := by
  intro _
  refine ⟨inside, fun fails => ?_, next⟩
  obtain ⟨r, answer⟩ := shellHandler_some o s
  rw [answer] at fails
  cases fails

/-- For a part whose operations nothing depends on. -/
theorem fine_any {o : ShellOp} {f : o.Answer → ShellProgram α} {post : α → ShellState → Prop}
    (inside : InBounds o s) (next : ∀ r t, Fine (f r) t post) : Fine (perform o >>= f) s post :=
  fine_perform inside fun r _ => next r.1 r.2

theorem fine_load {o : Object} {index : Int} {f : UInt8 → ShellProgram α}
    {post : α → ShellState → Prop} (next : Fine (f (s.mem o index)) s post) :
    Fine (load o index >>= f) s post := by
  refine fine_perform (o := .load o index) trivial ?_
  rintro r answer
  cases answer
  exact next

theorem stays_load {o : Object} {index : Int} {f : UInt8 → ShellProgram α} :
    Stays (load o index >>= f) s ↔ Stays (f (s.mem o index)) s := by
  rw [Stays, load, perform, Program.all_perform_bind]
  simp [InBounds, shellHandler]

theorem fine_store {o : Object} {index : Int} {value : UInt8} {f : Unit → ShellProgram α}
    {post : α → ShellState → Prop} (inside : 0 ≤ index ∧ index ≤ 255)
    (next : Fine (f ()) (s.write o index value) post) :
    Fine (store o index value >>= f) s post := by
  refine fine_perform (o := .store o index value) inside ?_
  rintro r answer
  cases answer
  exact next

theorem fine_bind {p : ShellProgram α} {f : α → ShellProgram β} {post : α → ShellState → Prop}
    {post' : β → ShellState → Prop} (first : Fine p s post)
    (next : ∀ a t, post a t → Fine (f a) t post') : Fine (p >>= f) s post' :=
  (Program.meets_bind p f s post').mpr (first.mono next)

theorem Fine.stays {p : ShellProgram α} {post : α → ShellState → Prop} (fine : Fine p s post) :
    Stays p s :=
  Program.Ensures.all fine

theorem Fine.returns {p : ShellProgram α} {post : α → ShellState → Prop} (fine : Fine p s post) :
    ∃ a t, p.run shellHandler s = some (a, t) ∧ post a t :=
  Program.Ensures.returns fine

theorem Stays.next {o : ShellOp} {f : o.Answer → ShellProgram α} (stays : Stays (perform o >>= f) s)
    {r : o.Answer × ShellState} (answer : shellHandler o s = some r) : Stays (f r.1) r.2 :=
  ((Program.all_perform_bind o f s).mp stays).2 r answer

/-- What follows a part that is fine. -/
theorem Stays.after {p : ShellProgram α} {f : α → ShellProgram β} (stays : Stays (p >>= f) s)
    {post : α → ShellState → Prop} (fine : Fine p s post) : ∃ a t, post a t ∧ Stays (f a) t := by
  obtain ⟨a, t, ran, holds⟩ := fine.returns
  exact ⟨a, t, holds, ((Program.all_bind p f s).mp stays).2 a t ran⟩

/-! ### Text in memory -/

/-- From `k` on the memory has this text, and then a terminator. -/
structure Spells (m : Int → UInt8) (text : List UInt8) (k : Nat) : Prop where
  char : ∀ x, k ≤ x → x ≤ text.length → m x = text.getD x 0
  plain : ∀ c ∈ text, c ≠ 0

/-- The text that the line has when it is ended at `i`. -/
def lineOf (m : Int → UInt8) (i : Int) : List UInt8 :=
  ((List.range i.toNat).map fun k : Nat => m k).takeWhile (· ≠ 0)

variable {text : List UInt8} {k : Nat}

theorem Spells.mono (spells : Spells (s.mem .buffer) text k) {k' : Nat} (later : k ≤ k') :
    Spells (s.mem .buffer) text k' :=
  ⟨fun x from_k => spells.char x (Nat.le_trans later from_k), spells.plain⟩

/-- What a loop finds at an index: the terminator at the end, and a character before. -/
theorem Spells.char_eq_zero (spells : Spells (s.mem .buffer) text k) (inside : k ≤ text.length) :
    s.mem .buffer k = 0 ↔ k = text.length := by
  rw [spells.char k (Nat.le_refl k) inside]
  rcases Nat.eq_or_lt_of_le inside with last | before
  · simp [last]
  · have plain := spells.plain text[k] (List.getElem_mem before)
    simp [List.getElem?_eq_getElem before, plain, Nat.ne_of_lt before]

/-- Before the terminator there is a further character. -/
theorem Spells.lt_length (spells : Spells (s.mem .buffer) text k) (inside : k ≤ text.length)
    (more : ¬s.mem .buffer k = 0) : k < text.length :=
  Nat.lt_of_le_of_ne inside fun last => more ((spells.char_eq_zero inside).mpr last)

theorem Spells.drop (spells : Spells (s.mem .buffer) text k) (before : k < text.length) :
    text.drop k = s.mem .buffer k :: text.drop (k + 1) := by
  rw [List.drop_eq_getElem_cons before, spells.char k (Nat.le_refl k) (Nat.le_of_lt before)]
  simp [List.getElem?_eq_getElem before]

/-- A write to the line leaves the text behind it alone. -/
theorem Spells.behind (spells : Spells (s.mem .buffer) text k) (value : UInt8) :
    Spells ((s.write .buffer k value).mem .buffer) text (k + 1) := by
  refine ⟨fun x later inside => ?_, spells.plain⟩
  have other : (x : Int) ≠ k := by omega
  rw [← spells.char x (Nat.le_of_succ_le later) inside]
  simp [ShellState.write, other]

/-! ### Accesses to a line with `n` characters -/

/-- The line is only accessed up to its terminator, and the rest as in `InBounds`. -/
def InText (n : Nat) : ShellOp → ShellState → Prop
  | .load .buffer index, _ => 0 ≤ index ∧ index ≤ n
  | .store .buffer index _, _ => 0 ≤ index ∧ index ≤ n
  | .store _ index _, _ => 0 ≤ index ∧ index ≤ 255
  | .storeArg argc _, _ => argc < 32
  | _, _ => True

/-- A part that returns and stays in the text. -/
abbrev Parses {α : Type} (n : Nat) (p : ShellProgram α) (s : ShellState)
    (post : α → ShellState → Prop) : Prop :=
  p.Ensures shellHandler (InText n) s post

theorem InText.inBounds {n : Nat} (short : n ≤ 255) {o : ShellOp} {s : ShellState}
    (inText : InText n o s) : InBounds o s := by
  cases o with
  | store o index value =>
    cases o with
    | buffer => exact ⟨inText.1, Int.le_trans inText.2 (by omega)⟩
    | commandName => exact inText
    | command => exact inText
  | storeArg argc index => exact inText
  | _ => trivial

theorem Parses.fine {n : Nat} (short : n ≤ 255) {p : ShellProgram α} {post : α → ShellState → Prop}
    (parses : Parses n p s post) : Fine p s post :=
  parses.weaken fun _ _ => InText.inBounds short

theorem parses_load {n k : Nat} (inside : k ≤ n) {f : UInt8 → ShellProgram α}
    {post : α → ShellState → Prop} (next : Parses n (f (s.mem .buffer k)) s post) :
    Parses n (load .buffer k >>= f) s post :=
  Program.ensures_perform rfl (show (0 : Int) ≤ k ∧ (k : Int) ≤ n by omega) next

theorem parses_store {n k : Nat} (inside : k ≤ n) {value : UInt8} {f : Unit → ShellProgram α}
    {post : α → ShellState → Prop} (next : Parses n (f ()) (s.write .buffer k value) post) :
    Parses n (store .buffer k value >>= f) s post :=
  Program.ensures_perform rfl (show (0 : Int) ≤ k ∧ (k : Int) ≤ n by omega) next

theorem parses_bind {n : Nat} {p : ShellProgram α} {f : α → ShellProgram β}
    {post : α → ShellState → Prop} {post' : β → ShellState → Prop} (first : Parses n p s post)
    (next : ∀ a t, post a t → Parses n (f a) t post') : Parses n (p >>= f) s post' :=
  Program.ensures_bind first next

/-! ### Scans -/

theorem parses_scan (cond : UInt8 → Bool) (stops : cond 0 = false) (left k : Nat)
    (spells : Spells (s.mem .buffer) text k) (inside : k ≤ text.length)
    (enough : text.length < k + left) :
    Parses text.length (scan cond left k) s fun k' t =>
      t = s ∧ k ≤ k' ∧ k' ≤ text.length ∧ text.drop k' = (text.drop k).dropWhile cond := by
  induction left generalizing k with
  | zero => omega
  | succ left ih =>
    rw [scan]
    apply parses_load inside
    -- the condition stops at the end of the text, so a character that passes is before it
    by_cases goes : cond (s.mem .buffer k) = true
    · have before : k < text.length := by
        apply spells.lt_length inside
        intro ended
        rw [ended, stops] at goes
        cases goes
      rw [if_pos goes]
      refine (ih (k + 1) (spells.mono (Nat.le_succ k)) before (by omega)).mono ?_
      rintro k' t ⟨rfl, later, inside', rest⟩
      refine ⟨rfl, by omega, inside', ?_⟩
      rw [rest, spells.drop before, List.dropWhile_cons_of_pos goes]
    · rw [if_neg goes]
      refine ⟨rfl, Nat.le_refl k, inside, ?_⟩
      rcases Nat.eq_or_lt_of_le inside with last | before
      · simp [last]
      · rw [spells.drop before, List.dropWhile_cons_of_neg goes]

/-- In a text without terminators a word ends at a space. -/
theorem dropWord_eq {l : List UInt8} (plain : ∀ c ∈ l, c ≠ 0) :
    l.dropWhile (fun c => c != 0 && c != space) = l.dropWhile fun c => !(c == space) := by
  induction l with
  | nil => rfl
  | cons c rest ih =>
    have nonzero := plain c (List.mem_cons_self ..)
    by_cases blank : c = space
    · simp [blank]
    · simp [nonzero, blank, ih fun d member => plain d (List.mem_cons_of_mem c member)]

variable (spells : Spells (s.mem .buffer) text k) (inside : k ≤ text.length)
  (short : text.length ≤ 255)

include spells inside short

theorem parses_skipBlanks :
    Parses text.length (skipBlanks k) s fun k' t =>
      t = s ∧ k ≤ k' ∧ k' ≤ text.length ∧
        text.drop k' = (text.drop k).dropWhile fun c => c == space :=
  parses_scan _ (by decide) turns k spells inside (by unfold turns; omega)

theorem parses_skipWord :
    Parses text.length (skipWord k) s fun k' t =>
      t = s ∧ k ≤ k' ∧ k' ≤ text.length ∧
        text.drop k' = (text.drop k).dropWhile fun c => !(c == space) := by
  have plain : ∀ c ∈ text.drop k, c ≠ 0 := fun c member =>
    spells.plain c (List.mem_of_mem_drop member)
  rw [← dropWord_eq plain]
  exact parses_scan _ (by decide) turns k spells inside (by unfold turns; omega)

/-- The check for the end of the line changes nothing: the end is not a space. -/
theorem parses_skipLeading :
    Parses text.length (skipLeading k) s fun k' t =>
      t = s ∧ k ≤ k' ∧ k' ≤ text.length ∧
        text.drop k' = (text.drop k).dropWhile fun c => c == space := by
  have cond : (fun c : UInt8 => c != 0 && c == space) = fun c => c == space := by
    funext c
    by_cases blank : c = space
    · simp [blank, space]
    · simp [blank]
  rw [skipLeading, cond]
  exact parses_scan _ (by decide) turns k spells inside (by unfold turns; omega)

omit spells inside short

/-! ### The words -/

/-- The words of a line. -/
abbrev wordsOf (text : List UInt8) : List (List UInt8) := runs (fun c => c == space) text

/-- A word of the text that starts at an index. -/
structure WordAt (text : List UInt8) (start : Nat) (word : List UInt8) : Prop where
  nonempty : word ≠ []
  solid : ∀ c ∈ word, c ≠ space
  here : ∃ rest, text.drop start = word ++ rest ∧ ∀ c, rest.head? = some c → c = space

/-- The characters up to the next blank. -/
abbrev firstWord (text : List UInt8) : List UInt8 := text.takeWhile fun c => !(c == space)

theorem firstWord_cons {c : UInt8} (solid : c ≠ space) (rest : List UInt8) :
    firstWord (c :: rest) = c :: firstWord rest :=
  List.takeWhile_cons_of_pos (by simpa using solid)

theorem firstWord_blank (rest : List UInt8) : firstWord (space :: rest) = [] := rfl

theorem firstWord_start (text : List UInt8) : firstWord text <+: text := List.takeWhile_prefix _

theorem wordsOf_space (rest : List UInt8) : wordsOf (space :: rest) = wordsOf rest :=
  @runs_cons_sep _ (fun c => c == space) space rfl rest

theorem wordsOf_cons {c : UInt8} (solid : c ≠ space) (rest : List UInt8) :
    wordsOf (c :: rest) =
      firstWord (c :: rest) :: wordsOf (rest.dropWhile fun c => !(c == space)) := by
  have inside : (c == space) = false := by simpa using solid
  rw [wordsOf, @runs_cons _ (fun c => c == space) c rest inside, List.dropWhile_cons_of_pos]
  simpa using solid

/-- From the first character of a word on. -/
theorem wordsOf_drop {k k' : Nat}
    (blanks : text.drop k' = (text.drop k).dropWhile fun c => c == space)
    (before : k' < text.length) :
    wordsOf (text.drop k) = firstWord (text.drop k') ::
        wordsOf ((text.drop k').dropWhile fun c => !(c == space)) ∧
      WordAt text k' (firstWord (text.drop k')) := by
  have cons := List.drop_eq_getElem_cons before
  -- what is behind the blanks does not start with one
  have solid : (text[k'] == space) = false := by
    have head := List.head?_dropWhile_not (fun c => c == space) (text.drop k)
    rw [← blanks, cons] at head
    simpa [before] using head
  have parts := List.takeWhile_append_dropWhile (p := fun c => !(c == space)) (l := text.drop k')
  refine ⟨?_, ?_, ?_, _, parts.symm, ?_⟩
  · rw [wordsOf, ← runs_dropWhile, ← blanks, cons]
    exact runs_cons _ solid
  · rw [cons, firstWord, List.takeWhile_cons_of_pos (by simp [solid])]
    exact List.cons_ne_nil _ _
  · intro c member
    simpa using List.mem_takeWhile_imp member
  · intro c head
    have stopped := List.head?_dropWhile_not (fun c => !(c == space)) (text.drop k')
    rw [head] at stopped
    simpa using stopped

/-- A word is not empty, so going over it moves the index. -/
theorem WordAt.lt_of_behind {k k' : Nat} (here : WordAt text k (firstWord (text.drop k)))
    (inside : k' ≤ text.length)
    (behind : text.drop k' = (text.drop k).dropWhile fun c => !(c == space)) : k < k' := by
  have parts : firstWord (text.drop k) ++ text.drop k' = text.drop k := by
    rw [behind]
    exact List.takeWhile_append_dropWhile
  have length := congrArg List.length parts
  have nonempty := List.length_pos_iff.mpr here.nonempty
  simp only [List.length_append, List.length_drop] at length
  omega

/-- Behind the last word there are only blanks. -/
theorem wordsOf_blank {k k' : Nat}
    (blanks : text.drop k' = (text.drop k).dropWhile fun c => c == space)
    (last : k' = text.length) : wordsOf (text.drop k) = [] := by
  rw [wordsOf, ← runs_dropWhile, ← blanks, last, List.drop_length, runs_nil]

/-- Every word gets an argument that points to it. -/
theorem parses_splitArgs (left k argc : Nat) (spells : Spells (s.mem .buffer) text k)
    (inside : k ≤ text.length) (short : text.length ≤ 255) (enough : text.length < k + left)
    (fits : argc + (wordsOf (text.drop k)).length ≤ 32) :
    Parses text.length (splitArgs left k argc) s fun argc' t =>
      argc' = argc + (wordsOf (text.drop k)).length ∧ t.mem = s.mem ∧
        (∀ j < argc, t.args j = s.args j) ∧
        ∀ j word, (wordsOf (text.drop k))[j]? = some word → WordAt text (t.args (argc + j)) word := by
  induction left generalizing k argc s with
  | zero => omega
  | succ left ih =>
    rw [splitArgs]
    apply parses_load inside
    split
    · rename_i last
      have ended := (spells.char_eq_zero inside).mp last
      have none : wordsOf (text.drop k) = [] := by
        rw [ended, List.drop_length, wordsOf, runs_nil]
      rw [none]
      exact ⟨rfl, rfl, fun _ _ => rfl, fun _ _ => nofun⟩
    · refine parses_bind (parses_skipBlanks spells inside short) ?_
      rintro k' t ⟨rfl, later, inside', blanks⟩
      have spells' := spells.mono later
      apply parses_load inside'
      split
      · rename_i last
        rw [wordsOf_blank blanks ((spells'.char_eq_zero inside').mp last)]
        exact ⟨rfl, rfl, fun _ _ => rfl, fun _ _ => nofun⟩
      · rename_i more
        have before := spells'.lt_length inside' more
        obtain ⟨first, here⟩ := wordsOf_drop blanks before
        rw [first, List.length_cons] at fits
        refine Program.ensures_perform rfl (show argc < 32 by omega) ?_
        refine parses_bind (parses_skipWord spells' inside' short) ?_
        rintro k'' u ⟨rfl, later', inside'', behind⟩
        rw [← behind] at first fits
        have moved := here.lt_of_behind inside'' behind
        refine (ih (s := { t with args := Function.update t.args argc k' }) k'' (argc + 1)
          (spells'.mono later') inside'' (by omega) (by omega)).mono ?_
        rintro argc' v ⟨rfl, same, earlier, rest⟩
        have own : v.args argc = k' := by
          rw [earlier argc (Nat.lt_succ_self argc)]
          exact Function.update_self ..
        -- the first word has its own argument, and the later words have those behind it
        rw [first]
        refine ⟨by simp; omega, same, fun j old => ?_, fun j word' found => ?_⟩
        · rw [earlier j (Nat.lt_succ_of_lt old)]
          exact Function.update_of_ne (Nat.ne_of_lt old) ..
        · cases j with
          | zero =>
            cases found
            rwa [Nat.add_zero, own]
          | succ j =>
            rw [← Nat.add_assoc, Nat.add_right_comm]
            exact rest j word' found

/-! ### Cutting the line -/

/-- What a scan that got from `k` to `k'` has seen. -/
theorem scanned {cond : UInt8 → Bool} {k k' : Nat} (later : k ≤ k') (inside : k' ≤ text.length)
    (rest : text.drop k' = (text.drop k).dropWhile cond) :
    (∀ x, k ≤ x → x < k' → ∃ c, text[x]? = some c ∧ cond c = true) ∧
      ∀ c, text[k']? = some c → cond c = false := by
  have parts := List.takeWhile_append_dropWhile (p := cond) (l := text.drop k)
  rw [← rest] at parts
  -- the scan has passed as many characters as the condition holds for
  have length : ((text.drop k).takeWhile cond).length = k' - k := by
    have total := congrArg List.length parts
    simp only [List.length_append, List.length_drop] at total
    omega
  constructor
  · intro x from_k before
    have within : x - k < ((text.drop k).takeWhile cond).length := by omega
    have here : text[x]? = some ((text.drop k).takeWhile cond)[x - k] := by
      have at_x : ((text.drop k).takeWhile cond ++ text.drop k')[x - k]? = _ :=
        List.getElem?_append_left within
      rw [parts, List.getElem?_drop, Nat.add_sub_cancel' from_k] at at_x
      rw [at_x, List.getElem?_eq_getElem within]
    exact ⟨_, here, List.mem_takeWhile_imp (List.getElem_mem within)⟩
  · intro c here
    have stopped := List.head?_dropWhile_not cond (text.drop k)
    rw [← rest, List.head?_drop, here] at stopped
    simpa using stopped

/-- The blanks that are overwritten from `k` on: the first of each row. -/
def Cut (text : List UInt8) (k x : Nat) : Prop :=
  k ≤ x ∧ text[x]? = some space ∧ (x = k ∨ text[x - 1]? ≠ some space)

instance (text : List UInt8) (k x : Nat) : Decidable (Cut text k x) :=
  inferInstanceAs (Decidable (_ ∧ _ ∧ _))

theorem cut_skip {k : Nat} (solid : text[k]? ≠ some space) (x : Nat) :
    Cut text (k + 1) x ↔ Cut text k x := by
  unfold Cut
  constructor
  · rintro ⟨later, blank, rfl | first⟩
    · exact ⟨Nat.le_succ k, blank, .inr solid⟩
    · exact ⟨Nat.le_of_succ_le later, blank, .inr first⟩
  · rintro ⟨later, blank, rfl | first⟩
    · exact (solid blank).elim
    · have other : x ≠ k := by
        rintro rfl
        exact solid blank
      exact ⟨by omega, blank, .inr first⟩

/-- A row of blanks from `k` to `k'`. -/
theorem cut_row {k k' : Nat} (later : k < k') (first : text[k]? = some space)
    (row : ∀ x, k + 1 ≤ x → x < k' → text[x]? = some space) (stop : text[k']? ≠ some space) {x : Nat}
    (other : x ≠ k) : Cut text k' x ↔ Cut text k x := by
  unfold Cut
  constructor
  · rintro ⟨from_k', blank, rfl | solid⟩
    · exact (stop blank).elim
    · exact ⟨by omega, blank, .inr solid⟩
  · rintro ⟨from_k, blank, rfl | solid⟩
    · exact (other rfl).elim
    · -- inside the row there is a blank in front
      have behind : k' ≤ x := by
        by_contra inRow
        rcases Nat.eq_or_lt_of_le (show k ≤ x - 1 by omega) with rfl | within
        · exact solid first
        · exact solid (row (x - 1) within (by omega))
      exact ⟨behind, blank, .inr solid⟩

/-- The first blank of a row is overwritten, and the loop goes on behind the row. -/
theorem cut_write {k k' : Nat} (later : k < k') (first : text[k]? = some space)
    (row : ∀ x, k + 1 ≤ x → x < k' → text[x]? = some space) (stop : text[k']? ≠ some space) (x : Nat) :
    (if Cut text k' x then 0 else (s.write .buffer k 0).mem .buffer x) =
      if Cut text k x then 0 else s.mem .buffer x := by
  by_cases here : x = k
  · have cut : Cut text k x := ⟨Nat.le_of_eq here.symm, here ▸ first, .inl here⟩
    have behind : ¬Cut text k' x := fun cut => by
      have := cut.1
      omega
    rw [if_pos cut, if_neg behind, here]
    simp [ShellState.write]
  · have other : (x : Int) ≠ k := by omega
    rw [if_congr (cut_row later first row stop here) rfl rfl]
    simp [ShellState.write, other]

theorem parses_terminate (left k : Nat) (spells : Spells (s.mem .buffer) text k)
    (inside : k ≤ text.length) (short : text.length ≤ 255) (enough : text.length < k + left) :
    Parses text.length (terminate left k) s fun _ t =>
      t.args = s.args ∧ (∀ o, o ≠ .buffer → t.mem o = s.mem o) ∧
        ∀ x : Nat, t.mem .buffer x = if Cut text k x then 0 else s.mem .buffer x := by
  induction left generalizing k s with
  | zero => omega
  | succ left ih =>
    rw [terminate]
    apply parses_load inside
    split
    · rename_i last
      have ended := (spells.char_eq_zero inside).mp last
      refine ⟨rfl, fun _ _ => rfl, fun x => ?_⟩
      have none : ¬Cut text k x := by
        rintro ⟨later, blank, -⟩
        rw [List.getElem?_eq_none (ended ▸ later)] at blank
        cases blank
      rw [if_neg none]
    · rename_i more
      have before := spells.lt_length inside more
      have char : text[k]? = some (s.mem .buffer k) := by
        have head := congrArg List.head? (spells.drop before)
        rwa [List.head?_drop] at head
      split
      · rename_i solid
        have noBlank : text[k]? ≠ some space := fun blank =>
          solid (Option.some.inj (char.symm.trans blank))
        have skip := cut_skip noBlank
        refine (ih (k + 1) (spells.mono (Nat.le_succ k)) before (by omega)).mono ?_
        rintro _ t ⟨args, others, line⟩
        refine ⟨args, others, fun x => ?_⟩
        rw [line, if_congr (skip x) rfl rfl]
      · rename_i blank
        rw [Classical.not_not.mp blank] at char
        apply parses_store (Nat.le_of_lt before)
        -- the blank is no longer there, but the loop is past it
        have ahead : Spells ((s.write .buffer k 0).mem .buffer) text (k + 1) := spells.behind 0
        refine parses_bind (parses_skipBlanks ahead before short) ?_
        rintro k' t ⟨rfl, later, inside', rest⟩
        obtain ⟨row, stop⟩ := scanned later inside' rest
        refine (ih k' (ahead.mono later) inside' (by omega)).mono ?_
        rintro _ u ⟨args, others, line⟩
        refine ⟨args, fun o other => (others o other).trans (Function.update_of_ne other ..),
          fun x => ?_⟩
        rw [line]
        refine cut_write later char (fun y from_k before => ?_) (fun found => ?_) x
        · obtain ⟨c, found, isBlank⟩ := row y from_k before
          rw [found, eq_of_beq isBlank]
        · simpa using stop _ found

end KopalniaOS.Shell
