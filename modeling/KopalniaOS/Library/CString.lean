import KopalniaOS.Library.ByteMemory

/-!
# Text with a terminator

A C string by its bytes in front of the terminator, and what a buffer holds after text was
written into it.
-/
namespace KopalniaOS.Library

/-- Text without a terminator in it, short enough that an `int` can be an index into it. -/
structure CString where
  text : List UInt8
  plain : ∀ c ∈ text, c ≠ 0
  counted : text.length < 2 ^ 31 - 1

/-- Reading at the end gives the terminator. -/
def CString.at (s : CString) (index : Nat) : UInt8 := s.text.getD index 0

theorem CString.at_eq (s : CString) (i : Nat) : s.at i = (s.text.drop i).headD 0 := by
  simp [CString.at, List.headD_eq_head?_getD]

theorem CString.drop_eq (s : CString) {i : Nat} (inside : i < s.text.length) :
    s.text.drop i = s.at i :: s.text.drop (i + 1) := by
  rw [List.drop_eq_getElem_cons inside, CString.at]
  simp [inside]

theorem CString.at_eq_zero_iff (s : CString) {i : Nat} (inside : i ≤ s.text.length) :
    s.at i = 0 ↔ i = s.text.length := by
  rcases Nat.eq_or_lt_of_le inside with last | before
  · simp [CString.at, last]
  · have plain := s.plain s.text[i] (List.getElem_mem before)
    simp [CString.at, before, plain, Nat.ne_of_lt before]

/-- In front of the end there is a further character. -/
theorem CString.lt_length (s : CString) {i : Nat} (inside : i ≤ s.text.length) (more : s.at i ≠ 0) :
    i < s.text.length :=
  Nat.lt_of_le_of_ne inside fun last => more ((s.at_eq_zero_iff inside).mpr last)

namespace Memory

/-- The buffer starts with this text, and then a terminator. -/
def Spells (m : Memory) (text : List UInt8) : Prop :=
  ∀ x ≤ text.length, m x = text.getD x 0

/-- The buffer with these bytes from `k` on. -/
def splice (m : Memory) (k : Nat) (bytes : List UInt8) : Memory := fun x =>
  if k ≤ x then bytes[x - k]?.getD (m x) else m x

variable {m : Memory} {k : Nat}

@[simp] theorem splice_nil (m : Memory) (k : Nat) : m.splice k [] = m := by
  funext x
  simp [splice]

theorem splice_update (m : Memory) (k : Nat) (c : UInt8) (rest : List UInt8) :
    splice (Function.update m k c) (k + 1) rest = m.splice k (c :: rest) := by
  funext x
  rcases Nat.lt_trichotomy x k with before | rfl | behind
  · simp [splice, Nat.not_le.mpr before, Nat.not_le.mpr (Nat.lt_succ_of_lt before),
      Nat.ne_of_lt before]
  · simp [splice, Nat.not_succ_le_self x]
  · obtain ⟨d, rfl⟩ := Nat.exists_eq_add_of_lt behind
    have from_next : k + d + 1 - (k + 1) = d := by omega
    have from_k : k + d + 1 - k = d + 1 := by omega
    have other : k + d + 1 ≠ k := by omega
    simp [splice, from_next, from_k, other, Nat.le_of_lt behind]

/-- Text written behind other text. -/
theorem splice_splice (m : Memory) (k : Nat) (text rest : List UInt8) :
    (m.splice k text).splice (k + text.length) rest = m.splice k (text ++ rest) := by
  induction text generalizing m k with
  | nil => simp
  | cons c text ih =>
    rw [← splice_update m k c text, List.length_cons, Nat.add_comm text.length 1, ← Nat.add_assoc,
      ih, List.cons_append, ← splice_update]

theorem splice_singleton (m : Memory) (k : Nat) (c : UInt8) :
    m.splice k [c] = Function.update m k c := by
  rw [← splice_update, splice_nil]

theorem splice_inside {bytes : List UInt8} {x : Nat} (inside : x < bytes.length) :
    m.splice 0 bytes x = bytes[x] := by
  simp [splice, inside]

theorem splice_outside {bytes : List UInt8} {x : Nat} (outside : bytes.length ≤ x) :
    m.splice 0 bytes x = m x := by
  simp [splice, List.getElem?_eq_none outside]

/-- What was written with its terminator is there. -/
theorem spells_splice (m : Memory) (text : List UInt8) : (m.splice 0 (text ++ [0])).Spells text := by
  intro x inside
  rw [splice_inside (by simpa using Nat.lt_succ_of_le inside)]
  rcases Nat.eq_or_lt_of_le inside with last | before
  · simp [last]
  · simp [List.getElem_append_left before, before]

/-- A buffer spells one text only. -/
theorem Spells.unique {text other : List UInt8} (spells : m.Spells text) (also : m.Spells other)
    (plain : ∀ c ∈ text, c ≠ 0) (plain' : ∀ c ∈ other, c ≠ 0) : text = other := by
  have ordered : ∀ {text other : List UInt8}, m.Spells text → m.Spells other →
      (∀ c ∈ other, c ≠ 0) → other.length ≤ text.length := by
    intro text other spells also plain
    by_contra longer
    have inside : text.length < other.length := Nat.lt_of_not_le longer
    have ended := spells text.length (Nat.le_refl _)
    rw [also _ (Nat.le_of_lt inside)] at ended
    simp [inside] at ended
    exact plain _ (List.getElem_mem inside) ended
  have length : text.length = other.length :=
    Nat.le_antisymm (ordered also spells plain) (ordered spells also plain')
  refine List.ext_getElem length fun x inside inside' => ?_
  have here := spells x (Nat.le_of_lt inside)
  rw [also x (Nat.le_of_lt inside')] at here
  simpa [inside, inside'] using here.symm

end Memory

end KopalniaOS.Library
