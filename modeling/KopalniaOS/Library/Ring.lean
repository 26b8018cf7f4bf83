import Mathlib.Data.List.Basic
import Mathlib.Logic.Function.Basic

/-!
# Rings of slots

Items are numbered in the order they are written, and item number `t` goes to slot `t % M` of
a ring of `M` slots. A reader that is at most `M` items behind finds the items it has not read
yet. Where the two sides share no index, each slot carries a tag, and a writer changes the tag
it writes from lap to lap: the tag then tells the reader whether a slot has its next item.
-/
namespace KopalniaOS.Library

variable {α β : Type}

/-! ### The latest items -/

/-- The slots hold the latest `M` of the items that were written. -/
def Latest (M : Nat) (items : List α) (slot : Nat → α) : Prop :=
  ∀ t a, items[t]? = some a → items.length ≤ t + M → slot (t % M) = a

theorem latest_nil (M : Nat) (slot : Nat → α) : Latest M [] slot :=
  fun _ _ written => by cases written

/-- Two items less than a lap apart do not share a slot. -/
theorem slot_ne {M s t : Nat} (before : s < t) (near : t < s + M) : s % M ≠ t % M := by
  intro same
  have split := Nat.div_add_mod s M
  have split' := Nat.div_add_mod t M
  have laps : s / M < t / M := by
    by_contra notLater
    have equal : s / M = t / M :=
      Nat.le_antisymm (Nat.div_le_div_right (Nat.le_of_lt before)) (Nat.not_lt.mp notLater)
    rw [equal, same] at split
    omega
  have lap : M * (s / M + 1) ≤ M * (t / M) := Nat.mul_le_mul_left M laps
  rw [Nat.mul_add, Nat.mul_one] at lap
  omega

/-- Writing the next item keeps the slots in step. -/
theorem Latest.write {M : Nat} {items : List α} {slot : Nat → α} (latest : Latest M items slot)
    (a : α) : Latest M (items ++ [a]) (Function.update slot (items.length % M) a) := by
  intro t b written near
  rw [List.length_append, List.length_singleton] at near
  by_cases old : t < items.length
  · rw [List.getElem?_append_left old] at written
    rw [Function.update_of_ne (slot_ne old (by omega))]
    exact latest t b written (by omega)
  · rw [List.getElem?_append_right (Nat.not_lt.mp old)] at written
    obtain rfl : t = items.length := by
      have := (List.getElem?_eq_some_iff.mp written).1
      rw [List.length_singleton] at this
      omega
    simp only [Nat.sub_self, List.getElem?_cons_zero, Option.some.injEq] at written
    rw [Function.update_self, written]

/-! ### Cursors -/

/-- The tag that item number `t` is written with: set on the first lap. -/
def lapBit (M t : Nat) : Bool := t / M % 2 == 0

/-- What either side of a ring remembers of its place. -/
structure Cursor where
  index : Nat
  bit : Bool
deriving DecidableEq, Repr

/-- The place of a side that has `t` items behind it. -/
def Cursor.at (M t : Nat) : Cursor := ⟨t % M, lapBit M t⟩

/-- One slot on; the tag changes when the index wraps. -/
def Cursor.next (M : Nat) (c : Cursor) : Cursor :=
  if c.index + 1 = M then ⟨0, !c.bit⟩ else ⟨c.index + 1, c.bit⟩

theorem cursor_zero (M : Nat) : Cursor.at M 0 = ⟨0, true⟩ := by
  simp [Cursor.at, lapBit]

/-- Laps alternate. -/
theorem succ_even (n : Nat) : ((n + 1) % 2 == 0) = !(n % 2 == 0) := by
  rcases Nat.mod_two_eq_zero_or_one n with even | odd
  · rw [even, show (n + 1) % 2 = 1 by omega]
    rfl
  · rw [odd, show (n + 1) % 2 = 0 by omega]
    rfl

theorem lapBit_add (M t : Nat) (pos : 0 < M) : lapBit M (t + M) = !lapBit M t := by
  unfold lapBit
  rw [Nat.add_div_right t pos]
  exact succ_even (t / M)

theorem lapBit_of_lt {M t : Nat} (first : t < M) : lapBit M t = true := by
  simp [lapBit, Nat.div_eq_of_lt first]

/-- The next item starts a lap or stays in it. -/
theorem succ_lap {M : Nat} (pos : 0 < M) (t : Nat) :
    (t % M + 1 = M ∧ (t + 1) % M = 0 ∧ (t + 1) / M = t / M + 1) ∨
      (t % M + 1 < M ∧ (t + 1) % M = t % M + 1 ∧ (t + 1) / M = t / M) := by
  have split : t % M + t / M * M = t := by
    rw [Nat.mul_comm]
    exact Nat.mod_add_div t M
  have small := Nat.mod_lt t pos
  -- either the lap ends here or the index goes on by one
  by_cases wraps : t % M + 1 = M
  · left
    have next : t + 1 = 0 + (t / M + 1) * M := by
      rw [Nat.add_mul, Nat.one_mul]
      omega
    refine ⟨wraps, ?_, ?_⟩
    · rw [next, Nat.add_mul_mod_self_right, Nat.zero_mod]
    · rw [next, Nat.add_mul_div_right _ _ pos, Nat.zero_div, Nat.zero_add]
  · right
    have low : t % M + 1 < M := by omega
    have next : t + 1 = t % M + 1 + t / M * M := by omega
    have index : (t % M + 1 + t / M * M) % M = t % M + 1 := by
      rw [Nat.add_mul_mod_self_right, Nat.mod_eq_of_lt low]
    have lap : (t % M + 1 + t / M * M) / M = t / M := by
      rw [Nat.add_mul_div_right _ _ pos, Nat.div_eq_of_lt low, Nat.zero_add]
    exact ⟨low, next ▸ index, next ▸ lap⟩

theorem cursor_next {M : Nat} (pos : 0 < M) (t : Nat) :
    (Cursor.at M t).next M = Cursor.at M (t + 1) := by
  unfold Cursor.next Cursor.at lapBit
  rcases succ_lap pos t with ⟨wraps, index, lap⟩ | ⟨inside, index, lap⟩
  · simp only [if_pos wraps, index, lap, succ_even]
  · simp only [if_neg (Nat.ne_of_lt inside), index, lap]

/-! ### Tagged rings -/

/-- The slots of a tagged ring after `items` were written into zeroed memory. -/
structure Laps (M : Nat) (tag : β → Bool) (body : β → α) (items : List α) (slot : Nat → β) :
    Prop where
  latest : Latest M items (body ∘ slot)
  tagged : ∀ t, t < items.length → items.length ≤ t + M → tag (slot (t % M)) = lapBit M t
  fresh : ∀ s, items.length ≤ s → s < M → tag (slot s) = false

namespace Laps

variable {M : Nat} {tag : β → Bool} {body : β → α} {items : List α} {slot : Nat → β}

theorem empty (zero : ∀ s, s < M → tag (slot s) = false) : Laps M tag body [] slot where
  latest := latest_nil M _
  tagged := fun t written => (Nat.not_lt_zero t written).elim
  fresh := fun s _ inside => zero s inside

theorem write (laps : Laps M tag body items slot) (b : β)
    (stamp : tag b = lapBit M items.length) :
    Laps M tag body (items ++ [body b]) (Function.update slot (items.length % M) b) where
  latest := by
    have written := laps.latest.write (body b)
    intro t a found near
    have same := written t a found near
    -- only the slot of the new item changes, and no other recent item is there
    by_cases here : t % M = items.length % M
    · rw [here, Function.update_self] at same
      rw [Function.comp_apply, here, Function.update_self]
      exact same
    · rw [Function.update_of_ne here] at same
      rw [Function.comp_apply, Function.update_of_ne here]
      exact same
  tagged := by
    intro t written near
    rw [List.length_append, List.length_singleton] at written near
    by_cases last : t = items.length
    · rw [last, Function.update_self, stamp]
    · have older : t < items.length := by omega
      rw [Function.update_of_ne (slot_ne older (by omega))]
      exact laps.tagged t older (by omega)
  fresh := by
    intro s unwritten inside
    rw [List.length_append, List.length_singleton] at unwritten
    have elsewhere : s ≠ items.length % M := by
      rw [Nat.mod_eq_of_lt (by omega)]
      omega
    rw [Function.update_of_ne elsewhere]
    exact laps.fresh s (by omega) inside

theorem congr {slot' : Nat → β} (laps : Laps M tag body items slot) (pos : 0 < M)
    (same : ∀ s, s < M → slot' s = slot s) : Laps M tag body items slot' where
  latest := fun t a written near => by
    rw [Function.comp_apply, same _ (Nat.mod_lt t pos)]
    exact laps.latest t a written near
  tagged := fun t written near => by
    rw [same _ (Nat.mod_lt t pos)]
    exact laps.tagged t written near
  fresh := fun s unwritten inside => by
    rw [same s inside]
    exact laps.fresh s unwritten inside

/-- The slot of a reader that has `c` items behind it carries the reader's own tag exactly when
there is an item it has not read. -/
theorem tag_iff (laps : Laps M tag body items slot) (pos : 0 < M) {c : Nat}
    (behind : c ≤ items.length) (near : items.length ≤ c + M) :
    tag (slot (c % M)) = lapBit M c ↔ c < items.length := by
  constructor
  · intro own
    by_contra done
    have all : c = items.length := Nat.le_antisymm behind (Nat.not_lt.mp done)
    by_cases first : c < M
    · -- on the first lap the slot was never written
      have blank := laps.fresh c (by omega) first
      rw [Nat.mod_eq_of_lt first, blank, lapBit_of_lt first] at own
      cases own
    · -- later it still has the tag of the lap before
      obtain ⟨t, rfl⟩ : ∃ t, c = t + M := ⟨c - M, by omega⟩
      have before := laps.tagged t (by omega) (by omega)
      rw [Nat.add_mod_right, before, lapBit_add M t pos] at own
      cases bit : lapBit M t <;> rw [bit] at own <;> cases own
  · intro more
    exact laps.tagged c more near

/-- What a reader finds in the slot of an item it has not read. -/
theorem read (laps : Laps M tag body items slot) {c : Nat} {a : α} (written : items[c]? = some a)
    (near : items.length ≤ c + M) : body (slot (c % M)) = a :=
  laps.latest c a written near

end Laps

end KopalniaOS.Library
