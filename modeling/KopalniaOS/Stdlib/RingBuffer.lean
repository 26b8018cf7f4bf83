import KopalniaOS.Library.Ring

/-!
# `mem::Ring_Buffer`

An array with an index to write at and one to read from. One slot always stays free, so that
equal indices mean an empty buffer. Here `push` and `pop` run in one piece; where a `pop` can be
interrupted it is taken apart, and its steps use the facts about the indices.
-/
namespace KopalniaOS.Stdlib

open Library

structure RingBuffer (α : Type) where
  data : Nat → α
  head : Nat
  tail : Nat

namespace RingBuffer

variable {α : Type}

def push (size : Nat) (r : RingBuffer α) (value : α) : Bool × RingBuffer α :=
  let next := (r.head + 1) % size
  if next = r.tail then (false, r)
  else (true, { r with data := Function.update r.data r.head value, head := next })

/-- `out` stays as it is when the buffer is empty. -/
def pop (size : Nat) (r : RingBuffer α) (out : α) : Bool × α × RingBuffer α :=
  if r.tail = r.head then (false, out, r)
  else (true, r.data r.tail, { r with tail := (r.tail + 1) % size })

/-- How many slots a reader of the indices takes for used. -/
def count (size : Nat) (r : RingBuffer α) : Nat := (r.head + size - r.tail) % size

/-- What is waiting in the buffer, from the read index on. -/
def waiting (size : Nat) (r : RingBuffer α) : List α :=
  (List.range (r.count size)).map fun k => r.data ((r.tail + k) % size)

/-- The buffer after `items` were pushed and the first `taken` of them popped. -/
structure Holds (size : Nat) (items : List α) (taken : Nat) (r : RingBuffer α) : Prop where
  head : r.head = items.length % size
  tail : r.tail = taken % size
  behind : taken ≤ items.length
  room : items.length < taken + size
  latest : Latest size items r.data

variable {size taken : Nat} {items : List α} {r : RingBuffer α}

theorem Holds.pos (holds : Holds size items taken r) : 0 < size := by
  have behind := holds.behind
  have room := holds.room
  omega

theorem holds_empty (data : Nat → α) (pos : 0 < size) : Holds size [] 0 ⟨data, 0, 0⟩ where
  head := (Nat.zero_mod size).symm
  tail := (Nat.zero_mod size).symm
  behind := Nat.le_refl 0
  room := by simpa using pos
  latest := latest_nil size data

/-- Numbers less than a lap apart have the same slot only if they are the same. -/
theorem mod_inj {s t : Nat} (le : s ≤ t) (near : t < s + size) : s % size = t % size ↔ s = t := by
  constructor
  · intro same
    rcases Nat.eq_or_lt_of_le le with equal | before
    · exact equal
    · exact (slot_ne before near same).elim
  · rintro rfl
    rfl

/-- The indices are equal exactly when everything was popped. -/
theorem Holds.empty_iff (holds : Holds size items taken r) :
    r.tail = r.head ↔ taken = items.length := by
  rw [holds.head, holds.tail]
  exact mod_inj holds.behind holds.room

theorem Holds.count (holds : Holds size items taken r) :
    r.count size = items.length - taken := by
  obtain ⟨more, length⟩ := Nat.exists_eq_add_of_le holds.behind
  have room := holds.room
  have low := Nat.mod_lt taken holds.pos
  rw [RingBuffer.count, holds.head, holds.tail, length, Nat.add_sub_cancel_left]
  rw [length] at room
  have small : more < size := Nat.lt_of_add_lt_add_left room
  -- both indices on one lap, or the write index on the next one
  have split : (taken + more) % size = (taken % size + more) % size := by
    rw [Nat.add_mod, Nat.mod_eq_of_lt small]
  rw [split]
  by_cases wraps : taken % size + more < size
  · rw [Nat.mod_eq_of_lt wraps, show taken % size + more + size - taken % size = more + size by omega,
      Nat.add_mod_right, Nat.mod_eq_of_lt small]
  · have next : (taken % size + more) % size = taken % size + more - size := by
      rw [Nat.mod_eq_sub_mod (Nat.not_lt.mp wraps), Nat.mod_eq_of_lt (by omega)]
    rw [next, show taken % size + more - size + size - taken % size = more by omega,
      Nat.mod_eq_of_lt small]

theorem Holds.waiting (holds : Holds size items taken r) : r.waiting size = items.drop taken := by
  unfold RingBuffer.waiting
  rw [holds.count]
  refine List.ext_getElem (by simp) fun k inside inside' => ?_
  rw [List.length_drop] at inside'
  have room := holds.room
  rw [List.getElem_map, List.getElem_range, List.getElem_drop, holds.tail, Nat.mod_add_mod]
  exact holds.latest (taken + k) _ (List.getElem?_eq_getElem (by omega)) (by omega)

/-- The next item to pop is in the slot at the read index. -/
theorem Holds.read (holds : Holds size items taken r) {item : α}
    (next : items[taken]? = some item) : r.data r.tail = item := by
  rw [holds.tail]
  exact holds.latest taken item next (Nat.le_of_lt holds.room)

/-- Moving the read index on pops one item. -/
theorem Holds.take (holds : Holds size items taken r) (more : taken < items.length) :
    Holds size items (taken + 1) { r with tail := (r.tail + 1) % size } :=
  { holds with
    tail := by
      show (r.tail + 1) % size = _
      rw [holds.tail, Nat.mod_add_mod]
    behind := more
    room := Nat.lt_of_lt_of_le holds.room (by omega) }

theorem Holds.full_iff (holds : Holds size items taken r) :
    (r.head + 1) % size = r.tail ↔ items.length + 1 = taken + size := by
  have behind := holds.behind
  have room := holds.room
  rw [holds.head, holds.tail, Nat.mod_add_mod]
  constructor
  · intro same
    have laps : (taken + size) % size = (items.length + 1) % size := by
      rw [Nat.add_mod_right, same]
    by_contra other
    exact slot_ne (s := items.length + 1) (t := taken + size) (by omega) (by omega) laps.symm
  · intro full
    rw [full, Nat.add_mod_right]

/-- While fewer than `size - 1` items wait, one more fits. -/
theorem Holds.push (holds : Holds size items taken r) (room : items.length + 1 < taken + size)
    (value : α) : r.push size value = (true, (r.push size value).2) ∧
      Holds size (items ++ [value]) taken (r.push size value).2 := by
  have notFull : (r.head + 1) % size ≠ r.tail := fun full => by
    have := holds.full_iff.mp full
    omega
  have length : (items ++ [value]).length = items.length + 1 := by simp
  have pushed : r.push size value =
      (true, { r with
        data := Function.update r.data r.head value
        head := (r.head + 1) % size }) := if_neg notFull
  rw [pushed]
  refine ⟨rfl, ?_⟩
  -- head and tail count modulo the size, of which one place stays empty
  constructor
  · show (r.head + 1) % size = _
    rw [length, holds.head, Nat.mod_add_mod]
  · exact holds.tail
  · rw [length]
    exact Nat.le_succ_of_le holds.behind
  · rw [length]
    exact room
  · show Latest size _ (Function.update r.data r.head value)
    rw [holds.head]
    exact holds.latest.write value

/-- When `size - 1` items wait, the next one is dropped. -/
theorem Holds.push_full (holds : Holds size items taken r) (full : items.length + 1 = taken + size)
    (value : α) : r.push size value = (false, r) :=
  if_pos (holds.full_iff.mpr full)

end RingBuffer

end KopalniaOS.Stdlib
