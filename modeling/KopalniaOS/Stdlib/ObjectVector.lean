import KopalniaOS.Library.Lifetimes
import KopalniaOS.Library.Word
import Mathlib.Data.PNat.Basic

/-!
# `std::vector` with objects

`vector.hpp` for elements with constructors and destructors: growing copies every element into the
new buffer and destroys the old one, and `pop_back` and `clear` destroy elements but keep the buffer.
-/
namespace KopalniaOS.Stdlib

open Library ObjectOp

/-! ### The code -/

/-- The pointer is `none` when it is null. -/
structure ObjectVector where
  data : Option Nat
  size : Nat
  capacity : Nat
deriving DecidableEq, Repr

namespace ObjectVector

variable {α : Type}

def empty : ObjectVector := ⟨none, 0, 0⟩

/-- The loop of `reserve`, for the last `left` elements. -/
def relocate (old data : Option Nat) : (left i : Nat) → ObjectProgram α Unit
  | 0, _ => pure ()
  | left + 1, i => do
    let x ← perform (.use (.element old i))
    perform (.construct (.element data i) x)
    perform (.destroy (.element old i))
    relocate old data left (i + 1)

def reserve (newSize : Nat) (v : ObjectVector) : ObjectProgram α ObjectVector :=
  if newSize ≤ v.capacity then pure v
  else do
    -- `m_data` is replaced at once, whether or not there is a buffer
    let data ← perform (.malloc newSize)
    relocate v.data data v.size 0
    perform (.free v.data)
    pure { v with data, capacity := newSize }

/-- `x` is not one of the elements, so growing does not touch it. -/
def pushBack (x : α) (v : ObjectVector) : ObjectProgram α ObjectVector := do
  let v ← (if v.size = v.capacity then
      reserve (if v.capacity = 0 then 1 else u64 (v.capacity * 2)) v
    else pure v)
  perform (.construct (.element v.data v.size) x)
  pure { v with size := u64 (v.size + 1) }

/-- `ret` is the object that the caller gets. -/
def popBack (v : ObjectVector) : ObjectProgram α ObjectVector := do
  let last := u64 (v.size + 2 ^ 64 - 1)
  let x ← perform (.use (.element v.data last))
  perform (.construct .result x)
  perform (.destroy (.element v.data last))
  pure { v with size := last }

def destroyElements (data : Option Nat) : (left i : Nat) → ObjectProgram α Unit
  | 0, _ => pure ()
  | left + 1, i => do
    perform (.destroy (.element data i))
    destroyElements data left (i + 1)

def clear (v : ObjectVector) : ObjectProgram α ObjectVector := do
  destroyElements v.data v.size 0
  pure { v with size := 0 }

/-- `~vector` -/
def destruct (v : ObjectVector) : ObjectProgram α Unit := do
  destroyElements v.data v.size 0
  perform (.free v.data)

/-! ### The list in a vector -/

/-- The elements are the only objects. -/
def contents (data : Option Nat) (xs : List α) : Place → Option α
  | .element buffer i => if buffer = data then xs[i]? else none
  | .result => none

/-- The buffer is the only one. -/
def held (data : Option Nat) (count : Nat) (b : Nat) : Option Nat :=
  if data = some b then some count else none

structure Holds (v : ObjectVector) (xs : List α) (s : ObjectStore α) : Prop where
  recorded : Recorded s
  size : v.size = xs.length
  fits : v.size ≤ v.capacity
  null : v.data = none → v.capacity = 0
  room : ∃ count, v.capacity ≤ count ∧ count < 2 ^ 63 ∧ s.room = held v.data count
  values : s.value = contents v.data xs

theorem holds_empty : Holds empty ([] : List α) .empty where
  recorded := recorded_empty
  size := rfl
  fits := Nat.le_refl 0
  null _ := rfl
  room := ⟨0, Nat.le_refl 0, by decide, rfl⟩
  values := by
    funext p
    cases p <;> simp [contents, ObjectStore.value, ObjectStore.empty]

/-! ### The loops -/

variable {grant : Allocator α} {assume : ObjectOp α → ObjectStore α → Prop} {s : ObjectStore α}
  {v : ObjectVector} {xs : List α} {old data : Option Nat}

/-- The elements in front of `i` are in the new buffer, and the others in the old one. -/
def moving (old data : Option Nat) (xs : List α) (i : Nat) : Place → Option α
  | .element buffer j =>
    if buffer = data ∧ j < i then xs[j]? else if buffer = old ∧ i ≤ j then xs[j]? else none
  | .result => none

theorem moving_start (old data : Option Nat) (xs : List α) : moving old data xs 0 = contents old xs := by
  funext p
  cases p <;> simp [moving, contents]

theorem moving_end (old data : Option Nat) (xs : List α) :
    moving old data xs xs.length = contents data xs := by
  funext p
  cases p with
  | result => rfl
  | element buffer j =>
    by_cases inside : j < xs.length
    · simp [moving, contents, inside, Nat.not_le.mpr inside]
    · have outside : xs[j]? = none := by simpa using inside
      simp [moving, contents, outside]

/-- One turn of the loop. -/
theorem moving_step (apart : old ≠ data) {i : Nat} {x : α} (found : xs[i]? = some x) :
    Function.update (Function.update (moving old data xs i) (.element data i) (some x))
      (.element old i) none = moving old data xs (i + 1) := by
  funext p
  cases p with
  | result => simp [moving]
  | element buffer j =>
    simp only [Function.update_apply, Place.element.injEq, moving]
    by_cases here : j = i
    · subst here
      by_cases source : buffer = old
      · subst source
        simp [apart]
      · by_cases dest : buffer = data <;> simp [source, dest, found, apart.symm]
    · have less : j < i + 1 ↔ j < i := by omega
      have more : i + 1 ≤ j ↔ i ≤ j := by omega
      simp [here, less, more]

theorem lasts_relocate (apart : old ≠ data) (left i : Nat) (whole : i + left = xs.length)
    (recorded : Recorded s) (fits : ∀ j < xs.length, s.fits (.element data j) = true)
    (values : s.value = moving old data xs i) :
    Lasts grant assume (relocate old data left i) s fun _ t =>
      Recorded t ∧ t.room = s.room ∧ t.value = contents data xs := by
  induction left generalizing i s with
  | zero =>
    refine ⟨recorded, rfl, ?_⟩
    rw [values, ← moving_end old data xs, ← whole]
    rfl
  | succ left ih =>
    have inside : i < xs.length := by omega
    have found : xs[i]? = some xs[i] := List.getElem?_eq_getElem inside
    have source : s.value (.element old i) = some xs[i] := by
      rw [values]
      simp [moving, apart, found]
    have dest : s.value (.element data i) = none := by
      rw [values]
      simp [moving, apart.symm]
    rw [relocate]
    -- the copy is constructed before the original is destroyed, so two objects are alive between
    refine lasts_use source fun m alive => lasts_construct (fits i inside) dest ?_
    have stays : ((s.use m).construct (.element data i) xs[i]).value (.element old i) =
        some xs[i] := by
      simp [apart, source]
    refine lasts_destroy stays fun m' alive' => ?_
    have free : (s.use m).object (.element data i) = none := ObjectStore.value_eq_none.mp dest
    refine ih (i + 1) (by omega) (((recorded.use alive).construct free _).destroy alive') fits ?_
    rw [ObjectStore.value_destroy, ObjectStore.value_construct, ObjectStore.value_use, values]
    exact moving_step apart found

/-- The elements from `i` on are left. -/
def remaining (data : Option Nat) (xs : List α) (i : Nat) : Place → Option α
  | .element buffer j => if buffer = data ∧ i ≤ j then xs[j]? else none
  | .result => none

theorem lasts_destroyElements (left i : Nat) (whole : i + left = xs.length) (recorded : Recorded s)
    (values : s.value = remaining data xs i) :
    Lasts grant assume (destroyElements data left i) s fun _ t =>
      Recorded t ∧ t.room = s.room ∧ ∀ p, t.value p = none := by
  induction left generalizing i s with
  | zero =>
    refine ⟨recorded, rfl, fun p => ?_⟩
    rw [values]
    cases p with
    | result => rfl
    | element buffer j =>
      simp [remaining]
      omega
  | succ left ih =>
    have inside : i < xs.length := by omega
    have here : s.value (.element data i) = some xs[i] := by
      -- the elements below the index are gone, and this one is still there
      rw [values]
      simp [remaining, inside]
    rw [destroyElements]
    refine lasts_destroy here fun m alive => ih (i + 1) (by omega) (recorded.destroy alive) ?_
    rw [ObjectStore.value_destroy, values]
    funext p
    cases p with
    | result => simp [remaining]
    | element buffer j =>
      simp only [Function.update_apply, Place.element.injEq, remaining]
      -- only the place of the destroyed element changes
      by_cases gone : j = i
      · subst gone
        by_cases own : buffer = data <;> simp [own]
      · have later : i + 1 ≤ j ↔ i ≤ j := by omega
        simp [gone, later]

theorem contents_eq_remaining (data : Option Nat) (xs : List α) :
    contents data xs = remaining data xs 0 := by
  funext p
  cases p <;> simp [contents, remaining]

/-! ### One call -/

/-- `malloc` gives a buffer with enough room, which is smaller than half of the address space. -/
def Enough (grant : Allocator α) : ObjectOp α → ObjectStore α → Prop
  | .malloc count, s => ∃ given, grant count s = some given ∧ count ≤ given ∧ given < 2 ^ 63
  | _, _ => True

/-- Places in the buffer of the vector. -/
theorem fits_held {count i : Nat} {b : Nat} (room : s.room = held data count) (own : data = some b)
    (inside : i < count) : s.fits (.element data i) = true := by
  simp [ObjectStore.fits, room, own, held, inside]

/-- A new buffer is not the one that the vector has. -/
theorem Holds.fresh (holds : Holds v xs s) : v.data ≠ some s.buffers.issued := by
  intro same
  obtain ⟨count, -, -, room⟩ := holds.room
  have known := holds.recorded.buffers.known s.buffers.issued ⟨count, by rw [room, same]; simp [held]⟩
  exact Nat.lt_irrefl _ known

/-- The old buffer has no elements any more and goes back. -/
theorem lasts_freeOld {count given b : Nat} (recorded : Recorded s) (fresh : old ≠ some b)
    (room : s.room = Function.update (held old count) b (some given))
    (values : s.value = contents (some b) xs) :
    Lasts grant assume (perform (.free old)) s fun _ t =>
      Recorded t ∧ t.room = held (some b) given ∧ t.value = contents (some b) xs := by
  rw [← Program.bind_ret (perform (.free old))]
  cases old with
  | none =>
    -- before the first growth there is no buffer, and `free` takes a null pointer
    refine lasts_perform fun _ => ⟨((), s), rfl, recorded, ?_, values⟩
    rw [room]
    funext c
    by_cases here : c = b
    · simp [held, here]
    · simp [held, here, Ne.symm here]
  | some a =>
    have other : a ≠ b := fun same => fresh (congrArg some same)
    have empty : ∀ i, s.value (.element (some a) i) = none := by
      intro i
      rw [values]
      simp [contents, other]
    have gone : s.room a = some count := by simp [room, held, other]
    refine lasts_free gone ⟨recorded.release gone fun i => ?_, ?_, ?_⟩
    · exact ObjectStore.value_eq_none.mp (empty i)
    · funext c
      by_cases here : c = a
      · simp [ObjectStore.release, here, held, other.symm]
      · by_cases own : c = b
        · simp [ObjectStore.release, room, own, held, other.symm]
        · simp [ObjectStore.release, room, own, held, here, Ne.symm here, Ne.symm own]
    · rw [ObjectStore.value_release empty, values]

theorem lasts_reserve {newSize : Nat} (holds : Holds v xs s) :
    Lasts grant (Enough grant) (reserve newSize v) s fun v' t =>
      Holds v' xs t ∧ newSize ≤ v'.capacity ∧ v'.size = v.size := by
  rw [reserve]
  split
  · rename_i enough
    exact ⟨holds, enough, rfl⟩
  · rename_i grows
    refine lasts_perform fun ⟨given, answer, enough, small⟩ =>
      ⟨(some s.buffers.issued, s.obtain given), by simp [objectHandler, answer], ?_⟩
    obtain ⟨count, -, -, room⟩ := holds.room
    -- the new buffer is longer than the old one, so all elements fit
    have inside : ∀ j < xs.length, (s.obtain given).fits (.element (some s.buffers.issued) j) = true := by
      intro j before
      have fits := holds.fits
      have size := holds.size
      have below : j < given := by omega
      simp [ObjectStore.fits, ObjectStore.obtain, below]
    have values : (s.obtain given).value = moving v.data (some s.buffers.issued) xs 0 := by
      rw [ObjectStore.value_obtain, moving_start, holds.values]
    refine lasts_bind (lasts_relocate holds.fresh v.size 0 (by rw [holds.size, Nat.zero_add])
      (holds.recorded.obtain given) inside values) ?_
    -- all elements have moved, so the old buffer may be freed
    rintro _ t ⟨recorded, room', values'⟩
    have rooms : t.room = Function.update (held v.data count) s.buffers.issued (some given) := by
      rw [room', ← room]
      rfl
    refine lasts_bind (lasts_freeOld recorded holds.fresh rooms values') ?_
    rintro _ u ⟨recorded, room, values⟩
    have more := Nat.le_of_lt (Nat.lt_of_not_le grows)
    exact ⟨⟨recorded, holds.size, holds.fits.trans more, by simp, ⟨given, enough, small, room⟩, values⟩,
      Nat.le_refl _, rfl⟩

/-- A vector that is not full has a buffer with room for one more. -/
theorem Holds.fits_last (holds : Holds v xs s) (room : v.size < v.capacity) :
    s.fits (.element v.data v.size) = true := by
  obtain ⟨count, enough, -, rooms⟩ := holds.room
  cases own : v.data with
  | none =>
    have none := holds.null own
    omega
  | some b =>
    rw [own] at rooms
    exact fits_held rooms rfl (by omega)

theorem getElem?_concat_of_ne {j : Nat} (other : j ≠ xs.length) (x : α) :
    (xs ++ [x])[j]? = xs[j]? := by
  rcases Nat.lt_or_gt_of_ne other with before | behind
  · exact List.getElem?_append_left before
  · rw [List.getElem?_eq_none (by simp; omega), List.getElem?_eq_none (Nat.le_of_lt behind)]

/-- Constructing an element behind the last one. -/
theorem lasts_append (holds : Holds v xs s) (room : v.size < v.capacity) (x : α) :
    Lasts grant assume (perform (.construct (.element v.data v.size) x) >>= fun _ =>
      pure { v with size := u64 (v.size + 1) }) s fun v' t => Holds v' (xs ++ [x]) t := by
  -- behind the last element there is room that holds no object
  have free : s.value (.element v.data v.size) = none := by
    rw [holds.values, holds.size]
    simp [contents]
  refine lasts_construct (holds.fits_last room) free ?_
  obtain ⟨count, enough, small, rooms⟩ := holds.room
  have next : u64 (v.size + 1) = v.size + 1 := u64_of_lt (by omega)
  refine ⟨holds.recorded.construct (ObjectStore.value_eq_none.mp free) x, ?_, ?_, holds.null,
    ⟨count, enough, small, rooms⟩, ?_⟩
  · rw [next, List.length_append, holds.size]
    rfl
  · simp only [next]
    omega
  · rw [ObjectStore.value_construct, holds.values]
    funext p
    cases p with
    | result => simp [contents]
    | element buffer j =>
      by_cases own : buffer = v.data
      · subst own
        by_cases last : j = v.size
        · simp [contents, last, holds.size]
        · rw [holds.size] at last
          have same : (xs ++ [x])[j]? = xs[j]? := getElem?_concat_of_ne last x
          simp [contents, holds.size, last, same]
      · simp [contents, own]

theorem lasts_pushBack (holds : Holds v xs s) (x : α) :
    Lasts grant (Enough grant) (pushBack x v) s fun v' t => Holds v' (xs ++ [x]) t := by
  rw [pushBack]
  split
  · rename_i full
    refine lasts_bind (lasts_reserve holds) ?_
    rintro v' t ⟨holds', grown, same⟩
    obtain ⟨count, enough, small, rooms⟩ := holds.room
    refine lasts_append holds' ?_ x
    -- a buffer is smaller than half of the address space, so the capacity can be doubled
    have wrap : u64 (v.capacity * 2) = v.capacity * 2 := u64_of_lt (by omega)
    rw [wrap] at grown
    split at grown <;> omega
  · rename_i room
    exact lasts_append holds (Nat.lt_of_le_of_ne holds.fits room) x

/-- `pop_back` leaves a copy of the last element with the caller. -/
theorem lasts_popBack {x : α} (holds : Holds v (xs ++ [x]) s) :
    Lasts grant assume (popBack v) s fun v' t =>
      v' = { v with size := xs.length } ∧ Recorded t ∧ t.room = s.room ∧
        t.value = Function.update (contents v.data xs) .result (some x) := by
  have size : v.size = xs.length + 1 := by simpa using holds.size
  have last : u64 (v.size + 2 ^ 64 - 1) = xs.length := by
    obtain ⟨count, enough, small, -⟩ := holds.room
    have fits := holds.fits
    unfold u64
    omega
  have source : s.value (.element v.data xs.length) = some x := by
    rw [holds.values]
    simp [contents]
  have free : s.value .result = none := by
    rw [holds.values]
    rfl
  rw [popBack, last]
  -- the copy for the caller, then the element
  refine lasts_use source fun m alive => lasts_construct rfl free ?_
  have stays : ((s.use m).construct .result x).value (.element v.data xs.length) = some x := by
    simp [source]
  refine lasts_destroy stays fun m' alive' => ⟨rfl, ?_, rfl, ?_⟩
  · have empty : (s.use m).object .result = none := ObjectStore.value_eq_none.mp free
    exact ((holds.recorded.use alive).construct empty x).destroy alive'
  · rw [ObjectStore.value_destroy, ObjectStore.value_construct, ObjectStore.value_use, holds.values]
    funext p
    cases p with
    | result => simp
    | element buffer j =>
      simp only [Function.update_apply, Place.element.injEq, contents, reduceCtorEq, if_false]
      by_cases here : j = xs.length
      · by_cases own : buffer = v.data <;> simp [here, own]
      · have same : (xs ++ [x])[j]? = xs[j]? := getElem?_concat_of_ne here x
        simp [here, same]

/-- `clear` and the destructor start with all elements. -/
theorem lasts_destroyAll (holds : Holds v xs s) :
    Lasts grant assume (destroyElements v.data v.size 0) s fun _ t =>
      Recorded t ∧ t.room = s.room ∧ ∀ p, t.value p = none :=
  lasts_destroyElements v.size 0 (by rw [holds.size, Nat.zero_add]) holds.recorded
    (by rw [holds.values, contents_eq_remaining])

theorem lasts_clear (holds : Holds v xs s) :
    Lasts grant assume (clear v) s fun v' t => Holds v' [] t := by
  rw [clear]
  refine lasts_bind (lasts_destroyAll holds) ?_
  rintro _ t ⟨recorded, room, none⟩
  refine ⟨recorded, rfl, Nat.zero_le _, holds.null, by rw [room]; exact holds.room, ?_⟩
  funext p
  rw [none]
  cases p <;> simp [contents]

/-- After the destructor nothing is alive. -/
theorem lasts_destruct (holds : Holds v xs s) :
    Lasts grant assume (destruct v) s fun _ t => t.objects.Balanced ∧ t.buffers.Balanced := by
  rw [destruct]
  refine lasts_bind (lasts_destroyAll holds) ?_
  rintro _ t ⟨recorded, room, none⟩
  -- no object is left in any place, so each of them was destroyed once
  have empty : ∀ p, t.object p = Option.none := fun p => ObjectStore.value_eq_none.mp (none p)
  obtain ⟨count, -, -, rooms⟩ := holds.room
  rw [rooms] at room
  have objects : t.objects.Balanced := recorded.objects.balanced (by simp [empty])
  rw [← Program.bind_ret (perform (.free v.data))]
  cases own : v.data with
  | none =>
    refine lasts_perform fun _ => ⟨((), t), rfl, objects, recorded.buffers.balanced ?_⟩
    simp [room, held, own]
  | some b =>
    have gone : t.room b = some count := by simp [room, held, own]
    refine lasts_free gone ⟨objects, ?_⟩
    refine (recorded.release gone fun i => empty _).buffers.balanced ?_
    intro c
    by_cases here : c = b
    · simp [ObjectStore.release, here]
    · simp [ObjectStore.release, room, held, own, here, Ne.symm here]

end ObjectVector

end KopalniaOS.Stdlib
