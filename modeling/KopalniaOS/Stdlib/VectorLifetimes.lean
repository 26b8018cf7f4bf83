import KopalniaOS.Stdlib.ObjectVector

/-!
# A vector is a list

Over any sequence of calls the vector has the elements of a list, and when it is destroyed every
object and every buffer has been given back once.
-/
namespace KopalniaOS.Stdlib.ObjectVector

open Library ObjectOp

variable {α : Type}

/-! ### Calls -/

inductive Call (α : Type) where
  | pushBack (x : α)
  | popBack
  | reserve (newSize : Nat)
  | clear
deriving DecidableEq, Repr

/-- The caller takes the value of what `pop_back` returns, and destroys it. -/
def Call.perform : Call α → ObjectVector → ObjectProgram α (ObjectVector × Option α)
  | .pushBack x, v => do
    let v ← ObjectVector.pushBack x v
    pure (v, none)
  | .popBack, v => do
    let v ← ObjectVector.popBack v
    let x ← ObjectOp.perform (.use .result)
    ObjectOp.perform (.destroy .result)
    pure (v, some x)
  | .reserve newSize, v => do
    let v ← ObjectVector.reserve newSize v
    pure (v, none)
  | .clear, v => do
    let v ← ObjectVector.clear v
    pure (v, none)

def performAll : List (Call α) → ObjectVector → ObjectProgram α ObjectVector
  | [], v => pure v
  | c :: cs, v => do
    let r ← c.perform v
    performAll cs r.1

/-- The same on a list. -/
def Call.onList : Call α → List α → List α × Option α
  | .pushBack x, xs => (xs ++ [x], none)
  | .popBack, xs => (xs.dropLast, xs.getLast?)
  | .reserve _, xs => (xs, none)
  | .clear, _ => ([], none)

/-- `pop_back` is not called when there are no elements. -/
def Legal : List (Call α) → List α → Prop
  | [], _ => True
  | c :: cs, xs => (c = .popBack → xs ≠ []) ∧ Legal cs (c.onList xs).1

/-! ### What holds after each call -/

structure Agrees (v : ObjectVector) (xs : List α) (s : ObjectStore α) : Prop where
  size : v.size = xs.length
  fits : v.size ≤ v.capacity
  element : ∀ i < v.size, s.value (.element v.data i) = xs[i]?

/-- Every call returns what it does on the list, with the vector in agreement with it before and
after, and so does the destructor, after which both ledgers are balanced. -/
def BehavesAsList (grant : Allocator α) :
    List (Call α) → ObjectVector → List α → ObjectStore α → Prop
  | [], v, xs, s => Agrees v xs s ∧ ∃ t, (destruct v).run (objectHandler grant) s = some ((), t) ∧
      t.objects.Balanced ∧ t.buffers.Balanced
  | c :: cs, v, xs, s => Agrees v xs s ∧
      ∃ v' t, (c.perform v).run (objectHandler grant) s = some ((v', (c.onList xs).2), t) ∧
        BehavesAsList grant cs v' (c.onList xs).1 t

variable {grant : Allocator α} {s : ObjectStore α} {v : ObjectVector} {xs : List α}

theorem Holds.agrees (holds : Holds v xs s) : Agrees v xs s where
  size := holds.size
  fits := holds.fits
  element i _ := by
    rw [holds.values]
    simp [contents]

theorem lasts_perform_popBack {x : α} (holds : Holds v (xs ++ [x]) s) :
    Lasts grant (Enough grant) (Call.popBack.perform v) s fun r t =>
      Holds r.1 xs t ∧ r.2 = some x := by
  refine lasts_bind (lasts_popBack holds) ?_
  rintro _ t ⟨rfl, recorded, room, values⟩
  have returned : t.value .result = some x := by simp [values]
  refine lasts_use returned fun m alive => ?_
  have stays : (t.use m).value .result = some x := returned
  refine lasts_destroy stays fun m' alive' => ⟨?_, rfl⟩
  have size : v.size = xs.length + 1 := by simpa using holds.size
  refine ⟨(recorded.use alive).destroy alive', rfl, ?_, holds.null, ?_, ?_⟩
  · exact Nat.le_trans (by simp [size]) holds.fits
  · obtain ⟨count, enough, small, rooms⟩ := holds.room
    exact ⟨count, enough, small, room.trans rooms⟩
  · rw [ObjectStore.value_destroy, ObjectStore.value_use, values, Function.update_idem]
    exact Function.update_eq_self .result (contents v.data xs)

theorem lasts_call (c : Call α) (holds : Holds v xs s) (legal : c = .popBack → xs ≠ []) :
    Lasts grant (Enough grant) (c.perform v) s fun r t =>
      Holds r.1 (c.onList xs).1 t ∧ r.2 = (c.onList xs).2 := by
  cases c with
  | pushBack x => exact lasts_bind (lasts_pushBack holds x) fun v' t holds' => ⟨holds', rfl⟩
  | popBack =>
    obtain ⟨ys, x, rfl⟩ := xs.eq_nil_or_concat'.resolve_left (legal rfl)
    refine (lasts_perform_popBack holds).mono ?_
    rintro r t ⟨holds', rfl'⟩
    simpa [Call.onList] using ⟨holds', rfl'⟩
  | reserve newSize => exact lasts_bind (lasts_reserve holds) fun v' t same => ⟨same.1, rfl⟩
  | clear => exact lasts_bind (lasts_clear holds) fun v' t holds' => ⟨holds', rfl⟩

/-- A run whose operations satisfy the assumption returns. -/
theorem Lasts.returns {β : Type} {p : ObjectProgram α β} {post : β → ObjectStore α → Prop}
    {assume : ObjectOp α → ObjectStore α → Prop} (lasts : Lasts grant assume p s post)
    (assumed : p.All (objectHandler grant) assume s) :
    ∃ r t, p.run (objectHandler grant) s = some (r, t) ∧ post r t :=
  Program.Meets.returns lasts assumed not_false

theorem behavesAsList (cs : List (Call α)) (holds : Holds v xs s) (legal : Legal cs xs)
    (enough : (performAll cs v).All (objectHandler grant) (Enough grant) s) :
    BehavesAsList grant cs v xs s := by
  induction cs generalizing v xs s with
  | nil =>
    -- the destructor asks `malloc` for nothing
    have always : (destruct v).All (objectHandler grant) (fun _ _ => True) s := fun _ _ _ => trivial
    obtain ⟨_, t, ran, balanced⟩ := Lasts.returns (lasts_destruct holds) always
    exact ⟨holds.agrees, t, ran, balanced⟩
  | cons c cs ih =>
    obtain ⟨now, later⟩ := legal
    rw [performAll] at enough
    have first := ((Program.all_bind _ _ _).mp enough).1
    obtain ⟨⟨v', output⟩, t, ran, holds', rfl⟩ := Lasts.returns (lasts_call c holds now) first
    exact ⟨holds.agrees, v', t, ran, ih holds' later (((Program.all_bind _ _ _).mp enough).2 _ t ran)⟩

/-! ### On the heap -/

/-- `reserve` asks for `sizeof(T) * count` bytes, a word of 64 bits. The heap answers with null or a
buffer of so many bytes. -/
def allocator (sizeofT : ℕ+) (heap : Nat → ObjectStore α → Option Nat) : Allocator α :=
  fun count s => (heap (u64 (sizeofT * count)) s).map fun bytes => bytes / sizeofT

/-- `malloc` succeeds with enough room. A buffer is not as large as half of the address space: the
heap has 64 MiB. -/
def Succeeds (sizeofT : ℕ+) (heap : Nat → ObjectStore α → Option Nat) :
    ObjectOp α → ObjectStore α → Prop
  | .malloc count, s =>
    ∃ bytes, heap (u64 (sizeofT * count)) s = some bytes ∧ sizeofT * count ≤ bytes ∧ bytes < 2 ^ 63
  | _, _ => True

instance (sizeofT : ℕ+) (heap : Nat → ObjectStore α → Option Nat) (o : ObjectOp α)
    (s : ObjectStore α) : Decidable (Succeeds sizeofT heap o s) :=
  match o with
  | .malloc count =>
    decidable_of_iff ((heap (u64 (sizeofT * count)) s).any
      fun bytes => sizeofT * count ≤ bytes ∧ bytes < 2 ^ 63) (by simp [Succeeds, Option.any_eq_true])
  | .free _ => isTrue trivial
  | .construct _ _ => isTrue trivial
  | .use _ => isTrue trivial
  | .destroy _ => isTrue trivial

theorem Succeeds.enough {sizeofT : ℕ+} {heap : Nat → ObjectStore α → Option Nat} {o : ObjectOp α}
    (succeeds : Succeeds sizeofT heap o s) : Enough (allocator sizeofT heap) o s := by
  cases o with
  | malloc count =>
    obtain ⟨bytes, answer, room, small⟩ := succeeds
    refine ⟨bytes / sizeofT, by simp [allocator, answer], ?_, ?_⟩
    · rw [Nat.le_div_iff_mul_le sizeofT.pos, Nat.mul_comm]
      exact room
    · exact Nat.lt_of_le_of_lt (Nat.div_le_self _ _) small
  | _ => trivial

/-- For all calls, from an empty vector on, during which `malloc` always succeeds: the vector
behaves as a list, no operation is without a meaning, and what was begun was ended once. -/
theorem vector_behavesAsList (sizeofT : ℕ+) (heap : Nat → ObjectStore α → Option Nat)
    (cs : List (Call α)) (legal : Legal cs [])
    (succeeds : (performAll cs empty).All (objectHandler (allocator sizeofT heap))
      (Succeeds sizeofT heap) .empty) :
    BehavesAsList (allocator sizeofT heap) cs empty [] .empty :=
  behavesAsList cs holds_empty legal fun o t visited => (succeeds o t visited).enough

/-- A heap of 64 MiB that has room. -/
def roomyHeap (bytes : Nat) (_ : ObjectStore Nat) : Option Nat :=
  if bytes ≤ 2 ^ 26 then some bytes else none

/-- Two elements, of which the second is taken back, more room, and no elements. -/
theorem vector_behavesAsList_two :
    BehavesAsList (allocator 8 roomyHeap) [.pushBack 1, .pushBack 2, .popBack, .reserve 5, .clear]
      empty [] .empty :=
  vector_behavesAsList 8 roomyHeap _ (by simp [Legal, Call.onList])
    (Program.all_of_allB (by decide +kernel))

end KopalniaOS.Stdlib.ObjectVector
