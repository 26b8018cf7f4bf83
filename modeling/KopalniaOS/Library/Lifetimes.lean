import KopalniaOS.Library.Ledger
import KopalniaOS.Library.Program

/-!
# Objects in buffers

Memory as a program sees it that constructs and destroys objects: a place has an object or none, a
buffer can be given back, and both kinds of lifetime are kept in a ledger. An operation on an object
that is not alive, or on a place without storage, has no meaning.
-/
namespace KopalniaOS.Library

variable {α β : Type}

/-- An element of a buffer, which may be null, or the object that a call returns. -/
inductive Place where
  | element (buffer : Option Nat) (index : Nat)
  | result
deriving DecidableEq, Repr

def Place.inBuffer (b : Nat) : Place → Bool
  | .element buffer _ => buffer == some b
  | .result => false

inductive ObjectOp (α : Type) where
  | malloc (count : Nat)
  | free (buffer : Option Nat)
  | construct (place : Place) (value : α)
  | use (place : Place)
  | destroy (place : Place)

abbrev ObjectOp.Answer : ObjectOp α → Type
  | .malloc _ => Option Nat
  | .use _ => α
  | _ => Unit

abbrev ObjectProgram (α β : Type) := Program (ObjectOp α) ObjectOp.Answer β

abbrev ObjectOp.perform (o : ObjectOp α) : ObjectProgram α o.Answer :=
  Program.perform o

/-- How many objects a buffer has room for, and the object at a place with its number. -/
structure ObjectStore (α : Type) where
  room : Nat → Option Nat
  object : Place → Option (Nat × α)
  buffers : Ledger
  objects : Ledger

namespace ObjectStore

def empty : ObjectStore α := ⟨fun _ => none, fun _ => none, .empty, .empty⟩

def value (s : ObjectStore α) (p : Place) : Option α := (s.object p).map Prod.snd

def fits (s : ObjectStore α) : Place → Bool
  | .element buffer index => (buffer.bind s.room).any fun count => index < count
  | .result => true

/-- A new buffer. -/
def obtain (s : ObjectStore α) (count : Nat) : ObjectStore α :=
  { s with
    room := Function.update s.room s.buffers.issued (some count)
    buffers := s.buffers.begin }

/-- Objects that are still in the buffer are no longer alive, but were not destroyed. -/
def release (s : ObjectStore α) (b : Nat) : ObjectStore α :=
  { s with
    room := Function.update s.room b none
    object := fun p => if p.inBuffer b = true then none else s.object p
    buffers := s.buffers.finish b }

def construct (s : ObjectStore α) (p : Place) (x : α) : ObjectStore α :=
  { s with
    object := Function.update s.object p (some (s.objects.issued, x))
    objects := s.objects.begin }

def use (s : ObjectStore α) (m : Nat) : ObjectStore α := { s with objects := s.objects.use m }

def destroy (s : ObjectStore α) (p : Place) (m : Nat) : ObjectStore α :=
  { s with
    object := Function.update s.object p none
    objects := s.objects.finish m }

end ObjectStore

/-- What the allocator answers: null, or a buffer with room for so many objects. -/
abbrev Allocator (α : Type) := Nat → ObjectStore α → Option Nat

def objectHandler (grant : Allocator α) : Handler (ObjectOp α) ObjectOp.Answer (ObjectStore α)
  | .malloc count, s =>
    match grant count s with
    | none => some (none, s)
    | some given => some (some s.buffers.issued, s.obtain given)
  | .free none, s => some ((), s)
  | .free (some b), s => (s.room b).map fun _ => ((), s.release b)
  | .construct p x, s =>
    if s.fits p = true ∧ (s.object p).isNone = true then some ((), s.construct p x) else none
  | .use p, s => (s.object p).map fun o => (o.2, s.use o.1)
  | .destroy p, s => (s.object p).map fun o => ((), s.destroy p o.1)

/-! ### The ledgers are right -/

/-- No object is at two places, and the ledgers know what is alive. -/
structure Recorded (s : ObjectStore α) : Prop where
  distinct : ∀ p q m x y, s.object p = some (m, x) → s.object q = some (m, y) → p = q
  objects : s.objects.Tracks fun m => ∃ p x, s.object p = some (m, x)
  buffers : s.buffers.Tracks fun b => ∃ count, s.room b = some count

variable {s : ObjectStore α} {p : Place} {m b count : Nat} {x : α}

theorem recorded_empty : Recorded (.empty : ObjectStore α) where
  distinct _ _ _ _ _ found := nomatch found
  objects := Ledger.tracks_empty nofun
  buffers := Ledger.tracks_empty nofun

theorem Recorded.obtain (recorded : Recorded s) (count : Nat) : Recorded (s.obtain count) where
  distinct := recorded.distinct
  objects := recorded.objects
  buffers := recorded.buffers.begin fun b => by
    by_cases here : b = s.buffers.issued <;> simp [ObjectStore.obtain, here]

theorem Recorded.release (recorded : Recorded s) (held : s.room b = some count)
    (none : ∀ i, s.object (.element (some b) i) = none) : Recorded (s.release b) := by
  have same : (s.release b).object = s.object := by
    funext p
    cases p with
    | result => rfl
    | element buffer i =>
      by_cases here : buffer = some b
      · simp [ObjectStore.release, Place.inBuffer, here, none]
      · simp [ObjectStore.release, Place.inBuffer, here]
  refine ⟨?_, ?_, ?_⟩
  · rw [same]
    exact recorded.distinct
  · rw [same]
    exact recorded.objects
  · refine recorded.buffers.finish ⟨count, held⟩ fun c => ?_
    by_cases here : c = b <;> simp [ObjectStore.release, here]

theorem Recorded.construct (recorded : Recorded s) (free : s.object p = none) (x : α) :
    Recorded (s.construct p x) where
  distinct q r m y z first second := by
    -- the number of the new object is nowhere yet
    have old : ∀ q y, s.object q = some (s.objects.issued, y) → False := fun q y found =>
      Nat.lt_irrefl _ (recorded.objects.known _ ⟨q, y, found⟩)
    simp only [ObjectStore.construct, Function.update_apply] at first second
    split at first <;> split at second
    · simp [*]
    · cases first
      exact (old r z second).elim
    · cases second
      exact (old q y first).elim
    · exact recorded.distinct q r m y z first second
  objects := recorded.objects.begin fun m => by
    constructor
    · rintro ⟨q, y, found⟩
      by_cases here : q = p
      · simp only [ObjectStore.construct, here, Function.update_self] at found
        cases found
        exact .inr rfl
      · simp only [ObjectStore.construct, Function.update_of_ne here] at found
        exact .inl ⟨q, y, found⟩
    · rintro (⟨q, y, found⟩ | rfl)
      · have other : q ≠ p := by
          rintro rfl
          rw [free] at found
          cases found
        exact ⟨q, y, by simpa [ObjectStore.construct, other] using found⟩
      · exact ⟨p, x, by simp [ObjectStore.construct]⟩
  buffers := recorded.buffers

theorem Recorded.use (recorded : Recorded s) (found : s.object p = some (m, x)) :
    Recorded (s.use m) where
  distinct := recorded.distinct
  objects := recorded.objects.use ⟨p, x, found⟩
  buffers := recorded.buffers

theorem Recorded.destroy (recorded : Recorded s) (found : s.object p = some (m, x)) :
    Recorded (s.destroy p m) where
  distinct q r m' y z first second := by
    simp only [ObjectStore.destroy, Function.update_apply] at first second
    split at first
    · cases first
    · split at second
      · cases second
      · exact recorded.distinct q r m' y z first second
  objects := recorded.objects.finish ⟨p, x, found⟩ fun m' => by
    constructor
    · rintro ⟨q, y, later⟩
      by_cases here : q = p
      · simp [ObjectStore.destroy, here] at later
      · simp only [ObjectStore.destroy, Function.update_of_ne here] at later
        refine ⟨⟨q, y, later⟩, ?_⟩
        -- at another place there is another object
        rintro rfl
        exact here (recorded.distinct q p m' y x later found)
    · rintro ⟨⟨q, y, before⟩, other⟩
      have apart : q ≠ p := by
        rintro rfl
        rw [found] at before
        cases before
        exact other rfl
      exact ⟨q, y, by simpa [ObjectStore.destroy, apart] using before⟩
  buffers := recorded.buffers

/-! ### Values -/

namespace ObjectStore

@[simp] theorem value_obtain (s : ObjectStore α) (count : Nat) : (s.obtain count).value = s.value :=
  rfl

@[simp] theorem value_use (s : ObjectStore α) (m : Nat) : (s.use m).value = s.value := rfl

@[simp] theorem value_construct (s : ObjectStore α) (p : Place) (x : α) :
    (s.construct p x).value = Function.update s.value p (some x) := by
  funext q
  by_cases here : q = p <;> simp [value, construct, here]

@[simp] theorem value_destroy (s : ObjectStore α) (p : Place) (m : Nat) :
    (s.destroy p m).value = Function.update s.value p none := by
  funext q
  by_cases here : q = p <;> simp [value, destroy, here]

theorem value_eq_none : s.value p = none ↔ s.object p = none := Option.map_eq_none_iff

theorem value_eq_some : s.value p = some x ↔ ∃ m, s.object p = some (m, x) := by
  cases found : s.object p <;> simp [value, found, Prod.ext_iff]

/-- An empty buffer takes no objects along. -/
theorem value_release (none : ∀ i, s.value (.element (some b) i) = none) :
    (s.release b).value = s.value := by
  funext p
  cases p with
  | result => rfl
  | element buffer i =>
    by_cases here : buffer = some b
    · subst here
      rw [none i]
      simp [value, release, Place.inBuffer]
    · simp [value, release, Place.inBuffer, here]

end ObjectStore

/-! ### Runs -/

variable {grant : Allocator α} {assume : ObjectOp α → ObjectStore α → Prop}
  {post : β → ObjectStore α → Prop}

/-- As long as the operations satisfy the assumption none is without a meaning, and the program
returns. -/
abbrev Lasts (grant : Allocator α) (assume : ObjectOp α → ObjectStore α → Prop)
    (p : ObjectProgram α β) (s : ObjectStore α)
    (post : β → ObjectStore α → Prop) : Prop :=
  p.Meets (objectHandler grant) ⟨assume, fun _ _ => True, False⟩ s post

theorem lasts_perform {o : ObjectOp α} {f : o.Answer → ObjectProgram α β}
    (next : assume o s → ∃ r, objectHandler grant o s = some r ∧ Lasts grant assume (f r.1) r.2 post) :
    Lasts grant assume (o.perform >>= f) s post := by
  intro assumed
  obtain ⟨r, answer, rest⟩ := next assumed
  refine ⟨trivial, fun fails => ?_, fun r' answer' => ?_⟩
  · rw [answer] at fails
    cases fails
  · rw [answer] at answer'
    cases answer'
    exact rest

theorem lasts_construct {f : Unit → ObjectProgram α β} (fits : s.fits p = true)
    (free : s.value p = none) (next : Lasts grant assume (f ()) (s.construct p x) post) :
    Lasts grant assume (ObjectOp.perform (.construct p x) >>= f) s post := by
  have empty : (s.object p).isNone = true := by
    rw [ObjectStore.value_eq_none.mp free]
    rfl
  exact lasts_perform fun _ => ⟨_, if_pos ⟨fits, empty⟩, next⟩

theorem lasts_use {f : α → ObjectProgram α β} (found : s.value p = some x)
    (next : ∀ m, s.object p = some (m, x) → Lasts grant assume (f x) (s.use m) post) :
    Lasts grant assume (ObjectOp.perform (.use p) >>= f) s post := by
  obtain ⟨m, found⟩ := ObjectStore.value_eq_some.mp found
  exact lasts_perform fun _ => ⟨(x, s.use m), by simp [objectHandler, found], next m found⟩

theorem lasts_destroy {f : Unit → ObjectProgram α β} (found : s.value p = some x)
    (next : ∀ m, s.object p = some (m, x) → Lasts grant assume (f ()) (s.destroy p m) post) :
    Lasts grant assume (ObjectOp.perform (.destroy p) >>= f) s post := by
  obtain ⟨m, found⟩ := ObjectStore.value_eq_some.mp found
  exact lasts_perform fun _ => ⟨((), s.destroy p m), by simp [objectHandler, found], next m found⟩

theorem lasts_free {f : Unit → ObjectProgram α β} (held : s.room b = some count)
    (next : Lasts grant assume (f ()) (s.release b) post) :
    Lasts grant assume (ObjectOp.perform (.free (some b)) >>= f) s post :=
  lasts_perform fun _ => ⟨((), s.release b), by simp [objectHandler, held], next⟩

theorem lasts_bind {γ : Type} {p : ObjectProgram α γ}
    {f : γ → ObjectProgram α β} {mid : γ → ObjectStore α → Prop}
    (first : Lasts grant assume p s mid) (next : ∀ a t, mid a t → Lasts grant assume (f a) t post) :
    Lasts grant assume (p >>= f) s post :=
  (Program.meets_bind p f s post).mpr (first.mono next)

end KopalniaOS.Library
