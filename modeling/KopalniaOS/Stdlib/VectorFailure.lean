import KopalniaOS.Stdlib.VectorLifetimes

/-!
# A vector that cannot grow

`reserve` does not look at what `malloc` answers. With elements it constructs the first copy through
the null pointer; without any it notes a capacity that no buffer has.
-/
namespace KopalniaOS.Stdlib.ObjectVector

open Library ObjectOp

variable {α β : Type} {grant : Allocator α} {s : ObjectStore α} {v : ObjectVector}

/-- `malloc` answers null. -/
def Null (grant : Allocator α) : ObjectOp α → ObjectStore α → Prop
  | .malloc count, s => grant count s = none
  | _, _ => False

/-- `malloc` answers null during the call. -/
def Fails (grant : Allocator α) (c : Call α) (v : ObjectVector) (s : ObjectStore α) : Prop :=
  ∃ o t, (c.perform v).Visits (objectHandler grant) s o t ∧ Null grant o t

/-- What the vector had before it still has. -/
structure Kept (v : ObjectVector) (s : ObjectStore α) (v' : ObjectVector) (t : ObjectStore α) :
    Prop where
  size : v'.size = v.size
  element : ∀ i < v.size, t.value (.element v'.data i) = s.value (.element v.data i)
  capacity : ∀ i < v'.capacity, t.fits (.element v'.data i) = true
  alive : ∀ n, .ended n ∈ t.objects.events → .ended n ∈ s.objects.events

/-- The call returns, so it does not write through a null pointer, and the contents are kept. -/
def KeepsContents (grant : Allocator α) (c : Call α) (v : ObjectVector) (s : ObjectStore α) : Prop :=
  ∃ r t, (c.perform v).run (objectHandler grant) s = some (r, t) ∧ Kept v s r.1 t

/-! ### Where `malloc` is called -/

def NoMalloc : ObjectOp α → Prop
  | .malloc _ => False
  | _ => True

theorem relocate_noMalloc (old data : Option Nat) (left i : Nat) :
    (relocate old data left i : ObjectProgram α Unit).Always NoMalloc := by
  induction left generalizing i with
  | zero => trivial
  | succ left ih => exact ⟨trivial, fun _ => ⟨trivial, fun _ => ⟨trivial, fun _ => ih (i + 1)⟩⟩⟩

theorem destroyElements_noMalloc (data : Option Nat) (left i : Nat) :
    (destroyElements data left i : ObjectProgram α Unit).Always NoMalloc := by
  induction left generalizing i with
  | zero => trivial
  | succ left ih => exact ⟨trivial, fun _ => ih (i + 1)⟩

theorem all_noMalloc {p : ObjectProgram α β} (always : p.Always NoMalloc) (s : ObjectStore α) :
    p.All (objectHandler grant) (fun o t => ¬Null grant o t) s := by
  refine always.all (fun o t noMalloc null => ?_) s
  cases o with
  | malloc count => exact noMalloc
  | _ => exact null

/-- The only one is the one of `reserve`, when the vector has to grow. -/
theorem all_reserve {newSize : Nat} {f : ObjectVector → ObjectProgram α β}
    (rest : ∀ v', (f v').Always NoMalloc) (fine : newSize ≤ v.capacity ∨ grant newSize s ≠ none) :
    (reserve newSize v >>= f).All (objectHandler grant) (fun o t => ¬Null grant o t) s := by
  rw [reserve]
  split
  · exact all_noMalloc (rest v) s
  · rename_i grows
    have given := fine.resolve_left grows
    refine (Program.all_op _ _ _).mpr ⟨given, fun r _ => all_noMalloc ?_ r.2⟩
    refine Program.Always.bind ((relocate_noMalloc v.data r.1 v.size 0).bind fun _ => ?_) rest
    exact ⟨trivial, fun _ => trivial⟩

/-! ### What the code does then -/

/-- The first copy is written through the null pointer. -/
theorem run_relocate_null (old : Option Nat) (left i : Nat) (s : ObjectStore α) :
    (relocate old none (left + 1) i).run (objectHandler grant) s = none := by
  rw [relocate, Program.run_bind, Option.bind_eq_none_iff]
  rintro ⟨x, t⟩ -
  rfl

theorem run_reserve_null {newSize : Nat} (grows : ¬newSize ≤ v.capacity)
    (null : grant newSize s = none) {v' : ObjectVector} {t : ObjectStore α}
    (ran : (reserve newSize v).run (objectHandler grant) s = some (v', t)) :
    v' = ⟨none, 0, newSize⟩ := by
  rw [reserve, if_neg grows] at ran
  simp only [Program.run_bind, Option.bind_eq_some_iff] at ran
  obtain ⟨⟨data, u⟩, answer, ⟨_, w⟩, moved, ⟨_, x⟩, -, done⟩ := ran
  have nothing : data = none := by
    simp only [Program.run_perform, objectHandler, null, Option.some.injEq, Prod.mk.injEq] at answer
    exact answer.1.symm
  subst nothing
  cases size : v.size with
  | zero =>
    -- there was nothing to copy, and the new capacity is noted
    rw [size] at done
    cases done
    rfl
  | succ left =>
    simp only [size] at moved
    rw [run_relocate_null] at moved
    cases moved

/-- `push_back` goes on to construct the new element. -/
theorem run_pushBack_null {newSize : Nat} (x : α) (grows : ¬newSize ≤ v.capacity)
    (null : grant newSize s = none) :
    (reserve newSize v >>= fun v => perform (.construct (.element v.data v.size) x) >>= fun _ =>
      pure { v with size := u64 (v.size + 1) }).run (objectHandler grant) s = none := by
  rw [Program.run_bind, Option.bind_eq_none_iff]
  rintro ⟨v', t⟩ ran
  obtain rfl := run_reserve_null grows null ran
  rfl

theorem pushBack_full (x : α) (full : v.size = v.capacity) :
    pushBack x v = (reserve (if v.capacity = 0 then 1 else u64 (v.capacity * 2)) v >>= fun v =>
      perform (.construct (.element v.data v.size) x) >>= fun _ =>
        pure { v with size := u64 (v.size + 1) }) := by
  rw [pushBack, if_pos full]

theorem pushBack_room (x : α) (room : v.size ≠ v.capacity) :
    (pushBack x v : ObjectProgram α ObjectVector).Always NoMalloc := by
  rw [pushBack, if_neg room]
  exact ⟨trivial, fun _ => trivial⟩

/-- A call during which `malloc` answers null does not return, or it is `reserve` and returns a
vector without a buffer. -/
theorem returns_null {c : Call α} {r : ObjectVector × Option α} {t : ObjectStore α}
    (fails : Fails grant c v s) (ran : (c.perform v).run (objectHandler grant) s = some (r, t)) :
    r.1.data = none ∧ r.1.capacity ≠ 0 := by
  obtain ⟨o, u, visits, null⟩ := fails
  cases c with
  | pushBack x =>
    by_cases full : v.size = v.capacity
    · rw [Call.perform, pushBack_full x full] at visits ran
      generalize (if v.capacity = 0 then 1 else u64 (v.capacity * 2)) = newSize at visits ran
      by_cases fine : newSize ≤ v.capacity ∨ grant newSize s ≠ none
      · -- then no `malloc` of the call answers null
        refine ((Program.all_bind _ _ _).mpr ⟨all_reserve (fun _ => ?_) fine, ?_⟩ o u visits null).elim
        · exact ⟨trivial, fun _ => trivial⟩
        · exact fun _ _ _ => Program.all_ret _ _
      · obtain ⟨grows, failed⟩ := not_or.mp fine
        rw [Program.run_bind, run_pushBack_null x grows (Classical.not_not.mp failed)] at ran
        cases ran
    · exact (all_noMalloc ((pushBack_room x full).bind fun _ => Program.always_ret _) s o u visits null).elim
  | popBack =>
    have noMalloc : ((Call.popBack : Call α).perform v).Always NoMalloc :=
      ⟨trivial, fun _ => ⟨trivial, fun _ => ⟨trivial, fun _ => ⟨trivial, fun _ => ⟨trivial, fun _ =>
        trivial⟩⟩⟩⟩⟩
    exact (all_noMalloc noMalloc s o u visits null).elim
  | reserve newSize =>
    by_cases fine : newSize ≤ v.capacity ∨ grant newSize s ≠ none
    · exact (all_reserve (fun _ => Program.always_ret _) fine o u visits null).elim
    · obtain ⟨grows, failed⟩ := not_or.mp fine
      rw [Call.perform, Program.run_bind] at ran
      obtain ⟨⟨v', w⟩, reserved, done⟩ := Option.bind_eq_some_iff.mp ran
      obtain rfl := run_reserve_null grows (Classical.not_not.mp failed) reserved
      cases done
      exact ⟨rfl, fun zero => grows (Nat.le_trans (Nat.le_of_eq zero) (Nat.zero_le _))⟩
  | clear =>
    have noMalloc : ((Call.clear : Call α).perform v).Always NoMalloc :=
      ((destroyElements_noMalloc _ _ _).bind fun _ => Program.always_ret _).bind fun _ =>
        Program.always_ret _
    exact (all_noMalloc noMalloc s o u visits null).elim

/-- For every vector in any state, and every call during which `malloc` answers null: the contents
are not kept. -/
theorem failure_not_keepsContents (sizeofT : ℕ+) (heap : Nat → ObjectStore α → Option Nat)
    (c : Call α) (v : ObjectVector) (s : ObjectStore α)
    (fails : Fails (allocator sizeofT heap) c v s) :
    ¬KeepsContents (allocator sizeofT heap) c v s := by
  rintro ⟨r, t, ran, kept⟩
  obtain ⟨null, capacity⟩ := returns_null fails ran
  -- no element fits a null buffer
  have first := kept.capacity 0 (Nat.pos_of_ne_zero capacity)
  rw [null] at first
  cases first

/-- A heap without any room. -/
def noHeap (_ : Nat) (_ : ObjectStore Nat) : Option Nat := none

theorem fails_pushBack : Fails (allocator 8 noHeap) (.pushBack 7) empty .empty :=
  ⟨.malloc 1, .empty, .inl ⟨rfl, rfl⟩, rfl⟩

/-- The first `push_back` writes through the null pointer. -/
theorem failure_not_keepsContents_first :
    ¬KeepsContents (allocator 8 noHeap) (.pushBack 7) empty .empty :=
  failure_not_keepsContents 8 noHeap (.pushBack 7) empty .empty fails_pushBack

theorem failure_loses_contents :
    ¬∀ (c : Call Nat) (v : ObjectVector) (s : ObjectStore Nat),
      Fails (allocator 8 noHeap) c v s → KeepsContents (allocator 8 noHeap) c v s := by
  intro keeps
  obtain ⟨r, t, ran, -⟩ := keeps (.pushBack 7) empty .empty fails_pushBack
  cases ran

end KopalniaOS.Stdlib.ObjectVector
