import KopalniaOS.Heap.Client

/-!
# `std::vector`

`vector.hpp`, for elements that are plain bytes: constructing a copy moves them, and destroying
one does nothing. The vector refines a list, and growing it trades one block of the heap for another.
-/
namespace KopalniaOS.Stdlib

open Library Heap

/-! ### The code -/

structure Vector where
  data : Nat
  size : Nat
  capacity : Nat
deriving DecidableEq, Repr

def emptyVector : Vector := ⟨0, 0, 0⟩

/-- `new (&to[i]) T(from[i])` for the last `left` of the elements. -/
def copyElements (width source dest : Nat) : (left i : Nat) → ClientProgram Unit
  | 0, _ => pure ()
  | left + 1, i => do
    let x ← loadAt width (source + width * i)
    storeAt width (dest + width * i) x
    copyElements width source dest left (i + 1)

def reserve (width newSize : Nat) (v : Vector) : ClientProgram Vector :=
  if newSize ≤ v.capacity then pure v
  else do
    let data ← callMalloc (u64 (width * newSize))
    copyElements width v.data data v.size 0
    callFree v.data
    pure { v with data, capacity := newSize }

/-- `x` are the bytes of the new element, which is not one of the vector's own. -/
def pushBack (width : Nat) (v : Vector) (x : Nat) : ClientProgram Vector := do
  let v ← (if v.size = v.capacity then
      reserve width (if v.capacity = 0 then 1 else u64 (v.capacity * 2)) v
    else pure v)
  storeAt width (v.data + width * v.size) x
  pure { v with size := v.size + 1 }

/-! ### The list in a vector -/

variable {g : Globals} {st st' : HeapState} {v : Vector} {width : Nat} {xs : List (List UInt8)}
  {data : Nat} {m : Memory}

/-- `data` has the elements of `xs`, one after the other. -/
def Elements (width : Nat) (m : Memory) (data : Nat) (xs : List (List UInt8)) : Prop :=
  ∀ i x, xs[i]? = some x → m.bytes (data + width * i) width = x

structure Holds (width : Nat) (st : HeapState) (v : Vector) (xs : List (List UInt8)) : Prop where
  size : v.size = xs.length
  room : v.size ≤ v.capacity
  empty : v.capacity = 0 → v.data = 0
  live : v.capacity ≠ 0 → v.data ∈ st.live ∧ width * v.capacity ≤ st.sizeOf v.data
  elements : Elements width st.mem v.data xs

/-- The block of the vector, if it has one. -/
def Vector.blocks (v : Vector) : List Nat := if v.capacity = 0 then [] else [v.data]

theorem holds_emptyVector (width : Nat) (st : HeapState) : Holds width st emptyVector [] :=
  ⟨rfl, Nat.le_refl 0, fun _ => rfl, fun some => (some rfl).elim, fun _ _ found => by simp at found⟩

theorem Elements.congr {m m' : Memory} {data' : Nat} (elements : Elements width m data xs)
    (same : ∀ k < width * xs.length, m' (data' + k) = m (data + k)) :
    Elements width m' data' xs := by
  intro i x found
  have inside := (List.getElem?_eq_some_iff.mp found).1
  rw [← elements i x found]
  refine Memory.bytes_congr fun k small => ?_
  rw [Nat.add_assoc, Nat.add_assoc]
  apply same
  calc width * i + k < width * i + width := Nat.add_lt_add_left small _
    _ = width * (i + 1) := (Nat.mul_succ width i).symm
    _ ≤ width * xs.length := Nat.mul_le_mul_left width inside

/-- One more element behind the others. -/
theorem Elements.snoc (elements : Elements width m data xs) {x : List UInt8}
    (last : m.bytes (data + width * xs.length) width = x) : Elements width m data (xs ++ [x]) := by
  intro i y found
  rw [List.getElem?_append] at found
  split at found
  case isTrue => exact elements i y found
  case isFalse outside =>
    obtain ⟨zero, rfl⟩ : i - xs.length = 0 ∧ x = y := by
      simpa [List.getElem?_singleton] using found
    have here : i = xs.length := by omega
    rw [here]
    exact last

/-- The elements lie in the block. -/
theorem Holds.fits (holds : Holds width st v xs) (some : v.capacity ≠ 0) :
    width * xs.length ≤ st.sizeOf v.data := by
  rw [← holds.size]
  exact (Nat.mul_le_mul_left width holds.room).trans (holds.live some).2

/-- What happens to other blocks does not matter. -/
theorem Holds.preserved (holds : Holds width st v xs)
    (kept : ∀ q ∈ v.blocks, Preserved st st' q) : Holds width st' v xs := by
  have same (some : v.capacity ≠ 0) : Preserved st st' v.data :=
    kept v.data (by simp [Vector.blocks, some])
  refine ⟨holds.size, holds.room, holds.empty, fun some => ?_, ?_⟩
  · rw [(same some).size]
    exact ⟨(same some).live, (holds.live some).2⟩
  -- without room there are no elements, and nothing has to be kept
  · by_cases none : v.capacity = 0
    · have nothing : xs = [] := by
        have size := holds.size
        have room := holds.room
        exact List.eq_nil_of_length_eq_zero (by omega)
      rw [nothing]
      intro i x found
      simp at found
    · refine holds.elements.congr fun k inside => (same none).bytes _ (by omega) ?_
      have fits := holds.fits none
      omega

/-! ### Growing -/

/-- The elements after `i` are copied one at a time, to a block apart from the one they are in. -/
theorem run_copyElements (source dest left i : Nat) (notNull : dest ≠ 0)
    (apart : source + width * (i + left) ≤ dest ∨ dest + width * (i + left) ≤ source) :
    (copyElements width source dest left i).run (clientHandler g) st =
      some ((), ⟨st.mem.copyFrom st.mem (dest + width * i) (source + width * i) (width * left),
        st.live⟩) := by
  induction left generalizing i st with
  | zero => simp [copyElements]
  | succ left ih =>
    have next : width * (i + 1) = width * i + width := Nat.mul_succ width i
    have rest : width * (i + 1 + left) = width * (i + 1) + width * left := Nat.mul_add ..
    have whole : width * (left + 1) = width + width * left := by rw [Nat.mul_succ, Nat.add_comm]
    have last : i + (left + 1) = i + 1 + left := by omega
    rw [last, rest] at apart
    simp only [copyElements, loadAt, storeAt, Program.run_bind, Program.run_perform, clientHandler,
      Option.bind_some]
    rw [if_neg (by omega), Option.bind_some, ih (i + 1) (by rw [rest]; exact apart)]
    rw [Memory.store_load_eq, whole, ← Memory.copyFrom_append, next, Nat.add_assoc, Nat.add_assoc]
    -- what was copied so far is not read again
    congr 3
    refine Memory.copyFrom_congr _ fun k inside => Memory.copyFrom_outside _ _ ?_
    omega

/-- `v'` in `st'` has the elements `ys`, and of the blocks only its own has changed. -/
structure Replaced (g : Globals) (width : Nat) (st : HeapState) (v : Vector) (st' : HeapState)
    (v' : Vector) (ys : List (List UInt8)) : Prop where
  sound : Sound g st'
  holds : Holds width st' v' ys
  live : ∀ others, st.live.Perm (v.blocks ++ others) → st'.live.Perm (v'.blocks ++ others)
  fresh : ∀ q ∈ st.live, q ∉ v.blocks → q ∉ v'.blocks
  kept : ∀ q ∈ st.live, q ∉ v.blocks → Preserved st st' q

theorem mem_blocks {q : Nat} : q ∈ v.blocks ↔ v.capacity ≠ 0 ∧ q = v.data := by
  unfold Vector.blocks
  split <;> simp [*]

/-- A new element in the block of the vector, where there is room for it. -/
theorem store_replaced (sound : Sound g st) (holds : Holds width st v xs) (room : v.size < v.capacity)
    (src : Memory) (off : Nat) :
    (storeAt width (v.data + width * v.size) (src.load width off)).run (clientHandler g) st =
        some ((), ⟨st.mem.copyFrom src (v.data + width * v.size) off width, st.live⟩) ∧
      Replaced g width st v ⟨st.mem.copyFrom src (v.data + width * v.size) off width, st.live⟩
        { v with size := v.size + 1 } (xs ++ [src.bytes off width]) := by
  have some : v.capacity ≠ 0 := by omega
  obtain ⟨live, fits⟩ := holds.live some
  have notNull := sound.notNull live
  have inside : width * (v.size + 1) ≤ width * v.capacity := Nat.mul_le_mul_left width room
  rw [Nat.mul_succ] at inside
  -- the store ends inside of the block of the vector
  have outside (x : Nat) (apart : x < v.data ∨ v.data + st.sizeOf v.data ≤ x) :
      st.mem.copyFrom src (v.data + width * v.size) off width x = st.mem x :=
    Memory.copyFrom_outside _ _ (by omega)
  obtain ⟨sound', size, kept⟩ := sound.fill live outside
  constructor
  · simp only [storeAt, Program.run_perform, clientHandler]
    rw [if_neg (by omega), Memory.store_load_eq]
  · refine ⟨sound', ⟨?_, room, holds.empty, fun _ => ⟨live, by rw [size]; exact fits⟩, ?_⟩,
      fun others perm => perm, fun q _ other => other, fun q member other => kept q member fun same => ?_⟩
    · simp [holds.size]
    · have last : (st.mem.copyFrom src (v.data + width * v.size) off width).bytes
          (v.data + width * xs.length) width = src.bytes off width := by
        rw [← holds.size]
        exact Memory.bytes_congr fun k small => Memory.copyFrom_inside _ _ small
      -- the earlier elements are below the place of the new one
      refine (holds.elements.congr fun k small => ?_).snoc last
      rw [← holds.size] at small
      refine Memory.copyFrom_outside _ _ ?_
      change v.data + k < _ ∨ _
      omega
    · exact other (mem_blocks.mpr ⟨some, same⟩)

theorem blocks_nil (none : v.capacity = 0) : v.blocks = [] := if_pos none

theorem blocks_cons (some : v.capacity ≠ 0) : v.blocks = [v.data] := if_neg some

/-- A new block is apart from the elements. -/
theorem Holds.apart {newSize : Nat} (holds : Holds width st v xs) (grows : v.capacity < newSize)
    (given : Allocated g st (width * newSize) data m) :
    v.data + width * v.size ≤ data ∨ data + width * v.size ≤ v.data := by
  have copies : width * v.size ≤ width * newSize :=
    Nat.mul_le_mul_left width (holds.room.trans grows.le)
  have room := given.room
  by_cases none : v.capacity = 0
  · have nothing : v.size = 0 := Nat.eq_zero_of_le_zero (none ▸ holds.room)
    rw [nothing, Nat.mul_zero]
    exact Nat.le_total v.data data
  · have live := (holds.live none).1
    have same := given.kept v.data live
    have inside := holds.fits none
    rw [← holds.size, ← same.size] at inside
    rcases given.sound.apart same.live given.member (given.other live) with before | after
    · omega
    · omega

/-- The copy: the new block has the elements too. -/
theorem copied_elements {newSize : Nat} (holds : Holds width st v xs) (grows : v.capacity < newSize)
    (given : Allocated g st (width * newSize) data m) :
    ∃ m', (copyElements width v.data data v.size 0).run (clientHandler g) (st.allocated data m) =
        some ((), st.allocated data m') ∧ Allocated g st (width * newSize) data m' ∧
      Holds width (st.allocated data m') ⟨data, v.size, newSize⟩ xs := by
  have copies : width * v.size ≤ width * newSize :=
    Nat.mul_le_mul_left width (holds.room.trans grows.le)
  have fits := given.room
  have old : Holds width (st.allocated data m) v xs := holds.preserved fun q own => by
    obtain ⟨some, rfl⟩ := mem_blocks.mp own
    exact given.kept _ (holds.live some).1
  -- the blocks are apart, so the copy reads what was there before
  have copied := @run_copyElements g (st.allocated data m) width v.data data v.size 0 given.notNull
    ((Nat.zero_add v.size).symm ▸ holds.apart grows given)
  simp only [Nat.mul_zero, Nat.add_zero] at copied
  have filled : Allocated g st (width * newSize) data (m.copyFrom m data v.data (width * v.size)) :=
    given.fill fun x outside => Memory.copyFrom_outside _ _ (by omega)
  refine ⟨_, copied, filled, holds.size, holds.room.trans grows.le, fun none => ?_,
    fun _ => ⟨filled.member, filled.room⟩, old.elements.congr fun k inside => ?_⟩
  · exact absurd none (Nat.ne_zero_of_lt grows)
  · rw [← holds.size] at inside
    exact Memory.copyFrom_inside m m inside

/-- A larger block: it gets the elements, and the old one goes back to the heap. -/
theorem run_reserve (sound : Sound g st) (holds : Holds width st v xs) {newSize : Nat}
    (grows : v.capacity < newSize) (small : width * newSize ≤ 2 ^ 64 - 16) :
    clientHandler g (.malloc (width * newSize)) st = some (0, st) ∨
      ∃ data st', (reserve width newSize v).run (clientHandler g) st =
          some (⟨data, v.size, newSize⟩, st') ∧
        Replaced g width st v st' ⟨data, v.size, newSize⟩ xs := by
  rcases handle_malloc sound small with failed | ⟨data, m, ran, given⟩
  · exact .inl failed
  obtain ⟨m₁, copied, filled, new⟩ := copied_elements holds grows given
  have enough : newSize ≠ 0 := Nat.ne_zero_of_lt grows
  have word : u64 (width * newSize) = width * newSize := u64_of_lt (by omega)
  have ran' (st' : HeapState) (freed : clientHandler g (.free v.data) (st.allocated data m₁) =
      some ((), st')) : (reserve width newSize v).run (clientHandler g) st =
        some (⟨data, v.size, newSize⟩, st') := by
    rw [reserve, if_neg (Nat.not_le.mpr grows), word]
    simp [callMalloc, callFree, ran, copied, freed]
  have fresh (q : Nat) (member : q ∈ st.live) (_ : q ∉ v.blocks) :
      q ∉ Vector.blocks ⟨data, v.size, newSize⟩ :=
    fun own => filled.other member (mem_blocks.mp own).2
  by_cases none : v.capacity = 0
  · -- there was no block yet
    have freed : clientHandler g (.free v.data) (st.allocated data m₁) =
        some ((), st.allocated data m₁) := by
      rw [holds.empty none]
      exact handle_free_null filled.sound
    refine .inr ⟨data, _, ran' _ freed, filled.sound, new, fun others perm => ?_, fresh,
      fun q member _ => filled.kept q member⟩
    rw [blocks_nil none] at perm
    rw [filled.live_eq, blocks_cons enough]
    exact perm.cons data
  · have live := (holds.live none).1
    have other : v.data ≠ data := filled.other live
    obtain ⟨m₂, freed, sound', kept⟩ := handle_free filled.sound (filled.kept v.data live).live
    refine .inr ⟨data, _, ran' _ freed, sound', ?_, fun others perm => ?_, fresh,
      fun q member own => ?_⟩
    · refine new.preserved fun q own => ?_
      have same : q = data := (mem_blocks.mp own).2
      rw [same]
      exact kept data filled.member other.symm
    · rw [blocks_cons none] at perm
      rw [blocks_cons enough]
      have erased := (perm.cons data).erase v.data
      rw [HeapState.freed, filled.live_eq]
      simpa [List.erase_cons, other.symm] using erased
    · have different : q ≠ v.data := fun same => own (mem_blocks.mpr ⟨none, same⟩)
      have first := filled.kept q member
      exact first.trans (kept q first.live different)

theorem Replaced.trans {v' v'' : Vector} {st'' : HeapState} {ys zs : List (List UInt8)}
    (first : Replaced g width st v st' v' ys) (second : Replaced g width st' v' st'' v'' zs) :
    Replaced g width st v st'' v'' zs where
  sound := second.sound
  holds := second.holds
  live others perm := second.live others (first.live others perm)
  fresh q member own := second.fresh q (first.kept q member own).live (first.fresh q member own)
  kept q member own := (first.kept q member own).trans
    (second.kept q (first.kept q member own).live (first.fresh q member own))

/-- The capacity when the vector is full. -/
def Vector.grown (v : Vector) : Nat := if v.capacity = 0 then 1 else v.capacity * 2

/-- `malloc` fails when the vector has to grow. -/
def GrowthFails (g : Globals) (width : Nat) (st : HeapState) (v : Vector) : Prop :=
  v.size = v.capacity ∧ (clientHandler g (.malloc (width * v.grown)) st).map Prod.fst = some 0

instance (g : Globals) (width : Nat) (st : HeapState) (v : Vector) :
    Decidable (GrowthFails g width st v) := inferInstanceAs (Decidable (_ ∧ _))

/-- Without memory the first store goes through the null pointer. -/
theorem run_pushBack_null (holds : Holds width st v xs) (sound : Sound g st)
    (small : width * v.grown < 2 ^ 64) (word : v.capacity * 2 < 2 ^ 64)
    (full : v.size = v.capacity)
    (failed : clientHandler g (.malloc (width * v.grown)) st = some (0, st)) (x : Nat) :
    (pushBack width v x).run (clientHandler g) st = none := by
  have grown : (if v.capacity = 0 then 1 else u64 (v.capacity * 2)) = v.grown := by
    rw [u64_of_lt word]
    rfl
  have grows : ¬v.grown ≤ v.capacity := by
    unfold Vector.grown
    split <;> omega
  rw [pushBack, if_pos full, grown, reserve, if_neg grows, u64_of_lt small]
  simp only [callMalloc, callFree, Program.run_bind, Program.run_perform, failed, Option.bind_some]
  cases size : v.size with
  | zero =>
    -- nothing to copy, and no block to give back
    have empty : v.data = 0 := holds.empty (full ▸ size)
    rw [empty, copyElements, Program.pure_eq, Program.run_ret, Option.bind_some, handle_free_null sound]
    simp [storeAt, clientHandler]
  | succ left => simp [copyElements, loadAt, storeAt, clientHandler]

/-- A call returns unless `malloc` fails. -/
theorem run_pushBack (sound : Sound g st) (holds : Holds width st v xs)
    (small : width * v.grown ≤ 2 ^ 64 - 16) (pos : 0 < width) (src : Memory) (off : Nat) :
    (GrowthFails g width st v ∧
      (pushBack width v (src.load width off)).run (clientHandler g) st = none) ∨
    ∃ st' v', (pushBack width v (src.load width off)).run (clientHandler g) st = some (v', st') ∧
      Replaced g width st v st' v' (xs ++ [src.bytes off width]) := by
  by_cases full : v.size = v.capacity
  -- the grown capacity is larger, and small enough not to wrap
  · have capacity : v.capacity < v.grown ∧ v.capacity * 2 ≤ v.grown ∧ v.grown ≤ width * v.grown := by
      refine ⟨?_, ?_, Nat.le_mul_of_pos_left _ pos⟩
      · unfold Vector.grown
        split <;> omega
      · unfold Vector.grown
        split <;> omega
    have word : v.capacity * 2 < 2 ^ 64 := by omega
    rcases run_reserve sound holds capacity.1 small with failed | ⟨data, st₁, grew, replaced⟩
    · have fails : GrowthFails g width st v := ⟨full, by rw [failed]; rfl⟩
      exact .inl ⟨fails, run_pushBack_null holds sound (by omega) word full failed _⟩
    · obtain ⟨stored, last⟩ := store_replaced replaced.sound replaced.holds
        (v := ⟨data, v.size, v.grown⟩) (by simp only; omega) src off
      refine .inr ⟨_, _, ?_, replaced.trans last⟩
      have grown : (if v.capacity = 0 then 1 else u64 (v.capacity * 2)) = v.grown := by
        rw [u64_of_lt word]
        rfl
      rw [pushBack, if_pos full, grown]
      simp only [Program.run_bind, grew, Option.bind_some]
      rw [stored]
      rfl
  · have room : v.size < v.capacity := Nat.lt_of_le_of_ne holds.room full
    obtain ⟨stored, replaced⟩ := store_replaced sound holds room src off
    refine .inr ⟨_, _, ?_, replaced⟩
    simp [pushBack, full, stored]

end KopalniaOS.Stdlib
