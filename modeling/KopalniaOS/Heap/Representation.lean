import KopalniaOS.Heap.Model
import KopalniaOS.Library.Tiling

/-!
# Block lists in memory

`Represents g m ss` says that the headers in `m` are the doubly linked list of the
segments `ss`, which tile the heap. The lemmas below say how writing a field, carving
a free segment and joining two neighbours move from one represented list to another.
-/
namespace KopalniaOS.Heap

open Library

/-! ### Fields -/

theorem Field.range (f : Field) : f.offset + f.width ≤ 32 := by
  cases f <;> decide

theorem Field.disjoint {f g : Field} (different : f ≠ g) :
    f.offset + f.width ≤ g.offset ∨ g.offset + g.width ≤ f.offset := by
  cases f <;> cases g <;> simp_all [Field.offset, Field.width]

/-- Memory after writing a field. -/
def put (m : Memory) (block : Nat) (f : Field) (value : Nat) : Memory :=
  m.store f.width (block + f.offset) value

@[simp] theorem run_getField (f : Field) (b : Nat) (m : Memory) :
    (getField f b).run memHandler m = some (field m b f, m) := rfl

@[simp] theorem run_setField (f : Field) (b v : Nat) (m : Memory) :
    (setField f b v).run memHandler m = some ((), put m b f v) := rfl

theorem field_put_same {f : Field} {v : Nat} (m : Memory) (b : Nat) (fits : v < 256 ^ f.width) :
    field (put m b f v) b f = v :=
  Memory.load_store_same m fits

theorem field_put_field {f f' : Field} (m : Memory) (b v : Nat) (different : f ≠ f') :
    field (put m b f v) b f' = field m b f' := by
  apply Memory.load_store_disjoint
  have := Field.disjoint different
  omega

theorem field_put_far {f f' : Field} {b c : Nat} (m : Memory) (v : Nat)
    (far : b + 32 ≤ c ∨ c + 32 ≤ b) : field (put m b f v) c f' = field m c f' := by
  apply Memory.load_store_disjoint
  have := f.range
  have := f'.range
  omega

theorem put_outside {f : Field} {b x : Nat} (m : Memory) (v : Nat)
    (outside : x < b ∨ b + 32 ≤ x) : put m b f v x = m x := by
  apply Memory.store_outside
  have := f.range
  omega

theorem field_congr {m m' : Memory} {b : Nat} (f : Field)
    (same : ∀ x, b ≤ x → x < b + 32 → m' x = m x) : field m' b f = field m b f := by
  have := f.range
  exact Memory.load_congr _ _ fun x lower upper => same x (by omega) (by omega)

/-- Memory after `if (next) next->prev = target`. -/
def relink (m : Memory) (next target : Nat) : Memory :=
  if next = 0 then m else put m next .prev target

theorem run_relinkNext (m : Memory) (block target : Nat) :
    (relinkNext block target).run memHandler m =
      some ((), relink m (field m block .next) target) := by
  unfold relinkNext relink
  split <;> simp_all

theorem field_relink_far {next b : Nat} {f : Field} (m : Memory) (target : Nat)
    (far : next = 0 ∨ next + 32 ≤ b ∨ b + 32 ≤ next) :
    field (relink m next target) b f = field m b f := by
  unfold relink
  split
  · rfl
  · exact field_put_far m target (by omega)

theorem field_relink_prev {next target : Nat} (m : Memory) (some : next ≠ 0)
    (word : target < 2 ^ 64) : field (relink m next target) next .prev = target := by
  unfold relink
  rw [if_neg some]
  exact field_put_same m next word

theorem field_relink_field {f : Field} (m : Memory) (next target : Nat) (other : f ≠ .prev) :
    field (relink m next target) next f = field m next f := by
  unfold relink
  split
  · rfl
  · exact field_put_field m next target (Ne.symm other)

theorem field_put_word {f : Field} {v : Nat} (m : Memory) (b : Nat) (wide : f.width = 8)
    (small : v < 2 ^ 64) : field (put m b f v) b f = v :=
  field_put_same m b (by rw [wide]; omega)

theorem field_put_flag (m : Memory) (b : Nat) (flag : Bool) :
    field (put m b .free flag.toNat) b .free = flag.toNat :=
  field_put_same m b (by cases flag <;> decide)

/-! ### Headers and lists -/

/-- The header of `s` in memory, with its two links. -/
structure Header (m : Memory) (s : Seg) (prev next : Nat) : Prop where
  size : field m s.addr .size = s.size
  free : field m s.addr .free = s.free.toNat
  next : field m s.addr .next = next
  prev : field m s.addr .prev = prev

/-- Memory after the header of a new free block was written. -/
def freshHeader (m : Memory) (block size next prev : Nat) : Memory :=
  put (put (put (put m block .size size) block .free 1) block .next next) block .prev prev

theorem header_freshHeader {size next prev : Nat} (m : Memory) (block : Nat) (sized : size < 2 ^ 64)
    (nextWord : next < 2 ^ 64) (prevWord : prev < 2 ^ 64) :
    Header (freshHeader m block size next prev) ⟨block, size, true⟩ prev next := by
  constructor
  · simp (disch := first | decide | omega) only [freshHeader, field_put_field, field_put_word]
  · simp (disch := decide) only [freshHeader, field_put_field]
    exact field_put_flag _ block true
  · simp (disch := first | decide | omega) only [freshHeader, field_put_field, field_put_word]
  · simp (disch := first | decide | omega) only [freshHeader, field_put_word]

/-- The address of the first segment, or `end` when there is none. -/
def firstAddr (last : Nat) : List Seg → Nat
  | [] => last
  | s :: _ => s.addr

def lastAddr (first : Nat) : List Seg → Nat
  | [] => first
  | s :: ss => lastAddr s.addr ss

/-- The headers of `ss` linked to each other, to `prev` in front and `next` behind. -/
def Linked (m : Memory) : Nat → Nat → List Seg → Prop
  | _, _, [] => True
  | prev, next, s :: ss => Header m s prev (firstAddr next ss) ∧ Linked m s.addr next ss

@[simp] theorem firstAddr_append (d : Nat) (xs ys : List Seg) :
    firstAddr d (xs ++ ys) = firstAddr (firstAddr d ys) xs := by
  cases xs <;> rfl

@[simp] theorem lastAddr_append (d : Nat) (xs ys : List Seg) :
    lastAddr d (xs ++ ys) = lastAddr (lastAddr d xs) ys := by
  induction xs generalizing d with
  | nil => rfl
  | cons x xs ih => exact ih x.addr

theorem linked_append {m : Memory} {prev next : Nat} (xs ys : List Seg) :
    Linked m prev next (xs ++ ys) ↔
      Linked m prev (firstAddr next ys) xs ∧ Linked m (lastAddr prev xs) next ys := by
  induction xs generalizing prev with
  | nil => simp [Linked, lastAddr]
  | cons x xs ih => simp [Linked, lastAddr, ih, and_assoc]

theorem Header.congr {m m' : Memory} {s : Seg} {prev next : Nat} (header : Header m s prev next)
    (same : ∀ f, field m' s.addr f = field m s.addr f) : Header m' s prev next :=
  ⟨(same _).trans header.size, (same _).trans header.free, (same _).trans header.next,
    (same _).trans header.prev⟩

theorem Linked.congr {m m' : Memory} {prev next : Nat} {ss : List Seg}
    (linked : Linked m prev next ss)
    (same : ∀ s ∈ ss, ∀ f, field m' s.addr f = field m s.addr f) : Linked m' prev next ss := by
  induction ss generalizing prev with
  | nil => trivial
  | cons s ss ih =>
    exact ⟨linked.1.congr (same s List.mem_cons_self),
      ih linked.2 fun t member => same t (List.mem_cons_of_mem s member)⟩

/-- Replacing the middle of a list by segments that start at the same address. -/
theorem Linked.splice {m m' : Memory} {xs old new ys : List Seg}
    (linked : Linked m 0 0 (xs ++ old ++ ys))
    (start : firstAddr (firstAddr 0 ys) new = firstAddr (firstAddr 0 ys) old)
    (before : ∀ s ∈ xs, ∀ f, field m' s.addr f = field m s.addr f)
    (middle : Linked m' (lastAddr 0 xs) (firstAddr 0 ys) new)
    (after : Linked m' (lastAddr (lastAddr 0 xs) new) 0 ys) :
    Linked m' 0 0 (xs ++ new ++ ys) := by
  rw [List.append_assoc, linked_append] at linked
  rw [List.append_assoc, linked_append, linked_append]
  refine ⟨?_, middle, after⟩
  -- what is in front links to the first address of the middle, and that stays
  rw [firstAddr_append, start, ← firstAddr_append]
  exact linked.1.congr before

/-! ### The representation -/

/-- What `heapInit` fixes about the place of the heap. -/
structure Placed (g : Globals) : Prop where
  head : g.heapHead = g.heapStart
  notNull : 0 < g.heapStart
  room : g.heapStart < g.heapEnd
  aligned : 16 ∣ g.heapStart
  bound : g.heapEnd < 2 ^ 64

structure Represents (g : Globals) (m : Memory) (ss : List Seg) : Prop where
  linked : Linked m 0 0 ss
  tiles : Tiles 32 g.heapStart g.heapEnd ss
  sizes : ∀ s ∈ ss, 16 ∣ s.size

/-- The bytes the allocator may change: headers, and what free segments hold. -/
def Owns (s : Seg) (x : Nat) : Prop :=
  s.addr ≤ x ∧ x < s.addr + 32 + if s.free then s.size else 0

/-- `m'` differs from `m` only where the allocator owns the memory of `ss`. -/
def Untouched (ss : List Seg) (m m' : Memory) : Prop :=
  ∀ x, (∀ s ∈ ss, ¬Owns s x) → m' x = m x

variable {g : Globals} {m : Memory} {ss xs ys : List Seg}

theorem Untouched.refl (ss : List Seg) (m : Memory) : Untouched ss m m := fun _ _ => rfl

/-- Writing a field of a header that lies in owned memory. -/
theorem Untouched.put {m' : Memory} (untouched : Untouched ss m m') {s : Seg} (member : s ∈ ss)
    {b : Nat} (f : Field) (v : Nat) (above : s.addr ≤ b)
    (below : b + 32 ≤ s.addr + 32 + if s.free then s.size else 0) :
    Untouched ss m (put m' b f v) := by
  intro x outside
  have apart := outside s member
  unfold Owns at apart
  rw [put_outside m' v (by omega)]
  exact untouched x outside

/-- Every header lies in owned memory. -/
theorem Untouched.putHeader {m' : Memory} (untouched : Untouched ss m m') {s : Seg}
    (member : s ∈ ss) (f : Field) (v : Nat) : Untouched ss m (Heap.put m' s.addr f v) :=
  untouched.put member f v (Nat.le_refl _) (by omega)

theorem Untouched.trans {m' m'' : Memory} {ss' : List Seg} (first : Untouched ss m m')
    (second : Untouched ss' m' m'') (owned : ∀ s' ∈ ss', ∀ x, Owns s' x → ∃ s ∈ ss, Owns s x) :
    Untouched ss m m'' := by
  intro x outside
  rw [second x, first x outside]
  intro s' member owns
  obtain ⟨s, member, owns⟩ := owned s' member x owns
  exact outside s member owns

theorem Represents.addr_dvd (placed : Placed g) (rep : Represents g m ss) {s : Seg}
    (member : s ∈ ss) : 16 ∣ s.addr :=
  rep.tiles.addr_dvd placed.aligned (by decide) rep.sizes member

theorem Represents.bounds (placed : Placed g) (rep : Represents g m ss) {s : Seg}
    (member : s ∈ ss) : 0 < s.addr ∧ s.addr + 32 + s.size < 2 ^ 64 := by
  have inside := rep.tiles.bounds member
  have := placed.notNull
  have := placed.bound
  omega

theorem Represents.length_lt (placed : Placed g) (rep : Represents g m ss) :
    ss.length < loopBound := by
  have short := rep.tiles.length_le (by decide)
  have := placed.bound
  unfold loopBound
  omega

theorem Represents.notNull (placed : Placed g) (rep : Represents g m ss) (s : Seg)
    (member : s ∈ ss) : s.addr ≠ 0 :=
  Nat.pos_iff_ne_zero.mp (rep.bounds placed member).1

theorem Represents.head (placed : Placed g) (rep : Represents g m ss) :
    g.heapHead = firstAddr 0 ss := by
  cases ss with
  | nil =>
    have empty : g.heapStart = g.heapEnd := rep.tiles
    have room := placed.room
    omega
  | cons s ss =>
    rw [placed.head]
    exact rep.tiles.1.symm

/-- Where the headers of a represented list are read. -/
theorem Represents.header {s : Seg} (rep : Represents g m (xs ++ s :: ys)) :
    Header m s (lastAddr 0 xs) (firstAddr 0 ys) :=
  ((linked_append xs (s :: ys)).mp rep.linked).2.1

theorem Represents.left {s t : Seg} (rep : Represents g m (xs ++ s :: ys)) (member : t ∈ xs) :
    t.addr + 32 + t.size ≤ s.addr :=
  rep.tiles.apart member List.mem_cons_self

theorem Represents.right {s t : Seg} (rep : Represents g m (xs ++ s :: ys)) (member : t ∈ ys) :
    s.addr + 32 + s.size ≤ t.addr := by
  have tiles := rep.tiles
  rw [List.append_cons] at tiles
  exact tiles.apart (List.mem_append_right xs List.mem_cons_self) member

/-- The segment behind `s` starts behind it, and its address is a word. -/
theorem Represents.next (placed : Placed g) {s : Seg} (rep : Represents g m (xs ++ s :: ys)) :
    (firstAddr 0 ys = 0 ∨ s.addr + 32 + s.size ≤ firstAddr 0 ys) ∧ firstAddr 0 ys < 2 ^ 64 := by
  cases ys with
  | nil => exact ⟨.inl rfl, by decide⟩
  | cons y ys =>
    have bound := (rep.bounds placed (s := y) (by simp)).2
    have behind := rep.right (List.mem_cons_self : y ∈ y :: ys)
    exact ⟨.inr behind, by simp only [firstAddr]; omega⟩

/-- What follows `s` after its first header was linked to another block. -/
theorem Represents.relinked {s : Seg} (placed : Placed g) (rep : Represents g m (xs ++ s :: ys))
    {m₂ : Memory} {target : Nat} (word : target < 2 ^ 64) (m₁ : Memory)
    (before : ∀ t ∈ ys, ∀ f, field m₁ t.addr f = field m t.addr f)
    (after : ∀ t ∈ ys, ∀ f,
      field m₂ t.addr f = field (relink m₁ (firstAddr 0 ys) target) t.addr f) :
    Linked m₂ target 0 ys := by
  have linked := ((linked_append xs (s :: ys)).mp rep.linked).2.2
  cases ys with
  | nil => trivial
  | cons y ys =>
    obtain ⟨header, rest⟩ := linked
    have here := List.mem_cons_self (a := y) (l := ys)
    have notNull := (rep.bounds placed (s := y) (by simp)).1
    have same (f : Field) (other : f ≠ .prev) : field m₂ y.addr f = field m y.addr f := by
      rw [after y here, firstAddr, field_relink_field m₁ y.addr target other, before y here]
    -- in the first header only the link to the front changed
    refine ⟨⟨(same _ (by decide)).trans header.size, (same _ (by decide)).trans header.free,
      (same _ (by decide)).trans header.next, ?_⟩, rest.congr fun t member f => ?_⟩
    · rw [after y here]
      exact field_relink_prev m₁ (by simp only [firstAddr]; omega) word
    · -- the write to the first header does not reach those behind it
      have rep' : Represents g m ((xs ++ [s]) ++ y :: ys) := by simpa using rep
      have behind := rep'.right member
      have later := List.mem_cons_of_mem y member
      rw [after t later, field_relink_far m₁ target (by simp only [firstAddr]; omega),
        before t later]

theorem Untouched.relink {m' : Memory} (untouched : Untouched ss m m') (next : ys ⊆ ss)
    (target : Nat) : Untouched ss m (relink m' (firstAddr 0 ys) target) := by
  unfold Heap.relink
  split
  · exact untouched
  · cases ys with
    | nil => contradiction
    | cons y ys => exact untouched.putHeader (next List.mem_cons_self) .prev target

end KopalniaOS.Heap
