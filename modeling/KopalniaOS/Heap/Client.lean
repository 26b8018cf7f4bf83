import KopalniaOS.Heap.Boundary

/-!
# The heap as its clients see it

Code that allocates, writes into what it got and frees it again does not care for the block list.
What it needs: a new block is apart from those that were live, and whatever happens to one block
leaves the others as they were.
-/
namespace KopalniaOS.Heap

open Library

variable {g : Globals} {st st' st'' : HeapState} {ss : List Seg} {n p q : Nat} {m : Memory}

/-! ### Live blocks -/

/-- What the header of a live pointer says about its payload. -/
def HeapState.sizeOf (st : HeapState) (p : Nat) : Nat := field st.mem (p - sizeofBlock) .size

/-- A heap in the place of `g` that keeps its invariant. -/
structure Sound (g : Globals) (st : HeapState) : Prop where
  placed : Placed g
  inv : ∃ ss, HeapInv g st ss

theorem sound_of_reachable {size addr : Nat} (region : Region size addr)
    (reached : Reachable size addr g st) : Sound g st := by
  obtain ⟨rfl, inv⟩ := reachable_inv region reached
  exact ⟨placed_heapInit region, inv⟩

/-- The live block at `p` is live in `st'` too, with its size and its bytes. -/
structure Preserved (st st' : HeapState) (p : Nat) : Prop where
  live : p ∈ st'.live
  size : st'.sizeOf p = st.sizeOf p
  bytes : ∀ x, p ≤ x → x < p + st.sizeOf p → st'.mem x = st.mem x

theorem Preserved.refl (member : p ∈ st.live) : Preserved st st p := ⟨member, rfl, fun _ _ _ => rfl⟩

theorem Preserved.trans (first : Preserved st st' p) (second : Preserved st' st'' p) :
    Preserved st st'' p := by
  refine ⟨second.live, second.size.trans first.size, fun x above below => ?_⟩
  rw [second.bytes x above (by rw [first.size]; exact below), first.bytes x above below]

/-- A field of the payload. -/
theorem Preserved.load (kept : Preserved st st' p) {w a : Nat} (above : p ≤ a)
    (below : a + w ≤ p + st.sizeOf p) : st'.mem.load w a = st.mem.load w a :=
  Memory.load_congr w a fun x lower upper => kept.bytes x (by omega) (by omega)

/-- The segment behind a live pointer. -/
theorem HeapInv.segment (inv : HeapInv g st ss) (member : p ∈ st.live) :
    ∃ s ∈ ss, s.free = false ∧ s.addr + 32 = p ∧ s.size = st.sizeOf p := by
  obtain ⟨s, inside, unfree, rfl⟩ := inv.mem_live.mp member
  refine ⟨s, inside, unfree, rfl, ?_⟩
  rw [HeapState.sizeOf, sizeofBlock, Nat.add_sub_cancel]
  exact (inv.fields inside).2.symm

theorem HeapInv.sizeOf_eq (inv : HeapInv g st ss) {s : Seg} (inside : s ∈ ss) :
    st.sizeOf (s.addr + 32) = s.size := by
  rw [HeapState.sizeOf, sizeofBlock, Nat.add_sub_cancel]
  exact (inv.fields inside).2

theorem Sound.bounds (sound : Sound g st) (member : p ∈ st.live) :
    g.heapStart + 32 ≤ p ∧ p + st.sizeOf p ≤ g.heapEnd ∧ 16 ∣ p := by
  obtain ⟨placed, ss, inv⟩ := sound
  obtain ⟨s, inside, unfree, rfl, size⟩ := inv.segment member
  have bounds := inv.represents.tiles.bounds inside
  have aligned := inv.represents.addr_dvd placed inside
  omega

theorem Sound.lt (sound : Sound g st) (member : p ∈ st.live) : p + st.sizeOf p < 2 ^ 64 :=
  Nat.lt_of_le_of_lt (sound.bounds member).2.1 sound.placed.bound

theorem Sound.notNull (sound : Sound g st) (member : p ∈ st.live) : p ≠ 0 := by
  have bounds := sound.bounds member
  omega

theorem Sound.nodup (sound : Sound g st) : st.live.Nodup := by
  obtain ⟨-, ss, inv⟩ := sound
  exact inv.live.nodup_iff.mpr (payloads_nodup inv.represents.tiles)

/-- Between two payloads lies at least the header of the second. -/
theorem Sound.apart (sound : Sound g st) (first : p ∈ st.live) (second : q ∈ st.live)
    (other : p ≠ q) : p + st.sizeOf p + 32 ≤ q ∨ q + st.sizeOf q + 32 ≤ p := by
  obtain ⟨-, ss, inv⟩ := sound
  obtain ⟨s, insideS, -, rfl, sizeS⟩ := inv.segment first
  obtain ⟨t, insideT, -, rfl, sizeT⟩ := inv.segment second
  rcases inv.represents.tiles.separate insideS insideT with rfl | before | after
  · exact (other rfl).elim
  · omega
  · omega

/-! ### What happens to the others -/

theorem Sound.fill (sound : Sound g st) (member : p ∈ st.live)
    (same : ∀ x, x < p ∨ p + st.sizeOf p ≤ x → m x = st.mem x) :
    Sound g ⟨m, st.live⟩ ∧ HeapState.sizeOf ⟨m, st.live⟩ p = st.sizeOf p ∧
      ∀ q ∈ st.live, q ≠ p → Preserved st ⟨m, st.live⟩ q := by
  obtain ⟨placed, ss, inv⟩ := sound
  have filled : HeapInv g ⟨m, st.live⟩ ss := inv.fill member same
  have size {q : Nat} (live : q ∈ st.live) :
      HeapState.sizeOf ⟨m, st.live⟩ q = st.sizeOf q := by
    obtain ⟨s, inside, -, rfl, size⟩ := inv.segment live
    rw [filled.sizeOf_eq inside, size]
  refine ⟨⟨placed, ss, filled⟩, size member, fun q live other => ⟨live, size live, ?_⟩⟩
  intro x above below
  have apart := Sound.apart ⟨placed, ss, inv⟩ member live other.symm
  apply same
  omega

/-- The new live pointer of a successful `malloc`, and what became of the others. -/
structure Allocated (g : Globals) (st : HeapState) (n p : Nat) (m : Memory) : Prop where
  notNull : p ≠ 0
  fresh : p ∉ st.live
  sound : Sound g (st.allocated p m)
  room : n ≤ (st.allocated p m).sizeOf p
  kept : ∀ q ∈ st.live, Preserved st (st.allocated p m) q

theorem Allocated.member (given : Allocated g st n p m) : p ∈ (st.allocated p m).live := by
  simp [HeapState.allocated, given.notNull]

theorem Allocated.live_eq (given : Allocated g st n p m) :
    (st.allocated p m).live = p :: st.live := by
  simp [HeapState.allocated, given.notNull]

theorem Allocated.other (given : Allocated g st n p m) (member : q ∈ st.live) : q ≠ p := by
  rintro rfl
  exact given.fresh member

/-- The client writes into the new payload. -/
theorem Allocated.fill (given : Allocated g st n p m) {m' : Memory}
    (same : ∀ x, x < p ∨ p + (st.allocated p m).sizeOf p ≤ x → m' x = m x) :
    Allocated g st n p m' := by
  obtain ⟨sound, size, kept⟩ := given.sound.fill given.member same
  refine ⟨given.notNull, given.fresh, sound, ?_, fun q member => ?_⟩
  · change n ≤ HeapState.sizeOf ⟨m', (st.allocated p m).live⟩ p
    rw [size]
    exact given.room
  · have old := given.kept q member
    exact old.trans (kept q old.live (given.other member))

/-- Every request but those that the rounding wraps. -/
theorem Sound.malloc (sound : Sound g st) (small : n ≤ 2 ^ 64 - 16) :
    (Heap.malloc g n).run memHandler st.mem = some (0, st.mem) ∨
      ∃ p m, (Heap.malloc g n).run memHandler st.mem = some (p, m) ∧ Allocated g st n p m := by
  obtain ⟨placed, ss, inv⟩ := sound
  rcases inv.malloc placed n with ⟨-, failed⟩ | ⟨xs, s, ys, m, rfl, -, free, fits, ran, inv', untouched⟩
  · exact .inl failed
  obtain ⟨given, member, low, -, -⟩ := mem_carve s xs ys fits
  refine .inr ⟨_, m, ran, Nat.succ_ne_zero _, ?_, ⟨placed, _, inv'⟩, ?_, fun q live => ?_⟩
  · -- a live pointer is that of a used segment
    intro live
    obtain ⟨t, inside, unfree, same, -⟩ := inv.segment live
    have equal := inv.represents.tiles.eq_of_addr (by decide) inside (by simp : s ∈ xs ++ s :: ys)
      (by omega)
    rw [equal, free] at unfree
    cases unfree
  · have size : (st.allocated (s.addr + 32) m).sizeOf (s.addr + 32) = given :=
      inv'.sizeOf_eq member
    have enough := le_roundSize small
    omega
  · obtain ⟨t, inside, unfree, rfl, size⟩ := inv.segment live
    have stays := mem_replaced inside (Seg.ne_of_free unfree free) (carve 32 16 (roundSize n) s)
    refine ⟨?_, (inv'.sizeOf_eq stays).trans size, fun x above below => ?_⟩
    · simp [HeapState.allocated, live]
    · exact untouched x (payload_not_owned inv inside unfree above (by omega))

/-- `free` of a live pointer. -/
theorem Sound.free (sound : Sound g st) (member : p ∈ st.live) :
    ∃ m, (Heap.free p).run memHandler st.mem = some ((), m) ∧ Sound g (st.freed p m) ∧
      ∀ q ∈ st.live, q ≠ p → Preserved st (st.freed p m) q := by
  obtain ⟨placed, ss, inv⟩ := sound
  obtain ⟨xs, s, ys, m, ss', rfl, unfree, rfl, ran, inv', joined, untouched⟩ := inv.free placed member
  refine ⟨m, ran, ⟨placed, ss', inv'⟩, fun q live other => ?_⟩
  obtain ⟨t, inside, unfree', rfl, size⟩ := inv.segment live
  have different : t ≠ s := fun same => other (congrArg (·.addr + 32) same)
  have stays : t ∈ ss' := by
    have picked : t ∈ used xs ++ used ys := by
      simpa [unfree'] using mem_replaced inside different []
    rw [← joined.used_eq] at picked
    exact (mem_used.mp picked).1
  refine ⟨?_, (inv'.sizeOf_eq stays).trans size, fun x above below => untouched x fun u there => ?_⟩
  · exact (List.mem_erase_of_ne other).mpr live
  · -- what is freed is apart from `t`, and the other segments are as before
    by_cases freed : u = { s with free := true }
    · subst freed
      rintro ⟨lower, upper⟩
      have separate := inv.represents.tiles.separate inside (by simp : s ∈ xs ++ s :: ys)
      simp only [if_true] at lower upper
      rcases separate.resolve_left different with apart | apart
      · omega
      · omega
    · have old : u ∈ xs ++ s :: ys := by simpa using mem_replaced there freed [s]
      exact payload_not_owned inv inside unfree' above (by omega) u old

/-! ### Aligned blocks -/

/-- `n` bytes at `p` inside the live block at `raw`, which the word in front of `p` names. -/
structure Held (st : HeapState) (n p raw : Nat) : Prop where
  live : raw ∈ st.live
  above : raw + 8 ≤ p
  below : p + n ≤ raw + st.sizeOf raw
  header : st.mem.load 8 (p - 8) = raw

theorem Held.preserved {raw : Nat} (held : Held st n p raw) (kept : Preserved st st' raw) :
    Held st' n p raw := by
  have above := held.above
  have below := held.below
  refine ⟨kept.live, above, by rw [kept.size]; exact below, ?_⟩
  rw [← held.header]
  exact kept.load (by omega) (by omega)

/-- What is read of it stays the same. -/
theorem Held.load {raw : Nat} (held : Held st n p raw) (kept : Preserved st st' raw) {w a : Nat}
    (above : p ≤ a) (below : a + w ≤ p + n) : st'.mem.load w a = st.mem.load w a := by
  have lower := held.above
  have upper := held.below
  exact kept.load (by omega) (by omega)

/-- Bytes of two blocks do not meet. -/
theorem Sound.held_apart (sound : Sound g st) {raw n' p' raw' : Nat} (held : Held st n p raw)
    (held' : Held st n' p' raw') (other : raw ≠ raw') : p + n ≤ p' ∨ p' + n' ≤ p := by
  have above := held.above
  have below := held.below
  have above' := held'.above
  have below' := held'.below
  rcases sound.apart held.live held'.live other with before | after
  · omega
  · omega

/-- A word is written into memory that is held. -/
theorem Sound.store (sound : Sound g st) {raw a : Nat} (held : Held st n p raw) (above : p ≤ a)
    (below : a + 8 ≤ p + n) (value : Nat) :
    Sound g ⟨st.mem.store 8 a value, st.live⟩ ∧ Held ⟨st.mem.store 8 a value, st.live⟩ n p raw ∧
      ∀ q ∈ st.live, q ≠ raw → Preserved st ⟨st.mem.store 8 a value, st.live⟩ q := by
  have lower := held.above
  have upper := held.below
  have same (x : Nat) (outside : x < raw ∨ raw + st.sizeOf raw ≤ x) :
      st.mem.store 8 a value x = st.mem x := Memory.store_outside _ _ _ _ _ (by omega)
  obtain ⟨sound', size, kept⟩ := sound.fill held.live same
  refine ⟨sound', ⟨held.live, lower, by rw [size]; exact upper, ?_⟩, kept⟩
  rw [← held.header]
  exact Memory.load_store_disjoint _ (by omega)

/-- The word is written into the new block. -/
theorem Allocated.held {raw total : Nat} (given : Allocated g st total raw m) (above : raw + 8 ≤ p)
    (below : p + n ≤ raw + total) :
    Allocated g st total raw (m.store 8 (p - 8) raw) ∧
      Held (st.allocated raw (m.store 8 (p - 8) raw)) n p raw := by
  have room := given.room
  have filled : Allocated g st total raw (m.store 8 (p - 8) raw) :=
    given.fill fun x outside => Memory.store_outside m 8 (p - 8) raw x (by omega)
  have bound := given.sound.lt given.member
  refine ⟨filled, filled.member, above, ?_, ?_⟩
  · have room' := filled.room
    omega
  · exact Memory.load_store_same m (by omega)

variable {k j : Nat}

theorem Sound.mallocAlign (sound : Sound g st) (small : n + 2 ^ k + 8 ≤ 2 ^ 64 - 16) :
    ((Heap.malloc g (alignedTotal n (2 ^ k))).run memHandler st.mem = some (0, st.mem) ∧
      (Heap.mallocAlign g n (2 ^ k)).run memHandler st.mem = some (0, st.mem)) ∨
    ∃ p raw m m₁,
      (Heap.malloc g (alignedTotal n (2 ^ k))).run memHandler st.mem = some (raw, m₁) ∧
      (Heap.mallocAlign g n (2 ^ k)).run memHandler st.mem = some (p, m) ∧
      Allocated g st (n + 2 ^ k + 8) raw m ∧ Held (st.allocated raw m) n p raw ∧ 2 ^ k ∣ p := by
  have pos := Nat.two_pow_pos k
  have total : alignedTotal n (2 ^ k) = n + 2 ^ k + 8 := alignedTotal_of_le (by omega)
  rw [total]
  rcases sound.malloc small with failed | ⟨raw, m, ran, given⟩
  · have answer := run_mallocAlign (Nat.ne_of_gt pos) (total ▸ failed)
    exact .inl ⟨failed, by rwa [if_pos rfl] at answer⟩
  have answer := run_mallocAlign (Nat.ne_of_gt pos) (total ▸ ran)
  -- the aligned address and the header in front of it are inside of the block
  have bound := given.sound.lt given.member
  have room := given.room
  have base : u64 (raw + 8) = raw + 8 := u64_of_lt (by omega)
  obtain ⟨multiple, above, below⟩ := @alignUp_bounds k (raw + 8) (by omega) (by omega)
  rw [if_neg given.notNull, base, sub64_of_le (by omega) (by omega)] at answer
  obtain ⟨filled, held⟩ := given.held (n := n) above (by omega)
  exact .inr ⟨_, raw, _, m, ran, answer, filled, held, multiple⟩

/-- A request that fits between two boundaries fails only when `malloc` fails. -/
theorem Sound.mallocBoundry (sound : Sound g st) (bits : j < 64) (pos : 1 ≤ n) (fits : n ≤ 2 ^ j)
    (small : n + 2 ^ k + 2 ^ j + 8 ≤ 2 ^ 64 - 16) :
    ((Heap.malloc g (boundryTotal n (2 ^ k) (2 ^ j))).run memHandler st.mem = some (0, st.mem) ∧
      (Heap.mallocBoundry g n (2 ^ k) (2 ^ j)).run memHandler st.mem = some (0, st.mem)) ∨
    ∃ p raw m m₁,
      (Heap.malloc g (boundryTotal n (2 ^ k) (2 ^ j))).run memHandler st.mem = some (raw, m₁) ∧
      (Heap.mallocBoundry g n (2 ^ k) (2 ^ j)).run memHandler st.mem = some (p, m) ∧
      Allocated g st (n + 2 ^ k + 2 ^ j + 8) raw m ∧ Held (st.allocated raw m) n p raw ∧
      2 ^ k ∣ p ∧ p / 2 ^ j = (p + n - 1) / 2 ^ j := by
  have window := Nat.two_pow_pos j
  have power := Nat.two_pow_pos k
  have used : alignment (2 ^ k) = 2 ^ k := if_neg (Nat.ne_of_gt power)
  have total : boundryTotal n (2 ^ k) (2 ^ j) = n + 2 ^ k + 2 ^ j + 8 := by
    have first : u64 (n + 2 ^ k) = n + 2 ^ k := u64_of_lt (by omega)
    have second : u64 (n + 2 ^ k + 2 ^ j) = n + 2 ^ k + 2 ^ j := u64_of_lt (by omega)
    rw [boundryTotal, first, second, sizeofAlignHeader, u64_of_lt (by omega)]
  have accepted : Accepted n (2 ^ k) (2 ^ j) := by
    refine ⟨?_, notPowerOfTwo_two_pow bits⟩
    have all : not64 0 = 2 ^ 64 - 1 := rfl
    rw [tooLarge, all, sizeofAlignHeader, sub64_of_le (a := 2 ^ 64 - 1) (by omega) (by omega),
      sub64_of_le (a := 2 ^ 64 - 1 - 2 ^ k) (by omega) (by omega),
      sub64_of_le (by omega) (by omega), decide_eq_false_iff_not]
    omega
  rw [total]
  rcases sound.malloc small with failed | ⟨raw, m, ran, given⟩
  · have answer := run_mallocBoundry accepted (by rw [used, total]; exact failed)
    exact .inl ⟨failed, by rwa [if_pos rfl] at answer⟩
  have answer := run_mallocBoundry accepted (by rw [used, total]; exact ran)
  have bound := given.sound.lt given.member
  have room := given.room
  have base : u64 (raw + 8) = raw + 8 := u64_of_lt (by omega)
  obtain ⟨multiple, above, below⟩ := @alignUp_bounds k (raw + 8) (by omega) (by omega)
  -- the address moves to the next window at most, for which the block is long enough
  obtain ⟨found, moved⟩ := boundryCheck_moves (.inr ⟨j, rfl⟩) multiple pos (by omega)
  obtain ⟨p, check⟩ := found (.inr fits)
  obtain ⟨multiple, after, before, inside⟩ := moved p check
  have last : u64 (p + n) = p + n := u64_of_lt (by omega)
  have whole : u64 (raw + (n + 2 ^ k + 2 ^ j + 8)) = raw + (n + 2 ^ k + 2 ^ j + 8) :=
    u64_of_lt (by omega)
  rw [if_neg given.notNull, used, total, base, check] at answer
  dsimp only at answer
  rw [whole, last, if_neg (by omega), sub64_of_le (by omega) (by omega)] at answer
  obtain ⟨filled, held⟩ := given.held (p := p) (n := n) (by omega) (by omega)
  exact .inr ⟨p, raw, _, m, ran, answer, filled, held, multiple, inside (Nat.ne_of_gt window)⟩

/-- `free_align` and `free_boundry` free the block that holds the bytes. -/
theorem Sound.release (sound : Sound g st) {raw : Nat} (held : Held st n p raw) :
    ∃ m, (Heap.freeAlign p).run memHandler st.mem = some ((), m) ∧ Sound g (st.freed raw m) ∧
      ∀ q ∈ st.live, q ≠ raw → Preserved st (st.freed raw m) q := by
  have above := held.above
  have below := held.below
  have bound := sound.lt held.live
  obtain ⟨m, ran, freed, kept⟩ := sound.free held.live
  obtain ⟨align, -⟩ := run_release (by omega) (by omega) held.header
  exact ⟨m, align.trans ran, freed, kept⟩

/-! ### Operations of a client -/

inductive ClientOp where
  | load (width addr : Nat)
  | store (width addr value : Nat)
  | malloc (size : Nat)
  | free (ptr : Nat)
  | mallocAlign (size align : Nat)
  | freeAlign (ptr : Nat)
  | mallocBoundry (size align boundry : Nat)

abbrev ClientOp.Answer : ClientOp → Type
  | .load .. | .malloc .. | .mallocAlign .. | .mallocBoundry .. => Nat
  | _ => Unit

abbrev ClientProgram := Program ClientOp ClientOp.Answer

/-- The kernel maps the null page without write access, so a store there does not return. What the
aligned calls allocate and free is the block around the pointer. -/
def clientHandler (g : Globals) : Handler ClientOp ClientOp.Answer HeapState
  | .load w a, st => some (st.mem.load w a, st)
  | .store w a v, st => if a = 0 then none else some ((), ⟨st.mem.store w a v, st.live⟩)
  | .malloc n, st => do
    let (p, m) ← (Heap.malloc g n).run memHandler st.mem
    some (p, st.allocated p m)
  | .free p, st => do
    let (_, m) ← (Heap.free p).run memHandler st.mem
    some ((), st.freed p m)
  | .mallocAlign n align, st => do
    let (raw, _) ← (Heap.malloc g (alignedTotal n align)).run memHandler st.mem
    let (p, m) ← (Heap.mallocAlign g n align).run memHandler st.mem
    some (p, st.allocated raw m)
  | .freeAlign p, st => do
    let (_, m) ← (Heap.freeAlign p).run memHandler st.mem
    some ((), if p = 0 then st else st.freed (st.mem.load 8 (p - 8)) m)
  | .mallocBoundry n align boundry, st => do
    let (raw, _) ← (Heap.malloc g (boundryTotal n align boundry)).run memHandler st.mem
    let (p, m) ← (Heap.mallocBoundry g n align boundry).run memHandler st.mem
    some (p, st.allocated (if p = 0 then 0 else raw) m)

def loadAt (width addr : Nat) : ClientProgram Nat := Program.perform (ClientOp.load width addr)

def storeAt (width addr value : Nat) : ClientProgram Unit :=
  Program.perform (ClientOp.store width addr value)

def callMalloc (size : Nat) : ClientProgram Nat := Program.perform (ClientOp.malloc size)

def callFree (ptr : Nat) : ClientProgram Unit := Program.perform (ClientOp.free ptr)

theorem handle_malloc (sound : Sound g st) (small : n ≤ 2 ^ 64 - 16) :
    clientHandler g (.malloc n) st = some (0, st) ∨
      ∃ (p : Nat) (m : Memory), clientHandler g (.malloc n) st = some (p, st.allocated p m) ∧
        Allocated g st n p m := by
  rcases sound.malloc small with failed | ⟨p, m, ran, given⟩
  · exact .inl (by simp [clientHandler, failed, HeapState.allocated])
  · exact .inr ⟨p, m, by simp [clientHandler, ran], given⟩

theorem handle_free (sound : Sound g st) (member : p ∈ st.live) :
    ∃ m, clientHandler g (.free p) st = some ((), st.freed p m) ∧ Sound g (st.freed p m) ∧
      ∀ q ∈ st.live, q ≠ p → Preserved st (st.freed p m) q := by
  obtain ⟨m, ran, freed⟩ := sound.free member
  exact ⟨m, by simp [clientHandler, ran], freed⟩

/-- `free(nullptr)` -/
theorem handle_free_null (sound : Sound g st) : clientHandler g (.free 0) st = some ((), st) := by
  have absent : 0 ∉ st.live := fun member => sound.notNull member rfl
  simp [clientHandler, Heap.free, HeapState.freed, List.erase_of_not_mem absent]

theorem handle_mallocAlign (sound : Sound g st) (small : n + 2 ^ k + 8 ≤ 2 ^ 64 - 16) :
    clientHandler g (.mallocAlign n (2 ^ k)) st = some (0, st) ∨
      ∃ (p raw : Nat) (m : Memory),
        clientHandler g (.mallocAlign n (2 ^ k)) st = some (p, st.allocated raw m) ∧
        Allocated g st (n + 2 ^ k + 8) raw m ∧ Held (st.allocated raw m) n p raw ∧ 2 ^ k ∣ p := by
  rcases sound.mallocAlign (n := n) (k := k) small with ⟨none, failed⟩ |
    ⟨p, raw, m, m₁, taken, ran, given⟩
  · exact .inl (by simp [clientHandler, none, failed, HeapState.allocated])
  · exact .inr ⟨p, raw, m, by simp [clientHandler, taken, ran], given⟩

theorem handle_freeAlign {raw : Nat} (sound : Sound g st) (held : Held st n p raw) :
    ∃ m, clientHandler g (.freeAlign p) st = some ((), st.freed raw m) ∧ Sound g (st.freed raw m) ∧
      ∀ q ∈ st.live, q ≠ raw → Preserved st (st.freed raw m) q := by
  obtain ⟨m, ran, freed⟩ := sound.release held
  have above := held.above
  have notNull : p ≠ 0 := by omega
  exact ⟨m, by simp [clientHandler, ran, notNull, held.header], freed⟩

theorem handle_freeAlign_null : clientHandler g (.freeAlign 0) st = some ((), st) := rfl

theorem handle_mallocBoundry (sound : Sound g st) (bits : j < 64) (pos : 1 ≤ n) (fits : n ≤ 2 ^ j)
    (small : n + 2 ^ k + 2 ^ j + 8 ≤ 2 ^ 64 - 16) :
    clientHandler g (.mallocBoundry n (2 ^ k) (2 ^ j)) st = some (0, st) ∨
      ∃ (p raw : Nat) (m : Memory),
        clientHandler g (.mallocBoundry n (2 ^ k) (2 ^ j)) st = some (p, st.allocated raw m) ∧
        Allocated g st (n + 2 ^ k + 2 ^ j + 8) raw m ∧ Held (st.allocated raw m) n p raw ∧
        2 ^ k ∣ p ∧ p / 2 ^ j = (p + n - 1) / 2 ^ j := by
  rcases sound.mallocBoundry (k := k) bits pos fits small with ⟨none, failed⟩ |
    ⟨p, raw, m, m₁, taken, ran, given, held, rest⟩
  · exact .inl (by simp [clientHandler, none, failed, HeapState.allocated])
  · have above := held.above
    have notNull : p ≠ 0 := by omega
    exact .inr ⟨p, raw, m, by simp [clientHandler, taken, ran, notNull], given, held, rest⟩

end KopalniaOS.Heap
