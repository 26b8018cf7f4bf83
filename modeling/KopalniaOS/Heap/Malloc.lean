import KopalniaOS.Heap.Representation

/-!
# What `malloc` does to a represented list

The scan stops at the first free segment that is large enough, from whatever block it
starts, and the block body replaces that segment by its carved form.
-/
namespace KopalniaOS.Heap

open Library

variable {g : Globals} {m : Memory} {xs ys : List Seg} {s : Seg}

theorem roundSize_eq (n : Nat) : roundSize n = u64 (n + 15) / 16 * 16 :=
  and_not64_two_pow_sub_one (k := 4) (u64_lt _) (by decide)

theorem roundSize_dvd (n : Nat) : 16 ∣ roundSize n := by
  rw [roundSize_eq]
  exact Nat.dvd_mul_left 16 _

/-- Without wrap-around the rounding only adds. -/
theorem le_roundSize {n : Nat} (small : n ≤ 2 ^ 64 - 16) : n ≤ roundSize n := by
  rw [roundSize_eq, u64_of_lt (by omega)]
  omega

/-- Memory after the split branch of `malloc`. -/
def splitMem (m : Memory) (block newBlock newSize next size : Nat) : Memory :=
  put (put (relink (freshHeader m newBlock newSize next block) next newBlock) block .size size)
    block .next newBlock

theorem run_splitBlock {n : Nat} (placed : Placed g) (rep : Represents g m (xs ++ s :: ys))
    (room : n + 48 ≤ s.size) :
    (splitBlock s.addr n).run memHandler m = some ((),
      splitMem m s.addr (s.addr + 32 + n) (s.size - n - 32) (firstAddr 0 ys) n) := by
  have header := rep.header
  obtain ⟨-, bound⟩ := rep.bounds placed (s := s) (by simp)
  obtain ⟨-, nextBound⟩ := rep.next placed
  have newSize : sub64 (sub64 s.size n) 32 = s.size - n - 32 := by
    rw [sub64_of_le (a := s.size) (by omega) (by omega), sub64_of_le (by omega) (by omega)]
  have newBlock : u64 (u64 (s.addr + 32) + n) = s.addr + 32 + n := by
    rw [u64_of_lt (x := s.addr + 32) (by omega), u64_of_lt (by omega)]
  have next : field m s.addr .next = firstAddr 0 ys := header.next
  simp only [splitBlock, Program.run_bind, run_getField, run_setField, Option.bind_some,
    run_relinkNext, header.size, newSize, newBlock, splitMem, freshHeader]
  simp (disch := omega) only [field_put_far, next]
  rw [field_put_field _ _ _ (by decide), field_put_word _ _ rfl nextBound]

/-- The two headers of a split block: the used front and the free rest. -/
private theorem headers_split {n next prev : Nat} (bound : s.addr + 32 + s.size < 2 ^ 64)
    (room : n + 48 ≤ s.size) (apart : next = 0 ∨ s.addr + 32 + s.size ≤ next)
    (word : next < 2 ^ 64) (before : field m s.addr .prev = prev) :
    let m' := put (splitMem m s.addr (s.addr + 32 + n) (s.size - n - 32) next n) s.addr .free 0
    Header m' ⟨s.addr, n, false⟩ prev (s.addr + 32 + n) ∧
      Header m' ⟨s.addr + 32 + n, s.size - n - 32, true⟩ s.addr next := by
  intro m'
  -- the new header lies in what was the payload, apart from the old one
  constructor
  · constructor
    · simp (disch := first | decide | omega) only [m', splitMem, field_put_field,
        field_put_word]
    · exact field_put_flag _ _ false
    · simp (disch := first | decide | omega) only [m', splitMem, field_put_field,
        field_put_word]
    · simp (disch := first | decide | omega) only [m', splitMem, freshHeader,
        field_put_field, field_put_far, field_relink_far, before]
  · refine (header_freshHeader m (s.addr + 32 + n) (by omega) word (by omega)).congr fun f => ?_
    simp (disch := omega) only [m', splitMem, field_put_far, field_relink_far]

/-- The list after a split, once the block is marked used. -/
private theorem represents_split {n : Nat} (placed : Placed g)
    (rep : Represents g m (xs ++ s :: ys)) (free : s.free = true) (aligned : 16 ∣ n)
    (room : n + 48 ≤ s.size) :
    let m' := put (splitMem m s.addr (s.addr + 32 + n) (s.size - n - 32) (firstAddr 0 ys) n)
      s.addr .free 0
    Represents g m' (xs ++ carve 32 16 n s ++ ys) ∧ Untouched (xs ++ s :: ys) m m' := by
  intro m'
  have member : s ∈ xs ++ s :: ys := by simp
  obtain ⟨notNull, bound⟩ := rep.bounds placed member
  obtain ⟨next, nextBound⟩ := rep.next placed
  have linked : Linked m 0 0 (xs ++ [s] ++ ys) := by simpa using rep.linked
  have split : carve 32 16 n s =
      [⟨s.addr, n, false⟩, ⟨s.addr + 32 + n, s.size - n - 32, true⟩] := if_pos (by omega)
  obtain ⟨front, rest⟩ := headers_split bound room next nextBound rep.header.prev
  refine ⟨⟨?_, tiles_carve rep.tiles, ?_⟩, ?_⟩
  · rw [split]
    -- nothing in front is written; behind, one header gets a new link to its front
    refine linked.splice rfl (fun t before f => ?_) ⟨front, rest, trivial⟩ ?_
    · have apart := rep.tiles.apart before List.mem_cons_self
      simp (disch := omega) only [m', splitMem, freshHeader, field_put_far, field_relink_far]
    · refine rep.relinked placed (by simp only [lastAddr]; omega)
        (freshHeader m (s.addr + 32 + n) (s.size - n - 32) (firstAddr 0 ys) s.addr)
        (fun t after f => ?_) fun t after f => ?_
      · have behind := rep.right after
        simp (disch := omega) only [freshHeader, field_put_far]
      · have behind := rep.right after
        simp (disch := omega) only [m', splitMem, lastAddr, field_put_far]
  · intro t member
    rw [split] at member
    simp only [List.append_assoc, List.cons_append, List.nil_append, List.mem_append,
      List.mem_cons] at member
    have size := rep.sizes s (by simp)
    rcases member with before | rfl | rfl | after
    · exact rep.sizes t (by simp [before])
    · exact aligned
    · simp only
      omega
    · exact rep.sizes t (by simp [after])
  · -- the new header lies in the free bytes of `s`
    have inside {m₁ : Memory} (untouched : Untouched (xs ++ s :: ys) m m₁) (f : Field) (v : Nat) :
        Untouched (xs ++ s :: ys) m (put m₁ (s.addr + 32 + n) f v) :=
      untouched.put member f v (by omega) (by simp only [free, if_true]; omega)
    have fresh : Untouched (xs ++ s :: ys) m
        (freshHeader m (s.addr + 32 + n) (s.size - n - 32) (firstAddr 0 ys) s.addr) :=
      inside (inside (inside (inside (.refl _ m) _ _) _ _) _ _) _ _
    have behind : ys ⊆ xs ++ s :: ys := fun t after => by simp [after]
    have relinked := fresh.relink behind (s.addr + 32 + n)
    exact ((relinked.putHeader member _ _).putHeader member _ _).putHeader member _ _

/-! ### The block `malloc` picks -/

/-- Marking a block keeps the list. -/
theorem Represents.mark (rep : Represents g m (xs ++ s :: ys)) (flag : Bool) :
    Represents g (put m s.addr .free flag.toNat) (xs ++ { s with free := flag } :: ys) := by
  obtain ⟨left, header, right⟩ := (linked_append xs (s :: ys)).mp rep.linked
  obtain ⟨mid, before, here, after⟩ := (tiles_append xs (s :: ys)).mp rep.tiles
  refine ⟨(linked_append xs _).mpr ⟨?_, ⟨?_, ?_, ?_, ?_⟩, ?_⟩,
    (tiles_append xs _).mpr ⟨mid, before, here, after⟩, fun t member => ?_⟩
  -- the flag is apart from the headers on either side
  · refine left.congr fun t member f => ?_
    have apart := rep.left member
    exact field_put_far m _ (by omega)
  · exact (field_put_field m s.addr _ (by decide)).trans header.size
  · exact field_put_flag m s.addr flag
  · exact (field_put_field m s.addr _ (by decide)).trans header.next
  · exact (field_put_field m s.addr _ (by decide)).trans header.prev
  · refine right.congr fun t member f => ?_
    have apart := rep.right member
    exact field_put_far m _ (by omega)
  · by_cases marked : t = { s with free := flag }
    · rw [marked]
      exact rep.sizes s (by simp)
    · exact rep.sizes t (by simpa using mem_replaced member marked [s])

theorem run_takeBlock {n : Nat} (placed : Placed g) (rep : Represents g m (xs ++ s :: ys))
    (free : s.free = true) (aligned : 16 ∣ n) (fits : n ≤ s.size) :
    ∃ m', (takeBlock s.addr n).run memHandler m = some (s.addr + 32, m') ∧
      Represents g m' (xs ++ carve 32 16 n s ++ ys) ∧ Untouched (xs ++ s :: ys) m m' := by
  have member : s ∈ xs ++ s :: ys := by simp
  obtain ⟨notNull, bound⟩ := rep.bounds placed member
  have addrAligned := rep.addr_dvd placed member
  -- a request that fits into a block is far from the end of the word
  have threshold : u64 (u64 (n + sizeofBlock) + 16) = n + 48 := by
    have inner : u64 (n + 32) = n + 32 := u64_of_lt (by omega)
    rw [sizeofBlock, inner, u64_of_lt (by omega)]
  have payload : u64 (s.addr + sizeofBlock) = s.addr + 32 := by
    exact u64_of_lt (Nat.lt_of_le_of_lt (Nat.le_add_right _ _) bound)
  by_cases room : n + 48 ≤ s.size
  · have split := represents_split placed rep free aligned room
    refine ⟨_, ?_, split⟩
    simp [takeBlock, rep.header.size, threshold, room, run_splitBlock placed rep room, payload]
  · have whole : carve 32 16 n s = [⟨s.addr, s.size, false⟩] := if_neg (by omega)
    refine ⟨put m s.addr .free 0, ?_, ?_, (Untouched.refl _ m).putHeader member .free 0⟩
    · simp [takeBlock, rep.header.size, threshold, room, payload]
    · rw [whole, List.append_assoc]
      exact rep.mark false

/-! ### The scan -/

/-- `block->free && block->size >= size`, of a segment. -/
def fits (n : Nat) (s : Seg) : Bool := s.free && decide (n ≤ s.size)

theorem run_freeAndFits (rep : Represents g m (xs ++ s :: ys)) (n : Nat) :
    (freeAndFits s.addr n).run memHandler m = some (fits n s, m) := by
  have header := rep.header
  unfold freeAndFits fits
  cases free : s.free <;> simp [header.free, header.size, free]

/-- From any block on, the scan takes the first segment that is free and large enough. -/
theorem run_mallocLoop (placed : Placed g) (n fuel : Nat) (rep : Represents g m (xs ++ ys))
    (enough : ys.length < fuel) :
    (mallocLoop n fuel (firstAddr 0 ys)).run memHandler m =
      match ys.find? (fits n) with
      | none => some (0, m)
      | some s => (takeBlock s.addr n).run memHandler m := by
  induction ys generalizing xs fuel with
  | nil =>
    obtain ⟨fuel, rfl⟩ : ∃ k, fuel = k + 1 := ⟨fuel - 1, by omega⟩
    simp [mallocLoop, firstAddr]
  | cons y ys ih =>
    obtain ⟨fuel, rfl⟩ : ∃ k, fuel = k + 1 := ⟨fuel - 1, by omega⟩
    have notNull := (rep.bounds placed (s := y) (by simp)).1
    have tested := run_freeAndFits rep n
    have notZero : y.addr ≠ 0 := by omega
    rw [show firstAddr 0 (y :: ys) = y.addr from rfl, mallocLoop, if_neg notZero,
      Program.run_bind, tested]
    cases found : fits n y with
    | true =>
      rw [List.find?_cons_of_pos found, Option.bind_some, if_pos rfl]
    | false =>
      -- the loop goes on at `next`, which is where the rest of the list starts
      have shifted : Represents g m ((xs ++ [y]) ++ ys) := by simpa using rep
      have rest := ih fuel shifted (by simpa using enough)
      have next : field m y.addr .next = firstAddr 0 ys := rep.header.next
      rw [List.find?_cons_of_neg (by simp [found])]
      simpa [next] using rest

/-- `malloc` scans the whole list. -/
theorem run_malloc {ss : List Seg} (placed : Placed g) (rep : Represents g m ss) (n : Nat) :
    (malloc g n).run memHandler m =
      match ss.find? (fits (roundSize n)) with
      | none => some (0, m)
      | some s => (takeBlock s.addr (roundSize n)).run memHandler m := by
  unfold malloc
  rw [rep.head placed]
  exact run_mallocLoop placed (roundSize n) loopBound (List.nil_append ss ▸ rep)
    (rep.length_lt placed)

end KopalniaOS.Heap
