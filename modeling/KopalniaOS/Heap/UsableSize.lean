import KopalniaOS.Heap.BlockList

/-!
# How many bytes a returned pointer is good for

Neither `malloc` nor `malloc_align` checks the sums it rounds. A request near the top of
the word wraps to a small one, and the call succeeds with a block that is too short. The
theorem says for every state when the bytes that were asked for are there.
-/
namespace KopalniaOS.Heap

open Library

variable {g : Globals} {st : HeapState} {ss : List Seg} {size addr n k : Nat}

/-- A call returns null or a pointer to a block of at least `n` bytes. -/
def Usable (st : HeapState) (n : Nat) (call : MemProgram Nat) : Prop :=
  ∀ p m, call.run memHandler st.mem = some (p, m) →
    p = 0 ∨ n ≤ field m (p - sizeofBlock) .size

/-- The size `malloc_align` asks `malloc` for. -/
def alignedTotal (n align : Nat) : Nat := u64 (u64 (n + align) + sizeofAlignHeader)

/-- `malloc_align` returns null, or `n` bytes inside the block that `malloc` carved for it. -/
def UsableAligned (g : Globals) (st : HeapState) (n align : Nat) : Prop :=
  ∀ p m, (mallocAlign g n align).run memHandler st.mem = some (p, m) →
    p = 0 ∨ ∃ raw m₁, (malloc g (alignedTotal n align)).run memHandler st.mem = some (raw, m₁) ∧
      raw ≤ p ∧ p + n ≤ raw + field m₁ (raw - sizeofBlock) .size

/-- The block a request of `n` bytes gets. -/
def firstFit (bs : List Block) (n : Nat) : Option Block :=
  bs.find? fun b => b.free && decide (roundSize n ≤ b.size)

/-! ### `malloc` -/

/-- Requests that wrap are rounded to zero. -/
theorem roundSize_wrapped (large : 2 ^ 64 - 16 < n) (word : n < 2 ^ 64) : roundSize n = 0 := by
  rw [roundSize_eq]
  unfold u64
  omega

/-- What `malloc` returns, on the list: the block it gives is at most a header and the
slack longer than the rounded request. -/
theorem HeapInv.malloc_given (placed : Placed g) (inv : HeapInv g st ss) (n : Nat) :
    (ss.find? (fits (roundSize n)) = none ∧
      (Heap.malloc g n).run memHandler st.mem = some (0, st.mem)) ∨
    ∃ s m given, ss.find? (fits (roundSize n)) = some s ∧
      (Heap.malloc g n).run memHandler st.mem = some (s.addr + 32, m) ∧
      field m s.addr .size = given ∧ roundSize n ≤ given ∧ given < roundSize n + 48 ∧
      16 ∣ s.addr ∧ 16 ∣ given ∧ s.addr + 32 + given < 2 ^ 64 := by
  rcases inv.malloc placed n with ⟨none, ran⟩ | ⟨xs, s, ys, m, rfl, earlier, free, fit, ran, inv', -⟩
  · exact .inl ⟨by simpa using none, ran⟩
  · obtain ⟨given, member, low, high, -⟩ := mem_carve s xs ys fit
    have found : (xs ++ s :: ys).find? (fits (roundSize n)) = some s := by
      refine List.find?_eq_some_iff_append.mpr ⟨by simp [fits, free, fit], xs, ys, rfl, ?_⟩
      simpa using earlier
    have rep := inv'.represents
    refine .inr ⟨s, m, given, found, ran, (inv'.fields member).2, low, high,
      rep.addr_dvd placed (s := ⟨s.addr, given, false⟩) member, rep.sizes _ member,
      (rep.bounds placed member).2⟩

/-- `malloc` is good for its request unless the rounding wraps while a block is free. -/
theorem HeapInv.usable_iff (placed : Placed g) (inv : HeapInv g st ss) (word : n < 2 ^ 64) :
    Usable st n (Heap.malloc g n) ↔ n ≤ 2 ^ 64 - 16 ∨ ∀ s ∈ ss, s.free = false := by
  -- either no free block fits, or one that does is handed out
  rcases inv.malloc_given placed n with ⟨none, ran⟩ |
    ⟨s, m, given, found, ran, size, low, high, aligned, -, bound⟩
  · constructor
    · intro _
      by_cases small : n ≤ 2 ^ 64 - 16
      · exact .inl small
      -- the rounded size has wrapped to a small one, so every free block would fit
      · have wrapped := roundSize_wrapped (by omega) word
        simp only [List.find?_eq_none, fits, wrapped] at none
        exact .inr fun s member => by simpa using none s member
    · intro _ p m' returned
      cases ran.symm.trans returned
      exact .inl rfl
  · have payload : field m (s.addr + 32 - sizeofBlock) .size = given := by
      rw [sizeofBlock, Nat.add_sub_cancel, size]
    constructor
    · intro usable
      rcases usable _ _ ran with null | enough
      · omega
      · rw [payload] at enough
        by_cases small : n ≤ 2 ^ 64 - 16
        · exact .inl small
        · have wrapped := roundSize_wrapped (by omega) word
          omega
    · rintro (small | none) p m' returned
      · cases ran.symm.trans returned
        rw [payload]
        exact .inr (Nat.le_trans (le_roundSize small) low)
      · obtain ⟨fit, -⟩ := List.find?_eq_some_iff_append.mp found
        simp [fits, none s (List.mem_of_find?_eq_some found)] at fit

/-! ### `malloc_align` -/

/-- Rounding up to a power of two, which wraps to null at the top of the word. -/
theorem alignUp_two_pow {base : Nat} (word : base < 2 ^ 64) (notNull : 0 < base) (bits : k < 64) :
    alignUp base (2 ^ k) =
      if base + 2 ^ k ≤ 2 ^ 64 then (base + 2 ^ k - 1) / 2 ^ k * 2 ^ k else 0 := by
  have pos : 0 < 2 ^ k := Nat.two_pow_pos k
  have top : 2 ^ k < 2 ^ 64 := Nat.pow_lt_pow_right (by decide) bits
  have mask : sub64 (2 ^ k) 1 = 2 ^ k - 1 := sub64_of_le top pos
  have sum : sub64 (u64 (base + 2 ^ k)) 1 = u64 (base + 2 ^ k - 1) := by
    unfold sub64 u64
    omega
  unfold alignUp
  rw [mask, sum, and_not64_two_pow_sub_one (u64_lt _) (Nat.le_of_lt bits)]
  split
  · -- the sum is a word, so the mask only rounds it down
    rw [u64_of_lt (by omega)]
  · -- the sum wraps to less than the alignment, and rounds down to null
    have wrapped : u64 (base + 2 ^ k - 1) < 2 ^ k := by
      unfold u64
      omega
    rw [Nat.div_eq_of_lt wrapped, Nat.zero_mul]

/-- The rounded address is a multiple of the alignment within one alignment of the base. -/
theorem roundUp_bounds {base align : Nat} (pos : 0 < align) (notNull : 0 < base) :
    base ≤ (base + align - 1) / align * align ∧
      (base + align - 1) / align * align < base + align ∧
      align ≤ (base + align - 1) / align * align := by
  -- the quotient is at least one, since the base is not null
  have split := Nat.div_add_mod (base + align - 1) align
  have rest := Nat.mod_lt (base + align - 1) pos
  have one : 1 ≤ (base + align - 1) / align := (Nat.one_le_div_iff pos).mpr (by omega)
  have multiple : align ≤ (base + align - 1) / align * align := Nat.le_mul_of_pos_left align one
  rw [Nat.mul_comm] at split
  omega

/-- `malloc_align` in terms of `malloc`. -/
theorem run_mallocAlign {m₁ : Memory} {raw align : Nat} (aligned : align ≠ 0)
    (ran : (malloc g (alignedTotal n align)).run memHandler st.mem = some (raw, m₁)) :
    (mallocAlign g n align).run memHandler st.mem =
      if raw = 0 then some (0, m₁)
      else some (alignUp (u64 (raw + 8)) align,
        m₁.store 8 (sub64 (alignUp (u64 (raw + 8)) align) 8) raw) := by
  unfold alignedTotal at ran
  simp only [mallocAlign, if_neg aligned, Program.run_bind, ran, Option.bind_some]
  split
  · rfl
  · simp

theorem alignedTotal_of_le {align : Nat} (small : n + align + 8 < 2 ^ 64) :
    alignedTotal n align = n + align + 8 := by
  have inner : u64 (n + align) = n + align := u64_of_lt (by omega)
  rw [alignedTotal, inner]
  exact u64_of_lt small

/-- `malloc_align` is good for its request unless the sum wraps or is rounded to zero; then
it still is when no block is taken or when the rounded address itself wraps to null. -/
theorem HeapInv.usableAligned_iff (placed : Placed g) (inv : HeapInv g st ss) (bits : k < 64) :
    UsableAligned g st n (2 ^ k) ↔ n + 2 ^ k + 8 ≤ 2 ^ 64 - 16 ∨
      ∀ s, ss.find? (fits (roundSize (alignedTotal n (2 ^ k)))) = some s →
        2 ^ 64 < s.addr + 40 + 2 ^ k := by
  have pos : 0 < 2 ^ k := Nat.two_pow_pos k
  have top : 2 ^ k ≤ 2 ^ 63 := Nat.pow_le_pow_right (by decide) (by omega)
  rcases inv.malloc_given placed (alignedTotal n (2 ^ k)) with ⟨none, ran⟩ |
    ⟨s, m, given, found, ran, size, low, high, aligned, multiple, bound⟩
  · have answer := run_mallocAlign (by omega) ran
    constructor
    · intro _
      exact .inr fun s found => by simp [none] at found
    · intro _ p m' returned
      cases answer.symm.trans returned
      exact .inl rfl
  -- the block ends before the last word, so neither sum with its address wraps
  have base : u64 (s.addr + 32 + 8) = s.addr + 40 := u64_of_lt (by omega)
  have answer := run_mallocAlign (by omega) ran
  have start : s.addr + 40 < 2 ^ 64 := by omega
  have rounded := alignUp_two_pow start (by omega) bits
  rw [if_neg (by omega), base, rounded] at answer
  by_cases wraps : s.addr + 40 + 2 ^ k ≤ 2 ^ 64
  · rw [if_pos wraps] at answer
    have notNull : 0 < s.addr + 40 := by omega
    obtain ⟨above, below, least⟩ := roundUp_bounds pos notNull
    constructor
    · intro usable
      rcases usable _ _ answer with null | ⟨raw, m₁, taken, -, inside⟩
      · omega
      cases ran.symm.trans taken
      rw [sizeofBlock, Nat.add_sub_cancel, size] at inside
      -- the bytes end in the block that `malloc` gave, which rules out every wrap
      refine .inl ?_
      by_contra large
      by_cases inWord : n + 2 ^ k + 8 < 2 ^ 64
      · -- the total is a word that rounds to zero, so the block has at most 32 bytes
        have zero := roundSize_wrapped (by omega) inWord
        rw [alignedTotal_of_le inWord, zero] at high
        omega
      · -- the end of the request lies beyond the last word
        omega
    · rintro (small | none) p m' returned
      · cases answer.symm.trans returned
        rw [alignedTotal_of_le (by omega)] at low
        have enough := le_roundSize small
        refine .inr ⟨_, _, ran, by omega, ?_⟩
        rw [sizeofBlock, Nat.add_sub_cancel, size]
        omega
      · have := none s found
        omega
  · rw [if_neg wraps] at answer
    constructor
    · intro _
      refine .inr fun t other => ?_
      cases found.symm.trans other
      omega
    · intro _ p m' returned
      cases answer.symm.trans returned
      exact .inl rfl

/-- What a successful `malloc_align` of a sum that does not wrap gives: an aligned range
inside a new used segment, while the used segments and their payloads stay as they were. -/
structure AlignedIn (g : Globals) (st : HeapState) (ss : List Seg) (n align p : Nat) (m : Memory)
    (s : Seg) (ss' : List Seg) : Prop where
  inv : HeapInv g (st.allocated (s.addr + 32) m) ss'
  member : s ∈ ss'
  unfree : s.free = false
  above : s.addr + 40 ≤ p
  below : p + n ≤ s.addr + 32 + s.size
  multiple : align ∣ p
  kept : ∀ t ∈ ss, t.free = false → t ∈ ss' ∧ t ≠ s
  payload : ∀ t ∈ ss, t.free = false → ∀ x, t.addr + 32 ≤ x → x < t.addr + 32 + t.size →
    m x = st.mem x
  rest : ∀ t ∈ ss, t.free = true → roundSize (n + align + 8) + 48 ≤ t.size →
    ∃ t' ∈ ss', t'.free = true ∧ t.size ≤ t'.size + roundSize (n + align + 8) + 32

/-- The payload of a used segment is not memory the allocator writes. -/
theorem payload_not_owned (inv : HeapInv g st ss) {t : Seg} (member : t ∈ ss)
    (unfree : t.free = false) {x : Nat} (above : t.addr + 32 ≤ x)
    (below : x < t.addr + 32 + t.size) (u : Seg) (other : u ∈ ss) : ¬Owns u x := by
  rintro ⟨lower, upper⟩
  rcases inv.represents.tiles.separate member other with rfl | apart | apart
  · simp only [unfree, Bool.false_eq_true, if_false] at upper
    omega
  · omega
  · have owned : (if u.free then u.size else 0) ≤ u.size := by split <;> omega
    omega

theorem HeapInv.mallocAlign (placed : Placed g) (inv : HeapInv g st ss) (bits : k < 64)
    (small : n + 2 ^ k + 8 ≤ 2 ^ 64 - 16) :
    ((∀ s ∈ ss, fits (roundSize (n + 2 ^ k + 8)) s = false) ∧
      (Heap.malloc g (alignedTotal n (2 ^ k))).run memHandler st.mem = some (0, st.mem) ∧
      (Heap.mallocAlign g n (2 ^ k)).run memHandler st.mem = some (0, st.mem)) ∨
    ∃ s ss' p m m₁,
      (Heap.malloc g (alignedTotal n (2 ^ k))).run memHandler st.mem = some (s.addr + 32, m₁) ∧
      (Heap.mallocAlign g n (2 ^ k)).run memHandler st.mem = some (p, m) ∧
      AlignedIn g st ss n (2 ^ k) p m s ss' := by
  have pos : 0 < 2 ^ k := Nat.two_pow_pos k
  have total : alignedTotal n (2 ^ k) = n + 2 ^ k + 8 := alignedTotal_of_le (by omega)
  rcases inv.malloc placed (alignedTotal n (2 ^ k)) with ⟨none, ran⟩ |
    ⟨xs, s, ys, m₁, rfl, -, free, fit, ran, inv₁, untouched⟩
  · refine .inl ⟨total ▸ none, ran, ?_⟩
    rw [run_mallocAlign (by omega) ran, if_pos rfl]
  rw [total] at fit inv₁
  have enough := le_roundSize small
  have whole : s ∈ xs ++ s :: ys := by simp
  obtain ⟨given, member, low, -, smaller⟩ := mem_carve s xs ys fit
  have bound : s.addr + 32 + given < 2 ^ 64 := (inv₁.represents.bounds placed member).2
  have live : s.addr + 32 ∈ (st.allocated (s.addr + 32) m₁).live := by
    simp [HeapState.allocated]
  have size : field m₁ s.addr .size = given := (inv₁.fields member).2
  have base : u64 (s.addr + 32 + 8) = s.addr + 40 := u64_of_lt (by omega)
  have notNull : 0 < s.addr + 40 := by omega
  have start : s.addr + 40 < 2 ^ 64 := by omega
  have rounded := alignUp_two_pow start notNull bits
  rw [if_pos (by omega)] at rounded
  obtain ⟨above, below, -⟩ := roundUp_bounds pos notNull
  have multiple := Nat.dvd_mul_left (2 ^ k) ((s.addr + 40 + 2 ^ k - 1) / 2 ^ k)
  generalize (s.addr + 40 + 2 ^ k - 1) / 2 ^ k * 2 ^ k = p at rounded above below multiple
  have header : sub64 p 8 = p - 8 := sub64_of_le (by omega) (by omega)
  have answer := run_mallocAlign (by omega) ran
  rw [if_neg (by omega), base, rounded, header] at answer
  refine .inr ⟨⟨s.addr, given, false⟩, _, p, _, m₁, ran, answer, ?_, member, rfl, above, ?_,
    multiple, fun t inside unfree => ⟨?_, ?_⟩, fun t inside unfree x lower upper => ?_,
    fun t inside free large => ?_⟩
  · -- the header of the aligned pointer lies in the payload of the new block
    have filled := inv₁.fill live (m := m₁.store 8 (p - 8) (s.addr + 32)) fun x outside => by
      apply Memory.store_outside
      have same : (st.allocated (s.addr + 32) m₁).mem = m₁ := rfl
      rw [sizeofBlock, Nat.add_sub_cancel, same, size] at outside
      omega
    exact filled
  · simp only
    omega
  · exact mem_replaced inside (Seg.ne_of_free unfree free) _
  · -- a used segment of the old list is not the one that was carved
    rintro rfl
    have apart := (inv.represents.tiles.separate inside whole).resolve_left (Seg.ne_of_free unfree free)
    simp only at apart
    omega
  · have apart := (inv.represents.tiles.separate inside whole).resolve_left (Seg.ne_of_free unfree free)
    rw [Memory.store_outside _ _ _ _ _ (by omega)]
    exact untouched x (payload_not_owned inv inside unfree lower upper)
  · by_cases here : t = s
    · -- the carved block itself leaves its rest
      subst here
      have split : roundSize (n + 2 ^ k + 8) + 32 + 16 ≤ t.size := by omega
      have picked := carve_rest split
      refine ⟨_, List.mem_append_left ys (List.mem_append_right xs picked), rfl, ?_⟩
      simp only
      omega
    · exact ⟨t, mem_replaced inside here _, free, by omega⟩

/-! ### Every reachable heap -/

theorem find_blocksOf (prev n : Nat) (ss : List Seg) :
    (firstFit (blocksOf prev ss) n).map Block.seg = ss.find? (fits (roundSize n)) := by
  induction ss generalizing prev with
  | nil => rfl
  | cons s ss ih =>
    unfold firstFit at ih ⊢
    simp only [blocksOf, List.find?_cons, fits]
    cases s.free && decide (roundSize n ≤ s.size) with
    | true => rfl
    | false => exact ih s.addr

/-- For every reachable heap and every request, when the bytes that were asked for are
there: for `malloc` and the operators that forward to it, and for `malloc_align` with every
power of two. -/
theorem usable_size (region : Region size addr) (reached : Reachable size addr g st)
    (word : n < 2 ^ 64) :
    ∃ bs, blockList g st.mem = some bs ∧
      (Usable st n (malloc g n) ↔ n ≤ 2 ^ 64 - 16 ∨ ∀ b ∈ bs, b.free = false) ∧
      (Usable st n (operatorNew g n) ↔ n ≤ 2 ^ 64 - 16 ∨ ∀ b ∈ bs, b.free = false) ∧
      (Usable st n (operatorNewArray g n) ↔ n ≤ 2 ^ 64 - 16 ∨ ∀ b ∈ bs, b.free = false) ∧
      ∀ k, k < 64 → (UsableAligned g st n (2 ^ k) ↔ n + 2 ^ k + 8 ≤ 2 ^ 64 - 16 ∨
        ∀ b, firstFit bs (alignedTotal n (2 ^ k)) = some b → 2 ^ 64 < b.addr + 40 + 2 ^ k) := by
  obtain ⟨rfl, ss, inv⟩ := reachable_inv region reached
  have placed := placed_heapInit region
  -- the list of blocks that the code walks is the list of the segments
  have usable : Usable st n (malloc ⟨addr, addr, addr + size⟩ n) ↔
      n ≤ 2 ^ 64 - 16 ∨ ∀ b ∈ blocksOf 0 ss, b.free = false := by
    rw [inv.usable_iff placed word]
    refine or_congr Iff.rfl ⟨fun none b member => none b.seg (seg_mem member), fun none s member => ?_⟩
    obtain ⟨b, listed, rfl⟩ := exists_block.mp member
    exact none b listed
  refine ⟨blocksOf 0 ss, blockList_eq placed inv.represents, usable, usable, usable,
    fun k bits => ?_⟩
  rw [inv.usableAligned_iff placed bits, ← find_blocksOf 0]
  simp [Block.seg]

/-- A fresh heap of 4096 bytes at 256. -/
def freshHeap : HeapState := ⟨freshHeader (fun _ => 0) 256 4064 0 0, []⟩

theorem region_freshHeap : Region 4096 256 :=
  ⟨by decide, by decide, by decide, by decide, by decide⟩

theorem reachable_freshHeap : Reachable 4096 256 ⟨256, 256, 4352⟩ freshHeap :=
  .init (run_heapInit region_freshHeap fun _ => 0)

theorem usable_size_fresh :
    ∃ bs, blockList ⟨256, 256, 4352⟩ freshHeap.mem = some bs ∧
      (Usable freshHeap 100 (malloc ⟨256, 256, 4352⟩ 100) ↔
        100 ≤ 2 ^ 64 - 16 ∨ ∀ b ∈ bs, b.free = false) := by
  obtain ⟨bs, listed, usable, -⟩ := usable_size (n := 100) region_freshHeap reachable_freshHeap
    (by decide)
  exact ⟨bs, listed, usable⟩

/-- On a fresh heap a request of `2 ^ 64 - 1` bytes succeeds with a block of none. -/
theorem usable_size_overflow :
    ¬∀ size addr g st n, Region size addr → Reachable size addr g st → n < 2 ^ 64 →
      Usable st n (malloc g n) := by
  intro claimed
  have usable := claimed 4096 256 _ freshHeap (2 ^ 64 - 1) region_freshHeap reachable_freshHeap
    (by decide)
  obtain ⟨m, ran⟩ : ∃ m, (malloc ⟨256, 256, 4352⟩ (2 ^ 64 - 1)).run memHandler freshHeap.mem =
      some (288, m) := exists_of_map_fst (by decide +kernel)
  have empty : ((malloc ⟨256, 256, 4352⟩ (2 ^ 64 - 1)).run memHandler freshHeap.mem).map
      (fun r => field r.2 256 .size) = some 0 := by decide +kernel
  rw [ran] at empty
  have size : field m (288 - sizeofBlock) .size = 0 := Option.some.inj empty
  rcases usable 288 m ran with null | enough
  · cases null
  · omega

end KopalniaOS.Heap
