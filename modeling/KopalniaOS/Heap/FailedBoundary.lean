import KopalniaOS.Heap.Boundary

/-!
# What a failed `malloc_boundry` leaves behind

The exits with a message give their block back, and `free` undoes `malloc` exactly. The check of
the sum can itself wrap, and then the address that is returned at the end can be null.
-/
namespace KopalniaOS.Heap

open Library

variable {g : Globals} {st : HeapState} {ss : List Seg} {size addr n j align boundry : Nat}

/-- In a block whose payload starts at `raw`, the address wraps to null: either the rounding up to
the alignment does, or moving it to the next boundary. -/
def WrapsToNull (raw n align boundry : Nat) : Prop :=
  n ≤ u64 (raw + boundryTotal n align boundry) ∧
  ((alignUp (u64 (raw + 8)) align = 0 ∧ (boundry = 0 ∨ 1 ≤ n ∧ n ≤ boundry)) ∨
    (boundry ≠ 0 ∧ n ≤ boundry ∧ 2 ^ 64 ≤ alignUp (u64 (raw + 8)) align + boundry ∧
      2 ^ 64 < alignUp (u64 (raw + 8)) align + n))

instance (raw n align boundry : Nat) : Decidable (WrapsToNull raw n align boundry) :=
  inferInstanceAs (Decidable (_ ∧ _))

/-! ### When the check gives null -/

theorem windowStart_eq_zero {x : Nat} : windowStart j x = 0 ↔ x < 2 ^ j := by
  constructor
  · intro zero
    have below := lt_windowStart_add j x
    rwa [zero, Nat.zero_add] at below
  · intro below
    exact windowStart_eq (Nat.dvd_zero _) (Nat.zero_le x) (by rwa [Nat.zero_add])

/-- The last window of the word. -/
theorem windowStart_top (bits : j < 64) {x : Nat} (above : 2 ^ 64 - 2 ^ j ≤ x) (word : x < 2 ^ 64) :
    windowStart j x = 2 ^ 64 - 2 ^ j := by
  have whole : 2 ^ j ∣ 2 ^ 64 - 2 ^ j :=
    Nat.dvd_sub (Nat.pow_dvd_pow 2 (Nat.le_of_lt bits)) (Nat.dvd_refl _)
  exact windowStart_eq whole above (by omega)

/-- `n` bytes from null on end in the first window. -/
theorem windowStart_last_null (bits : j < 64) (word : n < 2 ^ 64) :
    windowStart j (sub64 (u64 (0 + n)) 1) = 0 ↔ 1 ≤ n ∧ n ≤ 2 ^ j := by
  have window : 2 ^ j ≤ 2 ^ 63 := Nat.pow_le_pow_right (by decide) (by omega)
  rw [windowStart_eq_zero]
  unfold sub64 u64
  omega

/-- The two ways to null: staying there, or moving on to it. -/
private theorem boundryCheck_null_cases (bits : j < 64) {aligned : Nat} (word : aligned < 2 ^ 64)
    (size : n < 2 ^ 64) :
    boundryCheck aligned n (2 ^ j) = some 0 ↔
      (windowStart j aligned = windowStart j (sub64 (u64 (aligned + n)) 1) ∧ aligned = 0) ∨
      (windowStart j aligned ≠ windowStart j (sub64 (u64 (aligned + n)) 1) ∧
        windowStart j (u64 (aligned + 2 ^ j)) = 0 ∧ 1 ≤ n ∧ n ≤ 2 ^ j) := by
  rw [boundryCheck_two_pow bits word]
  -- the bytes are in one window, or the address moves to the next one
  by_cases stays : windowStart j aligned = windowStart j (sub64 (u64 (aligned + n)) 1)
  · simp [stays]
  · rw [if_neg stays]
    simp only [stays, false_and, false_or, ne_eq, not_false_eq_true, true_and,
      Option.ite_none_right_eq_some, Option.some.injEq]
    constructor
    · rintro ⟨inside, next⟩
      rw [next] at inside
      exact ⟨next, (windowStart_last_null bits size).mp inside.symm⟩
    · rintro ⟨next, fits⟩
      rw [next]
      exact ⟨((windowStart_last_null bits size).mpr fits).symm, rfl⟩

theorem boundryCheck_null (bits : j < 64) {aligned : Nat} (word : aligned < 2 ^ 64)
    (size : n < 2 ^ 64) :
    boundryCheck aligned n (2 ^ j) = some 0 ↔ (aligned = 0 ∧ 1 ≤ n ∧ n ≤ 2 ^ j) ∨
      (n ≤ 2 ^ j ∧ 2 ^ 64 ≤ aligned + 2 ^ j ∧ 2 ^ 64 < aligned + n) := by
  have pos := Nat.two_pow_pos j
  have window : 2 ^ j ≤ 2 ^ 63 := Nat.pow_le_pow_right (by decide) (by omega)
  rw [boundryCheck_null_cases bits word size]
  have next : windowStart j (u64 (aligned + 2 ^ j)) = 0 ↔ 2 ^ 64 ≤ aligned + 2 ^ j := by
    rw [windowStart_eq_zero]
    unfold u64
    omega
  rw [next]
  by_cases null : aligned = 0
  · subst null
    have start : windowStart j 0 = 0 := windowStart_eq_zero.mpr pos
    rw [start, eq_comm (a := 0), windowStart_last_null bits size]
    omega
  · -- in the last window the bytes cross its end, or do not leave it
    have crosses (top : 2 ^ 64 ≤ aligned + 2 ^ j) (fits : 1 ≤ n ∧ n ≤ 2 ^ j) :
        windowStart j aligned ≠ windowStart j (sub64 (u64 (aligned + n)) 1) ↔
          2 ^ 64 < aligned + n := by
      rw [windowStart_top bits (by omega) word]
      by_cases past : 2 ^ 64 < aligned + n
      · have first : windowStart j (sub64 (u64 (aligned + n)) 1) = 0 := by
          rw [windowStart_eq_zero]
          unfold sub64 u64
          omega
        omega
      · have stays : windowStart j (sub64 (u64 (aligned + n)) 1) = 2 ^ 64 - 2 ^ j := by
          refine windowStart_top bits ?_ (sub64_lt _ _)
          unfold sub64 u64
          omega
        omega
    constructor
    · rintro (⟨-, zero⟩ | ⟨leaves, top, fits⟩)
      · exact (null zero).elim
      · exact .inr ⟨fits.2, top, (crosses top fits).mp leaves⟩
    · rintro (⟨zero, -⟩ | ⟨fits, top, past⟩)
      · exact (null zero).elim
      · have bytes : 1 ≤ n ∧ n ≤ 2 ^ j := ⟨by omega, fits⟩
        exact .inr ⟨(crosses top bytes).mpr past, top, bytes⟩

theorem alignUp_lt (address align : Nat) : alignUp address align < 2 ^ 64 := by
  unfold alignUp
  exact Nat.lt_of_le_of_lt Nat.and_le_left (sub64_lt _ _)

/-- For every boundary that passes the test. -/
theorem wrapsToNull_iff {raw align : Nat} (window : boundry = 0 ∨ ∃ j < 64, boundry = 2 ^ j)
    (size : n < 2 ^ 64) :
    WrapsToNull raw n align boundry ↔ n ≤ u64 (raw + boundryTotal n align boundry) ∧
      boundryCheck (alignUp (u64 (raw + 8)) align) n boundry = some 0 := by
  have word := alignUp_lt (u64 (raw + 8)) align
  unfold WrapsToNull
  generalize alignUp (u64 (raw + 8)) align = aligned at word
  refine and_congr_right fun _ => ?_
  -- either there is no window or it is a power of two
  rcases window with rfl | ⟨j, bits, rfl⟩
  · rw [boundryCheck_zero, Option.some.injEq]
    constructor
    · rintro (⟨null, -⟩ | ⟨other, -⟩)
      · exact null
      · exact (other rfl).elim
    · exact fun null => .inl ⟨null, .inl rfl⟩
  · have notZero := Nat.ne_of_gt (Nat.two_pow_pos j)
    rw [boundryCheck_null bits word size]
    simp only [notZero, false_or, ne_eq, not_false_eq_true, true_and]

/-! ### The list after the call -/

/-- Nothing beyond the end of the heap is part of the list. -/
theorem Represents.congr {m m' : Memory} (rep : Represents g m ss)
    (same : ∀ x < g.heapEnd, m' x = m x) : Represents g m' ss := by
  refine ⟨rep.linked.congr fun s member f => field_congr f fun x _ upper => ?_, rep.tiles, rep.sizes⟩
  have inside := (rep.tiles.bounds member).2
  exact same x (by omega)

/-- Two lists with different numbers of live pointers are not the same. -/
theorem blocksOf_ne {st' : HeapState} {ss' : List Seg} (inv : HeapInv g st ss)
    (inv' : HeapInv g st' ss') (other : st.live.length ≠ st'.live.length) :
    blocksOf 0 ss ≠ blocksOf 0 ss' := by
  intro same
  have segs := congrArg (List.map Block.seg) same
  rw [map_seg_blocksOf, map_seg_blocksOf] at segs
  subst segs
  exact other (inv.live.length_eq.trans inv'.live.length_eq.symm)

/-- A word in front of null is written beyond the heap, so the block that was taken stays taken. -/
theorem blockList_leaked (region : Region size addr) (reached : Reachable size addr g st)
    (inv : HeapInv g st ss) {total raw : Nat} {m : Memory}
    (ran : (malloc g total).run memHandler st.mem = some (raw, m)) (notNull : raw ≠ 0) :
    blockList g (m.store 8 (sub64 0 8) raw) ≠ some (blocksOf 0 ss) := by
  obtain ⟨rfl, ss', inv'⟩ := reachable_inv region (reached.step (.malloc ran))
  have inside : addr + size ≤ 2 ^ 64 - 8 := by
    obtain ⟨-, ⟨a, rfl⟩, ⟨c, rfl⟩, -, noWrap⟩ := region
    omega
  have front : sub64 0 8 = 2 ^ 64 - 8 := rfl
  have rep : Represents ⟨addr, addr, addr + size⟩ (m.store 8 (sub64 0 8) raw) ss' := by
    refine inv'.represents.congr fun x below => Memory.store_outside _ _ _ _ _ (.inl ?_)
    rw [front]
    exact Nat.lt_of_lt_of_le below inside
  -- the two lists differ in the number of their live blocks
  have taken : st.live.length ≠ (st.allocated raw m).live.length := by
    simp [HeapState.allocated, notNull]
  rw [blockList_eq (placed_heapInit region) rep, ne_eq, Option.some.injEq]
  exact (blocksOf_ne inv inv' taken).symm

/-- A call that returns null leaves the list as it was, but for the requests whose address wraps
to null in the block that `malloc` gives them. -/
theorem failed_boundry_restores (region : Region size addr) (reached : Reachable size addr g st)
    (sizeWord : n < 2 ^ 64) (boundryWord : boundry < 2 ^ 64) :
    ∃ bs p m, blockList g st.mem = some bs ∧
      (mallocBoundry g n align boundry).run memHandler st.mem = some (p, m) ∧
      ((p = 0 → blockList g m = some bs) ↔ ¬(Accepted n align boundry ∧
        ∃ b, firstFit bs (boundryTotal n (alignment align) boundry) = some b ∧
          WrapsToNull (b.addr + sizeofBlock) n (alignment align) boundry)) := by
  obtain ⟨rfl, ss, inv⟩ := reachable_inv region reached
  have placed := placed_heapInit region
  have listed := blockList_eq placed inv.represents
  by_cases accepted : Accepted n align boundry
  swap
  · refine ⟨_, 0, st.mem, listed, run_mallocBoundry_rejected accepted, fun _ leak => ?_,
      fun _ _ => listed⟩
    exact accepted leak.1
  have window := of_notPowerOfTwo boundryWord accepted.2
  rcases inv.malloc_given placed (boundryTotal n (alignment align) boundry) with ⟨absent, ran⟩ |
    ⟨s, m, given, found, ran, sized, -, -, -, -, bound⟩
  · have unfit : firstFit (blocksOf 0 ss) (boundryTotal n (alignment align) boundry) = none := by
      rw [← Option.map_eq_none_iff, find_blocksOf 0, absent]
    refine ⟨_, 0, st.mem, listed, run_mallocBoundry accepted ran, fun _ leak => ?_, fun _ _ => listed⟩
    obtain ⟨-, b, fit, -⟩ := leak
    cases unfit.symm.trans fit
  obtain ⟨b, fit, seg⟩ := Option.map_eq_some_iff.mp ((find_blocksOf 0 _ ss).trans found)
  have address : b.addr = s.addr := congrArg Seg.addr seg
  -- for this block the condition is that the check succeeds, with null
  have leaks : (Accepted n align boundry ∧
      ∃ b, firstFit (blocksOf 0 ss) (boundryTotal n (alignment align) boundry) = some b ∧
        WrapsToNull (b.addr + sizeofBlock) n (alignment align) boundry) ↔
      n ≤ u64 (s.addr + 32 + boundryTotal n (alignment align) boundry) ∧
        boundryCheck (alignUp (u64 (s.addr + 32 + 8)) (alignment align)) n boundry = some 0 := by
    rw [← wrapsToNull_iff window sizeWord, ← address]
    constructor
    · rintro ⟨-, c, other, wraps⟩
      cases fit.symm.trans other
      exact wraps
    · intro wraps
      exact ⟨accepted, b, fit, wraps⟩
  have answer := run_mallocBoundry accepted ran
  rw [if_neg (by omega)] at answer
  -- an exit with a message frees the block that was just taken
  obtain ⟨m', freed, inv'⟩ := inv.free_malloc placed ran (by omega) fun _ _ => rfl
  have restored : blockList ⟨addr, addr, addr + size⟩ m' = some (blocksOf 0 ss) :=
    blockList_eq placed inv'.represents
  rw [freed, Option.map_some] at answer
  cases found' : boundryCheck (alignUp (u64 (s.addr + 32 + 8)) (alignment align)) n boundry with
  | none =>
    rw [found'] at answer leaks
    refine ⟨_, 0, m', listed, answer, fun _ leak => ?_, fun _ _ => restored⟩
    cases (leaks.mp leak).2
  | some p =>
    rw [found'] at answer leaks
    -- the last check frees the block as well, and null passes it only if `n` is small enough
    by_cases far : u64 (s.addr + 32 + boundryTotal n (alignment align) boundry) < u64 (p + n)
    · refine ⟨_, 0, m', listed, answer.trans (if_pos far), fun _ leak => ?_, fun _ _ => restored⟩
      obtain ⟨near, null⟩ := leaks.mp leak
      rw [Option.some.inj null, Nat.zero_add, u64_of_lt sizeWord] at far
      omega
    refine ⟨_, p, _, listed, answer.trans (if_neg far), fun restores leak => ?_, fun kept null => ?_⟩
    · obtain rfl : p = 0 := Option.some.inj (leaks.mp leak).2
      exact blockList_leaked region reached inv ran (by omega) (restores rfl)
    · subst null
      rw [Nat.zero_add, u64_of_lt sizeWord] at far
      exact (kept (leaks.mpr ⟨Nat.not_lt.mp far, rfl⟩)).elim

/-- 100 bytes within 256 on a fresh heap. -/
theorem failed_boundry_restores_fresh :
    ∃ bs p m, blockList ⟨256, 256, 4352⟩ freshHeap.mem = some bs ∧
      (mallocBoundry ⟨256, 256, 4352⟩ 100 64 256).run memHandler freshHeap.mem = some (p, m) ∧
      ((p = 0 → blockList ⟨256, 256, 4352⟩ m = some bs) ↔ ¬(Accepted 100 64 256 ∧
        ∃ b, firstFit bs (boundryTotal 100 (alignment 64) 256) = some b ∧
          WrapsToNull (b.addr + sizeofBlock) 100 (alignment 64) 256)) :=
  failed_boundry_restores region_freshHeap reachable_freshHeap (by decide) (by decide)

/-- A heap of 4096 bytes in the upper half of the address space. -/
def upperHeap : HeapState := ⟨freshHeader (fun _ => 0) 0xFFFF800000100000 4064 0 0, []⟩

/-- One byte, with alignment and boundary `2 ^ 63`: their sum wraps to zero, so a small block is
taken, and the address wraps to null in it. -/
theorem failed_boundry_leaks :
    ¬∀ size addr g st n align boundry m, Region size addr → Reachable size addr g st →
      n < 2 ^ 64 → align < 2 ^ 64 → boundry < 2 ^ 64 →
      (mallocBoundry g n align boundry).run memHandler st.mem = some (0, m) →
      blockList g m = blockList g st.mem := by
  intro claimed
  have region : Region 4096 0xFFFF800000100000 :=
    ⟨by decide, by decide, by decide, by decide, by decide⟩
  have reached : Reachable 4096 0xFFFF800000100000 _ upperHeap := .init (run_heapInit region _)
  -- aligning an address of the upper half to `2 ^ 63` wraps to zero
  obtain ⟨m, ran⟩ : ∃ m, (mallocBoundry ⟨0xFFFF800000100000, 0xFFFF800000100000, 0xFFFF800000101000⟩
      1 (2 ^ 63) (2 ^ 63)).run memHandler upperHeap.mem = some (0, m) :=
    exists_of_map_fst (by decide +kernel)
  have same := claimed 4096 0xFFFF800000100000 _ upperHeap 1 (2 ^ 63) (2 ^ 63) m region reached
    (by decide) (by decide) (by decide) ran
  have before : blockList ⟨0xFFFF800000100000, 0xFFFF800000100000, 0xFFFF800000101000⟩ upperHeap.mem =
      some [⟨0xFFFF800000100000, 4064, true, 0, 0⟩] := by decide +kernel
  have after : ((mallocBoundry ⟨0xFFFF800000100000, 0xFFFF800000100000, 0xFFFF800000101000⟩
      1 (2 ^ 63) (2 ^ 63)).run memHandler upperHeap.mem).map (fun r =>
        blockList ⟨0xFFFF800000100000, 0xFFFF800000100000, 0xFFFF800000101000⟩ r.2) =
      some (some [⟨0xFFFF800000100000, 16, false, 0xFFFF800000100030, 0⟩,
        ⟨0xFFFF800000100030, 4016, true, 0, 0xFFFF800000100000⟩]) := by decide +kernel
  rw [ran, Option.map_some] at after
  cases ((Option.some.inj after).symm.trans (same.trans before))

end KopalniaOS.Heap
