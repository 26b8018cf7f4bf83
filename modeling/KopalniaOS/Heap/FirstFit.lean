import KopalniaOS.Heap.UsableSize

/-!
# Which block `malloc` takes

The lowest free block that is large enough. When there is none, no run of bytes outside the live
blocks is: free neighbours do not exist, so such a run lies in one free block.
-/
namespace KopalniaOS.Heap

open Library

variable {g : Globals} {st : HeapState} {ss : List Seg} {size addr n : Nat}

/-- `n` rounded up to a multiple of 16. -/
def rounded (n : Nat) : Nat := (n + 15) / 16 * 16

theorem roundSize_eq_rounded (small : n ≤ 2 ^ 64 - 16) : roundSize n = rounded n := by
  rw [roundSize_eq, u64_of_lt (by omega), rounded]

theorem fits_eq_false {r : Nat} {s : Seg} : fits r s = false ↔ ¬(s.free = true ∧ r ≤ s.size) := by
  rw [fits, ← Bool.not_eq_true, Bool.and_eq_true, decide_eq_true_eq]

/-- In address order the first of the blocks is the lowest. -/
theorem lowest_of_first {xs ys : List Block} {b c : Block}
    (increasing : (xs ++ b :: ys).Pairwise fun b c => b.addr < c.addr) {P : Block → Prop}
    (first : ∀ d ∈ xs, ¬P d) (member : c ∈ xs ++ b :: ys) (holds : P c) : b.addr ≤ c.addr := by
  rcases List.mem_append.mp member with before | here
  · exact (first c before holds).elim
  · rcases List.mem_cons.mp here with rfl | after
    · exact Nat.le_refl _
    · have ordered := (List.pairwise_append.mp increasing).2.1
      exact Nat.le_of_lt ((List.pairwise_cons.mp ordered).1 c after)

/-- The bytes of a live block, header included. -/
def HeapState.Occupied (st : HeapState) (x : Nat) : Prop :=
  ∃ q ∈ st.live, q - sizeofBlock ≤ x ∧ x < q + field st.mem (q - sizeofBlock) .size

/-- When no free block has `r` bytes, neither has a run of bytes outside the live blocks. -/
theorem HeapInv.gap_lt (inv : HeapInv g st ss) {r lo hi : Nat}
    (none : ∀ s ∈ ss, s.free = true → s.size < r) (start : g.heapStart ≤ lo) (stop : hi ≤ g.heapEnd)
    (unoccupied : ∀ x, lo ≤ x → x < hi → ¬st.Occupied x) : hi < lo + r + 32 := by
  by_contra long
  obtain ⟨s, member, free, below, above⟩ :=
    inv.represents.tiles.gap (a := lo) (b := hi) inv.coalesced (by decide) start stop (by omega)
      fun t member unfree x lower upper inside => by
        refine unoccupied x lower upper ⟨t.addr + 32, inv.mem_live.mpr ⟨t, member, unfree, rfl⟩, ?_⟩
        rw [sizeofBlock, Nat.add_sub_cancel, (inv.fields member).2]
        exact inside
  have short := none s member free
  omega

/-- For every reachable heap and request: the lowest free block that is large enough is taken, and
split when a block of at least 16 bytes remains; and when there is none, nothing changes, and no
run of bytes outside the live blocks has room for the request and a header. -/
theorem malloc_first_fit (region : Region size addr) (reached : Reachable size addr g st)
    (small : n ≤ 2 ^ 64 - 16) :
    ∃ bs p m, blockList g st.mem = some bs ∧ (malloc g n).run memHandler st.mem = some (p, m) ∧
      ((∃ b ∈ bs, b.free = true ∧ rounded n ≤ b.size) →
        ∃ xs b ys bs', bs = xs ++ b :: ys ∧ b.free = true ∧ rounded n ≤ b.size ∧
          (∀ c ∈ bs, c.free = true ∧ rounded n ≤ c.size → b.addr ≤ c.addr) ∧
          p = b.addr + sizeofBlock ∧ blockList g m = some bs' ∧
          bs'.map Block.seg = xs.map Block.seg ++
            (if rounded n + 48 ≤ b.size then
              [⟨b.addr, rounded n, false⟩,
                ⟨b.addr + sizeofBlock + rounded n, b.size - rounded n - sizeofBlock, true⟩]
            else [⟨b.addr, b.size, false⟩]) ++ ys.map Block.seg) ∧
      ((∀ b ∈ bs, ¬(b.free = true ∧ rounded n ≤ b.size)) →
        p = 0 ∧ m = st.mem ∧
        ∀ lo hi, g.heapStart ≤ lo → hi ≤ g.heapEnd →
          (∀ x, lo ≤ x → x < hi → ¬st.Occupied x) → hi < lo + rounded n + 32) := by
  obtain ⟨rfl, ss, inv⟩ := reachable_inv region reached
  have placed := placed_heapInit region
  have listed := blockList_eq placed inv.represents
  rcases inv.malloc placed n with ⟨none, ran⟩ | ⟨xs, s, ys, m, rfl, earlier, free, fit, ran, inv', -⟩
  · rw [roundSize_eq_rounded small] at none
    -- a gap that is large enough would be inside of a free block that fits
    have unfit (t : Seg) (member : t ∈ ss) : ¬(t.free = true ∧ rounded n ≤ t.size) :=
      fits_eq_false.mp (none t member)
    refine ⟨_, 0, st.mem, listed, ran, ?_, fun _ => ⟨rfl, rfl, fun lo hi start stop => ?_⟩⟩
    · rintro ⟨b, member, fit⟩
      exact (unfit b.seg (seg_mem member) fit).elim
    · exact inv.gap_lt (fun t member free => Nat.not_le.mp fun fit => unfit t member ⟨free, fit⟩)
        start stop
  · rw [roundSize_eq_rounded small] at earlier fit inv'
    have increasing := increasing_blocksOf 0 inv.represents.tiles
    obtain ⟨before, rest, split, front, back⟩ :=
      List.map_eq_append_iff.mp (map_seg_blocksOf 0 (xs ++ s :: ys))
    obtain ⟨b, after, rfl, rfl, rfl⟩ := List.map_eq_cons_iff.mp back
    rw [split] at listed increasing
    refine ⟨_, _, m, listed, ran, fun _ => ⟨before, b, after, _, rfl, free, fit, fun c member holds => ?_,
      rfl, blockList_eq placed inv'.represents, ?_⟩, fun unfit => ?_⟩
    -- the addresses increase along the list, so the first block that fits is the lowest
    · refine lowest_of_first increasing (P := fun c => c.free = true ∧ rounded n ≤ c.size) ?_
        member holds
      intro d inside
      exact fits_eq_false.mp (earlier d.seg (front ▸ List.mem_map_of_mem inside))
    · rw [map_seg_blocksOf, ← front]
      rfl
    · exact (unfit b (by simp) ⟨free, fit⟩).elim

/-- 100 bytes on a fresh heap: its only block is split. -/
theorem malloc_first_fit_fresh :
    ∃ m bs', (malloc ⟨256, 256, 4352⟩ 100).run memHandler freshHeap.mem = some (288, m) ∧
      blockList ⟨256, 256, 4352⟩ m = some bs' ∧
      bs'.map Block.seg = [⟨256, 112, false⟩, ⟨400, 3920, true⟩] := by
  obtain ⟨bs, p, m, listed, ran, taken, -⟩ :=
    malloc_first_fit (n := 100) region_freshHeap reachable_freshHeap (by decide)
  -- the heap is one free block, which is the first that fits
  have whole : blockList ⟨256, 256, 4352⟩ freshHeap.mem = some [⟨256, 4064, true, 0, 0⟩] := by
    decide +kernel
  cases listed.symm.trans whole
  obtain ⟨xs, b, ys, bs', split, -, -, -, rfl, listed', segs⟩ := taken ⟨_, List.mem_singleton_self _,
    rfl, by decide⟩
  obtain ⟨rfl, rfl, rfl⟩ : xs = [] ∧ b = ⟨256, 4064, true, 0, 0⟩ ∧ ys = [] := by
    cases xs with
    | nil =>
      cases split
      exact ⟨rfl, rfl, rfl⟩
    | cons x xs => simp at split
  exact ⟨m, bs', ran, listed', segs⟩

end KopalniaOS.Heap
