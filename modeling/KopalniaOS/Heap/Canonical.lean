import KopalniaOS.Heap.BlockList

/-!
# The block list is a function of the live blocks

A coalesced tiling has no freedom left once its used segments are known, so histories
do not matter: `free` undoes `malloc`, and frees commute.
-/
namespace KopalniaOS.Heap

open Library

variable {g : Globals} {st st' : HeapState} {ss ss' : List Seg} {size addr : Nat}

/-- Header address and size of the blocks behind the live pointers. -/
def liveBlocks (st : HeapState) : List (Nat × Nat) :=
  st.live.map fun p => (p - sizeofBlock, field st.mem (p - sizeofBlock) .size)

theorem HeapInv.mem_liveBlocks (inv : HeapInv g st ss) {a n : Nat} :
    (a, n) ∈ liveBlocks st ↔ ⟨a, n, false⟩ ∈ ss := by
  have size (s : Seg) (member : s ∈ ss) : field st.mem s.addr .size = s.size := by
    obtain ⟨xs, ys, rfl⟩ := List.append_of_mem member
    exact inv.represents.header.size
  simp only [liveBlocks, List.mem_map, inv.mem_live, Prod.mk.injEq]
  constructor
  · rintro ⟨_, ⟨s, member, unfree, rfl⟩, rfl, rfl⟩
    rw [sizeofBlock, Nat.add_sub_cancel, size s member, ← unfree]
    exact member
  · intro member
    refine ⟨a + 32, ⟨_, member, rfl, rfl⟩, Nat.add_sub_cancel a 32, ?_⟩
    rw [sizeofBlock, Nat.add_sub_cancel]
    exact size ⟨a, n, false⟩ member

/-- Two good heaps in the same place with the same used segments are the same list. -/
theorem HeapInv.unique (inv : HeapInv g st ss) (inv' : HeapInv g st' ss')
    (same : ∀ s, s.free = false → (s ∈ ss ↔ s ∈ ss')) : ss = ss' :=
  tiles_unique inv.represents.tiles inv'.represents.tiles (by decide) inv.coalesced inv'.coalesced
    same

/-- `free` removes exactly the segment of its pointer from the used ones. -/
theorem HeapInv.free_used (placed : Placed g) (inv : HeapInv g st ss) {p : Nat}
    (member : p ∈ st.live) :
    ∃ m ss', (Heap.free p).run memHandler st.mem = some ((), m) ∧ HeapInv g (st.freed p m) ss' ∧
      ∀ t, t.free = false → (t ∈ ss' ↔ t ∈ ss ∧ t.addr + 32 ≠ p) := by
  obtain ⟨xs, s, ys, m, ss', rfl, -, rfl, ran, inv', joined, -⟩ := inv.free placed member
  refine ⟨m, ss', ran, inv', fun t unfree => ?_⟩
  -- the block is free now, and merging leaves the used ones alone
  have kept' : t ∈ ss' ↔ t ∈ xs ∨ t ∈ ys := by
    have := congrArg (t ∈ ·) joined.used_eq
    simpa [unfree] using this
  rw [kept', List.mem_append, List.mem_cons]
  constructor
  · rintro (left | right)
    · have apart := inv.represents.left left
      exact ⟨.inl left, by omega⟩
    · have apart := inv.represents.right right
      exact ⟨.inr (.inr right), by omega⟩
  · rintro ⟨left | rfl | right, other⟩
    · exact .inl left
    · exact (other rfl).elim
    · exact .inr right

/-- Freeing what `malloc` just returned leaves the list as it was, whatever the client did
with the payload in between. -/
theorem HeapInv.free_malloc (placed : Placed g) (inv : HeapInv g st ss) {n p : Nat} {m m₁ : Memory}
    (ran : (Heap.malloc g n).run memHandler st.mem = some (p, m)) (notNull : p ≠ 0)
    (filled : ∀ x, x < p ∨ p + field m (p - sizeofBlock) .size ≤ x → m₁ x = m x) :
    ∃ m', (Heap.free p).run memHandler m₁ = some ((), m') ∧ HeapInv g ⟨m', st.live⟩ ss := by
  rcases inv.malloc placed n with ⟨-, failed⟩ | ⟨xs, s, ys, m₂, rfl, -, free, fits, taken, inv₁, -⟩
  · cases failed.symm.trans ran
    exact (notNull rfl).elim
  cases taken.symm.trans ran
  have live : s.addr + 32 ∈ (st.allocated (s.addr + 32) m).live := by
    simp [HeapState.allocated]
  obtain ⟨m', ss', freed, inv', kept⟩ := (inv₁.fill live filled).free_used placed live
  obtain ⟨given, carved, -, -⟩ := @used_carve 32 16 _ _ (by decide) fits
  have equal : ss' = xs ++ s :: ys := by
    refine inv'.unique inv fun t unfree => ?_
    -- the used segments of both lists are those beside the carved one
    have inCarve : t ∈ carve 32 16 (roundSize n) s → t.addr = s.addr := by
      intro member
      have picked : t ∈ used (carve 32 16 (roundSize n) s) := mem_used.mpr ⟨member, unfree⟩
      rw [carved, List.mem_singleton] at picked
      rw [picked]
    rw [kept t unfree, List.append_assoc, List.mem_append, List.mem_append, List.mem_append,
      List.mem_cons]
    constructor
    · rintro ⟨left | middle | right, other⟩
      · exact .inl left
      · exact (other (by rw [inCarve middle])).elim
      · exact .inr (.inr right)
    · rintro (left | rfl | right)
      · have apart := inv.represents.left left
        exact ⟨.inl left, by omega⟩
      · rw [free] at unfree
        cases unfree
      · have apart := inv.represents.right right
        exact ⟨.inr (.inr right), by omega⟩
  subst equal
  refine ⟨m', freed, ?_⟩
  simpa [HeapState.freed, HeapState.allocated] using inv'

/-! ### Many frees -/

/-- `for (p : ps) free(p);` -/
def freeAll : List Nat → MemProgram Unit
  | [] => pure ()
  | p :: ps => do
    free p
    freeAll ps

theorem HeapInv.freeAll_used (placed : Placed g) (inv : HeapInv g st ss) (ps : List Nat)
    (distinct : ps.Nodup) (allowed : ∀ p ∈ ps, p ∈ st.live) :
    ∃ m ss', (freeAll ps).run memHandler st.mem = some ((), m) ∧
      HeapInv g ⟨m, st.live.diff ps⟩ ss' ∧
      ∀ t, t.free = false → (t ∈ ss' ↔ t ∈ ss ∧ t.addr + 32 ∉ ps) := by
  induction ps generalizing st ss with
  | nil => exact ⟨st.mem, ss, rfl, inv, by simp⟩
  | cons p ps ih =>
    obtain ⟨fresh, distinct⟩ := List.nodup_cons.mp distinct
    obtain ⟨m, ss', ran, inv', kept⟩ := inv.free_used placed (allowed p List.mem_cons_self)
    -- the pointers are distinct, so the rest of them is still live
    have allowed' : ∀ q ∈ ps, q ∈ (st.freed p m).live := by
      intro q member
      have other : q ≠ p := fun same => fresh (same ▸ member)
      exact (List.mem_erase_of_ne other).mpr (allowed q (List.mem_cons_of_mem p member))
    obtain ⟨m', ss'', ran', inv'', kept'⟩ := ih inv' distinct allowed'
    refine ⟨m', ss'', ?_, ?_, fun t unfree => ?_⟩
    · have rest : (freeAll ps).run memHandler m = some ((), m') := ran'
      simp [freeAll, ran, rest]
    · rw [List.diff_cons]
      exact inv''
    · rw [kept' t unfree, kept t unfree, List.mem_cons, not_or, and_assoc]

theorem HeapInv.freeAll_perm (placed : Placed g) (inv : HeapInv g st ss) {ps qs : List Nat}
    (distinct : ps.Nodup) (allowed : ∀ p ∈ ps, p ∈ st.live) (perm : ps.Perm qs) :
    ∃ m m' ss', (freeAll ps).run memHandler st.mem = some ((), m) ∧
      (freeAll qs).run memHandler st.mem = some ((), m') ∧ Represents g m ss' ∧
      Represents g m' ss' := by
  obtain ⟨m, ss', ran, inv', kept⟩ := inv.freeAll_used placed ps distinct allowed
  obtain ⟨m', ss'', ran', inv'', kept'⟩ := inv.freeAll_used placed qs (perm.nodup_iff.mp distinct)
    fun p member => allowed p (perm.mem_iff.mpr member)
  have equal : ss' = ss'' := inv'.unique inv'' fun t unfree => by
    rw [kept t unfree, kept' t unfree, perm.mem_iff]
  subst equal
  exact ⟨m, m', ss', ran, ran', inv'.represents, inv''.represents⟩

theorem HeapInv.freeAll_live (region : Region size addr)
    (inv : HeapInv ⟨addr, addr, addr + size⟩ st ss) {ps : List Nat} (perm : ps.Perm st.live) :
    ∃ m, (freeAll ps).run memHandler st.mem = some ((), m) ∧
      Represents ⟨addr, addr, addr + size⟩ m [⟨addr, size - 32, true⟩] := by
  have distinct := inv.live.nodup_iff.mpr (payloads_nodup inv.represents.tiles)
  obtain ⟨m, ss', ran, inv', kept⟩ := inv.freeAll_used (placed_heapInit region) ps
    (perm.nodup_iff.mpr distinct) fun p member => perm.mem_iff.mp member
  -- neither list has a used segment
  have equal : ss' = [⟨addr, size - 32, true⟩] := by
    refine inv'.unique (inv_heapInit region st.mem) fun t unfree => ?_
    rw [kept t unfree, perm.mem_iff, inv.mem_live]
    constructor
    · rintro ⟨member, dead⟩
      exact (dead ⟨t, member, unfree, rfl⟩).elim
    · intro member
      rw [List.mem_singleton.mp member] at unfree
      cases unfree
  subst equal
  exact ⟨m, ran, inv'.represents⟩

/-- The block list depends on the live blocks only: on two runs that end with the same
ones it is the same, `free` undoes `malloc`, any order of frees gives the same list, and
freeing everything gives the list of `heapInit`. -/
theorem blockList_canonical (region : Region size addr) :
    (∀ g st g' st', Reachable size addr g st → Reachable size addr g' st' →
      (∀ b, b ∈ liveBlocks st ↔ b ∈ liveBlocks st') →
      g = g' ∧ ∃ bs, blockList g st.mem = some bs ∧ blockList g' st'.mem = some bs) ∧
    (∀ g st n p m, Reachable size addr g st →
      (malloc g n).run memHandler st.mem = some (p, m) → p ≠ 0 →
      ∃ m', (free p).run memHandler m = some ((), m') ∧
        blockList g m' = blockList g st.mem) ∧
    (∀ g st ps qs, Reachable size addr g st → ps.Nodup → (∀ p ∈ ps, p ∈ st.live) → ps.Perm qs →
      ∃ m m', (freeAll ps).run memHandler st.mem = some ((), m) ∧
        (freeAll qs).run memHandler st.mem = some ((), m') ∧ blockList g m = blockList g m') ∧
    (∀ g st ps, Reachable size addr g st → ps.Perm st.live →
      ∃ m, (freeAll ps).run memHandler st.mem = some ((), m) ∧
        blockList g m = some [⟨addr, size - 32, true, 0, 0⟩]) := by
  have placed := placed_heapInit region
  refine ⟨?_, ?_, ?_, ?_⟩
  · intro g st g' st' reached reached' same
    obtain ⟨rfl, ss, inv⟩ := reachable_inv region reached
    obtain ⟨rfl, ss', inv'⟩ := reachable_inv region reached'
    -- the used segments are the live blocks, so both lists have the same ones
    have equal : ss = ss' := inv.unique inv' fun s unfree => by
      have shared := same (s.addr, s.size)
      rwa [inv.mem_liveBlocks, inv'.mem_liveBlocks, ← unfree] at shared
    subst equal
    exact ⟨rfl, _, blockList_eq placed inv.represents, blockList_eq placed inv'.represents⟩
  · intro g st n p m reached ran notNull
    obtain ⟨rfl, ss, inv⟩ := reachable_inv region reached
    obtain ⟨m', freed, inv'⟩ := inv.free_malloc placed ran notNull fun _ _ => rfl
    refine ⟨m', freed, ?_⟩
    exact (blockList_eq placed inv'.represents).trans (blockList_eq placed inv.represents).symm
  · intro g st ps qs reached distinct allowed perm
    obtain ⟨rfl, ss, inv⟩ := reachable_inv region reached
    obtain ⟨m, m', ss', ran, ran', rep, rep'⟩ := inv.freeAll_perm placed distinct allowed perm
    exact ⟨m, m', ran, ran', (blockList_eq placed rep).trans (blockList_eq placed rep').symm⟩
  · intro g st ps reached perm
    obtain ⟨rfl, ss, inv⟩ := reachable_inv region reached
    obtain ⟨m, ran, rep⟩ := inv.freeAll_live region perm
    exact ⟨m, ran, blockList_eq placed rep⟩

/-- In a heap of 4096 bytes at 256, `free` of a first block undoes its `malloc`. -/
theorem blockList_canonical_first :
    ∃ m m', (malloc ⟨256, 256, 4352⟩ 100).run memHandler
        (freshHeader (fun _ => 0) 256 4064 0 0) = some (288, m) ∧
      (free 288).run memHandler m = some ((), m') ∧
      blockList ⟨256, 256, 4352⟩ m' =
        blockList ⟨256, 256, 4352⟩ (freshHeader (fun _ => 0) 256 4064 0 0) := by
  have region : Region 4096 256 := ⟨by decide, by decide, by decide, by decide, by decide⟩
  obtain ⟨m, ran⟩ : ∃ m, (malloc ⟨256, 256, 4352⟩ 100).run memHandler
      (freshHeader (fun _ => 0) 256 4064 0 0) = some (288, m) :=
    exists_of_map_fst (by decide +kernel)
  obtain ⟨m', freed, same⟩ := (blockList_canonical region).2.1 _ _ 100 288 m
    (.init (run_heapInit region fun _ => 0)) ran (by decide)
  exact ⟨m, m', ran, freed, same⟩

end KopalniaOS.Heap
