import KopalniaOS.Heap.Invariant

/-!
# The block list as a reader of memory sees it

`WellFormed` says what following `next` from `heap_head` meets, in terms of the blocks
read from memory and of the live pointers only. Every reachable heap satisfies it, and
the three counting functions agree with it.
-/
namespace KopalniaOS.Heap

open Library

variable {g : Globals} {st : HeapState} {m : Memory} {ss : List Seg} {size addr : Nat}

/-! ### Reading a represented list -/

/-- The blocks of a represented list. -/
def blocksOf : Nat → List Seg → List Block
  | _, [] => []
  | prev, s :: ss => ⟨s.addr, s.size, s.free, firstAddr 0 ss, prev⟩ :: blocksOf s.addr ss

theorem Header.readBlock {s : Seg} {prev next : Nat} (header : Header m s prev next) :
    readBlock m s.addr = ⟨s.addr, s.size, s.free, next, prev⟩ := by
  have free : decide (field m s.addr .free ≠ 0) = s.free := by
    rw [header.free]
    cases s.free <;> rfl
  unfold Heap.readBlock
  rw [header.size, free, header.next, header.prev]

theorem walk_linked {prev : Nat} (fuel : Nat) (linked : Linked m prev 0 ss)
    (notNull : ∀ s ∈ ss, s.addr ≠ 0) (enough : ss.length < fuel) :
    walk m fuel (firstAddr 0 ss) = some (blocksOf prev ss) := by
  induction ss generalizing prev fuel with
  | nil =>
    obtain ⟨fuel, rfl⟩ : ∃ k, fuel = k + 1 := ⟨fuel - 1, by omega⟩
    rfl
  | cons s ss ih =>
    obtain ⟨fuel, rfl⟩ : ∃ k, fuel = k + 1 := ⟨fuel - 1, by omega⟩
    have rest := ih fuel linked.2 (fun t member => notNull t (List.mem_cons_of_mem s member))
      (by simpa using enough)
    rw [show firstAddr 0 (s :: ss) = s.addr from rfl, walk, if_neg (notNull s List.mem_cons_self),
      linked.1.readBlock, rest]
    rfl

theorem blockList_eq (placed : Placed g) (rep : Represents g m ss) :
    blockList g m = some (blocksOf 0 ss) := by
  unfold blockList
  rw [rep.head placed]
  exact walk_linked loopBound rep.linked (rep.notNull placed) (rep.length_lt placed)

/-- The segment a block occupies. -/
def Block.seg (b : Block) : Seg := ⟨b.addr, b.size, b.free⟩

theorem map_seg_blocksOf (prev : Nat) (ss : List Seg) : (blocksOf prev ss).map Block.seg = ss := by
  induction ss generalizing prev with
  | nil => rfl
  | cons s ss ih => simp [blocksOf, Block.seg, ih]

theorem exists_block {prev : Nat} {s : Seg} :
    s ∈ ss ↔ ∃ b ∈ blocksOf prev ss, b.seg = s := by
  conv => lhs; rw [← map_seg_blocksOf prev ss]
  exact List.mem_map

theorem seg_mem {prev : Nat} {b : Block} (member : b ∈ blocksOf prev ss) : b.seg ∈ ss :=
  exists_block.mpr ⟨b, member, rfl⟩

/-- A block and the block behind it. -/
def Adjacent (b c : Block) : Prop :=
  b.addr + sizeofBlock + b.size = c.addr ∧ b.next = c.addr ∧ c.prev = b.addr

theorem adjacent_blocksOf {lo hi : Nat} (prev : Nat) (tiles : Tiles 32 lo hi ss) :
    (blocksOf prev ss).IsChain Adjacent := by
  induction ss generalizing prev lo with
  | nil => exact List.isChain_nil
  | cons s ss ih =>
    have rest := ih s.addr tiles.2
    cases ss with
    | nil => exact List.isChain_singleton _
    | cons t ss =>
      refine List.isChain_cons_cons.mpr ⟨⟨?_, rfl, rfl⟩, rest⟩
      have here := tiles.1
      have next := tiles.2.1
      simp only [sizeofBlock]
      omega

theorem last_blocksOf {lo hi prev : Nat} (tiles : Tiles 32 lo hi ss) {b : Block}
    (last : (blocksOf prev ss).getLast? = some b) :
    b.next = 0 ∧ b.addr + sizeofBlock + b.size = hi := by
  induction ss generalizing prev lo with
  | nil => cases last
  | cons s ss ih =>
    cases ss with
    | nil =>
      obtain ⟨rfl, rfl⟩ := tiles
      cases last
      exact ⟨rfl, rfl⟩
    | cons t ss => exact ih tiles.2 (by simpa [blocksOf] using last)

/-! ### Counting bytes -/

theorem run_checkLoop {prev : Nat} {counted : Nat → MemProgram Bool} (chosen : Seg → Bool)
    (fuel start : Nat) (linked : Linked m prev 0 ss) (notNull : ∀ s ∈ ss, s.addr ≠ 0)
    (tested : ∀ s prev next, Header m s prev next →
      (counted s.addr).run memHandler m = some (chosen s, m))
    (enough : ss.length < fuel) (small : start + (ss.map Seg.size).sum < 2 ^ 64) :
    (checkLoop counted fuel (firstAddr 0 ss) start).run memHandler m =
      some (start + ((ss.filter chosen).map Seg.size).sum, m) := by
  -- One turn a segment: `start` is what was counted so far, and the bound on the total keeps every
  -- partial sum inside its 64-bit word.
  induction ss generalizing prev fuel start with
  | nil =>
    obtain ⟨fuel, rfl⟩ : ∃ k, fuel = k + 1 := ⟨fuel - 1, by omega⟩
    simp [checkLoop, firstAddr]
  | cons s ss ih =>
    obtain ⟨fuel, rfl⟩ : ∃ k, fuel = k + 1 := ⟨fuel - 1, by omega⟩
    simp only [List.map_cons, List.sum_cons, List.length_cons] at small enough
    obtain ⟨header, rest⟩ := linked
    have count := tested s _ _ header
    have next (fuel start : Nat) (enough : ss.length < fuel)
        (small : start + (ss.map Seg.size).sum < 2 ^ 64) :=
      ih fuel start rest (fun t member => notNull t (List.mem_cons_of_mem s member)) enough small
    rw [show firstAddr 0 (s :: ss) = s.addr from rfl, checkLoop,
      if_neg (notNull s List.mem_cons_self)]
    cases chosen : chosen s with
    | true =>
      have more := next fuel (start + s.size) (by omega) (by omega)
      have word : u64 (start + s.size) = start + s.size := u64_of_lt (by omega)
      simp [count, chosen, header.size, header.next, word, more, Nat.add_assoc]
    | false =>
      have more := next fuel start (by omega) (by omega)
      have word : u64 start = start := u64_of_lt (by omega)
      simp [count, chosen, header.next, word, more]

/-- The bytes of the segments that satisfy `chosen`. -/
def bytes (chosen : Seg → Bool) (ss : List Seg) : Nat := ((ss.filter chosen).map Seg.size).sum

theorem bytes_split (chosen : Seg → Bool) (ss : List Seg) :
    bytes chosen ss + bytes (fun s => !chosen s) ss = (ss.map Seg.size).sum := by
  induction ss with
  | nil => rfl
  | cons s ss ih =>
    unfold bytes at ih ⊢
    cases picked : chosen s <;> simp [picked] <;> omega

/-- Each counting function returns the bytes of the blocks it counts. -/
theorem run_check (placed : Placed g) (rep : Represents g m ss) {counted : Nat → MemProgram Bool}
    (chosen : Seg → Bool)
    (tested : ∀ s prev next, Header m s prev next →
      (counted s.addr).run memHandler m = some (chosen s, m)) :
    (checkLoop counted loopBound g.heapHead 0).run memHandler m = some (bytes chosen ss, m) := by
  have total := rep.tiles.total
  have bound := placed.bound
  rw [rep.head placed, run_checkLoop chosen loopBound 0 rep.linked (rep.notNull placed) tested
    (rep.length_lt placed) (by omega), Nat.zero_add]
  rfl

theorem run_checkHeap (placed : Placed g) (rep : Represents g m ss) :
    (checkHeap g).run memHandler m = some ((ss.map Seg.size).sum, m) := by
  have checked : (checkLoop (fun _ => pure true) loopBound g.heapHead 0).run memHandler m =
      some (bytes (fun _ => true) ss, m) := run_check placed rep _ fun _ _ _ _ => rfl
  simpa [bytes, checkHeap] using checked

theorem run_checkFreeHeap (placed : Placed g) (rep : Represents g m ss) :
    (checkFreeHeap g).run memHandler m = some (bytes Seg.free ss, m) := by
  refine run_check placed rep Seg.free fun s prev next header => ?_
  cases free : s.free <;> simp [header.free, free]

theorem run_checkUsedHeap (placed : Placed g) (rep : Represents g m ss) :
    (checkUsedHeap g).run memHandler m = some (bytes (fun s => !s.free) ss, m) := by
  refine run_check placed rep (fun s => !s.free) fun s prev next header => ?_
  cases free : s.free <;> simp [header.free, free]

/-! ### Every reachable heap is well formed -/

/-- The invariant of the heap, stated on the blocks that memory holds. -/
structure WellFormed (g : Globals) (st : HeapState) (bs : List Block) : Prop where
  listed : blockList g st.mem = some bs
  increasing : bs.Pairwise fun b c => b.addr < c.addr
  adjacent : bs.IsChain Adjacent
  first : ∃ b, bs.head? = some b ∧ b.addr = g.heapHead ∧ b.prev = 0
  last : ∃ b, bs.getLast? = some b ∧ b.next = 0 ∧ b.addr + sizeofBlock + b.size = g.heapEnd
  aligned : ∀ b ∈ bs, 16 ∣ b.size
  coalesced : bs.IsChain fun b c => ¬(b.free = true ∧ c.free = true)
  live : ∀ p, p ∈ st.live ↔ ∃ b ∈ bs, b.free = false ∧ b.addr + sizeofBlock = p
  distinct : st.live.Nodup
  disjoint : ∀ b ∈ bs, ∀ c ∈ bs, b.addr ≠ c.addr →
    b.addr + sizeofBlock + b.size ≤ c.addr ∨ c.addr + sizeofBlock + c.size ≤ b.addr
  inside : ∀ b ∈ bs, g.heapStart ≤ b.addr ∧ b.addr + sizeofBlock + b.size ≤ g.heapEnd
  accounted : ∃ total free used,
    (checkHeap g).run memHandler st.mem = some (total, st.mem) ∧
    (checkFreeHeap g).run memHandler st.mem = some (free, st.mem) ∧
    (checkUsedHeap g).run memHandler st.mem = some (used, st.mem) ∧
    total = free + used ∧ total = g.heapEnd - g.heapStart - sizeofBlock * bs.length

theorem increasing_blocksOf {lo hi : Nat} (prev : Nat) (tiles : Tiles 32 lo hi ss) :
    (blocksOf prev ss).Pairwise fun b c => b.addr < c.addr := by
  induction ss generalizing prev lo with
  | nil => exact List.Pairwise.nil
  | cons s ss ih =>
    refine List.Pairwise.cons (fun b member => ?_) (ih _ tiles.2)
    have here := tiles.1
    have behind := (tiles.2.bounds (seg_mem member)).1
    simp only [Block.seg] at behind ⊢
    omega

theorem payloads_nodup {lo hi : Nat} (tiles : Tiles 32 lo hi ss) : (payloads ss).Nodup := by
  induction ss generalizing lo with
  | nil => exact List.nodup_nil
  | cons s ss ih =>
    cases free : s.free with
    | true =>
      rw [payloads_cons_free free]
      exact ih tiles.2
    | false =>
      rw [payloads_cons_used free]
      refine List.nodup_cons.mpr ⟨fun member => ?_, ih tiles.2⟩
      obtain ⟨t, inside, -, same⟩ := mem_payloads.mp member
      have here := tiles.1
      -- a second pointer to the same payload would come from a segment behind this one
      have behind := (tiles.2.bounds inside).1
      omega

/-- The invariant, read off memory. -/
theorem HeapInv.wellFormed (placed : Placed g) (inv : HeapInv g st ss) :
    WellFormed g st (blocksOf 0 ss) where
  listed := blockList_eq placed inv.represents
  increasing := increasing_blocksOf _ inv.represents.tiles
  adjacent := adjacent_blocksOf 0 inv.represents.tiles
  first := by
    have head := inv.represents.head placed
    have start := placed.head
    have notNull := placed.notNull
    cases ss with
    | nil =>
      simp only [firstAddr] at head
      omega
    | cons s ss => exact ⟨_, rfl, head.symm, rfl⟩
  -- The list is never empty: an empty tiling would make the heap's two ends meet.
  last := by
    obtain ⟨b, last⟩ : ∃ b, (blocksOf 0 ss).getLast? = some b := by
      cases ss with
      | nil =>
        have empty : g.heapStart = g.heapEnd := inv.represents.tiles
        have room := placed.room
        omega
      | cons s ss => exact ⟨_, List.getLast?_eq_some_getLast (by simp [blocksOf])⟩
    exact ⟨b, last, last_blocksOf inv.represents.tiles last⟩
  aligned b member := inv.represents.sizes b.seg (seg_mem member)
  coalesced := by
    have coalesced := inv.coalesced
    rw [← map_seg_blocksOf 0 ss] at coalesced
    exact List.isChain_map Block.seg |>.mp coalesced
  live p := by
    rw [inv.mem_live]
    constructor
    · rintro ⟨s, member, unfree, rfl⟩
      obtain ⟨b, listed, rfl⟩ := exists_block.mp member
      exact ⟨b, listed, unfree, rfl⟩
    · rintro ⟨b, listed, unfree, rfl⟩
      exact ⟨b.seg, seg_mem listed, unfree, rfl⟩
  distinct := inv.live.nodup_iff.mpr (payloads_nodup inv.represents.tiles)
  disjoint b memberB c memberC different := by
    rcases inv.represents.tiles.separate (seg_mem memberB) (seg_mem memberC) with same | apart
    · exact (different (congrArg Seg.addr same)).elim
    · exact apart
  inside b member := inv.represents.tiles.bounds (seg_mem member)
  accounted := by
    refine ⟨_, _, _, run_checkHeap placed inv.represents, run_checkFreeHeap placed inv.represents,
      run_checkUsedHeap placed inv.represents, (bytes_split Seg.free ss).symm, ?_⟩
    -- The tiling counts a header with every segment; the three checks count the segments alone.
    have total := inv.represents.tiles.total
    have length : (blocksOf 0 ss).length = ss.length := by
      rw [← List.length_map Block.seg, map_seg_blocksOf]
    rw [length, sizeofBlock]
    omega

/-- Every run from `heapInit` keeps the heap well formed, and no call in it hangs. -/
theorem heap_wellFormed (region : Region size addr) (reached : Reachable size addr g st) :
    (∃ bs, WellFormed g st bs) ∧
    (∀ n, ∃ p m, (malloc g n).run memHandler st.mem = some (p, m)) ∧
    (∀ p, p = 0 ∨ p ∈ st.live → ∃ m, (free p).run memHandler st.mem = some ((), m)) := by
  obtain ⟨rfl, ss, inv⟩ := reachable_inv region reached
  have placed := placed_heapInit region
  refine ⟨⟨_, inv.wellFormed placed⟩, fun n => ?_, fun p allowed => ?_⟩
  · rcases inv.malloc placed n with ⟨-, ran⟩ | ⟨_, s, _, m, _, _, _, _, ran, _⟩
    · exact ⟨_, _, ran⟩
    · exact ⟨_, _, ran⟩
  · rcases allowed with rfl | member
    · exact ⟨st.mem, rfl⟩
    · obtain ⟨_, _, _, m, _, _, _, _, ran, _⟩ := inv.free placed member
      exact ⟨m, ran⟩

theorem exists_of_map_fst {α : Type} {x : Option (α × Memory)} {a : α}
    (answer : x.map Prod.fst = some a) : ∃ m, x = some (a, m) := by
  obtain ⟨⟨b, m⟩, rfl, rfl⟩ := Option.map_eq_some_iff.mp answer
  exact ⟨m, rfl⟩

/-- A heap of 96 bytes at 64 with one live pointer. -/
theorem heap_wellFormed_allocated :
    ∃ st : HeapState, st.live = [96] ∧ ∃ bs, WellFormed ⟨64, 64, 160⟩ st bs := by
  have region : Region 96 64 := ⟨by decide, by decide, by decide, by decide, by decide⟩
  obtain ⟨m, ran⟩ : ∃ m, (malloc ⟨64, 64, 160⟩ 16).run memHandler
      (freshHeader (fun _ => 0) 64 64 0 0) = some (96, m) :=
    exists_of_map_fst (by decide +kernel)
  have reached : Reachable 96 64 ⟨64, 64, 160⟩ _ := .init (run_heapInit region fun _ => 0)
  exact ⟨_, rfl, (heap_wellFormed region (reached.step (.malloc ran))).1⟩

end KopalniaOS.Heap
