import KopalniaOS.Heap.Free
import Mathlib.Logic.Relation
import Mathlib.Data.List.Perm.Basic

/-!
# Runs of the heap

A client calls `malloc` and `free` and writes into the payloads it was given. One
invariant carries every run: the block list is represented, no two neighbours are
free, and the used blocks are those of the live pointers.
-/
namespace KopalniaOS.Heap

open Library Relation

/-- Memory, and the pointers that were returned and not freed. -/
structure HeapState where
  mem : Memory
  live : List Nat

/-- A successful `malloc` makes its result live. -/
def HeapState.allocated (st : HeapState) (p : Nat) (m : Memory) : HeapState :=
  ⟨m, if p = 0 then st.live else p :: st.live⟩

def HeapState.freed (st : HeapState) (p : Nat) (m : Memory) : HeapState :=
  ⟨m, st.live.erase p⟩

inductive Step (g : Globals) : HeapState → HeapState → Prop where
  | malloc {st n p m} : (malloc g n).run memHandler st.mem = some (p, m) →
      Step g st (st.allocated p m)
  | free {st p m} : p = 0 ∨ p ∈ st.live → (free p).run memHandler st.mem = some ((), m) →
      Step g st (st.freed p m)
  | write {st p x v} : p ∈ st.live → p ≤ x → x < p + field st.mem (p - sizeofBlock) .size →
      Step g st ⟨Function.update st.mem x v, st.live⟩

/-- The states after `heapInit(size, addr)` on any memory and any run. -/
inductive Reachable (size addr : Nat) (g : Globals) : HeapState → Prop where
  | init {m₀ m} : (heapInit size addr).run memHandler m₀ = some (g, m) →
      Reachable size addr g ⟨m, []⟩
  | step {st st'} : Reachable size addr g st → Step g st st' → Reachable size addr g st'

/-- What the caller of `heapInit` provides: an aligned, non-null range that does not wrap. -/
structure Region (size addr : Nat) : Prop where
  notNull : addr ≠ 0
  addrAligned : 16 ∣ addr
  sizeAligned : 16 ∣ size
  room : 48 ≤ size
  noWrap : addr + size < 2 ^ 64

/-! ### The invariant -/

/-- The pointers of the used segments. -/
def payloads (ss : List Seg) : List Nat := (used ss).map fun s => s.addr + sizeofBlock

structure HeapInv (g : Globals) (st : HeapState) (ss : List Seg) : Prop where
  represents : Represents g st.mem ss
  coalesced : Coalesced ss
  live : st.live.Perm (payloads ss)

variable {g : Globals} {st : HeapState} {ss : List Seg} {size addr : Nat}

theorem mem_payloads {p : Nat} :
    p ∈ payloads ss ↔ ∃ s ∈ ss, s.free = false ∧ s.addr + 32 = p := by
  simp [payloads, and_assoc]

@[simp] theorem payloads_append (xs ys : List Seg) :
    payloads (xs ++ ys) = payloads xs ++ payloads ys := by
  simp [payloads]

theorem payloads_cons_free {s : Seg} (free : s.free = true) (ys : List Seg) :
    payloads (s :: ys) = payloads ys := by
  simp [payloads, used, free]

theorem payloads_cons_used {s : Seg} (unfree : s.free = false) (ys : List Seg) :
    payloads (s :: ys) = (s.addr + 32) :: payloads ys := by
  simp [payloads, used, unfree]

theorem HeapInv.mem_live (inv : HeapInv g st ss) {p : Nat} :
    p ∈ st.live ↔ ∃ s ∈ ss, s.free = false ∧ s.addr + 32 = p :=
  inv.live.mem_iff.trans mem_payloads

/-- What the header of a segment says. -/
theorem HeapInv.fields (inv : HeapInv g st ss) {s : Seg} (member : s ∈ ss) :
    field st.mem s.addr .free = s.free.toNat ∧ field st.mem s.addr .size = s.size := by
  obtain ⟨xs, ys, rfl⟩ := List.append_of_mem member
  exact ⟨inv.represents.header.free, inv.represents.header.size⟩

/-- What `heapInit` writes is one free segment. -/
theorem run_heapInit (region : Region size addr) (m : Memory) :
    (heapInit size addr).run memHandler m =
      some (⟨addr, addr, addr + size⟩, freshHeader m addr (size - 32) 0 0) := by
  have wide : size < 2 ^ 64 := Nat.lt_of_le_of_lt (Nat.le_add_left size addr) region.noWrap
  have room : sizeofBlock ≤ size := Nat.le_trans (by decide) region.room
  simp [heapInit, sub64_of_le wide room, u64_of_lt region.noWrap, freshHeader]

theorem placed_heapInit (region : Region size addr) : Placed ⟨addr, addr, addr + size⟩ :=
  ⟨rfl, Nat.pos_of_ne_zero region.notNull, Nat.lt_add_of_pos_right
    (Nat.lt_of_lt_of_le (by decide) region.room), region.addrAligned, region.noWrap⟩

theorem inv_heapInit (region : Region size addr) (m : Memory) :
    HeapInv ⟨addr, addr, addr + size⟩ ⟨freshHeader m addr (size - 32) 0 0, []⟩
      [⟨addr, size - 32, true⟩] := by
  have room := region.room
  have noWrap := region.noWrap
  have sized := region.sizeAligned
  refine ⟨⟨⟨?_, trivial⟩, ⟨rfl, ?_⟩, ?_⟩, List.isChain_singleton _, ?_⟩
  · exact header_freshHeader m addr (by omega) (by decide) (by decide)
  · simp only [Tiles]
    omega
  · simp only [List.mem_singleton, forall_eq]
    omega
  · simp [payloads, used]

/-! ### Steps -/

/-- The used segment a carved block begins with. -/
theorem mem_carve {n : Nat} (s : Seg) (xs ys : List Seg) (fits : n ≤ s.size) :
    ∃ given, (⟨s.addr, given, false⟩ : Seg) ∈ xs ++ carve 32 16 n s ++ ys ∧ n ≤ given ∧
      given < n + 48 ∧ given ≤ s.size := by
  obtain ⟨given, carved, low, high, smaller⟩ := @used_carve 32 16 _ _ (by decide) fits
  have picked : (⟨s.addr, given, false⟩ : Seg) ∈ carve 32 16 n s :=
    (mem_used.mp (carved ▸ List.mem_singleton.mpr rfl)).1
  exact ⟨given, by simp [picked], low, by omega, smaller⟩

/-- Taking a free block makes its pointer live. -/
theorem HeapInv.take (placed : Placed g) {xs ys : List Seg} {s : Seg} {n : Nat}
    (inv : HeapInv g st (xs ++ s :: ys)) (free : s.free = true) (aligned : 16 ∣ n)
    (fits : n ≤ s.size) :
    ∃ m, (takeBlock s.addr n).run memHandler st.mem = some (s.addr + 32, m) ∧
      HeapInv g (st.allocated (s.addr + 32) m) (xs ++ carve 32 16 n s ++ ys) ∧
      Untouched (xs ++ s :: ys) st.mem m := by
  obtain ⟨m, ran, rep, untouched⟩ := run_takeBlock placed inv.represents free aligned fits
  refine ⟨m, ran, ⟨rep, coalesced_carve free inv.coalesced, ?_⟩, untouched⟩
  obtain ⟨given, carved, -, -⟩ := @used_carve 32 16 _ _ (by decide) fits
  have new : payloads (xs ++ carve 32 16 n s ++ ys) =
      payloads xs ++ (s.addr + 32) :: payloads ys := by
    simp [payloads, carved]
  have live := inv.live
  rw [payloads_append, payloads_cons_free free] at live
  rw [new]
  -- the new pointer is in the middle of the payloads, and at the head of the live ones
  exact (live.cons (s.addr + 32)).trans List.perm_middle.symm

/-- `malloc` from a good heap: null and no change, or the first segment that fits. -/
theorem HeapInv.malloc (placed : Placed g) (inv : HeapInv g st ss) (n : Nat) :
    ((∀ s ∈ ss, fits (roundSize n) s = false) ∧
      (malloc g n).run memHandler st.mem = some (0, st.mem)) ∨
    ∃ xs s ys m, ss = xs ++ s :: ys ∧ (∀ t ∈ xs, fits (roundSize n) t = false) ∧
      s.free = true ∧ roundSize n ≤ s.size ∧
      (malloc g n).run memHandler st.mem = some (s.addr + 32, m) ∧
      HeapInv g (st.allocated (s.addr + 32) m) (xs ++ carve 32 16 (roundSize n) s ++ ys) ∧
      Untouched ss st.mem m := by
  have scan := run_malloc placed inv.represents n
  -- the scan stops at the first block that fits, or at the end
  cases found : ss.find? (fits (roundSize n)) with
  | none =>
    rw [found] at scan
    exact .inl ⟨by simpa using found, scan⟩
  | some s =>
    rw [found] at scan
    obtain ⟨taken, xs, ys, rfl, earlier⟩ := List.find?_eq_some_iff_append.mp found
    obtain ⟨free, size⟩ := (Bool.and_eq_true _ _).mp taken
    obtain ⟨m, ran, inv', untouched⟩ :=
      inv.take placed free (roundSize_dvd n) (of_decide_eq_true size)
    exact .inr ⟨xs, s, ys, m, rfl, by simpa using earlier, free, of_decide_eq_true size,
      scan.trans ran, inv', untouched⟩

/-- `free` of a live pointer from a good heap. -/
theorem HeapInv.free (placed : Placed g) (inv : HeapInv g st ss) {p : Nat} (member : p ∈ st.live) :
    ∃ xs s ys m ss', ss = xs ++ s :: ys ∧ s.free = false ∧ s.addr + 32 = p ∧
      (Heap.free p).run memHandler st.mem = some ((), m) ∧ HeapInv g (st.freed p m) ss' ∧
      Joined xs ys ss' ∧
      Untouched (xs ++ { s with free := true } :: ys) st.mem m := by
  obtain ⟨s, inside, unfree, rfl⟩ := inv.mem_live.mp member
  obtain ⟨xs, ys, rfl⟩ := List.append_of_mem inside
  obtain ⟨m, ss', ran, rep, coalesced, joined, untouched⟩ :=
    run_free placed inv.represents inv.coalesced
  refine ⟨xs, s, ys, m, ss', rfl, unfree, rfl, ran, ⟨rep, coalesced, ?_⟩, joined, untouched⟩
  -- only free blocks are merged, so one payload is gone and the others are live
  have new : payloads ss' = payloads xs ++ payloads ys := by
    simp [payloads, joined.used_eq]
  have live : st.live.Perm ((s.addr + 32) :: (payloads xs ++ payloads ys)) := by
    refine inv.live.trans ?_
    rw [payloads_append, payloads_cons_used unfree]
    exact List.perm_middle
  rw [new]
  simpa [HeapState.freed] using live.erase (s.addr + 32)

/-- What a client does inside a payload is out of reach of every header. -/
theorem HeapInv.fill (inv : HeapInv g st ss) {p : Nat} {m : Memory} (member : p ∈ st.live)
    (same : ∀ x, x < p ∨ p + field st.mem (p - sizeofBlock) .size ≤ x → m x = st.mem x) :
    HeapInv g ⟨m, st.live⟩ ss := by
  obtain ⟨s, inside, unfree, rfl⟩ := inv.mem_live.mp member
  obtain ⟨xs, ys, rfl⟩ := List.append_of_mem inside
  have rep := inv.represents
  rw [sizeofBlock, Nat.add_sub_cancel, rep.header.size] at same
  refine ⟨⟨rep.linked.congr fun t other f => ?_, rep.tiles, rep.sizes⟩, inv.coalesced, inv.live⟩
  apply field_congr
  intro y lower upper
  apply same
  -- a header is in front of its own payload, and outside of those of the others
  rcases rep.tiles.separate inside other with rfl | after | before
  · omega
  · omega
  · omega

theorem HeapInv.write (inv : HeapInv g st ss) {p x : Nat} (v : UInt8) (member : p ∈ st.live)
    (above : p ≤ x) (below : x < p + field st.mem (p - sizeofBlock) .size) :
    HeapInv g ⟨Function.update st.mem x v, st.live⟩ ss := by
  apply inv.fill member
  intro y outside
  apply Function.update_of_ne
  omega

theorem HeapInv.step (placed : Placed g) {st' : HeapState} (inv : HeapInv g st ss)
    (step : Step g st st') : ∃ ss', HeapInv g st' ss' := by
  cases step with
  | @malloc n p m ran =>
    rcases inv.malloc placed n with ⟨-, failed⟩ | ⟨xs, s, ys, m', -, -, -, -, taken, inv', -⟩
    · cases failed.symm.trans ran
      exact ⟨ss, inv⟩
    · cases taken.symm.trans ran
      exact ⟨_, inv'⟩
  | @free p m allowed ran =>
    by_cases member : p ∈ st.live
    · obtain ⟨xs, s, ys, m', ss', -, -, -, freed, inv', -, -⟩ := inv.free placed member
      cases freed.symm.trans ran
      exact ⟨ss', inv'⟩
    · -- free(nullptr) does nothing
      obtain rfl : p = 0 := allowed.resolve_right member
      cases ran
      refine ⟨ss, inv.represents, inv.coalesced, ?_⟩
      rw [HeapState.freed, List.erase_of_not_mem member]
      exact inv.live
  | write member above below => exact ⟨ss, inv.write _ member above below⟩

/-- The invariant holds in every run. -/
theorem reachable_inv (region : Region size addr) (reached : Reachable size addr g st) :
    g = ⟨addr, addr, addr + size⟩ ∧ ∃ ss, HeapInv g st ss := by
  induction reached with
  | @init m₀ m ran =>
    cases (run_heapInit region m₀).symm.trans ran
    exact ⟨rfl, _, inv_heapInit region m₀⟩
  | step _ step ih =>
    obtain ⟨rfl, ss, inv⟩ := ih
    exact ⟨rfl, inv.step (placed_heapInit region) step⟩

end KopalniaOS.Heap
