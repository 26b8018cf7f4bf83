import KopalniaOS.Paging.Translation

/-!
# Mapping byte ranges

`uacpi_kernel_map` hands a range of bytes at any offset to `Map_memory_vp`, which steps
from the first byte and joins the address of each step with the flags.
-/
namespace KopalniaOS.Paging

open Library Heap

variable {g : Globals} {hhdm : Nat} {st : State} {ss : List Seg} {page : Pages}
variable {assume : PageOp → State → Prop} {hang : Prop} {mask addr len : Nat}

/-- `uacpi_kernel_map` -/
def uacpiKernelMap (hhdm fuel addr len : Nat) : PageProgram Nat := do
  mapMemoryVp hhdm fuel (toVirtual hhdm addr) addr len profileMmio
  pure (toVirtual hhdm addr)

/-! ### Bytes -/

/-- The leaf entry the processor uses for a byte; it accepts canonical addresses only. -/
def translate (mask hhdm : Nat) (st : State) (virt : Nat) : Option Nat :=
  if Canonical virt then walk mask hhdm st virt else none

/-- The flag bits of an entry: 0 to 11, and 63. -/
def flagMask : Nat := 0xFFF ||| NoExecute

/-- The byte at `virt` is the physical byte `phys`, through an entry with the flags of
`Profile::MMIO`. -/
def MapsByte (mask hhdm : Nat) (st : State) (virt phys : Nat) : Prop :=
  ∃ leaf, translate mask hhdm st virt = some leaf ∧
    (leaf &&& addressMask) + virt % 4096 = phys ∧ leaf &&& flagMask = profileMmio

/-- The last page of the range is behind the pages the loop steps on. -/
def Straddles (addr len : Nat) : Prop := 4096 * ((len + 4095) / 4096) < addr % 4096 + len

/-- When a byte range is mapped as asked: all its bytes have canonical addresses, the low bits
of its address are among the flags, and a last page the loop does not reach was there before. -/
structure InReach (mask hhdm : Nat) (st : State) (addr len : Nat) : Prop where
  canonical : ∀ k, k < len → Canonical (u64 (toVirtual hhdm addr + k))
  low : addr % 4096 ||| profileMmio = profileMmio
  last : Straddles addr len →
    MapsByte mask hhdm st (u64 (toVirtual hhdm addr + (len - 1))) (addr + (len - 1))

/-! ### The entries of the loop -/

/-- The offset in the page of the address joins the flags of every entry. -/
theorem leaf_parts {a : Nat} (low : a < 2 ^ 52) :
    (a ||| profileMmio) &&& addressMask = a / 4096 * 4096 ∧
      (a ||| profileMmio) &&& flagMask = a % 4096 ||| profileMmio := by
  -- the page and the offset of the address share no bit
  have split : a / 4096 * 4096 ||| a % 4096 = a := by
    have joined : a / 4096 * 4096 ||| a % 4096 = a / 4096 * 4096 + a % 4096 :=
      or_eq_add (k := 12) (by omega) (by omega)
    omega
  have small : a % 4096 &&& 0xFFF = a % 4096 := by
    rw [show (0xFFF : Nat) = 2 ^ 12 - 1 from rfl, Nat.and_two_pow_sub_one_eq_mod]
    omega
  -- the offset is below the address bits, and so are the flags beside bit 63
  have apart : (a % 4096 ||| profileMmio) &&& addressMask = 0 := by
    rw [Nat.and_or_distrib_right, ← small, Nat.and_assoc, show 0xFFF &&& addressMask = 0 by decide,
      Nat.and_zero, show profileMmio &&& addressMask = 0 by decide, Nat.zero_or]
  have word : a % 4096 ||| profileMmio < 2 ^ 64 := Nat.or_lt_two_pow (by omega) (by decide)
  have base : a / 4096 * 4096 &&& addressMask = a / 4096 * 4096 := by
    have parts := @entry_split (a / 4096 * 4096) 0 (by omega) (by omega) (by decide) (by decide)
    rw [Nat.or_zero] at parts
    exact parts.1
  have none : a / 4096 * 4096 &&& flagMask = 0 := by
    rw [← base, Nat.and_assoc, show addressMask &&& flagMask = 0 by decide, Nat.and_zero]
  have whole : (a % 4096 ||| profileMmio) &&& flagMask = a % 4096 ||| profileMmio := by
    rw [Nat.and_or_distrib_right, ← small, Nat.and_assoc,
      show 0xFFF &&& flagMask = 0xFFF by decide, show profileMmio &&& flagMask = profileMmio by decide]
  have joined : a ||| profileMmio = a / 4096 * 4096 ||| (a % 4096 ||| profileMmio) := by
    rw [← Nat.or_assoc, split]
  constructor
  · rw [joined]
    exact (entry_split (by omega) (by omega) word apart).1
  · rw [joined, Nat.and_or_distrib_right, none, whole, Nat.zero_or]

/-- A step of the loop that reaches a byte of the range gives it its entry. -/
theorem applied_reached (direct : DirectMap hhdm) (low : addr + len < 2 ^ 52)
    (canonical : ∀ k, k < len → Canonical (u64 (toVirtual hhdm addr + k))) (f : Nat → Option Nat)
    {k : Nat} (inside : k < len) (reached : addr % 4096 + k < 4096 * ((len + 4095) / 4096)) :
    applied (vpWrites (toVirtual hhdm addr) addr profileMmio 0 ((len + 4095) / 4096)) f
        (u64 (toVirtual hhdm addr + k)) =
      some ((addr + (addr % 4096 + k) / 4096 * 4096) ||| profileMmio) := by
  have aligned := direct.aligned
  apply applied_of_all
  · refine ⟨_, List.mem_map.mpr ⟨(addr % 4096 + k) / 4096, ?_, rfl⟩, ?_⟩
    · simp only [List.mem_range'_1]
      omega
    · unfold slot toVirtual u64
      omega
  · intro w member same
    obtain ⟨i, range, rfl⟩ := List.mem_map.mp member
    simp only [List.mem_range'_1] at range
    -- the step starts at a byte of the range, so its address is canonical too
    have pages := page_inj (canonical k inside) (canonical (4096 * i) (by omega)) same
    have step : i = (addr % 4096 + k) / 4096 := by
      unfold toVirtual u64 at pages
      omega
    have word : u64 (addr + 4096 * i) = addr + (addr % 4096 + k) / 4096 * 4096 := by
      rw [u64_of_lt (by omega)]
      omega
    simp only [word]
    exact present_or (by decide)

/-- The other bytes keep the entry they had. -/
theorem applied_missed (direct : DirectMap hhdm) (low : addr + len < 2 ^ 52)
    (canonical : ∀ k, k < len → Canonical (u64 (toVirtual hhdm addr + k))) (f : Nat → Option Nat)
    {k : Nat} (inside : k < len) (missed : 4096 * ((len + 4095) / 4096) ≤ addr % 4096 + k) :
    applied (vpWrites (toVirtual hhdm addr) addr profileMmio 0 ((len + 4095) / 4096)) f
        (u64 (toVirtual hhdm addr + k)) = f (u64 (toVirtual hhdm addr + k)) := by
  have aligned := direct.aligned
  apply applied_of_none
  intro w member same
  obtain ⟨i, range, rfl⟩ := List.mem_map.mp member
  simp only [List.mem_range'_1] at range
  have pages := page_inj (canonical k inside) (canonical (4096 * i) (by omega)) same
  unfold toVirtual u64 at pages
  omega

/-! ### The range -/

theorem view_congr {v w : Nat} (same : slot v = slot w) : view st page v = view st page w := by
  obtain ⟨path, index⟩ := (slot_eq_iff v w).mp same
  rw [view, path, index]
  rfl

/-- What the range looks like after the loop, byte by byte. -/
theorem mapsRange_iff (placed : Placed g) (direct : DirectMap hhdm) (recovers : Recovers g hhdm mask)
    (tree : Tree g hhdm st ss page) {st' : State} {ss' : List Seg} {page' : Pages}
    (tree' : Tree g hhdm st' ss' page') (pos : 1 ≤ len) (low : addr + len < 2 ^ 52)
    (sets : ∀ virt, view st' page' virt = applied (vpWrites (toVirtual hhdm addr) addr profileMmio 0
      ((len + 4095) / 4096)) (view st page) virt) :
    (∀ k, k < len → MapsByte mask hhdm st' (u64 (toVirtual hhdm addr + k)) (addr + k)) ↔
      InReach mask hhdm st addr len := by
  have aligned := direct.aligned
  have offset (k : Nat) : u64 (toVirtual hhdm addr + k) % 4096 = (addr + k) % 4096 := by
    unfold toVirtual u64
    omega
  constructor
  · intro maps
    have canonical : ∀ k, k < len → Canonical (u64 (toVirtual hhdm addr + k)) := by
      intro k inside
      -- a byte that is translated has an address the processor accepts
      obtain ⟨leaf, found, -⟩ := maps k inside
      by_contra refused
      rw [translate, if_neg refused] at found
      cases found
    refine ⟨canonical, ?_, fun straddles => ?_⟩
    · -- the first byte is reached, and its entry shows the low bits of the address
      obtain ⟨leaf, found, -, flags⟩ := maps 0 pos
      rw [translate, if_pos (canonical 0 pos), tree'.walk_eq placed direct recovers, sets,
        applied_reached direct low canonical _ pos (by omega)] at found
      cases found
      rw [(leaf_parts (by omega)).2] at flags
      have same : (addr + (addr % 4096 + 0) / 4096 * 4096) % 4096 = addr % 4096 := by omega
      rwa [same] at flags
    · unfold Straddles at straddles
      obtain ⟨leaf, found, holds⟩ := maps (len - 1) (by omega)
      refine ⟨leaf, ?_, holds⟩
      rw [translate, if_pos (canonical _ (by omega)), tree'.walk_eq placed direct recovers, sets,
        applied_missed direct low canonical _ (by omega) (by omega)] at found
      rw [translate, if_pos (canonical _ (by omega)), tree.walk_eq placed direct recovers]
      exact found
  · rintro ⟨canonical, flags, last⟩ k inside
    unfold MapsByte
    rw [translate, if_pos (canonical k inside), tree'.walk_eq placed direct recovers, sets]
    by_cases reached : addr % 4096 + k < 4096 * ((len + 4095) / 4096)
    · rw [applied_reached direct low canonical _ inside reached]
      have parts := leaf_parts (a := addr + (addr % 4096 + k) / 4096 * 4096) (by omega)
      have same : (addr + (addr % 4096 + k) / 4096 * 4096) % 4096 = addr % 4096 := by omega
      refine ⟨_, rfl, ?_, ?_⟩
      · rw [parts.1, offset]
        omega
      · rw [parts.2, same]
        exact flags
    · -- all bytes the loop misses share the last page
      have straddles : Straddles addr len := by
        unfold Straddles
        omega
      obtain ⟨leaf, found, phys, exact_⟩ := last straddles
      rw [translate, if_pos (canonical _ (by omega)), tree.walk_eq placed direct recovers] at found
      have same : slot (u64 (toVirtual hhdm addr + k)) =
          slot (u64 (toVirtual hhdm addr + (len - 1))) := by
        unfold slot toVirtual u64
        omega
      rw [applied_missed direct low canonical _ inside (by omega), view_congr same]
      refine ⟨leaf, found, ?_, exact_⟩
      rw [offset] at phys ⊢
      omega

/-- `uacpi_kernel_map` on any tree. -/
theorem Tree.run_uacpiKernelMap (placed : Placed g) (direct : DirectMap hhdm)
    (recovers : Recovers g hhdm mask) (tree : Tree g hhdm st ss page) (pos : 1 ≤ len)
    (low : addr + len < 2 ^ 52)
    (granted : (uacpiKernelMap hhdm loopBound addr len).All (pageHandler g) (Succeeds g) st) :
    ∃ st', (uacpiKernelMap hhdm loopBound addr len).run (pageHandler g) st =
        some (toVirtual hhdm addr, st') ∧
      ((∀ k, k < len → MapsByte mask hhdm st' (u64 (toVirtual hhdm addr + k)) (addr + k)) ↔
        InReach mask hhdm st addr len) := by
  have bounded : (Call.mapMemoryVp (toVirtual hhdm addr) addr len profileMmio).Bounded :=
    ⟨by omega, by decide⟩
  rw [uacpiKernelMap, Program.all_bind] at granted
  -- all pages are granted, so the call returns and has set what it should
  obtain ⟨_, st', ran, ss', page', tree', -, sets⟩ := (meets_call placed direct
    (grants_succeeds placed) tree bounded).returns granted.1 id
  have ran' : (mapMemoryVp hhdm loopBound (toVirtual hhdm addr) addr len profileMmio).run
      (pageHandler g) st = some ((), st') := ran
  refine ⟨st', ?_, mapsRange_iff placed direct recovers tree tree' pos low sets⟩
  rw [uacpiKernelMap, Program.run_bind, ran']
  rfl

/-- After any mapping calls, `uacpi_kernel_map` maps its range byte for byte exactly when the
range is in reach. -/
theorem kernelMap_maps_iff {size start : Nat} {h : HeapState} {p : Nat → Nat} {calls : List Call}
    {st₀ : State} (region : Region size start) (reached : Reachable size start g h)
    (direct : DirectMap hhdm) (bounded : ∀ c ∈ calls, c.Bounded) (masked : WalkMask g hhdm mask)
    (started : init.run (pageHandler g) ⟨h, p, []⟩ = some ((), st₀))
    (funded : (runCalls hhdm loopBound calls).All (pageHandler g) (Succeeds g) st₀)
    (before : (runCalls hhdm loopBound calls).run (pageHandler g) st₀ = some ((), st))
    (pos : 1 ≤ len) (low : addr + len < 2 ^ 52)
    (granted : (uacpiKernelMap hhdm loopBound addr len).All (pageHandler g) (Succeeds g) st) :
    ∃ st', (uacpiKernelMap hhdm loopBound addr len).run (pageHandler g) st =
        some (toVirtual hhdm addr, st') ∧
      ((∀ k, k < len → MapsByte mask hhdm st' (u64 (toVirtual hhdm addr + k)) (addr + k)) ↔
        InReach mask hhdm st addr len) := by
  obtain ⟨rfl, ss, inv⟩ := reachable_inv region reached
  have placed := placed_heapInit region
  have tree : Tree _ hhdm st₀ ss fun _ => none := tree_init inv started
  -- the calls before have left a tree of tables
  obtain ⟨_, st', ran, ss', page', tree', -, -⟩ := (meets_runCalls placed direct
    (grants_succeeds placed) tree calls bounded).returns funded id
  cases before.symm.trans ran
  exact tree'.run_uacpiKernelMap placed direct (masked.recovers placed direct) pos low granted

theorem all_uacpiKernelMap_fresh (word : len ≤ 8192) :
    (uacpiKernelMap 0 loopBound addr len).All (pageHandler freshGlobals) (Succeeds freshGlobals)
      freshState := by
  have bounded : (Call.mapMemoryVp (toVirtual 0 addr) addr len profileMmio).Bounded :=
    ⟨by omega, by decide⟩
  have pages : 3 * (Call.mapMemoryVp (toVirtual 0 addr) addr len profileMmio).writes.length ≤ 6 := by
    simp only [Call.writes, vpWrites, List.length_map, List.length_range']
    omega
  rw [uacpiKernelMap, Program.all_bind]
  exact ⟨all_call placed_fresh directMap_zero (grants_succeeds placed_fresh)
    (funded_succeeds placed_fresh) tree_fresh bounded loopBound (room_fresh.mono pages),
    fun _ _ _ => Program.all_ret _ _⟩

theorem kernelMap_maps_iff_page :
    ∃ st', (uacpiKernelMap 0 loopBound 4096 1).run (pageHandler freshGlobals) freshState =
        some (toVirtual 0 4096, st') ∧
      ((∀ k, k < 1 → MapsByte tableMask 0 st' (u64 (toVirtual 0 4096 + k)) (4096 + k)) ↔
        InReach tableMask 0 freshState 4096 1) := by
  have none : ∀ c ∈ ([] : List Call), c.Bounded := fun _ => nofun
  exact kernelMap_maps_iff region_fresh reachable_fresh directMap_zero none (.inl rfl) started_fresh
    (Program.all_ret () freshState) rfl (by decide) (by decide)
    (all_uacpiKernelMap_fresh (by decide))

/-- Four bytes from 4094 on: the offset 0xFFE gets into the flags, and the second page is
never mapped. -/
theorem kernelMap_not_all_bytes :
    ¬∀ hhdm size start g h p calls st₀ st mask addr len, Region size start →
      Reachable size start g h → DirectMap hhdm → (∀ c ∈ calls, Call.Bounded c) →
      WalkMask g hhdm mask →
      init.run (pageHandler g) ⟨h, p, []⟩ = some ((), st₀) →
      (runCalls hhdm loopBound calls).All (pageHandler g) (Succeeds g) st₀ →
      (runCalls hhdm loopBound calls).run (pageHandler g) st₀ = some ((), st) →
      1 ≤ len → addr + len < 2 ^ 52 →
      (uacpiKernelMap hhdm loopBound addr len).All (pageHandler g) (Succeeds g) st →
      ∃ st', (uacpiKernelMap hhdm loopBound addr len).run (pageHandler g) st =
          some (toVirtual hhdm addr, st') ∧
        ∀ k, k < len → MapsByte mask hhdm st' (u64 (toVirtual hhdm addr + k)) (addr + k) := by
  intro claimed
  have granted := @all_uacpiKernelMap_fresh 4094 4 (by decide)
  obtain ⟨st', ran, maps⟩ := claimed 0 65536 65536 freshGlobals _ _ [] freshState freshState
    tableMask 4094 4 region_fresh reachable_fresh directMap_zero (fun _ => nofun) (.inl rfl)
    started_fresh (Program.all_ret () freshState) rfl (by decide) (by decide) granted
  -- what the loop does to these four bytes, by the general result
  obtain ⟨st'', ran', exact_⟩ := tree_fresh.run_uacpiKernelMap placed_fresh directMap_zero
    (recovers_tableMask freshGlobals directMap_zero) (by decide) (by decide) granted
  cases ran.symm.trans ran'
  exact absurd (exact_.mp maps).low (by decide)

end KopalniaOS.Paging
