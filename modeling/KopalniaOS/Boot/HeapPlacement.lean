import KopalniaOS.Paging.Model

/-!
# Where the kernel heap lies

`kernel_main` picks the heap from the memory map of the boot loader, and `systemPL::Init`
fixes its size.
-/
namespace KopalniaOS.Boot

open Library Heap Paging

/-! ### What the boot loader hands over -/

inductive MemmapType where
  | usable
  | reserved
  | acpiReclaimable
  | acpiNvs
  | badMemory
  | bootloaderReclaimable
  | executableAndModules
  | framebuffer
  | unknown (code : Nat)
deriving DecidableEq, Repr

structure MemmapEntry where
  base : Nat
  length : Nat
  type : MemmapType
deriving DecidableEq, Repr

/-- The responses that `kernel_main` and `Init` read. `framebufferCount` is `none` when the
response is null. -/
structure BootInfo where
  baseRevisionSupported : Bool
  framebufferCount : Option Nat
  memmap : List MemmapEntry
  hhdmOffset : Nat
  kernelPhysical : Nat
  kernelVirtual : Nat
  kernelSize : Nat

/-- The fields of the memory map and the offset are words. -/
structure BootInfo.Words (b : BootInfo) : Prop where
  entries : ∀ e ∈ b.memmap, e.base < 2 ^ 64 ∧ e.length < 2 ^ 64
  offset : b.hhdmOffset < 2 ^ 64

/-! ### The code -/

/-- `heap_size` of `kernel_main` -/
def minimalLength : Nat := 8 * 1024 * 1024

/-- The loop over the memory map: `heap_addr` when it ends. -/
def selectHeap (offset : Nat) : List MemmapEntry → Nat
  | [] => 0
  | entry :: entries =>
    if entry.type = .usable ∧ minimalLength ≤ entry.length then u64 (entry.base + offset)
    else selectHeap offset entries

/-- The address `kernel_main` passes to `Init`; `none` when it halts. -/
def kernelMain (b : BootInfo) : Option Nat :=
  if b.baseRevisionSupported = false then none
  else if b.framebufferCount.getD 0 < 1 then none
  else
    let heapAddr := selectHeap b.hhdmOffset b.memmap
    if heapAddr = 0 then none else some heapAddr

/-- The size that `Init` gives to `heap_init`, and maps. -/
def initHeapSize : Nat := 1024 * 1024 * 64

/-- The types that `Init` maps at the offset. -/
def mappedType : MemmapType → Bool
  | .usable | .bootloaderReclaimable | .acpiReclaimable | .acpiNvs | .framebuffer => true
  | _ => false

/-- What `Init` does up to `Enable_paging`. -/
inductive InitStep where
  | heapInit (size heapAddr : Nat)
  | map (call : Paging.Call)
deriving DecidableEq, Repr

def systemInit (b : BootInfo) (heapAddr : Nat) : List InitStep :=
  .heapInit initHeapSize heapAddr ::
  .map (.mapMemoryVp heapAddr (toPhysical b.hhdmOffset heapAddr) initHeapSize profileKernelData) ::
  .map (.mapMemory 0 (1024 * 1024 * 96) profileUserCode) ::
  .map (.mapMemoryVp b.kernelVirtual b.kernelPhysical b.kernelSize (profileKernelCode ||| Writable)) ::
  (b.memmap.filter fun e => mappedType e.type).map fun e =>
    .map (.mapMemoryVp (u64 (b.hhdmOffset + e.base)) e.base e.length profileKernelData)

/-! ### The property -/

/-- `Init` gives `[start, start + size)` to the allocator, and maps it. -/
def GivenToHeap (b : BootInfo) (heapAddr start size : Nat) : Prop :=
  ∃ flags, [.heapInit size start,
    .map (.mapMemoryVp start (toPhysical b.hhdmOffset start) size flags)] <+: systemInit b heapAddr

/-- One usable entry holds the physical bytes of `[start, start + size)`. -/
def InUsable (b : BootInfo) (start size : Nat) : Prop :=
  ∃ e ∈ b.memmap, e.type = .usable ∧ ∀ k, k < size →
    e.base ≤ toPhysical b.hhdmOffset (u64 (start + k)) ∧
      toPhysical b.hhdmOffset (u64 (start + k)) < e.base + e.length

/-- The whole heap is in usable memory when `Init` is called with `heapAddr`. -/
def HeapInUsable (b : BootInfo) (heapAddr : Nat) : Prop :=
  ∃ start size, GivenToHeap b heapAddr start size ∧ InUsable b start size

/-- The entry that `kernel_main` is after. -/
def BootInfo.firstLarge (b : BootInfo) : Option MemmapEntry :=
  b.memmap.find? fun e => e.type = .usable ∧ minimalLength ≤ e.length

/-- `kernel_main` has a reason to halt. -/
def Halts (b : BootInfo) : Prop :=
  b.baseRevisionSupported = false ∨ b.framebufferCount.getD 0 < 1 ∨
    ∀ e, b.firstLarge = some e → u64 (e.base + b.hhdmOffset) = 0

/-- No two usable entries overlap, as the boot loader promises. -/
structure BootInfo.Apart (b : BootInfo) : Prop where
  bounded : ∀ e ∈ b.memmap, e.base + e.length ≤ 2 ^ 64
  disjoint : ∀ e ∈ b.memmap, ∀ e' ∈ b.memmap, e.type = .usable → e'.type = .usable →
    e = e' ∨ e.base + e.length ≤ e'.base ∨ e'.base + e'.length ≤ e.base

/-- The first 64 MiB from the start of `e` on are in a usable entry. -/
def Covered (b : BootInfo) (e : MemmapEntry) : Prop :=
  e.base + initHeapSize ≤ 2 ^ 64 ∧ ∃ e' ∈ b.memmap, e'.type = .usable ∧
    e'.base ≤ e.base ∧ e.base + initHeapSize ≤ e'.base + e'.length

variable {b : BootInfo} {e : MemmapEntry}

theorem selectHeap_eq (offset : Nat) (entries : List MemmapEntry) :
    selectHeap offset entries =
      ((entries.find? fun e => e.type = .usable ∧ minimalLength ≤ e.length).map
        fun e => u64 (e.base + offset)).getD 0 := by
  induction entries with
  | nil => rfl
  | cons entry entries ih =>
    rw [selectHeap]
    by_cases large : entry.type = .usable ∧ minimalLength ≤ entry.length
    · rw [if_pos large, List.find?_cons_of_pos (by simpa using large)]
      rfl
    · rw [if_neg large, List.find?_cons_of_neg (by simpa using large), ih]

theorem kernelMain_of_halts (halts : Halts b) : kernelMain b = none := by
  unfold kernelMain
  rcases halts with revision | none | zero
  · rw [if_pos revision]
  · rw [if_pos none]
    exact ite_self _
  · have addr : selectHeap b.hhdmOffset b.memmap = 0 := by
      rw [selectHeap_eq]
      cases found : b.memmap.find? fun e => e.type = .usable ∧ minimalLength ≤ e.length with
      | none => rfl
      | some e => exact zero e found
    simp [addr]

/-- A kernel that goes on puts its heap at the start of the first large entry. -/
theorem kernelMain_of_not_halts (goes : ¬Halts b) :
    ∃ e, b.firstLarge = some e ∧ kernelMain b = some (u64 (e.base + b.hhdmOffset)) := by
  unfold Halts at goes
  push Not at goes
  obtain ⟨revision, framebuffers, e, found, notNull⟩ := goes
  have addr : selectHeap b.hhdmOffset b.memmap = u64 (e.base + b.hhdmOffset) := by
    rw [selectHeap_eq, show b.memmap.find? _ = some e from found]
    rfl
  refine ⟨e, found, ?_⟩
  rw [kernelMain, if_neg revision, if_neg (Nat.not_lt.mpr framebuffers), addr]
  exact if_neg notNull

/-! ### The heap and the memory map -/

theorem givenToHeap_iff {heapAddr start size : Nat} :
    GivenToHeap b heapAddr start size ↔ start = heapAddr ∧ size = initHeapSize := by
  constructor
  · rintro ⟨flags, given⟩
    obtain ⟨same, -⟩ := List.cons_prefix_cons.mp given
    cases same
    exact ⟨rfl, rfl⟩
  · rintro ⟨rfl, rfl⟩
    exact ⟨profileKernelData, _, rfl⟩

theorem heapInUsable_iff {heapAddr : Nat} :
    HeapInUsable b heapAddr ↔ InUsable b heapAddr initHeapSize := by
  constructor
  · rintro ⟨start, size, given, placed⟩
    obtain ⟨rfl, rfl⟩ := givenToHeap_iff.mp given
    exact placed
  · exact fun placed => ⟨heapAddr, initHeapSize, givenToHeap_iff.mpr ⟨rfl, rfl⟩, placed⟩

/-- Taking the offset off again leaves the address in the entry. -/
theorem toPhysical_heap (words : b.Words) (k : Nat) :
    toPhysical b.hhdmOffset (u64 (u64 (e.base + b.hhdmOffset) + k)) = u64 (e.base + k) := by
  have offset := words.offset
  unfold toPhysical sub64 u64
  omega

theorem heapInUsable_iff_covered (words : b.Words) (start : e.base < 2 ^ 64) :
    HeapInUsable b (u64 (e.base + b.hhdmOffset)) ↔ Covered b e := by
  have size : initHeapSize = 67108864 := rfl
  rw [heapInUsable_iff]
  unfold InUsable Covered
  simp only [toPhysical_heap words]
  constructor
  · rintro ⟨e', member, usable, inside⟩
    have length := (words.entries e' member).2
    have top : e.base + initHeapSize ≤ 2 ^ 64 := by
      -- otherwise the bytes at the top of memory and at zero are both in the entry
      by_contra wraps
      have zero := (inside (2 ^ 64 - e.base) (by omega)).1
      have last := (inside (2 ^ 64 - e.base - 1) (by omega)).2
      unfold u64 at zero last
      omega
    -- the first and the last byte give the bounds of the entry
    have first := (inside 0 (by omega)).1
    have last := (inside (initHeapSize - 1) (by omega)).2
    rw [u64_of_lt (by omega)] at first last
    exact ⟨top, e', member, usable, by omega, by omega⟩
  · rintro ⟨top, e', member, usable, below, above⟩
    refine ⟨e', member, usable, fun k inside => ?_⟩
    rw [u64_of_lt (by omega)]
    omega

/-- In a map whose usable entries do not overlap, only the entry itself can cover the heap. -/
theorem covered_iff_of_apart (found : b.firstLarge = some e) (apart : b.Apart) :
    Covered b e ↔ initHeapSize ≤ e.length := by
  have member := List.mem_of_find?_eq_some found
  have large : e.type = .usable ∧ minimalLength ≤ e.length := by
    simpa using List.find?_some found
  have size : initHeapSize = 67108864 := rfl
  have minimal : minimalLength = 8388608 := rfl
  have bound := apart.bounded e member
  constructor
  · rintro ⟨-, e', member', usable, below, above⟩
    -- the entry that covers the start of `e` overlaps it, so it is `e`
    rcases apart.disjoint e member e' member' large.1 usable with rfl | left | right <;> omega
  · intro enough
    exact ⟨by omega, e, member, large.1, Nat.le_refl _, by omega⟩

theorem placed_iff_covered (words : b.Words) :
    (∀ heapAddr, kernelMain b = some heapAddr → HeapInUsable b heapAddr) ↔
      Halts b ∨ ∃ e, b.firstLarge = some e ∧ Covered b e := by
  by_cases halts : Halts b
  · rw [kernelMain_of_halts halts]
    exact ⟨fun _ => .inl halts, fun _ _ => nofun⟩
  · obtain ⟨e, found, goes⟩ := kernelMain_of_not_halts halts
    have start := (words.entries e (List.mem_of_find?_eq_some found)).1
    constructor
    · intro placed
      exact .inr ⟨e, found, (heapInUsable_iff_covered words start).mp (placed _ goes)⟩
    · rintro (halted | ⟨e', found', covered⟩) heapAddr passed
      · exact (halts halted).elim
      · cases found.symm.trans found'
        cases goes.symm.trans passed
        exact (heapInUsable_iff_covered words start).mpr covered

/-- The heap that `Init` sets up lies in one usable entry, for every memory map, exactly when
`kernel_main` halts or 64 MiB from the start of the first large entry on are usable; where the usable
entries do not overlap, this entry has to have 64 MiB. -/
theorem heap_in_usable_iff (words : b.Words) :
    ((∀ heapAddr, kernelMain b = some heapAddr → HeapInUsable b heapAddr) ↔
      Halts b ∨ ∃ e, b.firstLarge = some e ∧ Covered b e) ∧
    (b.Apart → ((∀ heapAddr, kernelMain b = some heapAddr → HeapInUsable b heapAddr) ↔
      Halts b ∨ ∃ e, b.firstLarge = some e ∧ initHeapSize ≤ e.length)) := by
  refine ⟨placed_iff_covered words, fun apart => (placed_iff_covered words).trans ?_⟩
  refine or_congr_right (exists_congr fun e => and_congr_right fun found => ?_)
  exact covered_iff_of_apart found apart

/-- A machine whose first usable entry is `length` bytes at 1 MiB. -/
def smallMachine (length : Nat) : BootInfo where
  baseRevisionSupported := true
  framebufferCount := some 1
  memmap := [⟨0x100000, length, .usable⟩, ⟨0x100000 + length, 0x100000, .reserved⟩]
  hhdmOffset := 0xFFFF800000000000
  kernelPhysical := 0x40000000
  kernelVirtual := 0xFFFFFFFF80000000
  kernelSize := 0x200000

theorem words_smallMachine {length : Nat} (small : length < 2 ^ 32) :
    (smallMachine length).Words := by
  constructor
  · intro e member
    simp only [smallMachine, List.mem_cons, List.not_mem_nil, or_false] at member
    rcases member with rfl | rfl <;> (simp only; omega)
  · change 0xFFFF800000000000 < 2 ^ 64
    decide

theorem apart_smallMachine {length : Nat} (small : length < 2 ^ 32) : (smallMachine length).Apart := by
  constructor <;> intro e member
  · simp only [smallMachine, List.mem_cons, List.not_mem_nil, or_false] at member
    rcases member with rfl | rfl <;> (simp only; omega)
  · intro e' member' usable usable'
    simp only [smallMachine, List.mem_cons, List.not_mem_nil, or_false] at member member'
    rcases member with rfl | rfl <;> rcases member' with rfl | rfl
    · exact .inl rfl
    · cases usable'
    · cases usable
    · exact .inl rfl

theorem heap_in_usable_iff_large : HeapInUsable (smallMachine 0x8000000) 0xFFFF800000100000 :=
  ((heap_in_usable_iff (words_smallMachine (by decide))).2 (apart_smallMachine (by decide))).mpr
    (.inr ⟨_, rfl, by decide⟩) _ (by decide)

/-- With 16 MiB in the first usable entry the heap reaches into the reserved one behind it. -/
theorem heap_not_in_usable :
    ¬∀ b : BootInfo, b.Words → ∀ heapAddr, kernelMain b = some heapAddr →
      HeapInUsable b heapAddr := by
  intro claimed
  have placed := claimed (smallMachine 0x1000000) (words_smallMachine (by decide)) 0xFFFF800000100000
    (by decide)
  obtain ⟨e, member, usable, inside⟩ := heapInUsable_iff.mp placed
  have last := (inside 0x1000000 (by decide)).2
  simp only [smallMachine, List.mem_cons, List.not_mem_nil, or_false] at member
  rcases member with rfl | rfl
  · exact absurd last (by decide)
  · cases usable

end KopalniaOS.Boot
