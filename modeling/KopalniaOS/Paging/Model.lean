import KopalniaOS.Heap.UsableSize

/-!
# Page tables

`Paging.cpp`. The tables below `PML4` live in heap pages and are reached through the
direct map, so an entry holds the physical address and the code adds `hhdm_offset` before
it follows it. `malloc_align` is one operation here: what it does to the heap is the
subject of the allocator's own modules.
-/
namespace KopalniaOS.Paging

open Library Heap

/-! ### Flags -/

def Present : Nat := 0x1
def Writable : Nat := 0x2
def User : Nat := 0x4
def CacheDisable : Nat := 0x10
def Global : Nat := 0x100
def NoExecute : Nat := 2 ^ 63

/-! `Profile` -/

def profileKernelCode : Nat := Present ||| User ||| Global
def profileKernelData : Nat := Present ||| User ||| Writable ||| NoExecute ||| Global
def profileUserCode : Nat := Present ||| User
def profileMmio : Nat := Present ||| Writable ||| CacheDisable ||| NoExecute

/-! ### State and operations -/

/-- A table is `PML4` or a page, named by the virtual address the code uses. -/
inductive Table where
  | root
  | page (addr : Nat)
deriving DecidableEq, Repr

/-- `pages` collects what `alloc_page` got from the heap; no code reads it. -/
structure State where
  heap : HeapState
  pml4 : Nat → Nat
  pages : List Nat

inductive PageOp where
  | readEntry (t : Table) (i : Nat)
  | writeEntry (t : Table) (i value : Nat)
  | storeByte (addr value : Nat)
  | mallocAlign (size align : Nat)

abbrev PageOp.Answer : PageOp → Type
  | .readEntry .. => Nat
  | .writeEntry .. => Unit
  | .storeByte .. => Unit
  | .mallocAlign .. => Nat

abbrev PageProgram := Program PageOp PageOp.Answer

/-- The entry `table[i]`. -/
def State.entry (st : State) : Table → Nat → Nat
  | .root, i => st.pml4 i
  | .page a, i => st.heap.mem.load 8 (u64 (a + 8 * i))

def State.withMem (st : State) (m : Memory) : State := { st with heap := ⟨m, st.heap.live⟩ }

def State.writeEntry (st : State) : Table → Nat → Nat → State
  | .root, i, v => { st with pml4 := Function.update st.pml4 i v }
  | .page a, i, v => st.withMem (st.heap.mem.store 8 (u64 (a + 8 * i)) v)

/-- What `malloc_align` does to the heap, with the block it takes recorded as live. -/
def State.allocate (g : Globals) (st : State) (size align : Nat) : Option (Nat × State) := do
  let (raw, _) ← (malloc g (alignedTotal size align)).run memHandler st.heap.mem
  let (p, m) ← (mallocAlign g size align).run memHandler st.heap.mem
  some (p, ⟨st.heap.allocated raw m, st.pml4, if p = 0 then st.pages else p :: st.pages⟩)

def pageHandler (g : Globals) : Handler PageOp PageOp.Answer State
  | .readEntry t i, st => some (st.entry t i, st)
  | .writeEntry t i v, st => some ((), st.writeEntry t i v)
  | .storeByte a v, st => some ((), st.withMem (st.heap.mem.store 1 a v))
  | .mallocAlign size align, st => st.allocate g size align

def readEntry (t : Table) (i : Nat) : PageProgram Nat := Program.perform (PageOp.readEntry t i)

def writeEntry (t : Table) (i value : Nat) : PageProgram Unit :=
  Program.perform (PageOp.writeEntry t i value)

def storeByte (addr value : Nat) : PageProgram Unit :=
  Program.perform (PageOp.storeByte addr value)

def pageAlloc (size align : Nat) : PageProgram Nat :=
  Program.perform (PageOp.mallocAlign size align)

/-! ### The code -/

/-- The loop of `mem::memset` over the last `count` of the bytes at `dst`. -/
def memsetLoop (dst value : Nat) : Nat → Nat → PageProgram Unit
  | 0, _ => pure ()
  | count + 1, i => do
    storeByte (u64 (dst + i)) value
    memsetLoop dst value count (i + 1)

def memset (dst value size : Nat) : PageProgram Unit := memsetLoop dst value size 0

def toPhysical (hhdm virt : Nat) : Nat := sub64 virt hhdm

def toVirtual (hhdm phys : Nat) : Nat := u64 (phys + hhdm)

/-- `Init`, from entry `i` on. -/
def initLoop : Nat → Nat → PageProgram Unit
  | 0, _ => pure ()
  | count + 1, i => do
    writeEntry .root i 0
    initLoop count (i + 1)

def init : PageProgram Unit := initLoop 512 0

def allocPage (hhdm : Nat) : PageProgram Nat := do
  let virt ← pageAlloc 4096 4096
  memset virt 0 4096
  pure (toPhysical hhdm virt)

/-- The mask with which the code takes the address out of an entry. -/
def tableMask : Nat := not64 0xFFF

/-- One level of both mapping loops: make sure that `table[i]` is present, and follow it. -/
def ensureTable (hhdm : Nat) (table : Table) (i : Nat) : PageProgram Table := do
  let entry ← readEntry table i
  (if entry &&& Present = 0 then do
      let newTable ← allocPage hhdm
      writeEntry table i (newTable ||| Present ||| Writable ||| User)
    else pure ())
  -- read again: it may have been written just now
  let entry ← readEntry table i
  pure (.page (toVirtual hhdm (entry &&& tableMask)))

/-- The body of both mapping loops. -/
def mapPage (hhdm virt leaf : Nat) : PageProgram Unit := do
  let pdpt ← ensureTable hhdm .root (virt >>> 39 &&& 0x1FF)
  let pd ← ensureTable hhdm pdpt (virt >>> 30 &&& 0x1FF)
  let pt ← ensureTable hhdm pd (virt >>> 21 &&& 0x1FF)
  writeEntry pt (virt >>> 12 &&& 0x1FF) leaf

/-- The loop of `Map_memory`, from `addr` on. -/
def mapMemoryLoop (hhdm last flags : Nat) : Nat → Nat → PageProgram Unit
  | 0, _ => .stuck
  | fuel + 1, addr =>
    if addr < last then do
      mapPage hhdm addr (addr ||| flags)
      mapMemoryLoop hhdm last flags fuel (u64 (addr + 4096))
    else pure ()

def mapMemory (hhdm fuel start last flags : Nat) : PageProgram Unit :=
  mapMemoryLoop hhdm (u64 (last + 4095) &&& not64 4095) flags fuel (start &&& not64 4095)

/-- The loop of `Map_memory_vp`, from `offset` on. -/
def mapMemoryVpLoop (hhdm virt phys size flags : Nat) : Nat → Nat → PageProgram Unit
  | 0, _ => .stuck
  | fuel + 1, offset =>
    if offset < size then do
      mapPage hhdm (u64 (virt + offset)) (u64 (phys + offset) ||| flags)
      mapMemoryVpLoop hhdm virt phys size flags fuel (u64 (offset + 4096))
    else pure ()

def mapMemoryVp (hhdm fuel virt phys size flags : Nat) : PageProgram Unit :=
  mapMemoryVpLoop hhdm virt phys size flags fuel 0

/-- A call of one of the two mapping functions. -/
inductive Call where
  | mapMemory (start last flags : Nat)
  | mapMemoryVp (virt phys size flags : Nat)
deriving DecidableEq, Repr

def Call.code (hhdm fuel : Nat) : Call → PageProgram Unit
  | .mapMemory start last flags => Paging.mapMemory hhdm fuel start last flags
  | .mapMemoryVp virt phys size flags => Paging.mapMemoryVp hhdm fuel virt phys size flags

/-- Calls one after the other; no loop runs for more than `fuel` rounds. -/
def runCalls (hhdm fuel : Nat) : List Call → PageProgram Unit
  | [] => pure ()
  | c :: cs => do
    c.code hhdm fuel
    runCalls hhdm fuel cs

/-! ### Translation -/

/-- Follow `table[i]`, taking the address out of the entry with `mask`. -/
def follow (mask hhdm : Nat) (st : State) (t : Table) (i : Nat) : Option Table :=
  if st.entry t i &&& Present = 0 then none
  else some (.page (toVirtual hhdm (st.entry t i &&& mask)))

/-- The page-table walk for a virtual address: the leaf entry, when every level is present. -/
def walk (mask hhdm : Nat) (st : State) (virt : Nat) : Option Nat := do
  let pdpt ← follow mask hhdm st .root (virt >>> 39 &&& 0x1FF)
  let pd ← follow mask hhdm st pdpt (virt >>> 30 &&& 0x1FF)
  let pt ← follow mask hhdm st pd (virt >>> 21 &&& 0x1FF)
  let leaf := st.entry pt (virt >>> 12 &&& 0x1FF)
  if leaf &&& Present = 0 then none else some leaf

/-- The address bits of an entry, 12 to 51. -/
def addressMask : Nat := 0xFFFFFFFFFF000

/-- Virtual addresses the processor accepts. -/
def Canonical (v : Nat) : Prop := v < 2 ^ 47 ∨ 2 ^ 64 - 2 ^ 47 ≤ v ∧ v < 2 ^ 64

instance (v : Nat) : Decidable (Canonical v) := inferInstanceAs (Decidable (_ ∨ _))

end KopalniaOS.Paging
