import KopalniaOS.Library.ByteMemory
import KopalniaOS.Library.Word

/-!
# The block allocator

`heap.cpp` and the forwarding operators of `memory.cpp`. Every read and write of a
block field is one memory operation. The `printf`s of failed allocations are left out.
-/
namespace KopalniaOS.Heap

open Library

/-- The fields of `Block` that the allocator uses: offset and width in bytes. -/
inductive Field where
  | size
  | free
  | next
  | prev
deriving DecidableEq, Repr

def Field.offset : Field → Nat
  | .size => 0
  | .free => 8
  | .next => 16
  | .prev => 24

def Field.width : Field → Nat
  | .free => 1
  | _ => 8

/-- `sizeof(Block)`, which `alignas(16)` rounds up to a multiple of 16. -/
abbrev sizeofBlock : Nat := 32

/-- `sizeof(AlignHeader)`. -/
abbrev sizeofAlignHeader : Nat := 8

/-- The three globals, which only `heapInit` writes. -/
structure Globals where
  heapHead : Nat
  heapStart : Nat
  heapEnd : Nat
deriving DecidableEq, Repr

/-- No loop over distinct blocks gets this far. -/
def loopBound : Nat := 2 ^ 64

def getField (f : Field) (block : Nat) : MemProgram Nat :=
  loadBytes f.width (block + f.offset)

def setField (f : Field) (block value : Nat) : MemProgram Unit :=
  storeBytes f.width (block + f.offset) value

def heapInit (size heapAddr : Nat) : MemProgram Globals := do
  setField .size heapAddr (sub64 size sizeofBlock)
  setField .free heapAddr 1
  setField .next heapAddr 0
  setField .prev heapAddr 0
  pure { heapHead := heapAddr, heapStart := heapAddr, heapEnd := u64 (heapAddr + size) }

/-- `block->free && block->size >= size` -/
def freeAndFits (block size : Nat) : MemProgram Bool := do
  let free ← getField .free block
  if free = 0 then pure false
  else do
    let blockSize ← getField .size block
    pure (decide (size ≤ blockSize))

/-- `if (block->next) block->next->prev = target;` -/
def relinkNext (block target : Nat) : MemProgram Unit := do
  let next ← getField .next block
  if next = 0 then pure ()
  else do
    let next ← getField .next block
    setField .prev next target

/-- The split branch of `malloc`. -/
def splitBlock (block size : Nat) : MemProgram Unit := do
  let blockSize ← getField .size block
  let newSize := sub64 (sub64 blockSize size) sizeofBlock
  let newBlock := u64 (u64 (block + sizeofBlock) + size)
  -- the header of the rest, then the link back from the block behind it
  setField .size newBlock newSize
  setField .free newBlock 1
  let next ← getField .next block
  setField .next newBlock next
  setField .prev newBlock block
  relinkNext newBlock newBlock
  setField .size block size
  setField .next block newBlock

/-- The body of `malloc` for the block it picks. -/
def takeBlock (block size : Nat) : MemProgram Nat := do
  let blockSize ← getField .size block
  (if u64 (u64 (size + sizeofBlock) + 16) ≤ blockSize then splitBlock block size else pure ())
  setField .free block 0
  pure (u64 (block + sizeofBlock))

/-- The `for` loop of `malloc`, from `block` on. -/
def mallocLoop (size : Nat) : Nat → Nat → MemProgram Nat
  | 0, _ => .stuck
  | fuel + 1, block =>
    if block = 0 then pure 0
    else do
      let fits ← freeAndFits block size
      if fits then takeBlock block size
      else do
        let next ← getField .next block
        mallocLoop size fuel next

/-- `(size + 15) & ~15ULL` -/
def roundSize (size : Nat) : Nat := u64 (size + 15) &&& not64 15

def malloc (g : Globals) (size : Nat) : MemProgram Nat :=
  mallocLoop (roundSize size) loopBound g.heapHead

/-- `block->next && block->next->free`, and the same for `prev`. -/
def neighbourFree (side : Field) (block : Nat) : MemProgram Bool := do
  let neighbour ← getField side block
  if neighbour = 0 then pure false
  else do
    let neighbour ← getField side block
    let free ← getField .free neighbour
    pure (decide (free ≠ 0))

/-- The first `while` loop of `free`. -/
def mergeRight : Nat → Nat → MemProgram Unit
  | 0, _ => .stuck
  | fuel + 1, oldBlock => do
    let more ← neighbourFree .next oldBlock
    if more then do
      let next ← getField .next oldBlock
      -- old_block->size += next->size + sizeof(Block)
      let nextSize ← getField .size next
      let oldSize ← getField .size oldBlock
      setField .size oldBlock (u64 (oldSize + u64 (nextSize + sizeofBlock)))
      -- old_block->next = next->next
      let afterNext ← getField .next next
      setField .next oldBlock afterNext
      relinkNext oldBlock oldBlock
      mergeRight fuel oldBlock
    else pure ()

/-- The second `while` loop of `free`. -/
def mergeLeft : Nat → Nat → MemProgram Unit
  | 0, _ => .stuck
  | fuel + 1, oldBlock => do
    let more ← neighbourFree .prev oldBlock
    if more then do
      -- old_block->prev->size += old_block->size + sizeof(Block)
      let oldSize ← getField .size oldBlock
      let prev ← getField .prev oldBlock
      let prevSize ← getField .size prev
      setField .size prev (u64 (prevSize + u64 (oldSize + sizeofBlock)))
      -- old_block->prev->next = old_block->next
      let next ← getField .next oldBlock
      let prev ← getField .prev oldBlock
      setField .next prev next
      -- if (old_block->next) old_block->next->prev = old_block->prev
      let next ← getField .next oldBlock
      (if next = 0 then pure ()
        else do
          let prev ← getField .prev oldBlock
          let next ← getField .next oldBlock
          setField .prev next prev)
      let prev ← getField .prev oldBlock
      mergeLeft fuel prev
    else pure ()

def free (ptr : Nat) : MemProgram Unit :=
  if ptr = 0 then pure ()
  else do
    let oldBlock := sub64 ptr sizeofBlock
    setField .free oldBlock 1
    mergeRight loopBound oldBlock
    mergeLeft loopBound oldBlock

/-- `(address + align - 1) & ~(align - 1)` -/
def alignUp (address align : Nat) : Nat := sub64 (u64 (address + align)) 1 &&& not64 (sub64 align 1)

def mallocAlign (g : Globals) (size align : Nat) : MemProgram Nat := do
  let align := if align = 0 then 1 else align
  let total := u64 (u64 (size + align) + sizeofAlignHeader)
  let raw ← malloc g total
  if raw = 0 then pure 0
  else do
    let base := u64 (raw + sizeofAlignHeader)
    let aligned := alignUp base align
    storeBytes 8 (sub64 aligned sizeofAlignHeader) raw
    pure aligned

def freeAlign (ptr : Nat) : MemProgram Unit :=
  if ptr = 0 then pure ()
  else do
    let raw ← loadBytes 8 (sub64 ptr sizeofAlignHeader)
    free raw

/-- The boundary check of `malloc_boundry`: the address to return, or `none` when the bytes do
not fit between two boundaries. -/
def boundryCheck (aligned size boundry : Nat) : Option Nat :=
  if boundry = 0 then some aligned
  else
    let mask := not64 (sub64 boundry 1)
    let startBlock := aligned &&& mask
    let endBlock := sub64 (u64 (aligned + size)) 1 &&& mask
    if startBlock = endBlock then some aligned
    else
      let aligned := u64 (aligned + boundry) &&& mask
      let endBlock := sub64 (u64 (aligned + size)) 1 &&& mask
      if aligned &&& mask ≠ endBlock then none else some aligned

/-- `total` of `malloc_boundry` -/
def boundryTotal (size align boundry : Nat) : Nat :=
  u64 (u64 (u64 (size + align) + boundry) + sizeofAlignHeader)

/-- `size > ~0 - align - boundry - sizeof(AlignHeader)` -/
def tooLarge (size align boundry : Nat) : Bool :=
  decide (sub64 (sub64 (sub64 (not64 0) align) boundry) sizeofAlignHeader < size)

/-- `boundry && (boundry & (boundry - 1))` -/
def notPowerOfTwo (boundry : Nat) : Bool :=
  decide (boundry ≠ 0) && decide (boundry &&& sub64 boundry 1 ≠ 0)

def mallocBoundry (g : Globals) (size align boundry : Nat) : MemProgram Nat :=
  if tooLarge size align boundry then pure 0
  else if notPowerOfTwo boundry then pure 0
  else do
    let align := if align = 0 then 1 else align
    let total := boundryTotal size align boundry
    let raw ← malloc g total
    if raw = 0 then pure 0
    else do
      let base := u64 (raw + sizeofAlignHeader)
      match boundryCheck (alignUp base align) size boundry with
      | none => do
        free raw
        pure 0
      | some aligned =>
        if u64 (raw + total) < u64 (aligned + size) then do
          free raw
          pure 0
        else do
          storeBytes 8 (sub64 aligned sizeofAlignHeader) raw
          pure aligned

def freeBoundry (ptr : Nat) : MemProgram Unit :=
  if ptr = 0 then pure ()
  else do
    let raw ← loadBytes 8 (sub64 ptr sizeofAlignHeader)
    free raw

/-- `operator new` -/
def operatorNew (g : Globals) (size : Nat) : MemProgram Nat := malloc g size

/-- `operator new[]` -/
def operatorNewArray (g : Globals) (size : Nat) : MemProgram Nat := malloc g size

/-- The loop of the three `check` functions, which differ in the blocks they count. -/
def checkLoop (counted : Nat → MemProgram Bool) : Nat → Nat → Nat → MemProgram Nat
  | 0, _, _ => .stuck
  | fuel + 1, b, freeBytes =>
    if b = 0 then pure freeBytes
    else do
      let count ← counted b
      let size ← (if count then getField .size b else pure 0)
      let next ← getField .next b
      checkLoop counted fuel next (u64 (freeBytes + size))

def checkHeap (g : Globals) : MemProgram Nat :=
  checkLoop (fun _ => pure true) loopBound g.heapHead 0

def checkFreeHeap (g : Globals) : MemProgram Nat :=
  checkLoop (fun b => do let free ← getField .free b; pure (decide (free ≠ 0)))
    loopBound g.heapHead 0

def checkUsedHeap (g : Globals) : MemProgram Nat :=
  checkLoop (fun b => do let free ← getField .free b; pure (decide (free = 0)))
    loopBound g.heapHead 0

/-! ### The block list as memory holds it -/

/-- A block header read from memory. -/
structure Block where
  addr : Nat
  size : Nat
  free : Bool
  next : Nat
  prev : Nat
deriving DecidableEq, Repr

/-- The value of a field in memory. -/
def field (m : Memory) (block : Nat) (f : Field) : Nat := m.load f.width (block + f.offset)

def readBlock (m : Memory) (a : Nat) : Block :=
  ⟨a, field m a .size, decide (field m a .free ≠ 0), field m a .next, field m a .prev⟩

/-- The blocks met from `a` on by following `next`. -/
def walk (m : Memory) : Nat → Nat → Option (List Block)
  | 0, _ => none
  | fuel + 1, a =>
    if a = 0 then some []
    else (walk m fuel (readBlock m a).next).map (readBlock m a :: ·)

def blockList (g : Globals) (m : Memory) : Option (List Block) := walk m loopBound g.heapHead

end KopalniaOS.Heap
