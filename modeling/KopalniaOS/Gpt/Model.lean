import KopalniaOS.Library.ByteMemory
import KopalniaOS.Library.Word
import Mathlib.Logic.Function.Iterate

/-!
# Reading a partition table

`partition_manager::init` takes everything it relies on from the disk: the header in LBA 1
says how long the header is, where the partition entries are, and how many of which size.
-/
namespace KopalniaOS.Gpt

open Library

/-! ### Objects and operations -/

/-- The sector that `header` points to, the local copy of it in `validate_gpt`, the entries, and
the local `name_buf`. -/
inductive Buffer where
  | header
  | headerCopy
  | partitionsBuf
  | nameBuf
deriving DecidableEq, Repr

/-- `found` prints the C string in `name_buf`, and `partitionSize` a number of sectors of some
size, which the code multiplies as doubles. -/
inductive LogEntry where
  | error (text : String)
  | warn (text : String)
  | success (text : String)
  | lbaMismatch (text : String) (lba : Nat)
  | found (text : String) (i : Nat)
  | partitionSize (text : String) (sectors sectorSize : Nat)
deriving DecidableEq, Repr

inductive GptOp where
  | load (b : Buffer) (width offset : Nat)
  | store (b : Buffer) (width offset value : Nat)
  | mallocAlign (b : Buffer) (size align : Nat)
  | freeAlign (b : Buffer)
  | read (start count : Nat) (b : Buffer)
  | setDevice
  | setHeader (b : Buffer)
  | pushBack (b : Buffer) (offset : Nat)
  | log (entry : LogEntry)

/-- Nothing looks at whether an allocation has succeeded. -/
abbrev GptOp.Answer : GptOp → Type
  | .load .. => Nat
  | .read .. => Bool
  | _ => Unit

abbrev GptProgram := Program GptOp GptOp.Answer

/-- The disk, and which allocations and reads succeed; `init` makes one of each for a buffer. `grows n`
says whether the vector has or gets storage for an element behind `n` others. -/
structure Device where
  sectorSize : Nat
  disk : Nat → Nat → UInt8
  alloc : Buffer → Bool
  readOk : Buffer → Bool
  grows : Nat → Bool

/-- `held` are the bytes of a buffer while it is allocated, and `header` is the member. -/
structure GptState where
  mem : Buffer → Memory
  held : Buffer → Option Nat
  hasDevice : Bool
  header : Option Buffer
  partitions : List (List UInt8)
  logged : List LogEntry

/-- The bytes from the start of a sector on. -/
def Device.bytes (dev : Device) (start i : Nat) : UInt8 :=
  dev.disk (start + i / dev.sectorSize) (i % dev.sectorSize)

def sizeofGptHeader : Nat := 92
def sizeofGptPartition : Nat := 128

/-- What a read of the device makes of the memory it goes to. -/
def Device.fill (dev : Device) (start count : Nat) (m : Memory) : Memory :=
  fun i => if i < count * dev.sectorSize then dev.bytes start i else m i

def GptState.write (st : GptState) (b : Buffer) (width offset value : Nat) : GptState :=
  { st with mem := Function.update st.mem b ((st.mem b).store width offset value) }

def gptHandler (dev : Device) : Handler GptOp GptOp.Answer GptState
  | .load b w off, st => some ((st.mem b).load w off, st)
  | .store b w off v, st => some ((), st.write b w off v)
  | .mallocAlign b size _, st =>
    some ((), { st with held := Function.update st.held b (if dev.alloc b then some size else none) })
  | .freeAlign b, st => some ((), { st with held := Function.update st.held b none })
  | .read start count b, st =>
    some (dev.readOk b, if dev.readOk b
      then { st with mem := Function.update st.mem b (dev.fill start count (st.mem b)) } else st)
  | .setDevice, st => some ((), { st with hasDevice := true })
  | .setHeader b, st => some ((), { st with header := some b })
  | .pushBack b off, st =>
    -- without storage the element is constructed behind a null pointer, where nothing is mapped
    if dev.grows st.partitions.length then
      some ((), { st with
        partitions := st.partitions ++
          [(List.range sizeofGptPartition).map fun k => st.mem b (off + k)] })
    else none
  | .log entry, st => some ((), { st with logged := st.logged ++ [entry] })

def load (b : Buffer) (width offset : Nat) : GptProgram Nat :=
  Program.perform (GptOp.load b width offset)

def store (b : Buffer) (width offset value : Nat) : GptProgram Unit :=
  Program.perform (GptOp.store b width offset value)

def mallocAlign (b : Buffer) (size align : Nat) : GptProgram Unit :=
  Program.perform (GptOp.mallocAlign b size align)

def freeAlign (b : Buffer) : GptProgram Unit := Program.perform (GptOp.freeAlign b)

def read (start count : Nat) (b : Buffer) : GptProgram Bool :=
  Program.perform (GptOp.read start count b)

def setDevice : GptProgram Unit := Program.perform GptOp.setDevice

def setHeader (b : Buffer) : GptProgram Unit := Program.perform (GptOp.setHeader b)

def pushBack (b : Buffer) (offset : Nat) : GptProgram Unit :=
  Program.perform (GptOp.pushBack b offset)

def log (entry : LogEntry) : GptProgram Unit := Program.perform (GptOp.log entry)

/-! ### `mem::memcmp` and `crc32` -/

/-- The second argument is a string literal, by its bytes. -/
def memcmp (b : Buffer) : Nat → List Nat → GptProgram Bool
  | _, [] => pure true
  | offset, byte :: rest => do
    let found ← load b 1 offset
    if found ≠ byte then pure false else memcmp b (offset + 1) rest

/-- `"EFI PART"` -/
def efiPart : List Nat := [0x45, 0x46, 0x49, 0x20, 0x50, 0x41, 0x52, 0x54]

/-- One turn of the inner loop. -/
def crc32Bit (crc : BitVec 32) : BitVec 32 :=
  crc >>> 1 ^^^ (0xEDB88320#32 &&& -(crc &&& 1#32))

/-- One turn of the outer loop. -/
def crc32Byte (crc : BitVec 32) (byte : Nat) : BitVec 32 :=
  crc32Bit^[8] (crc ^^^ BitVec.ofNat 32 byte)

def crc32Loop (b : Buffer) (len i : Nat) (crc : BitVec 32) : GptProgram (BitVec 32) :=
  if i < len then do
    let byte ← load b 1 i
    crc32Loop b len (i + 1) (crc32Byte crc byte)
  else pure crc
termination_by len - i

def crc32 (b : Buffer) (len : Nat) : GptProgram Nat := do
  let crc ← crc32Loop b len 0 0xFFFFFFFF#32
  pure (~~~crc).toNat

/-! ### `partition_manager` -/

def validateGpt : GptProgram Bool := do
  let signed ← memcmp .header 0 efiPart
  if signed = false then do
    log (.warn "[ GPT ] Failed to find signature bytes for GPT partition.")
    pure false
  else do
    -- `gpt_header header_copy = *header`
    let copied ← load .header sizeofGptHeader 0
    store .headerCopy sizeofGptHeader 0 copied
    store .headerCopy 4 16 0
    let headerSize ← load .header 4 12
    let computedCrc ← crc32 .headerCopy headerSize
    let headerChecksum ← load .header 4 16
    if computedCrc ≠ headerChecksum then do
      log (.warn "[ GPT ] Partition header checksum mismatch.")
      pure false
    else do
      let lbaHeader ← load .header 8 24
      if lbaHeader ≠ 1 then do
        let lba ← load .header 8 24
        log (.lbaMismatch "[ GPT ] LBA header mismatch: got %x, expected 1" lba)
        pure false
      else pure true

def validateGptPartitionEntries : GptProgram Bool := do
  let entrySize ← load .header 4 84
  let entryCount ← load .header 4 80
  let computedCrc ← crc32 .partitionsBuf (entrySize * entryCount % 2 ^ 32)
  let checksum ← load .header 4 88
  if computedCrc ≠ checksum then do
    log (.warn "[ GPT ] Partition array checksum mismatch.")
    pure false
  else pure true

/-- The loop that fills `name_buf`, with `left` turns to go. -/
def copyName (entry : Nat) : (left j : Nat) → GptProgram Unit
  | 0, _ => pure ()
  | left + 1, j => do
    let wc ← load .partitionsBuf 2 (entry + 56 + 2 * j)
    if wc = 0 then pure ()
    else do
      store .nameBuf 1 j (wc &&& 0xFF)
      copyName entry left (j + 1)

/-- The body of the loop over the entries. -/
def visitEntry (sectorSize entry i : Nat) : GptProgram Unit := do
  let unused ← memcmp .partitionsBuf entry (List.replicate 16 0)
  if unused = true then pure ()
  else do
    let startingLba ← load .partitionsBuf 8 (entry + 32)
    if startingLba = 0 then pure ()
    else do
      let name ← load .partitionsBuf 2 (entry + 56)
      if name = 0 then pure ()
      else do
        -- `char name_buf[37] = {}`
        store .nameBuf 37 0 0
        copyName entry 36 0
        log (.found "[ GPT ] Found partition %i with name of '%s'" i)
        let endingLba ← load .partitionsBuf 8 (entry + 40)
        let startingLba ← load .partitionsBuf 8 (entry + 32)
        log (.partitionSize "[ GPT ] Partition size: %f%s" (sub64 endingLba startingLba) sectorSize)
        pushBack .partitionsBuf entry

/-- The loop reads its bound again in every turn; `left` bounds the turns. -/
def visitEntries (sectorSize : Nat) : (left i : Nat) → GptProgram Unit
  | 0, _ => .stuck
  | left + 1, i => do
    let count ← load .header 4 80
    if i < count then do
      let entrySize ← load .header 4 84
      visitEntry sectorSize (i * entrySize % 2 ^ 32) i
      visitEntries sectorSize left (i + 1)
    else pure ()

/-- `init` once the entries were read. -/
def findPartitions (sectorSize : Nat) : GptProgram Unit := do
  let valid ← validateGptPartitionEntries
  if valid = false then do
    log (.warn "[ GPT ] Failed to validate GPT partition array.")
    freeAlign .partitionsBuf
    freeAlign .header
  else do
    visitEntries sectorSize (2 ^ 32) 0
    freeAlign .partitionsBuf
    freeAlign .header

/-- `init` once the header was found valid. -/
def readEntries (sectorSize : Nat) : GptProgram Unit := do
  let entrySize ← load .header 4 84
  let entryCount ← load .header 4 80
  let totalSize := entrySize * entryCount % 2 ^ 32
  let sectors := totalSize / sectorSize
  mallocAlign .partitionsBuf totalSize 4
  let lba ← load .header 8 72
  let ok ← read lba sectors .partitionsBuf
  if ok = false then do
    freeAlign .partitionsBuf
    freeAlign .header
  else findPartitions sectorSize

/-- `init` once the header was read. -/
def parseHeader (sectorSize : Nat) : GptProgram Unit := do
  setHeader .header
  let valid ← validateGpt
  if valid = false then do
    log (.warn "[ GPT ] Failed to validate GPT header.")
    freeAlign .header
  else do
    log (.success "[ GPT ] Found valid partition header!")
    readEntries sectorSize

def init (sectorSize : Nat) : GptProgram Unit := do
  setDevice
  mallocAlign .header 512 4
  let ok ← read 1 1 .header
  if ok = false then log (.error "[ GPT ] Failed to read partition header.")
  else parseHeader sectorSize

end KopalniaOS.Gpt
