import KopalniaOS.Ahci.Transfer

/-!
# The AHCI device

A device reads and writes through its port, in sectors of the size that its IDENTIFY response states.
`read_bytes` takes the beginning of a run of sectors, one after the other, by way of a local array.
-/
namespace KopalniaOS.Ahci

open Library

/-- `sector_size` as `initialize` sets it from the words of the response. -/
def sectorSize (buffer : Nat → UInt16) : Nat :=
  let largeSectors := (buffer 106).toNat &&& 1 <<< 12 ≠ 0
  if largeSectors then ((buffer 118).toNat <<< 16 ||| (buffer 117).toNat) * 2 % 2 ^ 32 else 512

/-- `ahci_device::read`; the port takes the sector size as an `u16`. -/
def deviceRead (c : PortConfig) (size start count buffer : Nat) : TransferProgram Bool :=
  read c start count buffer (size % 2 ^ 16)

/-- `ahci_device::write` -/
def deviceWrite (c : PortConfig) (size start count buffer : Nat) : TransferProgram Bool :=
  write c start count buffer (size % 2 ^ 16)

/-! ### Objects of `read_bytes` -/

/-- The local array of 512 bytes, and what the caller passed. -/
inductive ByteObject where
  | temp
  | buffer
deriving DecidableEq, Repr

/-- `read` is the call for one sector, into `temp`. -/
inductive ByteOp where
  | load (b : ByteObject) (offset : Int)
  | store (b : ByteObject) (offset : Int) (value : UInt8)
  | read (sector : Nat)

abbrev ByteOp.Answer : ByteOp → Type
  | .load .. => UInt8
  | .store .. => Unit
  | .read _ => Bool

abbrev ByteProgram := Program ByteOp ByteOp.Answer

abbrev ByteState := ByteObject → Int → UInt8

/-- The sectors that can be read, what is in them and how many bytes the adapter writes for one. -/
structure Disk where
  sector : Nat → Nat → UInt8
  readable : Nat → Bool
  size : Nat

def byteHandler (disk : Disk) : Handler ByteOp ByteOp.Answer ByteState
  | .load b offset, s => some (s b offset, s)
  | .store b offset value, s =>
    some ((), Function.update s b (Function.update (s b) offset value))
  | .read sector, s =>
    if disk.readable sector then
      some (true, Function.update s .temp fun i =>
        if 0 ≤ i ∧ i < disk.size then disk.sector sector i.toNat else s .temp i)
    else some (false, s)

def byteStep (o : ByteOp) : ByteProgram o.Answer := Program.perform o

/-! ### `mem::memmove` between two objects -/

def memmoveUp (dst : ByteObject) (dstOff : Int) (src : ByteObject) (size i : Nat) : ByteProgram Unit :=
  if i < size then do
    let byte ← byteStep (.load src i)
    byteStep (.store dst (dstOff + i) byte)
    memmoveUp dst dstOff src size (i + 1)
  else pure ()
termination_by size - i

def memmoveDown (dst : ByteObject) (dstOff : Int) (src : ByteObject) : Nat → ByteProgram Unit
  | 0 => pure ()
  | i + 1 => do
    let byte ← byteStep (.load src i)
    byteStep (.store dst (dstOff + i) byte)
    memmoveDown dst dstOff src i

/-- `lower` tells whether the destination has the lower address. -/
def memmove (lower : Bool) (dst : ByteObject) (dstOff : Int) (src : ByteObject) (size : Nat) :
    ByteProgram Unit :=
  if lower then memmoveUp dst dstOff src size 0 else memmoveDown dst dstOff src size

/-! ### `ahci_device::read_bytes` -/

/-- `static_cast<i32>` of an `u32` -/
def toI32 (x : Nat) : Int := if x < 2 ^ 31 then x else (x : Int) - 2 ^ 32

/-- The loop, at most so many times. -/
def readBytesLoop (lower : Bool) (size : Nat) (count : Int) : Nat → Int → Nat → ByteProgram Bool
  | 0, _, _ => .stuck
  | fuel + 1, remaining, currentSector =>
    if 0 < remaining then do
      let success ← byteStep (.read currentSector)
      if success = false then pure false
      else do
        memmove lower .buffer (count - remaining) .temp
          (if remaining.toNat < size then remaining.toNat else size)
        readBytesLoop lower size count fuel (remaining - toI32 size) (u64 (currentSector + 1))
    else pure true

/-- A turn takes at least one byte as long as the size is positive as an `i32`. -/
def readBytes (lower : Bool) (size start : Nat) (count : Int) : ByteProgram Bool :=
  if count < 0 then pure false
  else readBytesLoop lower size count (count.toNat + 1) count start

end KopalniaOS.Ahci
