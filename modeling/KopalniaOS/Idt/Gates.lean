import KopalniaOS.Library.Cpu
import Mathlib.Tactic.IntervalCases

/-!
# Descriptor tables

The gates of the interrupt table and the segments of the descriptor table are packed here and taken
apart by the processor.
-/
namespace KopalniaOS.Idt

open Library

/-! ### Gates -/

structure IDTEntry where
  offsetLow : BitVec 16
  selector : BitVec 16
  ist : BitVec 8
  typeAttr : BitVec 8
  offsetMid : BitVec 16
  offsetHigh : BitVec 32
  zero : BitVec 32
deriving DecidableEq, Repr

def setIDTEntry (handler : BitVec 64) : IDTEntry where
  offsetLow := (handler &&& 0xFFFF).setWidth 16
  selector := 0x18
  ist := 0
  typeAttr := 0x8E
  offsetMid := (handler >>> 16 &&& 0xFFFF).setWidth 16
  offsetHigh := (handler >>> 32 &&& 0xFFFFFFFF).setWidth 32
  zero := 0

/-- Where the processor goes. -/
def IDTEntry.offset (e : IDTEntry) : BitVec 64 := e.offsetHigh ++ e.offsetMid ++ e.offsetLow

/-- A row of bits shifted down and masked. -/
theorem shift_and_ones (x : BitVec 64) (start n : Nat) (fits : n ≤ 64) :
    (x >>> start &&& (BitVec.allOnes n).setWidth 64).setWidth n = x.extractLsb' start n := by
  refine BitVec.eq_of_getLsbD_eq fun i inside => ?_
  have small : i < 64 := by omega
  simp only [BitVec.getLsbD_setWidth, BitVec.getLsbD_and, BitVec.getLsbD_ushiftRight,
    BitVec.getLsbD_allOnes, BitVec.getLsbD_extractLsb', inside, small, decide_true, Bool.true_and,
    Bool.and_true]

theorem offset_setIDTEntry (handler : BitVec 64) : (setIDTEntry handler).offset = handler := by
  have ones16 : (0xFFFF : BitVec 64) = (BitVec.allOnes 16).setWidth 64 := by decide
  have ones32 : (0xFFFFFFFF : BitVec 64) = (BitVec.allOnes 32).setWidth 64 := by decide
  have low : (handler &&& 0xFFFF).setWidth 16 = handler.extractLsb' 0 16 := by
    rw [ones16, ← shift_and_ones handler 0 16 (by decide), BitVec.ushiftRight_zero]
  have mid : (handler >>> 16 &&& 0xFFFF).setWidth 16 = handler.extractLsb' 16 16 := by
    rw [ones16, shift_and_ones handler 16 16 (by decide)]
  have high : (handler >>> 32 &&& 0xFFFFFFFF).setWidth 32 = handler.extractLsb' 32 32 := by
    rw [ones32, shift_and_ones handler 32 32 (by decide)]
  -- neighbouring parts join to a longer part, and the longest is the address
  have upper : handler.extractLsb' 32 32 ++ handler.extractLsb' 16 16 = handler.extractLsb' 16 48 :=
    BitVec.extractLsb'_append_extractLsb'_eq_extractLsb' rfl
  have whole : handler.extractLsb' 16 48 ++ handler.extractLsb' 0 16 = handler.extractLsb' 0 64 :=
    BitVec.extractLsb'_append_extractLsb'_eq_extractLsb' rfl
  rw [IDTEntry.offset, setIDTEntry]
  dsimp only
  rw [low, mid, high, upper, whole]
  exact BitVec.extractLsb'_eq_self

/-! ### Segments -/

def accessPresent : BitVec 8 := 1 <<< 7
def accessRing0 : BitVec 8 := 0 <<< 5
def accessRing3 : BitVec 8 := 3 <<< 5
def accessCodeSeg : BitVec 8 := 1 <<< 4 ||| 1 <<< 3
def accessDataSeg : BitVec 8 := 1 <<< 4
def accessReadable : BitVec 8 := 1 <<< 1
def accessWritable : BitVec 8 := 1 <<< 1
def flagGranularity : BitVec 8 := 1 <<< 3
def flag32bit : BitVec 8 := 1 <<< 2
def flag64bit : BitVec 8 := 1 <<< 1
def accessTss : BitVec 8 := 0x89

def gdtEntry (base limit : BitVec 32) (access flags : BitVec 8) : BitVec 64 :=
  (limit &&& 0x0000FFFF).setWidth 64 ||| (base &&& 0x00FFFFFF).setWidth 64 <<< 16 |||
    access.setWidth 64 <<< 40 ||| (limit &&& 0x000F0000).setWidth 64 <<< 32 |||
    (flags &&& 0x0F).setWidth 64 <<< 52 ||| (base >>> 24).setWidth 64 <<< 56

/-- The entries seven and eight, which `init_tss` writes. -/
def tssLow (base : BitVec 64) (limit : BitVec 16) : BitVec 64 :=
  (limit &&& 0xFFFF).setWidth 64 ||| (base &&& 0xFFFFFF) <<< 16 ||| accessTss.setWidth 64 <<< 40 |||
    (base >>> 24 &&& 0xFF) <<< 56

def tssHigh (base : BitVec 64) : BitVec 64 := base >>> 32

/-- The size of a `tss_entry` is 104 bytes. -/
def gdt (tss : BitVec 64) : List (BitVec 64) :=
  [0,
    gdtEntry 0 0xFFFFF (accessPresent ||| accessRing0 ||| accessCodeSeg ||| accessReadable)
      (flagGranularity ||| flag32bit),
    gdtEntry 0 0xFFFFF (accessPresent ||| accessRing0 ||| accessDataSeg ||| accessWritable)
      (flagGranularity ||| flag32bit),
    gdtEntry 0 0 (accessPresent ||| accessRing0 ||| accessCodeSeg ||| accessReadable) flag64bit,
    gdtEntry 0 0 (accessPresent ||| accessRing0 ||| accessDataSeg ||| accessWritable) flag64bit,
    gdtEntry 0 0 (accessPresent ||| accessRing3 ||| accessDataSeg ||| accessWritable) flag64bit,
    gdtEntry 0 0 (accessPresent ||| accessRing3 ||| accessCodeSeg ||| accessReadable) flag64bit,
    tssLow tss (104 - 1), tssHigh tss]

/-- What the processor takes out of a descriptor. -/
structure Descriptor where
  base : BitVec 32
  limit : BitVec 20
  access : BitVec 8
  flags : BitVec 4
deriving DecidableEq, Repr

def decode (d : BitVec 64) : Descriptor where
  base := d.extractLsb' 56 8 ++ d.extractLsb' 16 24
  limit := d.extractLsb' 48 4 ++ d.extractLsb' 0 16
  access := d.extractLsb' 40 8
  flags := d.extractLsb' 52 4

/-- The ring of a segment. -/
def Descriptor.ring (d : Descriptor) : BitVec 2 := d.access.extractLsb' 5 2

/-- The descriptor that a selector names. -/
def descriptor (table : List (BitVec 64)) (selector : BitVec 16) : Descriptor :=
  decode (table.getD (selector >>> 3).toNat 0)

end KopalniaOS.Idt
