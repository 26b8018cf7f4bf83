import KopalniaOS.Gpt.Model
import KopalniaOS.Stdlib.NumBuf

/-!
# Bounds of a partition table

Which disks `init` reads without leaving its buffers. The header says how long the header is and
how many entries there are of which size, and each use of these numbers has a bound of its own.
-/
namespace KopalniaOS.Gpt

open Library

/-! ### What is in bounds -/

/-- The bytes of a buffer; the two local ones are always there. -/
def GptState.room (st : GptState) : Buffer → Nat
  | .headerCopy => sizeofGptHeader
  | .nameBuf => 37
  | b => (st.held b).getD 0

/-- `%x` prints the number through the 16 bytes of `num_buf`. -/
def Printable (number : Nat) : Prop :=
  (Stdlib.Arg.unsignedLongLong (UInt64.ofNat number) : Stdlib.Arg Unit).Fits

theorem printable_iff {number : Nat} (word : number < 2 ^ 64) : Printable number ↔ number < 2 ^ 52 := by
  rw [Printable, Stdlib.Arg.Fits, UInt64.toNat_ofNat_of_lt' word]
  exact Iff.rfl

/-- Accesses stay inside their buffer, and reads of the device ask for at least one sector and
for no more than fits. A string is printed up to its terminator, and the vector has storage for what
it takes. The other numbers that are printed always fit. -/
def InBounds (dev : Device) (o : GptOp) (st : GptState) : Prop :=
  match o with
  | .load b width offset => offset + width ≤ st.room b
  | .store b width offset _ => offset + width ≤ st.room b
  | .read _ count b => 1 ≤ count ∧ count * dev.sectorSize ≤ st.room b
  | .pushBack b offset =>
    offset + sizeofGptPartition ≤ st.room b ∧ dev.grows st.partitions.length = true
  | .log (.found _ _) => ∃ k < 37, st.mem .nameBuf k = 0
  | .log (.lbaMismatch _ lba) => Printable lba
  | _ => True

abbrev Stays {α : Type} (dev : Device) (p : GptProgram α) (st : GptState) : Prop :=
  p.All (gptHandler dev) (InBounds dev) st

variable {α : Type} {dev : Device} {st t : GptState}

section Operations

variable (f : Unit → GptProgram α)

@[simp] theorem stays_load (b : Buffer) (width offset : Nat) (f : Nat → GptProgram α) :
    Stays dev (load b width offset >>= f) st ↔
      offset + width ≤ st.room b ∧ Stays dev (f ((st.mem b).load width offset)) st := by
  rw [Stays, load, Program.all_perform_bind]
  simp [gptHandler, InBounds]

@[simp] theorem stays_store (b : Buffer) (width offset value : Nat) :
    Stays dev (store b width offset value >>= f) st ↔
      offset + width ≤ st.room b ∧ Stays dev (f ()) (st.write b width offset value) := by
  rw [Stays, store, Program.all_perform_bind]
  simp [gptHandler, InBounds]

@[simp] theorem stays_mallocAlign (b : Buffer) (size align : Nat) :
    Stays dev (mallocAlign b size align >>= f) st ↔
      Stays dev (f ()) { st with
        held := Function.update st.held b (if dev.alloc b then some size else none) } := by
  rw [Stays, mallocAlign, Program.all_perform_bind]
  simp [gptHandler, InBounds]

@[simp] theorem stays_freeAlign (b : Buffer) :
    Stays dev (freeAlign b >>= f) st ↔
      Stays dev (f ()) { st with held := Function.update st.held b none } := by
  rw [Stays, freeAlign, Program.all_perform_bind]
  simp [gptHandler, InBounds]

@[simp] theorem stays_freeAlign_last (b : Buffer) : Stays dev (freeAlign b) st :=
  (Program.all_op _ _ _).mpr ⟨trivial, fun _ _ => Program.all_ret _ _⟩

@[simp] theorem stays_read (start count : Nat) (b : Buffer) (f : Bool → GptProgram α) :
    Stays dev (read start count b >>= f) st ↔
      (1 ≤ count ∧ count * dev.sectorSize ≤ st.room b) ∧
        Stays dev (f (dev.readOk b)) (if dev.readOk b
          then { st with mem := Function.update st.mem b (dev.fill start count (st.mem b)) }
          else st) := by
  rw [Stays, read, Program.all_perform_bind]
  simp [gptHandler, InBounds]

@[simp] theorem stays_setDevice :
    Stays dev (setDevice >>= f) st ↔ Stays dev (f ()) { st with hasDevice := true } := by
  rw [Stays, setDevice, Program.all_perform_bind]
  simp [gptHandler, InBounds]

@[simp] theorem stays_setHeader (b : Buffer) :
    Stays dev (setHeader b >>= f) st ↔ Stays dev (f ()) { st with header := some b } := by
  rw [Stays, setHeader, Program.all_perform_bind]
  simp [gptHandler, InBounds]

@[simp] theorem stays_pushBack (b : Buffer) (offset : Nat) :
    Stays dev (pushBack b offset) st ↔
      offset + sizeofGptPartition ≤ st.room b ∧ dev.grows st.partitions.length = true := by
  rw [Stays, pushBack, Program.perform, Program.all_op]
  simp [InBounds]

@[simp] theorem stays_log (entry : LogEntry) :
    Stays dev (log entry >>= f) st ↔
      InBounds dev (.log entry) st ∧
        Stays dev (f ()) { st with logged := st.logged ++ [entry] } := by
  rw [Stays, log, Program.all_perform_bind]
  simp [gptHandler]

@[simp] theorem stays_log_last (entry : LogEntry) :
    Stays dev (log entry) st ↔ InBounds dev (.log entry) st := by
  rw [Stays, log, Program.perform, Program.all_op]
  simp

@[simp] theorem stays_pure (a : α) : Stays dev (pure a) st := Program.all_ret a st

/-- What follows a part that returns. -/
theorem stays_bind_of_run {β : Type} {p : GptProgram β} {g : β → GptProgram α} {b : β}
    (ran : p.run (gptHandler dev) st = some (b, t)) :
    Stays dev (p >>= g) st ↔ Stays dev p st ∧ Stays dev (g b) t := by
  rw [Stays, Program.all_bind, ran]
  simp

end Operations

/-! ### The loops over bytes -/

/-- Whether the bytes from `offset` on are these. -/
def startsWith (m : Memory) : Nat → List Nat → Bool
  | _, [] => true
  | offset, byte :: rest => m.load 1 offset == byte && startsWith m (offset + 1) rest

theorem run_memcmp (b : Buffer) (offset : Nat) (bytes : List Nat) :
    (memcmp b offset bytes).run (gptHandler dev) st =
      some (startsWith (st.mem b) offset bytes, st) := by
  induction bytes generalizing offset with
  | nil => rfl
  | cons byte rest ih =>
    rw [memcmp, startsWith, load, Program.run_bind, Program.run_perform]
    simp only [gptHandler, Option.bind_some]
    by_cases same : (st.mem b).load 1 offset = byte
    · rw [if_neg (not_not.mpr same), ih, same, beq_self_eq_true, Bool.true_and]
    · rw [if_pos same, beq_eq_false_iff_ne.mpr same, Bool.false_and]
      rfl

theorem stays_memcmp (b : Buffer) (offset : Nat) (bytes : List Nat)
    (room : offset + bytes.length ≤ st.room b) : Stays dev (memcmp b offset bytes) st := by
  induction bytes generalizing offset with
  | nil => exact stays_pure true
  | cons byte rest ih =>
    rw [List.length_cons] at room
    rw [memcmp, stays_load]
    refine ⟨by omega, ?_⟩
    split
    · exact stays_pure false
    · exact ih (offset + 1) (by omega)

/-- A comparison that finds no difference reads everything. -/
theorem room_of_startsWith {b : Buffer} {offset : Nat} {bytes : List Nat} (some : bytes ≠ [])
    (same : startsWith (st.mem b) offset bytes = true)
    (stays : Stays dev (memcmp b offset bytes) st) : offset + bytes.length ≤ st.room b := by
  induction bytes generalizing offset with
  | nil => exact (some rfl).elim
  | cons byte rest ih =>
    rw [startsWith, Bool.and_eq_true, beq_iff_eq] at same
    rw [memcmp, stays_load, if_neg (not_not.mpr same.1)] at stays
    cases rest with
    | nil => exact stays.1
    | cons next more =>
      have room := ih (List.cons_ne_nil next more) same.2 stays.2
      simp only [List.length_cons] at room ⊢
      omega

/-- The loop of `crc32` over some bytes. -/
def crc32Bytes (crc : BitVec 32) (bytes : List UInt8) : BitVec 32 :=
  bytes.foldl (fun crc byte => crc32Byte crc byte.toNat) crc

def crc32Of (bytes : List UInt8) : Nat := (~~~crc32Bytes 0xFFFFFFFF#32 bytes).toNat

/-- The first bytes of a buffer. -/
def firstBytes (m : Memory) (len : Nat) : List UInt8 := (List.range len).map m

theorem run_crc32Loop (b : Buffer) (len i n : Nat) (left : len = i + n) (crc : BitVec 32) :
    (crc32Loop b len i crc).run (gptHandler dev) st =
      some (crc32Bytes crc ((List.range' i n).map (st.mem b)), st) := by
  induction n generalizing i crc with
  | zero =>
    rw [crc32Loop, if_neg (by omega)]
    rfl
  | succ n ih =>
    rw [crc32Loop, if_pos (by omega), load, Program.run_bind, Program.run_perform]
    simp only [gptHandler, Option.bind_some]
    rw [ih (i + 1) (by omega), Memory.load_one]
    rfl

theorem run_crc32 (b : Buffer) (len : Nat) :
    (crc32 b len).run (gptHandler dev) st = some (crc32Of (firstBytes (st.mem b) len), st) := by
  rw [crc32, Program.run_bind, run_crc32Loop b len 0 len (Nat.zero_add len).symm]
  rw [Option.bind_some, crc32Of, firstBytes, List.range_eq_range']
  rfl

theorem stays_crc32Loop (b : Buffer) (len i n : Nat) (left : len - i ≤ n) (crc : BitVec 32) :
    Stays dev (crc32Loop b len i crc) st ↔ (i < len → len ≤ st.room b) := by
  induction n generalizing i crc with
  | zero =>
    rw [crc32Loop, if_neg (by omega)]
    exact ⟨fun _ more => by omega, fun _ => stays_pure crc⟩
  | succ n ih =>
    rw [crc32Loop]
    -- what is left always ends at `len`, so the first byte already needs all of it
    by_cases more : i < len
    · rw [if_pos more, stays_load, ih (i + 1) (by omega)]
      constructor
      · rintro ⟨first, rest⟩ -
        omega
      · intro whole
        have := whole more
        omega
    · rw [if_neg more]
      exact ⟨fun _ inside => (more inside).elim, fun _ => stays_pure crc⟩

/-- `crc32` reads as many bytes as it is told to. -/
@[simp] theorem stays_crc32 (b : Buffer) (len : Nat) (f : Nat → GptProgram α) :
    Stays dev (crc32 b len >>= f) st ↔
      len ≤ st.room b ∧ Stays dev (f (crc32Of (firstBytes (st.mem b) len))) st := by
  have range : Stays dev (crc32 b len) st ↔ len ≤ st.room b := by
    rw [crc32, stays_bind_of_run (run_crc32Loop b len 0 len (Nat.zero_add len).symm _),
      stays_crc32Loop b len 0 len (by omega)]
    constructor
    · rintro ⟨whole, -⟩
      rcases Nat.eq_zero_or_pos len with none | some
      · omega
      · exact whole some
    · exact fun room => ⟨fun _ => room, stays_pure _⟩
  rw [stays_bind_of_run (run_crc32 b len), range]

/-! ### What the disk says -/

def headerSize (h : Memory) : Nat := h.load 4 12
def entryLba (h : Memory) : Nat := h.load 8 72
def entryCount (h : Memory) : Nat := h.load 4 80
def entrySize (h : Memory) : Nat := h.load 4 84

/-- The size of all entries, as an `u32`. -/
def totalSize (h : Memory) : Nat := entrySize h * entryCount h % 2 ^ 32

def Signed (h : Memory) : Prop := startsWith h 0 efiPart = true

/-- The checksum of the header is taken with the field itself zero. -/
def headerCrc (h : Memory) : Nat := crc32Of (firstBytes (h.store 4 16 0) (headerSize h))

def HeaderValid (h : Memory) : Prop := headerCrc h = h.load 4 16 ∧ h.load 8 24 = 1

/-- A header with the right checksum has an LBA that can be printed. -/
def LbaPrints (h : Memory) : Prop := headerCrc h = h.load 4 16 → h.load 8 24 < 2 ^ 52

def EntriesValid (h table : Memory) : Prop :=
  crc32Of (firstBytes table (totalSize h)) = h.load 4 88

instance (h : Memory) : Decidable (Signed h) := inferInstanceAs (Decidable (_ = _))

instance (h : Memory) : Decidable (HeaderValid h) := inferInstanceAs (Decidable (_ ∧ _))

instance (h table : Memory) : Decidable (EntriesValid h table) := inferInstanceAs (Decidable (_ = _))

/-- How much of an entry is read: the type, the first sector, the name, or all of it. -/
def entryExtent (table : Memory) (entry : Nat) : Nat :=
  if startsWith table entry (List.replicate 16 0) = true then 16
  else if table.load 8 (entry + 32) = 0 then 40
  else if table.load 2 (entry + 56) = 0 then 58
  else sizeofGptPartition

/-- Where the loop looks for an entry. -/
def entryOffset (h : Memory) (i : Nat) : Nat := i * entrySize h % 2 ^ 32

/-- The entry passes the three tests of the loop. -/
def passes (table : Memory) (entry : Nat) : Bool :=
  !startsWith table entry (List.replicate 16 0) && table.load 8 (entry + 32) != 0 &&
    table.load 2 (entry + 56) != 0

/-- What the loop over the entries finds in `n` turns from entry `i` on. -/
def foundFrom (h table : Memory) (i n : Nat) : List (List UInt8) :=
  ((List.range' i n).filter fun j => passes table (entryOffset h j)).map fun j =>
    table.bytes (entryOffset h j) sizeofGptPartition

theorem foundFrom_succ (h table : Memory) (i n : Nat) :
    foundFrom h table i (n + 1) = (if passes table (entryOffset h i)
      then [table.bytes (entryOffset h i) sizeofGptPartition] else []) ++ foundFrom h table (i + 1) n := by
  rw [foundFrom, List.range'_succ, List.filter_cons]
  split <;> rfl

/-- The entry lies in the table as far as it is read, and if it is taken, there is storage for it behind
the `n` elements that the vector has when the loop comes to entry `i`. -/
def EntryTaken (dev : Device) (h table : Memory) (room n i j : Nat) : Prop :=
  entryOffset h j + entryExtent table (entryOffset h j) ≤ room ∧
    (passes table (entryOffset h j) = true →
      dev.grows (n + (foundFrom h table i (j - i)).length) = true)

/-! ### The header -/

section States

variable (b b' : Buffer) (width offset value : Nat)

@[simp] theorem room_header : st.room .header = (st.held .header).getD 0 := rfl

@[simp] theorem room_partitionsBuf : st.room .partitionsBuf = (st.held .partitionsBuf).getD 0 := rfl

@[simp] theorem room_headerCopy : st.room .headerCopy = sizeofGptHeader := rfl

@[simp] theorem room_nameBuf : st.room .nameBuf = 37 := rfl

@[simp] theorem mem_write_self :
    (st.write b width offset value).mem b = (st.mem b).store width offset value :=
  Function.update_self ..

theorem mem_write_of_ne (other : b' ≠ b) :
    (st.write b width offset value).mem b' = st.mem b' :=
  Function.update_of_ne other _ _

/-- The two buffers on the heap stay as they are. -/
structure Kept (st t : GptState) : Prop where
  held : t.held = st.held
  header : t.mem .header = st.mem .header
  table : t.mem .partitionsBuf = st.mem .partitionsBuf

theorem Kept.refl (st : GptState) : Kept st st := ⟨rfl, rfl, rfl⟩

theorem Kept.trans {u : GptState} (first : Kept st t) (second : Kept t u) : Kept st u :=
  ⟨second.held.trans first.held, second.header.trans first.header, second.table.trans first.table⟩

theorem kept_writeCopy : Kept st (st.write .headerCopy width offset value) :=
  ⟨rfl, mem_write_of_ne _ _ _ _ _ (by decide), mem_write_of_ne _ _ _ _ _ (by decide)⟩

theorem kept_writeName : Kept st (st.write .nameBuf width offset value) :=
  ⟨rfl, mem_write_of_ne _ _ _ _ _ (by decide), mem_write_of_ne _ _ _ _ _ (by decide)⟩

end States

/-- The header was copied and the checksum in the copy was cleared. -/
def GptState.copied (st : GptState) : GptState :=
  (st.write .headerCopy sizeofGptHeader 0 ((st.mem .header).load sizeofGptHeader 0)).write
    .headerCopy 4 16 0

theorem kept_copied (st : GptState) : Kept st st.copied :=
  (kept_writeCopy 92 0 _).trans (kept_writeCopy 4 16 0)

/-- As far as the copy goes it has the bytes of the header. -/
theorem firstBytes_copied {len : Nat} (fits : len ≤ sizeofGptHeader) :
    firstBytes (st.copied.mem .headerCopy) len = firstBytes ((st.mem .header).store 4 16 0) len := by
  unfold GptState.copied
  rw [mem_write_self, mem_write_self]
  refine List.map_congr_left fun k inside => Memory.store_congr 4 16 0 fun _ => ?_
  have copied := Memory.store_load (st.mem .header) (st.mem .headerCopy) sizeofGptHeader 0 0
    (Nat.lt_of_lt_of_le (List.mem_range.mp inside) fits)
  rwa [Nat.zero_add] at copied

theorem stays_validateGpt (room : sizeofGptHeader ≤ st.room .header) :
    Stays dev validateGpt st ↔ (Signed (st.mem .header) →
      headerSize (st.mem .header) ≤ sizeofGptHeader ∧ LbaPrints (st.mem .header)) := by
  have size : sizeofGptHeader = 92 := rfl
  have compares : Stays dev (memcmp .header 0 efiPart) st :=
    stays_memcmp _ _ _ (by rw [show efiPart.length = 8 from rfl]; omega)
  rw [validateGpt, stays_bind_of_run (run_memcmp ..)]
  by_cases signed : startsWith (st.mem .header) 0 efiPart = false
  · rw [if_pos signed]
    have unsigned : ¬Signed (st.mem .header) := by simp [Signed, signed]
    exact ⟨fun _ sign => (unsigned sign).elim, fun _ => ⟨compares, by simp [InBounds]⟩⟩
  · rw [if_neg signed]
    have sign : Signed (st.mem .header) := by simpa [Signed] using signed
    have kept := kept_copied st
    have whole : (st.write .headerCopy sizeofGptHeader 0
        ((st.mem .header).load sizeofGptHeader 0)).write .headerCopy 4 16 0 = st.copied := rfl
    rw [stays_load, stays_store, stays_store, stays_load, stays_crc32, stays_load, whole]
    simp only [room_header, room_headerCopy, kept.held, kept.header] at room ⊢
    -- what is left reads the header only, and prints its LBA if that is the wrong one
    have prints (fits : headerSize (st.mem .header) ≤ sizeofGptHeader) :
        Stays dev (if crc32Of (firstBytes (st.copied.mem .headerCopy)
            ((st.mem .header).load 4 12)) ≠ (st.mem .header).load 4 16 then do
          log (.warn "[ GPT ] Partition header checksum mismatch.")
          pure false
        else do
          let lbaHeader ← load .header 8 24
          if lbaHeader ≠ 1 then do
            let lba ← load .header 8 24
            log (.lbaMismatch "[ GPT ] LBA header mismatch: got %x, expected 1" lba)
            pure false
          else pure true) st.copied ↔ LbaPrints (st.mem .header) := by
      have crc : crc32Of (firstBytes (st.copied.mem .headerCopy) ((st.mem .header).load 4 12)) =
          headerCrc (st.mem .header) :=
        congrArg crc32Of (firstBytes_copied fits)
      have word : (st.mem .header).load 8 24 < 2 ^ 64 := Memory.load_lt _ 8 24
      rw [crc]
      by_cases mismatch : headerCrc (st.mem .header) ≠ (st.mem .header).load 4 16
      · rw [if_pos mismatch]
        exact iff_of_true (by simp [InBounds]) fun same => (mismatch same).elim
      · rw [if_neg mismatch, stays_load, room_header, kept.held, kept.header]
        rw [ne_eq, not_not] at mismatch
        by_cases other : (st.mem .header).load 8 24 ≠ 1
        · rw [if_pos other, stays_load, stays_log, room_header, kept.held, kept.header]
          constructor
          · exact fun all _ => (printable_iff word).mp all.2.2.1
          · exact fun small => ⟨by omega, by omega, (printable_iff word).mpr (small mismatch),
              stays_pure false⟩
        · rw [if_neg other]
          rw [ne_eq, not_not] at other
          exact iff_of_true ⟨by omega, stays_pure true⟩ fun _ => by omega
    constructor
    · rintro ⟨-, -, -, -, -, fits, -, rest⟩ -
      exact ⟨fits, (prints fits).mp rest⟩
    · intro inside
      obtain ⟨fits, lba⟩ := inside sign
      exact ⟨compares, by omega, by omega, by omega, by omega, fits, by omega, (prints fits).mpr lba⟩

/-- Unless the copy is too short for the checksum, the outcome depends on the header alone. -/
theorem run_validateGpt (dev : Device) (st : GptState) (fits : Signed (st.mem .header) →
    headerSize (st.mem .header) ≤ sizeofGptHeader) :
    ∃ t valid, (validateGpt).run (gptHandler dev) st = some (valid, t) ∧ Kept st t ∧
      t.partitions = st.partitions ∧
      (valid = true ↔ Signed (st.mem .header) ∧ HeaderValid (st.mem .header)) := by
  rw [validateGpt, Program.run_bind, run_memcmp, Option.bind_some]
  by_cases signed : startsWith (st.mem .header) 0 efiPart = false
  · rw [if_pos signed]
    refine ⟨_, false, rfl, ⟨rfl, rfl, rfl⟩, rfl, ?_⟩
    simp [Signed, signed]
  · rw [if_neg signed]
    have sign : Signed (st.mem .header) := by simpa [Signed] using signed
    have kept := kept_copied st
    -- step by step up to the copy, which then goes by its name
    simp only [load, store, Program.run_bind, Program.run_perform, gptHandler, Option.bind_some,
      run_crc32]
    have whole : (st.write .headerCopy sizeofGptHeader 0
        ((st.mem .header).load sizeofGptHeader 0)).write .headerCopy 4 16 0 = st.copied := rfl
    rw [whole, kept.header]
    have crc : crc32Of (firstBytes (st.copied.mem .headerCopy) ((st.mem .header).load 4 12)) =
        headerCrc (st.mem .header) :=
      congrArg crc32Of (firstBytes_copied (fits sign))
    rw [crc]
    by_cases mismatch : headerCrc (st.mem .header) ≠ (st.mem .header).load 4 16
    · rw [if_pos mismatch]
      refine ⟨_, false, rfl, ⟨kept.held, kept.header, kept.table⟩, rfl, ?_⟩
      simp [HeaderValid, mismatch]
    · rw [if_neg mismatch]
      simp only [Program.run_bind, Program.run_perform, gptHandler, Option.bind_some, kept.header]
      by_cases other : (st.mem .header).load 8 24 ≠ 1
      · rw [if_pos other]
        refine ⟨_, false, rfl, ⟨kept.held, kept.header, kept.table⟩, rfl, ?_⟩
        simp [HeaderValid, other]
      · rw [if_neg other]
        refine ⟨_, true, rfl, kept, rfl, ?_⟩
        rw [ne_eq, not_not] at mismatch other
        simp [HeaderValid, sign, mismatch, other]

/-! ### The entries -/

theorem stays_validateGptPartitionEntries (room : sizeofGptHeader ≤ st.room .header) :
    Stays dev validateGptPartitionEntries st ↔
      totalSize (st.mem .header) ≤ st.room .partitionsBuf := by
  have size : sizeofGptHeader = 92 := rfl
  rw [validateGptPartitionEntries, stays_load, stays_load, stays_crc32, stays_load]
  constructor
  · exact fun all => all.2.2.1
  · intro fits
    refine ⟨by omega, by omega, fits, by omega, ?_⟩
    split
    · simp [InBounds]
    · exact stays_pure true

theorem run_validateGptPartitionEntries (dev : Device) (st : GptState) :
    ∃ t valid, validateGptPartitionEntries.run (gptHandler dev) st = some (valid, t) ∧
      Kept st t ∧ t.partitions = st.partitions ∧
      (valid = true ↔ EntriesValid (st.mem .header) (st.mem .partitionsBuf)) := by
  simp only [validateGptPartitionEntries, load, Program.run_bind, Program.run_perform, gptHandler,
    Option.bind_some, run_crc32]
  by_cases mismatch : crc32Of (firstBytes (st.mem .partitionsBuf)
      ((st.mem .header).load 4 84 * (st.mem .header).load 4 80 % 2 ^ 32)) ≠
        (st.mem .header).load 4 88
  · rw [if_pos mismatch]
    exact ⟨_, false, rfl, ⟨rfl, rfl, rfl⟩, rfl, iff_of_false Bool.false_ne_true mismatch⟩
  · rw [if_neg mismatch]
    rw [ne_eq, not_not] at mismatch
    exact ⟨_, true, rfl, .refl st, rfl, iff_of_true rfl mismatch⟩

/-- The last byte of `name_buf` is never written. -/
theorem run_copyName (dev : Device) (st : GptState) (entry left j : Nat) (short : left + j ≤ 36) :
    ∃ t, (copyName entry left j).run (gptHandler dev) st = some ((), t) ∧ Kept st t ∧
      t.partitions = st.partitions ∧ t.mem .nameBuf 36 = st.mem .nameBuf 36 := by
  induction left generalizing j st with
  | zero => exact ⟨st, rfl, .refl st, rfl, rfl⟩
  | succ left ih =>
    rw [copyName, load, Program.run_bind, Program.run_perform]
    simp only [gptHandler, Option.bind_some]
    split
    · exact ⟨st, rfl, .refl st, rfl, rfl⟩
    · simp only [store, Program.run_bind, Program.run_perform, gptHandler, Option.bind_some]
      obtain ⟨t, ran, kept, same, last⟩ := ih _ (j + 1) (by omega)
      refine ⟨t, ran, .trans (kept_writeName 1 j _) kept, same, last.trans ?_⟩
      rw [mem_write_self]
      exact Memory.store_outside _ _ _ _ _ (by omega)

theorem stays_copyName (entry left j : Nat) (short : left + j ≤ 36)
    (room : entry + sizeofGptPartition ≤ st.room .partitionsBuf) :
    Stays dev (copyName entry left j) st := by
  have size : sizeofGptPartition = 128 := rfl
  induction left generalizing j st with
  | zero => exact stays_pure ()
  | succ left ih =>
    rw [copyName, stays_load]
    refine ⟨by omega, ?_⟩
    split
    · exact stays_pure ()
    · rw [stays_store, room_nameBuf]
      exact ⟨by omega, ih (j + 1) (by omega) room⟩

/-- Before the name is copied, `name_buf` is zero. -/
theorem zeroed_nameBuf : (st.write .nameBuf 37 0 0).mem .nameBuf 36 = 0 := by
  rw [mem_write_self]
  have zero := Memory.store_load (fun _ => 0) (st.mem .nameBuf) 37 0 0 (i := 36) (by decide)
  rwa [Memory.load_zero _ _ _ fun _ _ _ => rfl] at zero

theorem run_visitEntry (dev : Device) (st : GptState) (sectorSize entry i : Nat)
    (granted : passes (st.mem .partitionsBuf) entry = true → dev.grows st.partitions.length = true) :
    ∃ t, (visitEntry sectorSize entry i).run (gptHandler dev) st = some ((), t) ∧ Kept st t ∧
      t.partitions = st.partitions ++ if passes (st.mem .partitionsBuf) entry
        then [(st.mem .partitionsBuf).bytes entry sizeofGptPartition] else [] := by
  -- three reasons to skip the entry: no type, no first sector, no name
  rw [visitEntry, Program.run_bind, run_memcmp, Option.bind_some]
  split
  case isTrue unused =>
    have same : startsWith (st.mem .partitionsBuf) entry (List.replicate 16 0) = true := unused
    refine ⟨st, rfl, .refl st, ?_⟩
    rw [passes, same]
    simp
  case isFalse used =>
  simp only [load, store, log, pushBack, Program.run_bind, Program.run_perform, gptHandler,
    Option.bind_some]
  split
  case isTrue empty => exact ⟨st, rfl, .refl st, by simp [passes, empty]⟩
  case isFalse filled =>
  simp only [Program.run_bind, Program.run_perform, gptHandler, Option.bind_some]
  split
  case isTrue unnamed => exact ⟨st, rfl, .refl st, by simp [passes, unnamed]⟩
  case isFalse named =>
  simp only [Program.run_bind, Program.run_perform, gptHandler, Option.bind_some]
  obtain ⟨t, ran, kept, same, -⟩ := run_copyName dev (st.write .nameBuf 37 0 0) entry 36 0
    (Nat.le_refl 36)
  have table := kept.table.trans (kept_writeName 37 0 0).table
  have kind : startsWith (st.mem .partitionsBuf) entry (List.replicate 16 0) = false :=
    eq_false_of_ne_true used
  have passed : passes (st.mem .partitionsBuf) entry = true := by
    rw [passes, kind]
    simp [filled, named]
  have storage : dev.grows t.partitions.length = true := by
    rw [same]
    exact granted passed
  rw [ran]
  simp only [Option.bind_some]
  rw [if_pos storage, if_pos passed, ← table]
  refine ⟨_, rfl, ⟨kept.held, kept.header.trans (kept_writeName 37 0 0).header, table⟩, ?_⟩
  exact congrArg (· ++ _) same

theorem stays_visitEntry (sectorSize entry i : Nat) :
    Stays dev (visitEntry sectorSize entry i) st ↔
      entry + entryExtent (st.mem .partitionsBuf) entry ≤ st.room .partitionsBuf ∧
        (passes (st.mem .partitionsBuf) entry = true →
          dev.grows st.partitions.length = true) := by
  have length : (List.replicate 16 0).length = 16 := List.length_replicate
  -- each check reads further into the entry, and the one that ends the visit decides
  rw [visitEntry, stays_bind_of_run (run_memcmp ..), entryExtent]
  by_cases unused : startsWith (st.mem .partitionsBuf) entry (List.replicate 16 0) = true
  · have skipped : passes (st.mem .partitionsBuf) entry ≠ true := by
      rw [passes, unused]
      simp
    rw [if_pos unused, if_pos unused, and_iff_left fun taken => (skipped taken).elim]
    constructor
    · rintro ⟨compares, -⟩
      have room := room_of_startsWith (by simp) unused compares
      omega
    · exact fun room => ⟨stays_memcmp _ _ _ (by omega), stays_pure ()⟩
  rw [if_neg unused, if_neg unused, stays_load]
  -- whatever comes next covers what the comparison reads
  have compares (room : entry + 40 ≤ st.room .partitionsBuf) :
      Stays dev (memcmp .partitionsBuf entry (List.replicate 16 0)) st :=
    stays_memcmp _ _ _ (by omega)
  by_cases empty : (st.mem .partitionsBuf).load 8 (entry + 32) = 0
  · have skipped : passes (st.mem .partitionsBuf) entry ≠ true := by simp [passes, empty]
    rw [if_pos empty, if_pos empty, and_iff_left fun taken => (skipped taken).elim]
    exact ⟨fun all => all.2.1, fun room => ⟨compares room, room, stays_pure ()⟩⟩
  rw [if_neg empty, if_neg empty, stays_load]
  by_cases unnamed : (st.mem .partitionsBuf).load 2 (entry + 56) = 0
  · have skipped : passes (st.mem .partitionsBuf) entry ≠ true := by simp [passes, unnamed]
    rw [if_pos unnamed, if_pos unnamed, and_iff_left fun taken => (skipped taken).elim]
    exact ⟨fun all => all.2.2.1, fun room =>
      ⟨compares (by omega), by omega, room, stays_pure ()⟩⟩
  have taken : passes (st.mem .partitionsBuf) entry = true := by
    rw [passes, eq_false_of_ne_true unused]
    simp [empty, unnamed]
  rw [if_neg unnamed, if_neg unnamed, stays_store]
  obtain ⟨t, ran, kept, same, last⟩ := run_copyName dev (st.write .nameBuf 37 0 0) entry
    36 0 (Nat.le_refl 36)
  have size : sizeofGptPartition = 128 := rfl
  have roomAfter : t.room .partitionsBuf = st.room .partitionsBuf := by
    rw [room_partitionsBuf, kept.held]
    rfl
  have stored : t.partitions = st.partitions := same
  have printable : InBounds dev (.log (.found "[ GPT ] Found partition %i with name of '%s'" i)) t :=
    ⟨36, by decide, last.trans zeroed_nameBuf⟩
  rw [stays_bind_of_run ran, stays_log, stays_load, stays_load, stays_log, stays_pushBack]
  simp only [room_partitionsBuf] at roomAfter ⊢
  rw [roomAfter, stored]
  constructor
  · intro all
    obtain ⟨room, storage⟩ := all.2.2.2.2.2.2.2.2.2
    exact ⟨room, fun _ => storage⟩
  · rintro ⟨room, storage⟩
    have copies : Stays dev (copyName entry 36 0) (st.write .nameBuf 37 0 0) :=
      stays_copyName entry 36 0 (Nat.le_refl 36) room
    exact ⟨compares (by rw [room_partitionsBuf]; omega), by omega, by omega, Nat.le_refl 37, copies,
      printable, by omega, by omega, trivial, room, storage taken⟩

theorem entryTaken_self {h table : Memory} {room n i : Nat} :
    EntryTaken dev h table room n i i ↔ entryOffset h i + entryExtent table (entryOffset h i) ≤ room ∧
      (passes table (entryOffset h i) = true → dev.grows n = true) := by
  rw [EntryTaken, Nat.sub_self]
  rfl

/-- What the loop finds at an entry is in the vector when it comes to the next one. -/
theorem entryTaken_succ {h table : Memory} {room n i j : Nat} (later : i < j) :
    EntryTaken dev h table room (n + (foundFrom h table i 1).length) (i + 1) j ↔
      EntryTaken dev h table room n i j := by
  have split : foundFrom h table i (j - i) =
      foundFrom h table i 1 ++ foundFrom h table (i + 1) (j - (i + 1)) := by
    rw [show j - i = j - (i + 1) + 1 by omega, foundFrom_succ, foundFrom_succ]
    simp [foundFrom]
  rw [EntryTaken, EntryTaken, split, List.length_append, Nat.add_assoc]

theorem stays_visitEntries (sectorSize left i : Nat) (header : sizeofGptHeader ≤ st.room .header)
    (enough : entryCount (st.mem .header) < i + left) :
    Stays dev (visitEntries sectorSize left i) st ↔
      ∀ j, i ≤ j → j < entryCount (st.mem .header) →
        EntryTaken dev (st.mem .header) (st.mem .partitionsBuf) (st.room .partitionsBuf)
          st.partitions.length i j := by
  have size : sizeofGptHeader = 92 := rfl
  induction left generalizing i st with
  | zero =>
    -- there are more turns than entries
    refine iff_of_true (Program.all_stuck st) fun j _ _ => ?_
    omega
  | succ left ih =>
    have counts : (st.mem .header).load 4 80 = entryCount (st.mem .header) := rfl
    rw [visitEntries, stays_load, counts]
    by_cases more : i < entryCount (st.mem .header)
    · rw [if_pos more, stays_load]
      have visit : Stays dev (visitEntry sectorSize (entryOffset (st.mem .header) i) i) st ↔
          EntryTaken dev (st.mem .header) (st.mem .partitionsBuf) (st.room .partitionsBuf)
            st.partitions.length i i := by
        rw [stays_visitEntry, entryTaken_self]
      change _ ∧ _ ∧ Stays dev (visitEntry sectorSize (entryOffset (st.mem .header) i) i >>= _) st ↔ _
      by_cases granted : passes (st.mem .partitionsBuf) (entryOffset (st.mem .header) i) = true →
          dev.grows st.partitions.length = true
      · obtain ⟨t, ran, kept, found⟩ := run_visitEntry dev st sectorSize
          (entryOffset (st.mem .header) i) i granted
        -- the visit leaves both buffers alone, so the later entries are found as they were
        have roomAfter : t.room .partitionsBuf = st.room .partitionsBuf := by
          rw [room_partitionsBuf, kept.held]
          rfl
        have headerAfter : sizeofGptHeader ≤ t.room .header := by
          rw [room_header, kept.held]
          exact header
        have stored : t.partitions.length = st.partitions.length +
            (foundFrom (st.mem .header) (st.mem .partitionsBuf) i 1).length := by
          rw [found, List.length_append, foundFrom_succ, List.length_append]
          rfl
        have rest : Stays dev (visitEntries sectorSize left (i + 1)) t ↔ _ :=
          ih (i + 1) headerAfter (by rw [kept.header]; omega)
        rw [stays_bind_of_run ran, visit, rest, kept.header, kept.table, roomAfter, stored]
        constructor
        · rintro ⟨-, -, first, rest⟩ j from_i below
          rcases Nat.eq_or_lt_of_le from_i with rfl | later
          · exact first
          · exact (entryTaken_succ later).mp (rest j later below)
        · intro all
          exact ⟨by omega, by omega, all i (Nat.le_refl i) more, fun j later below =>
            (entryTaken_succ later).mpr (all j (Nat.le_of_succ_le later) below)⟩
      · -- the entry is taken, and there is no storage for it
        have refused : ¬EntryTaken dev (st.mem .header) (st.mem .partitionsBuf)
            (st.room .partitionsBuf) st.partitions.length i i :=
          fun taken => granted (entryTaken_self.mp taken).2
        rw [Stays, Program.all_bind]
        exact iff_of_false (fun all => refused (visit.mp all.2.2.1)) fun all =>
          refused (all i (Nat.le_refl i) more)
    · rw [if_neg more]
      refine iff_of_true ⟨by omega, stays_pure ()⟩ fun j from_i below => ?_
      omega

/-! ### The whole of `init` -/

/-- The entries as they are read: whole sectors, and then what the allocation contains. -/
def Device.table (dev : Device) (h m : Memory) : Memory :=
  dev.fill (entryLba h) (totalSize h / dev.sectorSize) m

/-- There is memory for the entries, and they fill a sector. If they can be read and have the right
checksum, each of them, as far as it is read, lies in the table, and the vector, which holds `n`
elements before, has storage for each that is used. -/
def EntriesInside (dev : Device) (h m : Memory) (n : Nat) : Prop :=
  dev.alloc .partitionsBuf = true ∧ dev.sectorSize ≤ totalSize h ∧
    (dev.readOk .partitionsBuf = true → EntriesValid h (dev.table h m) →
      ∀ i < entryCount h, EntryTaken dev h (dev.table h m) (totalSize h) n 0 i)

/-- There is memory for the header. If it can be read and has the signature, it is not longer than
its copy, and its LBA can be printed. If it is valid as well, the entries are inside. -/
def HeaderInside (dev : Device) (h m : Memory) (n : Nat) : Prop :=
  dev.alloc .header = true ∧ (dev.readOk .header = true → Signed h →
    headerSize h ≤ sizeofGptHeader ∧ LbaPrints h ∧ (HeaderValid h → EntriesInside dev h m n))

theorem stays_findPartitions {h table : Memory} (sectorSize : Nat) (header : st.mem .header = h)
    (entries : st.mem .partitionsBuf = table) (room : sizeofGptHeader ≤ (st.held .header).getD 0)
    (held : st.held .partitionsBuf = some (totalSize h)) :
    Stays dev (findPartitions sectorSize) st ↔
      (EntriesValid h table → ∀ i < entryCount h,
        EntryTaken dev h table (totalSize h) st.partitions.length 0 i) := by
  subst header entries
  obtain ⟨t, valid, ran, kept, stored, outcome⟩ := run_validateGptPartitionEntries dev st
  have checks : Stays dev validateGptPartitionEntries st :=
    (stays_validateGptPartitionEntries room).mpr (by rw [room_partitionsBuf, held]; exact Nat.le_refl _)
  rw [findPartitions, stays_bind_of_run ran]
  cases valid with
  | false =>
    have invalid : ¬EntriesValid (st.mem .header) (st.mem .partitionsBuf) := by simp [← outcome]
    refine iff_of_true ⟨checks, ?_⟩ fun same => (invalid same).elim
    simp [InBounds]
  | true =>
    have same : EntriesValid (st.mem .header) (st.mem .partitionsBuf) := outcome.mp rfl
    have roomAfter : sizeofGptHeader ≤ t.room .header := by
      rw [room_header, kept.held]
      exact room
    have tableAfter : t.room .partitionsBuf = totalSize (st.mem .header) := by
      rw [room_partitionsBuf, kept.held, held]
      rfl
    -- the number of entries is an `u32`, so the bound on the turns is never reached
    have enough : entryCount (t.mem .header) < 0 + 2 ^ 32 := by
      rw [Nat.zero_add]
      exact Memory.load_lt _ 4 80
    have visits : Stays dev (visitEntries sectorSize (2 ^ 32) 0) t ↔ _ :=
      stays_visitEntries sectorSize (2 ^ 32) 0 roomAfter enough
    have all : Stays dev (visitEntries sectorSize (2 ^ 32) 0 >>= fun _ =>
        freeAlign .partitionsBuf >>= fun _ => freeAlign .header) t ↔
          Stays dev (visitEntries sectorSize (2 ^ 32) 0) t := by
      rw [Stays, Program.all_bind]
      exact ⟨And.left, fun stays => ⟨stays, fun _ _ _ => by simp⟩⟩
    rw [if_neg (by decide), all, visits, kept.header, kept.table, tableAfter, stored]
    constructor
    · exact fun inside _ i => inside.2 i (Nat.zero_le i)
    · exact fun inside => ⟨checks, fun i _ => inside same i⟩

theorem stays_readEntries (sector : 0 < dev.sectorSize)
    (room : sizeofGptHeader ≤ (st.held .header).getD 0) :
    Stays dev (readEntries dev.sectorSize) st ↔
      EntriesInside dev (st.mem .header) (st.mem .partitionsBuf) st.partitions.length := by
  have size : sizeofGptHeader = 92 := rfl
  have total : (st.mem .header).load 4 84 * (st.mem .header).load 4 80 % 2 ^ 32 =
      totalSize (st.mem .header) := rfl
  have lba : (st.mem .header).load 8 72 = entryLba (st.mem .header) := rfl
  have held (n : Option Nat) : Function.update st.held .partitionsBuf n .header =
      st.held .header := Function.update_of_ne (by decide) _ _
  rw [readEntries, stays_load, stays_load, stays_mallocAlign, stays_load, stays_read, total, lba]
  simp only [room_header, room_partitionsBuf, Function.update_self, held]
  by_cases alloc : dev.alloc .partitionsBuf = true
  · rw [if_pos alloc, Option.getD_some, EntriesInside]
    have sectors : (1 ≤ totalSize (st.mem .header) / dev.sectorSize ∧
        totalSize (st.mem .header) / dev.sectorSize * dev.sectorSize ≤ totalSize (st.mem .header)) ↔
          dev.sectorSize ≤ totalSize (st.mem .header) :=
      ⟨fun some => (Nat.one_le_div_iff sector).mp some.1, fun fits =>
        ⟨(Nat.one_le_div_iff sector).mpr fits, Nat.div_mul_le_self _ _⟩⟩
    rw [sectors]
    by_cases ok : dev.readOk .partitionsBuf = true
    · have finds : Stays dev (findPartitions dev.sectorSize) { st with
          held := Function.update st.held .partitionsBuf (some (totalSize (st.mem .header)))
          mem := Function.update st.mem .partitionsBuf
            (dev.table (st.mem .header) (st.mem .partitionsBuf)) } ↔ _ :=
        stays_findPartitions dev.sectorSize rfl rfl room rfl
      rw [ok, if_neg (by decide), if_pos rfl]
      constructor
      · exact fun all => ⟨alloc, all.2.2.2.1, fun _ => finds.mp all.2.2.2.2⟩
      · exact fun inside => ⟨by omega, by omega, by omega, inside.2.1, finds.mpr (inside.2.2 rfl)⟩
    · rw [Bool.not_eq_true] at ok
      rw [ok, if_pos rfl]
      constructor
      · exact fun all => ⟨alloc, all.2.2.2.1, fun fails => by cases fails⟩
      · exact fun inside => ⟨by omega, by omega, by omega, inside.2.1, by simp⟩
  · rw [if_neg alloc]
    constructor
    · rintro ⟨-, -, -, ⟨some, fits⟩, -⟩
      -- without memory not even one sector fits
      have one := Nat.le_mul_of_pos_left dev.sectorSize some
      rw [Option.getD_none] at fits
      omega
    · exact fun inside => (alloc inside.1).elim

theorem stays_parseHeader {h m : Memory} (sector : 0 < dev.sectorSize) (header : st.mem .header = h)
    (entries : st.mem .partitionsBuf = m) (room : sizeofGptHeader ≤ (st.held .header).getD 0) :
    Stays dev (parseHeader dev.sectorSize) st ↔
      (Signed h → headerSize h ≤ sizeofGptHeader ∧ LbaPrints h ∧
        (HeaderValid h → EntriesInside dev h m st.partitions.length)) := by
  subst header entries
  rw [parseHeader, stays_setHeader]
  have validates : Stays dev validateGpt { st with header := some .header } ↔ _ :=
    stays_validateGpt room
  by_cases fits : Signed (st.mem .header) →
      headerSize (st.mem .header) ≤ sizeofGptHeader ∧ LbaPrints (st.mem .header)
  · obtain ⟨t, valid, ran, kept, stored, outcome⟩ :=
      run_validateGpt dev { st with header := some .header } fun sign => (fits sign).1
    rw [stays_bind_of_run ran, validates]
    cases valid with
    | false =>
      have invalid : ¬(Signed (st.mem .header) ∧ HeaderValid (st.mem .header)) := by simp [← outcome]
      refine iff_of_true ⟨fits, ?_⟩ fun sign =>
        ⟨(fits sign).1, (fits sign).2, fun valid => (invalid ⟨sign, valid⟩).elim⟩
      simp [InBounds]
    | true =>
      obtain ⟨sign, valid⟩ := outcome.mp rfl
      have reads : Stays dev (readEntries dev.sectorSize) { t with
          logged := t.logged ++ [.success "[ GPT ] Found valid partition header!"] } ↔ _ :=
        stays_readEntries sector (by rw [kept.held]; exact room)
      rw [if_neg (by decide), stays_log, reads, kept.header, kept.table, stored]
      constructor
      · exact fun all _ => ⟨(fits sign).1, (fits sign).2, fun _ => all.2.2⟩
      · exact fun inside => ⟨fits, trivial, (inside sign).2.2 valid⟩
  · -- the checksum reads behind the copy, or the LBA is printed behind its buffer
    rw [Stays, Program.all_bind]
    exact iff_of_false (fun all => fits (validates.mp all.1)) fun inside =>
      fits fun sign => ⟨(inside sign).1, (inside sign).2.1⟩

theorem stays_init (sector : 0 < dev.sectorSize) :
    Stays dev (init dev.sectorSize) st ↔
      dev.sectorSize ≤ 512 ∧
        HeaderInside dev (dev.fill 1 1 (st.mem .header)) (st.mem .partitionsBuf)
          st.partitions.length := by
  rw [init, HeaderInside]
  refine (stays_setDevice _).trans ?_
  rw [stays_mallocAlign, stays_read]
  simp only [room_header, Function.update_self, Nat.one_mul, Nat.le_refl, true_and]
  -- one sector of the device is read into 512 bytes, if there are any
  by_cases alloc : dev.alloc .header = true
  · rw [if_pos alloc, Option.getD_some]
    by_cases ok : dev.readOk .header = true
    · have parses : Stays dev (parseHeader dev.sectorSize) { st with
          mem := Function.update st.mem .header (dev.fill 1 1 (st.mem .header))
          held := Function.update st.held .header (some 512)
          hasDevice := true } ↔ _ :=
        stays_parseHeader sector rfl rfl (by decide : sizeofGptHeader ≤ 512)
      rw [ok, if_neg (by decide), if_pos rfl, parses]
      exact ⟨fun all => ⟨all.1, alloc, fun _ => all.2⟩, fun inside => ⟨inside.1, inside.2.2 rfl⟩⟩
    · rw [Bool.not_eq_true] at ok
      rw [ok, if_pos rfl]
      constructor
      · exact fun all => ⟨all.1, alloc, fun fails => by cases fails⟩
      · exact fun inside => ⟨inside.1, by simp [InBounds]⟩
  · rw [if_neg alloc, Option.getD_none]
    constructor
    · rintro ⟨fits, -⟩
      omega
    · exact fun inside => (alloc inside.2.1).elim

/-- On these disks, and on no others, `init` stays inside its buffers, those of the log and of the
vector included, and asks the device for sectors that there is room for. -/
theorem init_in_bounds (sector : dev.sectorSize = 512) :
    (init dev.sectorSize).All (gptHandler dev) (InBounds dev) st ↔
      HeaderInside dev (dev.fill 1 1 (st.mem .header)) (st.mem .partitionsBuf)
        st.partitions.length := by
  have general : Stays dev (init dev.sectorSize) st ↔ _ := stays_init (by omega)
  exact general.trans (and_iff_right (Nat.le_of_eq sector))

def zeroState : GptState where
  mem _ _ := 0
  held _ := none
  hasDevice := false
  header := none
  partitions := []
  logged := []

/-- A disk without a partition table. -/
def zeroDevice : Device where
  sectorSize := 512
  disk _ _ := 0
  alloc _ := true
  readOk _ := true
  grows _ := true

/-- A disk that cannot be read. -/
def deadDevice : Device := { zeroDevice with readOk := fun _ => false }

/-- A table of four entries in LBA 2, of which the second is used. -/
def tableDevice : Device where
  sectorSize := 512
  disk
    | 1, 0 => 0x45
    | 1, 1 => 0x46
    | 1, 2 => 0x49
    | 1, 3 => 0x20
    | 1, 4 => 0x50
    | 1, 5 => 0x41
    | 1, 6 => 0x52
    | 1, 7 => 0x54
    | 1, 12 => 92
    | 1, 16 => 0xd2
    | 1, 17 => 0x77
    | 1, 18 => 0x54
    | 1, 19 => 0xb7
    | 1, 24 => 1
    | 1, 72 => 2
    | 1, 80 => 4
    | 1, 84 => 128
    | 1, 88 => 0xe2
    | 1, 89 => 0xca
    | 1, 90 => 0x46
    | 1, 91 => 0xd1
    | 2, 128 => 1
    | 2, 160 => 34
    | 2, 168 => 64
    | 2, 184 => 0x41
    | _, _ => 0
  alloc _ := true
  readOk _ := true
  grows _ := true

theorem init_in_bounds_tableDevice :
    (init tableDevice.sectorSize).All (gptHandler tableDevice) (InBounds tableDevice) zeroState := by
  refine (init_in_bounds rfl).mpr ⟨rfl, fun _ _ => ⟨by decide, fun _ => by decide, fun _ => ?_⟩⟩
  refine ⟨rfl, by decide, fun _ _ i inside => ⟨?_, fun _ => rfl⟩⟩
  revert i
  decide +kernel

/-- A disk with the signature and a header size of 93. -/
def longHeader : Device where
  sectorSize := 512
  disk
    | 1, 0 => 0x45
    | 1, 1 => 0x46
    | 1, 2 => 0x49
    | 1, 3 => 0x20
    | 1, 4 => 0x50
    | 1, 5 => 0x41
    | 1, 6 => 0x52
    | 1, 7 => 0x54
    | 1, 12 => 93
    | _, _ => 0
  alloc _ := true
  readOk _ := true
  grows _ := true

/-- The checksum is taken over 93 bytes of a copy that has 92. -/
theorem init_out_of_bounds : ¬∀ dev st, dev.sectorSize = 512 →
    (init dev.sectorSize).All (gptHandler dev) (InBounds dev) st := by
  intro claimed
  have stays : Stays longHeader (init longHeader.sectorSize) zeroState :=
    claimed longHeader zeroState rfl
  have inside := (stays_init (by decide)).mp stays
  have signed : Signed (longHeader.fill 1 1 (zeroState.mem .header)) := by
    unfold Signed
    decide
  exact absurd (inside.2.2 rfl signed).1 (by decide)

end KopalniaOS.Gpt
