import KopalniaOS.Ahci.Completion
import KopalniaOS.Ahci.Programming

/-!
# The transfers that are asked for

For sectors that divide eight KiB, and counts that fit the table, the command that is issued covers
the buffer from its start to its end, as long as the addresses of its entries fit the adapter.
-/
namespace KopalniaOS.Ahci

open Library

/-- A command that transfers so many sectors from `start` on, from or to `phys`. -/
structure Described (start count sectorSize phys : Nat) (h : CommandHeader) (t : CommandTable) :
    Prop where
  length : h.prdTableLength ≤ 8
  written : ∀ i, (t.prdt i).isSome = true ↔ 0 ≤ i ∧ i < h.prdTableLength
  first : 0 < h.prdTableLength ∧ (t.entry 0).address = phys
  next : ∀ i, i + 1 < h.prdTableLength →
    (t.entry (i + 1)).address = (t.entry i).address + (t.entry i).bytes
  bytes : ∀ i < h.prdTableLength, (t.entry i).bytes ≤ 8192
  total : t.totalBytes h.prdTableLength = count * sectorSize
  command : t.fis.fisType = 0x27 ∧ t.fis.commandControl = true ∧ h.fisLength = 5
  lba : t.fis.lba = start
  count : t.fis.count = count

/-- What `p` issues is this slot with this header and table, and it does issue it when the port
answers. -/
def Commands (p : TransferProgram Bool) (s : TransferState) (slot : Slot) (h : CommandHeader)
    (t : CommandTable) : Prop :=
  p.All transferHandler (Issued fun slot' h' t' => slot' = slot ∧ h' = h ∧ t' = t) s ∧
    (s.port.busy = false → ∃ u, p.Visits transferHandler s (.port (.writeIssue (bit slot))) u)

variable {d : Direction} {c : PortConfig} {s : TransferState} {slot : Slot}
variable {start count buffer sectorSize spp : Nat}

theorem commands_transfer (d : Direction) (c : PortConfig) (start : Nat) (word : buffer < 2 ^ 64)
    (word' : count < 2 ^ 32) (free : getCommandSlot c.numCommandSlots s.port = some slot)
    (size : sectorSize ≠ 0) (sectors : 8 * 1024 / sectorSize ≠ 0)
    (short : prdTableLength count sectorSize ≤ maxPrdtSize) :
    Commands (transfer d c start count buffer sectorSize) s slot
      (builtHeader d (prdTableLength count sectorSize))
      (builtTable d c start count buffer sectorSize (8 * 1024 / sectorSize)
        (prdTableLength count sectorSize)) := by
  have issued : (transfer d c start count buffer sectorSize).All transferHandler
      (Issued fun slot' h' t' => slot' = slot ∧ h' = builtHeader d (prdTableLength count sectorSize) ∧
        t' = builtTable d c start count buffer sectorSize (8 * 1024 / sectorSize)
          (prdTableLength count sectorSize)) s := by
    refine (all_transfer_iff d c start sectorSize word word' s).mpr fun slot' free' => ?_
    rw [free] at free'
    obtain rfl := Option.some.inj free'
    exact ⟨size, sectors, .inr (.inr ⟨rfl, rfl, rfl⟩)⟩
  refine ⟨issued, fun ready => ?_⟩
  by_contra none
  -- a call that issues nothing has a port that is busy, or a table that is too long
  have unissued := issued_of_unvisited issued fun w u visit => by
    obtain ⟨slot', rfl, rfl, -⟩ := issued _ u visit
    exact none ⟨u, visit⟩
  have why := ((all_transfer_iff d c start sectorSize word word' s).mp unissued slot free).2.2
  rcases why with long | busy | never
  · omega
  · rw [ready] at busy
    cases busy
  · exact never

/-! ### Addresses and sizes -/

theorem toPhysical_add (c : PortConfig) (buffer k : Nat) :
    toPhysical c (u64 (buffer + k)) = u64 (toPhysical c buffer + k) := by
  unfold toPhysical sub64 u64
  omega

/-- The highest address that the entries can have. -/
def addressLimit (c : PortConfig) : Nat := if c.bitsIs64 then 2 ^ 64 else 2 ^ 32

theorem address_prdtEntry {bytes k : Nat} (fits : toPhysical c buffer + k < addressLimit c) :
    (prdtEntry c (u64 (buffer + k)) bytes).address = toPhysical c buffer + k := by
  unfold PrdtEntry.address prdtEntry
  rw [toPhysical_add]
  generalize toPhysical c buffer + k = a at fits ⊢
  unfold addressLimit at fits
  by_cases wide : c.bitsIs64 = true
  · rw [if_pos wide] at fits ⊢
    rw [u64_of_lt fits, Nat.shiftRight_eq_div_pow]
    dsimp only
    omega
  · rw [if_neg wide] at fits ⊢
    rw [u64_of_lt (by omega)]
    dsimp only
    omega

theorem remaining_eq {k : Nat} (small : spp < 2 ^ 32) (word : count < 2 ^ 32)
    (inside : spp * k ≤ count) : remaining count spp k = count - spp * k := by
  unfold remaining
  have split : (2 ^ 32 - spp) * k = 2 ^ 32 * k - spp * k := Nat.sub_mul ..
  have le : spp * k ≤ 2 ^ 32 * k := Nat.mul_le_mul_right k (Nat.le_of_lt small)
  omega

theorem bytes_prdtEntry {a n : Nat} (pos : 0 < n) (small : n ≤ 2 ^ 22) :
    (prdtEntry c a (sub32 (n % 2 ^ 32) 1)).bytes = n := by
  unfold PrdtEntry.bytes prdtEntry sub32
  dsimp only
  omega

/-- A request for at least one sector, with `k` whole entries before the last one. -/
structure Split (count sectorSize k : Nat) : Prop where
  sectors : sectorSize ≤ 8192
  pos : 0 < sectorSize
  entries : (count - 1) / (8 * 1024 / sectorSize) = k
  some : 0 < count
  word : count < 2 ^ 32
  few : k ≤ 7

theorem Split.length {k : Nat} (split : Split count sectorSize k) :
    prdTableLength count sectorSize = k + 1 := by
  have few := split.few
  have one : sub32 count 1 = count - 1 := by
    have word := split.word
    have some := split.some
    unfold sub32
    omega
  rw [prdTableLength, one, split.entries]
  omega

theorem Split.sectors_pos {k : Nat} (split : Split count sectorSize k) : 0 < 8 * 1024 / sectorSize :=
  Nat.div_pos split.sectors split.pos

/-- The last entry has the sectors that are left, at least one of them and no more than fit. -/
theorem Split.bytes_last {k : Nat} (split : Split count sectorSize k) (c : PortConfig) (buffer : Nat) :
    (lastEntry c count buffer sectorSize (8 * 1024 / sectorSize) (k + 1)).bytes =
        (count - 8 * 1024 / sectorSize * k) * sectorSize ∧
      8 * 1024 / sectorSize * k < count ∧ (count - 8 * 1024 / sectorSize * k) * sectorSize ≤ 8192 := by
  have sectors := split.sectors_pos
  have some := split.some
  have fits : 8 * 1024 / sectorSize * sectorSize ≤ 8 * 1024 := Nat.div_mul_le_self _ _
  have small : 8 * 1024 / sectorSize ≤ 8 * 1024 := Nat.div_le_self _ _
  have entries := split.entries
  have pos := split.pos
  -- what is left is what `count - 1` has beyond whole entries, and one more sector
  generalize 8 * 1024 / sectorSize = spp at sectors fits small entries ⊢
  have below : spp * k ≤ count - 1 := by
    rw [← entries]
    exact Nat.mul_div_le _ _
  have above : count - 1 < spp * k + spp := by
    rw [← entries]
    exact Nat.lt_mul_div_succ _ sectors
  have left : (count - spp * k) * sectorSize ≤ spp * sectorSize :=
    Nat.mul_le_mul_right _ (by omega)
  have bytes : 0 < (count - spp * k) * sectorSize := Nat.mul_pos (by omega) pos
  refine ⟨?_, by omega, by omega⟩
  rw [lastEntry, Nat.add_sub_cancel, remaining_eq (by omega) split.word (by omega)]
  exact bytes_prdtEntry bytes (by omega)

/-- Whole entries hold as many sectors as fit into eight KiB. -/
theorem Split.total {k : Nat} (split : Split count sectorSize k) (d : Direction) (c : PortConfig)
    (start buffer : Nat) :
    (builtTable d c start count buffer sectorSize (8 * 1024 / sectorSize) (k + 1)).totalBytes (k + 1) +
        8 * 1024 / sectorSize * sectorSize * k = 8192 * k + count * sectorSize := by
  obtain ⟨bytes, below, -⟩ := split.bytes_last c buffer
  rw [totalBytes_builtTable, bytes]
  generalize 8 * 1024 / sectorSize = spp at below ⊢
  have whole : count * sectorSize = spp * k * sectorSize + (count - spp * k) * sectorSize := by
    rw [← Nat.add_mul, Nat.add_sub_cancel' (Nat.le_of_lt below)]
  rw [whole, Nat.mul_right_comm spp]
  omega

/-! ### The command FIS -/

theorem lba_commandFis (command count : Nat) (small : start < 2 ^ 48) :
    (commandFis command start count).lba = start := by
  -- six bytes, of which the low four come from `start_lo`
  unfold RegH2d.lba commandFis
  simp only [Nat.shiftRight_eq_div_pow]
  omega

theorem count_commandFis (command start : Nat) (small : count < 2 ^ 16) :
    (commandFis command start count).count = count := by
  have low (n : Nat) : n &&& 0xFF = n % 2 ^ 8 := Nat.and_two_pow_sub_one_eq_mod n 8
  unfold RegH2d.count commandFis
  simp only [Nat.shiftRight_eq_div_pow, low]
  omega

/-! ### The whole command -/

theorem isSome_builtTable (d : Direction) (c : PortConfig) (start count buffer sectorSize spp k : Nat)
    (i : Int) : ((builtTable d c start count buffer sectorSize spp (k + 1)).prdt i).isSome = true ↔
      0 ≤ i ∧ i < (k + 1 : Nat) := by
  unfold builtTable
  dsimp only
  split
  · simp only [Option.isSome_some, true_iff]
    omega
  · split
    · simp only [Option.isSome_some, true_iff]
      omega
    · simp only [Option.isSome_none, Bool.false_eq_true, false_iff]
      omega

/-- The entries lie one after the other, if the last one begins at an address that fits. -/
theorem Split.address {k : Nat} (split : Split count sectorSize k) (d : Direction) (start : Nat)
    (fits : toPhysical c buffer + 8192 * k < addressLimit c) {i : Nat} (inside : i ≤ k) :
    ((builtTable d c start count buffer sectorSize (8 * 1024 / sectorSize) (k + 1)).entry i).address =
      toPhysical c buffer + 8192 * i := by
  rcases Nat.lt_or_eq_of_le inside with before | rfl
  · rw [entry_builtTable_full _ _ _ _ _ _ _ (Nat.succ_lt_succ before)]
    exact address_prdtEntry (by omega)
  · rw [entry_builtTable_last _ _ _ _ _ _ _ rfl, lastEntry, Nat.add_sub_cancel]
    exact address_prdtEntry fits

theorem Split.described {k : Nat} (split : Split count sectorSize k) (d : Direction)
    (lba : start < 2 ^ 48) (divides : sectorSize ∣ 8192) (few : count < 2 ^ 16)
    (fits : toPhysical c buffer + 8192 * k < addressLimit c) :
    Described start count sectorSize (toPhysical c buffer) (builtHeader d (k + 1))
      (builtTable d c start count buffer sectorSize (8 * 1024 / sectorSize) (k + 1)) := by
  obtain ⟨last, -, small⟩ := split.bytes_last c buffer
  -- all entries but the last one have 8192 bytes
  have full (i : Nat) (before : i < k) :
      ((builtTable d c start count buffer sectorSize (8 * 1024 / sectorSize) (k + 1)).entry i).bytes =
        8192 := by
    rw [entry_builtTable_full _ _ _ _ _ _ _ (Nat.succ_lt_succ before)]
    rfl
  constructor
  case length => exact Nat.succ_le_succ split.few
  case written => exact isSome_builtTable d c start count buffer sectorSize _ k
  case first => exact ⟨Nat.succ_pos k, split.address d start fits (Nat.zero_le k)⟩
  case next =>
    intro i before
    have below : i < k := Nat.lt_of_succ_lt_succ before
    rw [split.address d start fits below, split.address d start fits (Nat.le_of_lt below), full i below,
      Nat.mul_add_one, Nat.add_assoc]
  case bytes =>
    intro i before
    rcases Nat.lt_or_eq_of_le (Nat.le_of_lt_succ before) with below | rfl
    · exact Nat.le_of_eq (full i below)
    · rw [entry_builtTable_last _ _ _ _ _ _ _ rfl, last]
      exact small
  case total =>
    have total := split.total d c start buffer
    rw [show 8 * 1024 / sectorSize * sectorSize = 8192 from Nat.div_mul_cancel divides] at total
    exact Nat.add_right_cancel (total.trans (Nat.add_comm _ _))
  case command => exact ⟨rfl, rfl, rfl⟩
  case lba => exact lba_commandFis d.command count lba
  case count => exact count_commandFis d.command start few

/-- `read` issues the transfer it was asked for, and `write` the same in the other direction. -/
theorem read_write_described (c : PortConfig) (s : TransferState) {slot : Slot}
    {start count buffer sectorSize : Nat} (lba : start < 2 ^ 48) (divides : sectorSize ∣ 8192)
    (two : 2 ≤ sectorSize) (some : 1 ≤ count) (few : count ≤ 8 * (8192 / sectorSize))
    (word : buffer < 2 ^ 64)
    (fits : toPhysical c buffer + 8192 * ((count - 1) / (8192 / sectorSize)) < addressLimit c)
    (free : getCommandSlot c.numCommandSlots s.port = Option.some slot) :
    ∃ h t, Commands (read c start count buffer sectorSize) s slot h t ∧
      Described start count sectorSize (toPhysical c buffer) h t ∧
      h.write = false ∧ h.prefetchable = true ∧ t.fis.command = 0x25 ∧
      Commands (write c start count buffer sectorSize) s slot
        { h with write := true, prefetchable := false }
        { t with fis := { t.fis with command := 0x35 } } := by
  have le : sectorSize ≤ 8192 := Nat.le_of_dvd (by decide) divides
  have sectors : 0 < 8192 / sectorSize := Nat.div_pos le (by omega)
  have many : 8192 / sectorSize ≤ 4096 := Nat.div_le_div_left two (by decide)
  have entries : (count - 1) / (8192 / sectorSize) < 8 :=
    (Nat.div_lt_iff_lt_mul sectors).mpr (by omega)
  have split : Split count sectorSize ((count - 1) / (8192 / sectorSize)) :=
    ⟨le, by omega, rfl, by omega, by omega, by omega⟩
  have short : prdTableLength count sectorSize ≤ maxPrdtSize := by
    -- the entries that are needed are at most as many as the table has
    rw [split.length]
    exact entries
  have size : sectorSize ≠ 0 := by omega
  have commands (d : Direction) := commands_transfer d c start word split.word free size
    (Nat.ne_of_gt sectors) short
  rw [split.length] at commands
  exact ⟨_, _, commands _, split.described _ lba divides (by omega) fits, rfl, rfl, rfl, commands _⟩

/-- A port that is idle. -/
def idleTransfer : TransferState where
  port := configuredPort
  header _ := ⟨0, false, false, false, 0⟩
  table _ := ⟨{}, fun _ => none⟩

/-- Seventeen sectors of 512 bytes, in two entries. -/
theorem read_write_described_two : (512 ∣ 8192 ∧ 17 ≤ 8 * (8192 / 512) ∧
      toPhysical ⟨1, false, 0⟩ 0x100000 + 8192 * ((17 - 1) / (8192 / 512)) <
        addressLimit ⟨1, false, 0⟩ ∧
      getCommandSlot 1 idleTransfer.port = some 0) ∧
    ∃ h t, Commands (read ⟨1, false, 0⟩ 5 17 0x100000 512) idleTransfer 0 h t ∧
      Described 5 17 512 0x100000 h t := by
  have conditions : 512 ∣ 8192 ∧ 17 ≤ 8 * (8192 / 512) ∧
      toPhysical ⟨1, false, 0⟩ 0x100000 + 8192 * ((17 - 1) / (8192 / 512)) <
        addressLimit ⟨1, false, 0⟩ ∧
      getCommandSlot 1 idleTransfer.port = some 0 := ⟨by decide, by decide, by decide, rfl⟩
  obtain ⟨h, t, issued, described, -⟩ := read_write_described ⟨1, false, 0⟩ idleTransfer
    (by decide : 5 < 2 ^ 48) conditions.1 (by decide) (by decide) conditions.2.1
    (by decide : 0x100000 < 2 ^ 64) conditions.2.2.1 conditions.2.2.2
  exact ⟨conditions, h, t, issued, described⟩

/-- A buffer that starts below four GiB and ends above: for an adapter that has addresses of 32 bits
only, the second entry starts at zero. -/
theorem read_wraps : ¬∃ h t,
    Commands (read ⟨1, false, 0⟩ 0 17 (2 ^ 32 - 8192) 512) idleTransfer 0 h t ∧
      Described 0 17 512 (2 ^ 32 - 8192) h t := by
  rintro ⟨h, t, ⟨issued, visits⟩, described⟩
  obtain ⟨u, visit⟩ := visits rfl
  have free : getCommandSlot 1 idleTransfer.port = some 0 := rfl
  have built := commands_transfer reading ⟨1, false, 0⟩ 0 (by decide : 2 ^ 32 - 8192 < 2 ^ 64)
    (by decide : 17 < 2 ^ 32) free (by decide : 512 ≠ 0) (by decide) (by decide)
  obtain ⟨_, -, rfl, rfl, rfl⟩ := issued _ u visit
  obtain ⟨slot, -, same, header, table⟩ := built.1 _ u visit
  rw [same] at header table
  -- the second entry should start at `2 ^ 32`, and its upper half is written as zero
  have next := described.next 0
  rw [header, table] at next
  exact absurd (next (by decide)) (by decide)

end KopalniaOS.Ahci
