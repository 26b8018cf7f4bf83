import KopalniaOS.Ahci.Command
import KopalniaOS.Ahci.ReadBytes

/-!
# Requests of any size

The number of entries is cut to sixteen bits before it is compared with the limit, and the sector
size is before anything else. So there are counts and sizes for which a command is issued that does
not transfer what was asked for, and sizes by which a request is divided to no result.
-/
namespace KopalniaOS.Ahci

open Library

/-- Entries that exist, and together have these bytes. -/
def Exact (total : Nat) (_ : Slot) (h : CommandHeader) (t : CommandTable) : Prop :=
  (∀ i, (t.prdt i).isSome = true → 0 ≤ i ∧ i < 8) ∧ h.prdTableLength ≤ 8 ∧
    t.totalBytes h.prdTableLength = total

/-- No division is by zero, what is issued transfers exactly so many bytes, and true is returned only
if something was issued. -/
def Honoured (p : TransferProgram Bool) (total : Nat) (s : TransferState) : Prop :=
  p.All transferHandler (Issued (Exact total)) s ∧
    ∀ t, p.run transferHandler s = some (true, t) →
      ∃ w u, p.Visits transferHandler s (.port (.writeIssue w)) u

/-- How many entries a request needs before its last one, with a size of `low` bytes. -/
def fullEntries (low count : Nat) : Nat := sub32 count 1 / (8 * 1024 / low)

/-- The entries are too many, also when only sixteen bits of their number are looked at. -/
def Refused (low count : Nat) : Prop :=
  8 ≤ fullEntries low count % 2 ^ 16 ∧ fullEntries low count % 2 ^ 16 ≠ 65535

/-- The size is one that sixteen bits can hold, and the sectors fit into one entry, or into eight
without a gap. -/
def Fits (size count : Nat) : Prop :=
  size ≤ 8192 ∧ (fullEntries size count = 0 ∨ fullEntries size count ≤ 7 ∧ size ∣ 8192)

variable {size count low : Nat}

theorem prdTableLength_eq (low count : Nat) :
    prdTableLength count low = (fullEntries low count % 2 ^ 16 + 1) % 2 ^ 16 := rfl

/-- A request for no sectors needs more entries than there are. -/
theorem count_pos_of_fullEntries (word : count < 2 ^ 32) (few : fullEntries low count ≤ 7)
    (sectors : 0 < 8 * 1024 / low) : 0 < count := by
  by_contra none
  have wrapped : sub32 count 1 = 2 ^ 32 - 1 := by
    unfold sub32
    omega
  -- eight entries of at most 8192 sectors are far fewer than that
  have most : 8 * 1024 / low ≤ 8 * 1024 := Nat.div_le_self _ _
  have large : 2 ^ 32 - 1 < 8 * (8 * 1024 / low) := by
    rw [fullEntries, wrapped] at few
    exact (Nat.div_lt_iff_lt_mul sectors).mp (Nat.lt_succ_of_le few)
  omega

theorem split_of_fullEntries (word : count < 2 ^ 32) (pos : 0 < low) (le : low ≤ 8192)
    (few : fullEntries low count ≤ 7) : Split count low (fullEntries low count) := by
  have some := count_pos_of_fullEntries word few (Nat.div_pos le pos)
  have one : sub32 count 1 = count - 1 := by
    unfold sub32
    omega
  exact ⟨le, pos, by rw [fullEntries, one], some, word, few⟩

/-- An entry holds more than half of its eight KiB. -/
theorem entry_bytes (pos : 0 < low) (le : low ≤ 8192) : 4096 < 8 * 1024 / low * low := by
  have sectors : 0 < 8 * 1024 / low := Nat.div_pos le pos
  have least : low ≤ 8 * 1024 / low * low := Nat.le_mul_of_pos_left low sectors
  have rest : 8 * 1024 < 8 * 1024 / low * low + low := by
    have := Nat.lt_div_mul_add pos (a := 8 * 1024)
    omega
  omega

/-- More entries than sixteen bits can count are more bytes than a table can describe. -/
theorem totalBytes_lt (d : Direction) (c : PortConfig) (start count buffer low spp : Nat) {k : Nat}
    (few : k ≤ 7) :
    (builtTable d c start count buffer low spp (k + 1)).totalBytes (k + 1) ≤ 2 ^ 22 + 8192 * 7 := by
  rw [totalBytes_builtTable]
  have last : (lastEntry c count buffer low spp (k + 1)).bytes ≤ 2 ^ 22 :=
    Nat.mod_lt _ (by decide)
  omega

theorem size_eq_low (narrow : size % 2 ^ 16 = low) (small : size ≤ 8192) : size = low := by
  omega

/-- Gaps between the entries are bytes that are not asked for. -/
theorem exact_iff_of_total {bytes sectors k n : Nat} (total : bytes + sectors * k = 8192 * k + n) :
    bytes = n ↔ k = 0 ∨ sectors = 8192 := by
  constructor
  · rintro rfl
    rcases Nat.eq_zero_or_pos k with zero | pos
    · exact .inl zero
    · have same : sectors * k = 8192 * k := by omega
      exact .inr (Nat.eq_of_mul_eq_mul_right pos same)
  · rintro (rfl | rfl) <;> omega

section Built

variable (d : Direction) (c : PortConfig) (start buffer : Nat) (slot : Slot)

/-- With few entries, what was built is exact if the whole entries have no gaps. -/
theorem exact_few (narrow : size % 2 ^ 16 = low) (le : low ≤ 8192)
    (split : Split count low (fullEntries low count)) :
    Exact (count * size) slot (builtHeader d (fullEntries low count + 1))
        (builtTable d c start count buffer low (8 * 1024 / low) (fullEntries low count + 1)) ↔
      size ≤ 8192 ∧ (fullEntries low count = 0 ∨ low ∣ 8192) := by
  have total := split.total d c start buffer
  obtain ⟨bytes, below, last⟩ := split.bytes_last c buffer
  have few := split.few
  have some := split.some
  have pos := split.pos
  have indices (i : Int) (written : ((builtTable d c start count buffer low (8 * 1024 / low)
      (fullEntries low count + 1)).prdt i).isSome = true) : 0 ≤ i ∧ i < 8 := by
    have range := (isSome_builtTable d c start count buffer low _ _ i).mp written
    omega
  have only : Exact (count * size) slot (builtHeader d (fullEntries low count + 1))
      (builtTable d c start count buffer low (8 * 1024 / low) (fullEntries low count + 1)) ↔
        (builtTable d c start count buffer low (8 * 1024 / low) (fullEntries low count + 1)).totalBytes
          (fullEntries low count + 1) = count * size :=
    ⟨fun exact_ => exact_.2.2, fun same => ⟨indices, Nat.succ_le_succ few, same⟩⟩
  have upper := totalBytes_builtTable d c start count buffer low (8 * 1024 / low) (fullEntries low count)
  rw [bytes] at upper
  rw [only]
  by_cases small : size ≤ 8192
  · obtain rfl : size = low := size_eq_low narrow small
    rw [and_iff_right small]
    refine (exact_iff_of_total total).trans (or_congr Iff.rfl ⟨fun whole => ?_, Nat.div_mul_cancel⟩)
    exact ⟨8 * 1024 / size, by rw [Nat.mul_comm, whole]⟩
  · -- such a size is at least as large as all entries together
    have large : 65536 ≤ size := by omega
    refine ⟨fun same => ?_, fun fits => (small fits.1).elim⟩
    exfalso
    rcases Nat.lt_or_ge 1 count with more | one
    · have lower : 2 * 65536 ≤ count * size := Nat.mul_le_mul more large
      omega
    · obtain rfl : count = 1 := by omega
      have none : fullEntries low 1 = 0 := Nat.zero_div _
      rw [none] at upper same last
      omega

/-- If the number of entries does not fit into sixteen bits, what is left of it describes less than
what was asked for, or the last entry is in front of the table. -/
theorem not_exact_many (narrow : size % 2 ^ 16 = low) (pos : 0 < low) (le : low ≤ 8192)
    (word : count < 2 ^ 32) (many : 8 ≤ fullEntries low count)
    (short : prdTableLength count low ≤ 8) :
    ¬Exact (count * size) slot (builtHeader d (prdTableLength count low))
      (builtTable d c start count buffer low (8 * 1024 / low) (prdTableLength count low)) := by
  rw [prdTableLength_eq] at short ⊢
  rintro ⟨indices, -, total⟩
  by_cases wrapped : fullEntries low count % 2 ^ 16 = 65535
  · -- then the length is zero, and the last entry has index minus one
    rw [wrapped] at indices
    exact absurd (indices (-1) rfl) (by decide)
  · obtain ⟨k, cut⟩ : ∃ k, fullEntries low count % 2 ^ 16 = k := ⟨_, rfl⟩
    have length : (k + 1) % 2 ^ 16 = k + 1 := by omega
    rw [cut, length] at short total
    dsimp only [builtHeader] at total
    have upper := totalBytes_lt d c start count buffer low (8 * 1024 / low) (by omega : k ≤ 7)
    have bytes := entry_bytes pos le
    -- at least 65536 entries were meant, of more than four KiB each
    have entries : fullEntries low count * (8 * 1024 / low) ≤ sub32 count 1 := Nat.div_mul_le_self _ _
    have lower : 65536 * (8 * 1024 / low) ≤ fullEntries low count * (8 * 1024 / low) :=
      Nat.mul_le_mul_right _ (by omega)
    rcases Nat.eq_zero_or_pos count with none | some
    · rw [none, Nat.zero_mul, totalBytes_builtTable] at total
      unfold PrdtEntry.bytes at total
      omega
    · have one : sub32 count 1 < count := by
        unfold sub32
        omega
      have least : 65536 * (8 * 1024 / low) * low ≤ count * size :=
        Nat.mul_le_mul (by omega) (by omega)
      rw [Nat.mul_assoc] at least
      omega

/-- What was built is exact if the request fits. -/
theorem exact_built_iff (narrow : size % 2 ^ 16 = low) (pos : 0 < low) (le : low ≤ 8192)
    (word : count < 2 ^ 32) (short : prdTableLength count low ≤ 8) :
    Exact (count * size) slot (builtHeader d (prdTableLength count low))
        (builtTable d c start count buffer low (8 * 1024 / low) (prdTableLength count low)) ↔
      Fits size count := by
  by_cases few : fullEntries low count ≤ 7
  · have split := split_of_fullEntries word pos le few
    rw [split.length, exact_few d c start buffer slot narrow le split]
    refine and_congr_right fun small => ?_
    obtain rfl := size_eq_low narrow small
    exact or_congr Iff.rfl (and_iff_right few).symm
  · refine iff_of_false (not_exact_many d c start buffer slot narrow pos le word (by omega) short) ?_
    rintro ⟨small, fits⟩
    obtain rfl := size_eq_low narrow small
    omega

end Built

/-! ### Calls -/

/-- The first slot of an idle port. -/
theorem getCommandSlot_idle {num : Nat} (some : 0 < num) :
    getCommandSlot num idleTransfer.port = Option.some 0 := by
  have first : slots num = 0 :: ((List.finRange 31).map Fin.succ).filter fun i => i.val < num := by
    rw [slots, List.finRange_succ, List.filter_cons_of_pos (by simpa using some)]
  rw [getCommandSlot, first]
  rfl

theorem getCommandSlot_none (s : PortState) : getCommandSlot 0 s = none := by
  have none : slots 0 = [] := by
    rw [slots, List.filter_eq_nil_iff]
    simp
  rw [getCommandSlot, none]
  rfl

/-- The requests that are refused or fit, if there are slots at all. -/
def Safe (num size count : Nat) : Prop :=
  num = 0 ∨ 0 < size % 2 ^ 16 ∧ size % 2 ^ 16 ≤ 8192 ∧
    (Refused (size % 2 ^ 16) count ∨ Fits size count)

theorem refused_iff : Refused low count ↔ maxPrdtSize < prdTableLength count low := by
  have limit : maxPrdtSize = 8 := rfl
  rw [Refused, prdTableLength_eq, limit]
  omega

theorem honoured_of_safe (d : Direction) (c : PortConfig) (start : Nat) {buffer : Nat}
    (word : buffer < 2 ^ 64) (word' : count < 2 ^ 32) (safe : Safe c.numCommandSlots size count)
    (s : TransferState) :
    Honoured (transfer d c start count buffer (size % 2 ^ 16)) (count * size) s := by
  have issued : (transfer d c start count buffer (size % 2 ^ 16)).All transferHandler
      (Issued (Exact (count * size))) s := by
    refine (all_transfer_iff d c start _ word word' s).mpr fun slot free => ?_
    rcases safe with none | ⟨pos, le, fine⟩
    · rw [none, getCommandSlot_none] at free
      cases free
    · refine ⟨Nat.ne_of_gt pos, Nat.ne_of_gt (Nat.div_pos le pos), ?_⟩
      rw [refused_iff] at fine
      -- a refused request issues nothing, and an accepted one is built exactly
      by_cases long : maxPrdtSize < prdTableLength count (size % 2 ^ 16)
      · exact .inl long
      · exact .inr (.inr ((exact_built_iff d c start buffer slot rfl pos le word'
          (Nat.not_lt.mp long)).mpr (fine.resolve_left long)))
  refine ⟨issued, fun t ran => ?_⟩
  by_contra none
  have unissued := issued_of_unvisited issued fun w u visit => none ⟨w, u, visit⟩
  exact Bool.noConfusion (result_of_unissued d c start _ word word' unissued ran)

/-- A request is honoured whatever the port is like exactly if it is refused or fits. -/
theorem safe_of_honoured (d : Direction) (c : PortConfig) (start : Nat) {buffer : Nat}
    (word : buffer < 2 ^ 64) (word' : count < 2 ^ 32)
    (honoured : Honoured (transfer d c start count buffer (size % 2 ^ 16)) (count * size) idleTransfer) :
    Safe c.numCommandSlots size count := by
  -- an idle port has a slot, so what is claimed of every command is claimed of this one
  rcases Nat.eq_zero_or_pos c.numCommandSlots with none | some
  · exact .inl none
  · obtain ⟨pos, sectors, outcome⟩ := (all_transfer_iff d c start _ word word' idleTransfer).mp
      honoured.1 0 (getCommandSlot_idle some)
    have le : size % 2 ^ 16 ≤ 8192 := by
      by_contra large
      exact sectors (Nat.div_eq_of_lt (by omega))
    refine .inr ⟨Nat.pos_of_ne_zero pos, le, ?_⟩
    rw [refused_iff]
    by_cases long : maxPrdtSize < prdTableLength count (size % 2 ^ 16)
    · exact .inl long
    · have exact_ := (outcome.resolve_left long).resolve_left nofun
      exact .inr ((exact_built_iff d c start buffer 0 rfl (Nat.pos_of_ne_zero pos) le word'
        (Nat.not_lt.mp long)).mp exact_)

/-- For any response, start and count: whatever the port is like, a request is honoured exactly if it
is refused or fits. -/
theorem requests_honoured (c : PortConfig) (response : Nat → UInt16) (start : Nat) {count buffer : Nat}
    (word : buffer < 2 ^ 64) (word' : count < 2 ^ 32) :
    (∀ s, Honoured (deviceRead c (sectorSize response) start count buffer)
          (count * sectorSize response) s ∧
        Honoured (deviceWrite c (sectorSize response) start count buffer)
          (count * sectorSize response) s) ↔
      Safe c.numCommandSlots (sectorSize response) count :=
  ⟨fun all => safe_of_honoured reading c start word word' (all idleTransfer).1, fun safe s =>
    ⟨honoured_of_safe reading c start word word' safe s,
      honoured_of_safe writing c start word word' safe s⟩⟩

/-- Forty sectors of 512 bytes, in three entries. -/
theorem requests_honoured_forty : Safe 1 (sectorSize smallSectors) 40 ∧
    ∀ s, Honoured (deviceRead ⟨1, false, 0⟩ (sectorSize smallSectors) 0 40 0x100000)
        (40 * sectorSize smallSectors) s ∧
      Honoured (deviceWrite ⟨1, false, 0⟩ (sectorSize smallSectors) 0 40 0x100000)
        (40 * sectorSize smallSectors) s := by
  have safe : Safe 1 (sectorSize smallSectors) 40 :=
    .inr ⟨by decide, by decide, .inr ⟨by decide, .inr ⟨by decide, by decide⟩⟩⟩
  exact ⟨safe, (requests_honoured ⟨1, false, 0⟩ smallSectors 0 (by decide) (by decide)).mpr safe⟩

/-- A request for no sectors is issued, with an entry in front of the table. -/
theorem request_for_nothing : ¬Honoured
    (deviceRead ⟨1, false, 0⟩ (sectorSize smallSectors) 0 0 0x100000) 0 idleTransfer := by
  intro honoured
  have safe : Safe 1 (sectorSize smallSectors) 0 := safe_of_honoured reading
    ⟨1, false, 0⟩ 0 (by decide : 0x100000 < 2 ^ 64) (by decide : 0 < 2 ^ 32)
    (by rwa [Nat.zero_mul])
  rcases safe with none | ⟨-, -, refused | fits⟩
  · cases none
  · exact absurd refused.2 (by decide)
  · exact absurd fits.2 (by decide)

end KopalniaOS.Ahci
