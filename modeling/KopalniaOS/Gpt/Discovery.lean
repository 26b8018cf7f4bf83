import KopalniaOS.Gpt.OnHeap

/-!
# Which partitions `init` finds

A disk says which entries of its table are used. On a disk that is what it claims to be, the vector
holds these and no others after `init`, and on one that is not it stays empty.
-/
namespace KopalniaOS.Gpt

open Library Heap Stdlib

variable {dev : Device} {st : GptState}

/-! ### The list that the code makes -/

/-- There is storage in the vector for whatever is found. -/
def Device.Roomy (dev : Device) : Prop := ∀ n, dev.grows n = true

theorem run_visitEntries (roomy : dev.Roomy) (sectorSize left i n : Nat)
    (count : entryCount (st.mem .header) = i + n) (enough : n < left) :
    ∃ t, (visitEntries sectorSize left i).run (gptHandler dev) st = some ((), t) ∧
      t.partitions = st.partitions ++ foundFrom (st.mem .header) (st.mem .partitionsBuf) i n := by
  -- on the bound of the loop; `n` is what is left of the entries
  induction left generalizing i n st with
  | zero => omega
  | succ left ih =>
    have counts : (st.mem .header).load 4 80 = entryCount (st.mem .header) := rfl
    simp only [visitEntries, load, Program.run_bind, Program.run_perform, gptHandler,
      Option.bind_some, counts, count]
    cases n with
    | zero =>
      rw [Nat.add_zero, if_neg (Nat.lt_irrefl i)]
      exact ⟨st, rfl, by simp [foundFrom]⟩
    | succ n =>
      rw [if_pos (by omega)]
      obtain ⟨t, ran, kept, first⟩ := run_visitEntry dev st sectorSize
        (entryOffset (st.mem .header) i) i fun _ => roomy _
      obtain ⟨u, ran', rest⟩ := @ih t (i + 1) n (by rw [kept.header, count]; omega) (by omega)
      simp only [Program.run_bind, Program.run_perform, gptHandler, Option.bind_some]
      change ∃ t, ((visitEntry sectorSize (entryOffset (st.mem .header) i) i).run (gptHandler dev)
        st).bind _ = _ ∧ _
      rw [ran, Option.bind_some, ran', foundFrom_succ, ← List.append_assoc, ← first, ← kept.header,
        ← kept.table]
      exact ⟨u, rfl, rest⟩

/-- The three checks of a header and its table. -/
structure Accepted (h table : Memory) : Prop where
  signed : Signed h
  header : HeaderValid h
  entries : EntriesValid h table

/-- A run of `p` appends `found` to the list if `accepts`, and nothing otherwise. -/
def Finds (dev : Device) (p : GptProgram Unit) (st : GptState) (accepts : Prop)
    (found : List (List UInt8)) : Prop :=
  ∃ t, p.run (gptHandler dev) st = some ((), t) ∧
    (accepts → t.partitions = st.partitions ++ found) ∧ (¬accepts → t.partitions = st.partitions)

theorem finds_findPartitions (roomy : dev.Roomy) (sectorSize : Nat) {h table : Memory} (header : st.mem .header = h)
    (entries : st.mem .partitionsBuf = table) :
    Finds dev (findPartitions sectorSize) st (EntriesValid h table)
      (foundFrom h table 0 (entryCount h)) := by
  subst header entries
  obtain ⟨t, valid, ran, kept, same, outcome⟩ := run_validateGptPartitionEntries dev st
  unfold Finds
  rw [findPartitions, Program.run_bind, ran, Option.bind_some]
  -- the table is visited only if its checksum is the one in the header
  cases valid with
  | false =>
    have invalid : ¬EntriesValid (st.mem .header) (st.mem .partitionsBuf) := by simp [← outcome]
    exact ⟨_, rfl, fun valid => (invalid valid).elim, fun _ => same⟩
  | true =>
    have valid : EntriesValid (st.mem .header) (st.mem .partitionsBuf) := outcome.mp rfl
    -- the count has four bytes, so the loop over the entries ends
    have bound : entryCount (t.mem .header) < 2 ^ 32 := Memory.load_lt _ 4 80
    obtain ⟨u, visited, found⟩ := @run_visitEntries dev t roomy sectorSize (2 ^ 32) 0
      (entryCount (t.mem .header)) (Nat.zero_add _).symm bound
    rw [kept.header, kept.table, same] at found
    rw [if_neg Bool.true_eq_false.mp, Program.run_bind, visited, Option.bind_some]
    exact ⟨_, rfl, fun _ => found, fun invalid => (invalid valid).elim⟩

theorem finds_readEntries (roomy : dev.Roomy) (ok : dev.readOk .partitionsBuf = true) {h m : Memory}
    (header : st.mem .header = h) (entries : st.mem .partitionsBuf = m) :
    Finds dev (readEntries dev.sectorSize) st (EntriesValid h (dev.table h m))
      (foundFrom h (dev.table h m) 0 (entryCount h)) := by
  subst header entries
  unfold Finds
  simp only [readEntries, load, mallocAlign, read, Program.run_bind, Program.run_perform, gptHandler,
    Option.bind_some, ok]
  rw [if_neg (by decide), if_pos trivial]
  exact finds_findPartitions roomy dev.sectorSize rfl rfl

theorem finds_parseHeader (roomy : dev.Roomy) (ok : dev.readOk .partitionsBuf = true) {h m : Memory}
    (header : st.mem .header = h) (entries : st.mem .partitionsBuf = m)
    (fits : Signed h → headerSize h ≤ sizeofGptHeader) :
    Finds dev (parseHeader dev.sectorSize) st (Accepted h (dev.table h m))
      (foundFrom h (dev.table h m) 0 (entryCount h)) := by
  subst header entries
  obtain ⟨t, valid, ran, kept, same, outcome⟩ :=
    run_validateGpt dev { st with header := some .header } fits
  unfold Finds
  simp only [parseHeader, setHeader, Program.run_bind, Program.run_perform, gptHandler,
    Option.bind_some, ran]
  -- a header that is not valid is freed, and nothing is found
  cases valid with
  | false =>
    have invalid : ¬Accepted (st.mem .header) (dev.table (st.mem .header) (st.mem .partitionsBuf)) :=
      fun accepted => Bool.false_ne_true (outcome.mpr ⟨accepted.signed, accepted.header⟩)
    rw [if_pos rfl]
    simp only [log, freeAlign, Program.run_bind, Program.run_perform, gptHandler, Option.bind_some]
    exact ⟨_, rfl, fun accepted => (invalid accepted).elim, fun _ => same⟩
  | true =>
    obtain ⟨signed, checked⟩ := outcome.mp rfl
    rw [if_neg Bool.true_eq_false.mp]
    simp only [log, Program.run_bind, Program.run_perform, gptHandler, Option.bind_some]
    obtain ⟨u, ran', found, none⟩ := @finds_readEntries dev
      { t with logged := t.logged ++ [.success "[ GPT ] Found valid partition header!"] }
      roomy ok _ _ kept.header kept.table
    refine ⟨u, ran', fun accepted => ?_, fun refused => ?_⟩
    · exact (found accepted.entries).trans (congrArg (· ++ _) same)
    · exact (none fun entries => refused ⟨signed, checked, entries⟩).trans same

/-- `init` when every read succeeds; the header is what one sector makes of the buffer. -/
theorem finds_init (roomy : dev.Roomy) (ok : ∀ b, dev.readOk b = true) {h m : Memory}
    (header : dev.fill 1 1 (st.mem .header) = h) (entries : st.mem .partitionsBuf = m)
    (fits : Signed h → headerSize h ≤ sizeofGptHeader) :
    Finds dev (init dev.sectorSize) st (Accepted h (dev.table h m))
      (foundFrom h (dev.table h m) 0 (entryCount h)) := by
  subst header entries
  unfold Finds
  simp only [init, setDevice, mallocAlign, read, Program.run_bind, Program.run_perform, gptHandler,
    Option.bind_some, ok]
  rw [if_neg (by decide), if_pos trivial]
  exact finds_parseHeader roomy (ok .partitionsBuf) rfl rfl fits

/-! ### What the disk says -/

/-- The header of the disk, and its table of entries, from byte 0 on. -/
def Device.header (dev : Device) : Memory := dev.bytes 1

def Device.entries (dev : Device) : Memory := dev.bytes (entryLba dev.header)

/-- A header of the usual length, and entries that fill whole sectors, 64 KiB at most. -/
structure Shaped (dev : Device) : Prop where
  length : headerSize dev.header = 92
  stride : 128 ≤ entrySize dev.header
  some : 0 < entryCount dev.header * entrySize dev.header
  whole : 512 ∣ entryCount dev.header * entrySize dev.header
  bounded : entryCount dev.header * entrySize dev.header ≤ 65536

/-- An entry is used if its type GUID, its first sector and the first character of its name are
not zero. -/
def Used (table : Memory) (entry : Nat) : Prop :=
  (∃ k < 16, table (entry + k) ≠ 0) ∧ table.load 8 (entry + 32) ≠ 0 ∧ table.load 2 (entry + 56) ≠ 0

instance (table : Memory) (entry : Nat) : Decidable (Used table entry) :=
  inferInstanceAs (Decidable (_ ∧ _))

/-- The first 128 bytes of each used entry, in the order of the disk. -/
def Device.usedEntries (dev : Device) : List (List UInt8) :=
  ((List.range (entryCount dev.header)).filter fun i =>
    Used dev.entries (i * entrySize dev.header)).map fun i =>
      dev.entries.bytes (i * entrySize dev.header) 128

theorem startsWith_replicate (m : Memory) (offset n : Nat) :
    startsWith m offset (List.replicate n 0) = true ↔ ∀ k < n, m (offset + k) = 0 := by
  induction n generalizing offset with
  | zero => simp [startsWith]
  | succ n ih =>
    -- the induction is on the bytes that are compared
    have first : m.load 1 offset = 0 ↔ m offset = 0 := by
      rw [Memory.load_one, ← UInt8.toNat_inj]
      rfl
    rw [List.replicate_succ, startsWith, Bool.and_eq_true, beq_iff_eq, first, ih]
    constructor
    · rintro ⟨here, rest⟩ k inside
      cases k with
      | zero => exact here
      | succ k =>
        have next := rest k (by omega)
        rwa [Nat.add_assoc, Nat.add_comm 1 k] at next
    · intro all
      refine ⟨all 0 (Nat.succ_pos n), fun k inside => ?_⟩
      have next := all (k + 1) (by omega)
      rwa [Nat.add_comm k 1, ← Nat.add_assoc] at next

theorem passes_iff (table : Memory) (entry : Nat) : passes table entry = true ↔ Used table entry := by
  have kind : startsWith table entry (List.replicate 16 0) = false ↔
      ∃ k < 16, table (entry + k) ≠ 0 := by
    rw [← Bool.not_eq_true, startsWith_replicate]
    push Not
    rfl
  rw [passes, Used, Bool.and_eq_true, Bool.and_eq_true, Bool.not_eq_true', kind, bne_iff_ne,
    bne_iff_ne, and_assoc]

section Congruence

variable {h d table entries : Memory} {n : Nat}

theorem load_below (same : ∀ k < n, h k = d k) {w a : Nat} (inside : a + w ≤ n) :
    h.load w a = d.load w a :=
  Memory.load_congr w a fun x _ upper => same x (by omega)

theorem startsWith_congr (same : ∀ k < n, h k = d k) (bytes : List Nat) {offset : Nat}
    (inside : offset + bytes.length ≤ n) : startsWith h offset bytes = startsWith d offset bytes := by
  induction bytes generalizing offset with
  | nil => rfl
  | cons byte rest ih =>
    rw [List.length_cons] at inside
    rw [startsWith, startsWith, load_below same (by omega), ih (by omega)]

theorem firstBytes_congr {len : Nat} (same : ∀ k < len, h k = d k) :
    firstBytes h len = firstBytes d len :=
  List.map_congr_left fun k inside => same k (List.mem_range.mp inside)

theorem headerCrc_congr (same : ∀ k < 512, h k = d k) (fits : headerSize d ≤ 512) :
    headerCrc h = headerCrc d := by
  have size : headerSize h = headerSize d := load_below same (by decide)
  rw [headerCrc, headerCrc, size]
  refine congrArg crc32Of (firstBytes_congr fun k inside => Memory.store_congr 4 16 0 fun _ => ?_)
  exact same k (by omega)

theorem signed_congr (same : ∀ k < 512, h k = d k) : Signed h ↔ Signed d := by
  rw [Signed, Signed, startsWith_congr same efiPart (by decide)]

theorem headerValid_congr (same : ∀ k < 512, h k = d k) (fits : headerSize d ≤ 512) :
    HeaderValid h ↔ HeaderValid d := by
  rw [HeaderValid, HeaderValid, headerCrc_congr same fits, load_below same (by decide),
    load_below same (by decide)]

theorem totalSize_congr (same : ∀ k < 512, h k = d k) : totalSize h = totalSize d := by
  rw [totalSize, totalSize, entrySize, entrySize, entryCount, entryCount,
    load_below same (by decide), load_below same (by decide)]

/-- Of the table only as many bytes matter as there are entries. -/
theorem entriesValid_congr (same : ∀ k < 512, h k = d k)
    (sameTable : ∀ k < totalSize d, table k = entries k) :
    EntriesValid h table ↔ EntriesValid d entries := by
  rw [EntriesValid, EntriesValid, totalSize_congr same, firstBytes_congr sameTable,
    load_below same (by decide)]

end Congruence

/-- The size of the table does not wrap. -/
theorem Shaped.totalSize_eq (shaped : Shaped dev) :
    totalSize dev.header = entryCount dev.header * entrySize dev.header := by
  have bounded := shaped.bounded
  rw [totalSize, Nat.mul_comm, Nat.mod_eq_of_lt (by omega)]

/-- Neither does the place of an entry, and each lies in the table. -/
theorem Shaped.entry_inside (shaped : Shaped dev) {i : Nat} (inside : i < entryCount dev.header) :
    entryOffset dev.header i = i * entrySize dev.header ∧
      i * entrySize dev.header + 128 ≤ entryCount dev.header * entrySize dev.header := by
  have bounded := shaped.bounded
  have stride := shaped.stride
  have next : (i + 1) * entrySize dev.header ≤ entryCount dev.header * entrySize dev.header :=
    Nat.mul_le_mul_right _ inside
  rw [Nat.succ_mul] at next
  refine ⟨?_, by omega⟩
  rw [entryOffset, Nat.mod_eq_of_lt (by omega)]

/-- The same entries are found whatever is behind the bytes that were read. -/
theorem Shaped.foundFrom_eq (shaped : Shaped dev) {h table : Memory}
    (same : ∀ k < 512, h k = dev.header k)
    (sameTable : ∀ k < totalSize dev.header, table k = dev.entries k) :
    foundFrom h table 0 (entryCount h) = dev.usedEntries := by
  have count : entryCount h = entryCount dev.header := load_below same (by decide)
  have offset (i : Nat) : entryOffset h i = entryOffset dev.header i := by
    rw [entryOffset, entryOffset, entrySize, entrySize, load_below same (by decide)]
  have agree {i : Nat} (inside : i < entryCount dev.header) (k : Nat) (small : k < 128) :
      table (i * entrySize dev.header + k) = dev.entries (i * entrySize dev.header + k) := by
    have fits := (shaped.entry_inside inside).2
    exact sameTable _ (by rw [shaped.totalSize_eq]; omega)
  have loads {i : Nat} (inside : i < entryCount dev.header) {w a : Nat} (small : a + w ≤ 128) :
      table.load w (i * entrySize dev.header + a) =
        dev.entries.load w (i * entrySize dev.header + a) := by
    refine Memory.load_shift w _ _ fun k less => ?_
    rw [Nat.add_assoc]
    exact agree inside (a + k) (by omega)
  -- an entry passes by its type and its name, which are inside the entry
  have used {i : Nat} (inside : i < entryCount dev.header) :
      passes table (entryOffset h i) = decide (Used dev.entries (i * entrySize dev.header)) := by
    rw [offset, (shaped.entry_inside inside).1, Bool.eq_iff_iff, passes_iff, decide_eq_true_iff, Used,
      Used, loads inside (by decide), loads inside (by decide)]
    refine and_congr_left fun _ => exists_congr fun k => and_congr_right fun less => ?_
    rw [agree inside k (by omega)]
  rw [foundFrom, Device.usedEntries, count, ← List.range_eq_range',
    List.filter_congr fun i member => used (List.mem_range.mp member)]
  refine List.map_congr_left fun i member => ?_
  have inside := List.mem_range.mp (List.mem_of_mem_filter member)
  rw [offset, (shaped.entry_inside inside).1]
  exact Memory.bytes_congr fun k less => agree inside k less

/-- Reading one sector gives the header of the disk. -/
theorem fill_header (sector : dev.sectorSize = 512) (m : Memory) :
    ∀ k < 512, dev.fill 1 1 m k = dev.header k := by
  intro k less
  rw [Device.fill, if_pos (by omega)]
  rfl

/-- Reading the table gives all entries, since they fill the sectors. -/
theorem Shaped.table_eq (shaped : Shaped dev) (sector : dev.sectorSize = 512) {h : Memory}
    (same : ∀ k < 512, h k = dev.header k) (m : Memory) :
    ∀ k < totalSize dev.header, dev.table h m k = dev.entries k := by
  intro k less
  have start : entryLba h = entryLba dev.header := load_below same (by decide)
  have whole := Nat.div_mul_cancel shaped.whole
  rw [← shaped.totalSize_eq] at whole
  rw [Device.table, Device.fill, totalSize_congr same, sector, whole, if_pos less, start]
  rfl

/-- What is accepted on the disk is accepted as it was read. -/
theorem Shaped.accepted_congr (shaped : Shaped dev) {h table : Memory}
    (same : ∀ k < 512, h k = dev.header k)
    (sameTable : ∀ k < totalSize dev.header, table k = dev.entries k)
    (accepted : Accepted dev.header dev.entries) : Accepted h table := by
  have length := shaped.length
  exact ⟨(signed_congr same).mpr accepted.signed,
    (headerValid_congr same (by omega)).mpr accepted.header,
    (entriesValid_congr same sameTable).mpr accepted.entries⟩

/-- The signature, the checksum of a header or its place, or that of a table is wrong. -/
def Refused (dev : Device) : Prop :=
  ¬Signed dev.header ∨ headerSize dev.header = 92 ∧ ¬HeaderValid dev.header ∨
    Shaped dev ∧ ¬EntriesValid dev.header dev.entries

/-- What is refused on the disk is refused as it was read. -/
theorem Refused.not_accepted (refused : Refused dev) {h table : Memory}
    (same : ∀ k < 512, h k = dev.header k)
    (sameTable : Shaped dev → ∀ k < totalSize dev.header, table k = dev.entries k) :
    ¬Accepted h table := by
  intro accepted
  rcases refused with unsigned | ⟨length, invalid⟩ | ⟨shaped, invalid⟩
  · exact unsigned ((signed_congr same).mp accepted.signed)
  · exact invalid ((headerValid_congr same (by omega)).mp accepted.header)
  · exact invalid ((entriesValid_congr same (sameTable shaped)).mp accepted.entries)

/-- No other header is longer than the structure. -/
theorem Refused.fits (refused : Refused dev) : Signed dev.header → headerSize dev.header ≤ 92 := by
  intro signed
  rcases refused with unsigned | ⟨length, -⟩ | ⟨shaped, -⟩
  · exact (unsigned signed).elim
  · exact Nat.le_of_eq length
  · exact Nat.le_of_eq shaped.length

/-! ### What the vector holds -/

/-- `u` is `s` without the heap; it may differ in what has been allocated. -/
def Projects (s : InitState) (u : GptState) : Prop := ∃ held, u = { s.gpt with held }

/-- The same disk with storage for whatever is found; what the heap refuses is said by `onHeap`. -/
def Device.roomy (dev : Device) : Device := { dev with grows := fun _ => true }

/-- The list of the abstract handler is the one that the vector should hold. -/
theorem onHeap_simulates {g : Globals} (o : GptOp) (s : InitState) (u : GptState)
    (r : GptOp.Answer o × InitState) (related : Projects s u) (answer : onHeap g dev o s = some r) :
    ∃ u', gptHandler dev.roomy o u = some (r.1, u') ∧ Projects r.2 u' := by
  obtain ⟨held, rfl⟩ := related
  -- the heap decides where the buffers are; what is read and found does not depend on it
  cases o with
  | mallocAlign b size align =>
    obtain ⟨x, -, answer⟩ := Option.bind_eq_some_iff.mp answer
    cases answer
    exact ⟨_, rfl, _, rfl⟩
  | freeAlign b =>
    obtain ⟨x, -, answer⟩ := Option.bind_eq_some_iff.mp answer
    cases answer
    exact ⟨_, rfl, _, rfl⟩
  | pushBack b off =>
    obtain ⟨x, -, answer⟩ := Option.bind_eq_some_iff.mp answer
    cases answer
    exact ⟨_, rfl, _, rfl⟩
  | read start count b =>
    cases answer
    refine ⟨_, rfl, held, ?_⟩
    dsimp only
    by_cases ok : dev.readOk b = true
    · rw [if_pos ok]
      exact if_pos ok
    · rw [if_neg ok]
      exact if_neg ok
  | _ =>
    cases answer
    exact ⟨_, rfl, held, rfl⟩

/-- What `init` on a new manager makes of a disk with sectors of 512 bytes, if it can be read and
there is memory: the vector holds the used entries of a proper table, and stays empty if the disk
is refused. -/
theorem init_finds {g : Globals} {size addr : Nat} {st : InitState} (region : Region size addr)
    (modest : size ≤ 2 ^ 62) (reached : Reachable size addr g st.heap) (fresh : st.vec = emptyVector)
    (empty : st.gpt.partitions = []) (sector : dev.sectorSize = 512)
    (reads : ∀ b, dev.readOk b = true)
    (granted : (init dev.sectorSize).All (onHeap g dev) (Grants g) st) :
    ∃ t, (init dev.sectorSize).run (onHeap g dev) st = some ((), t) ∧
      (Shaped dev → Accepted dev.header dev.entries →
        Holds sizeofGptPartition t.heap t.vec dev.usedEntries) ∧
      (Refused dev → Holds sizeofGptPartition t.heap t.vec []) := by
  have modest := modest_of_region region modest reached
  have holds : Holds sizeofGptPartition st.heap st.vec st.gpt.partitions := by
    rw [fresh, empty]
    exact holds_emptyVector _ _
  obtain ⟨others, -, owns⟩ := owns_nothing (sound_of_reachable region reached) holds
  obtain ⟨_, t, ran, owned⟩ := (@meets_init g dev others st True modest owns dev.sectorSize).returns
    (fun o u visit _ => granted o u visit) (fun hangs => hangs trivial)
  -- the vector holds the list that the code makes
  have holds' := owned.holds
  obtain ⟨u, ran', held, rfl⟩ := Program.run_simulates onHeap_simulates
    (⟨st.gpt.held, rfl⟩ : Projects st st.gpt) ran
  have same := fill_header sector (st.gpt.mem .header)
  have signs := signed_congr same
  have long : headerSize (dev.fill 1 1 (st.gpt.mem .header)) = headerSize dev.header :=
    load_below same (by decide)
  have found (fits : Signed dev.header → headerSize dev.header ≤ 92) :
      Finds dev.roomy (init dev.sectorSize) st.gpt
        (Accepted (dev.fill 1 1 (st.gpt.mem .header))
          (dev.table (dev.fill 1 1 (st.gpt.mem .header)) (st.gpt.mem .partitionsBuf)))
        (foundFrom (dev.fill 1 1 (st.gpt.mem .header))
          (dev.table (dev.fill 1 1 (st.gpt.mem .header)) (st.gpt.mem .partitionsBuf)) 0
          (entryCount (dev.fill 1 1 (st.gpt.mem .header)))) :=
    @finds_init dev.roomy st.gpt (fun _ => rfl) reads _ _ rfl rfl fun signed =>
      long ▸ fits (signs.mp signed)
  refine ⟨t, ran, fun shaped accepted => ?_, fun refused => ?_⟩
  · have sameTable := shaped.table_eq sector same (st.gpt.mem .partitionsBuf)
    obtain ⟨t', ran'', some, -⟩ := found fun _ => Nat.le_of_eq shaped.length
    cases ran'.symm.trans ran''
    have all := some (shaped.accepted_congr same sameTable accepted)
    rw [empty, List.nil_append, shaped.foundFrom_eq same sameTable] at all
    rwa [all] at holds'
  · obtain ⟨t', ran'', -, none⟩ := found refused.fits
    cases ran'.symm.trans ran''
    have nothing := none (refused.not_accepted same fun shaped =>
      shaped.table_eq sector same (st.gpt.mem .partitionsBuf))
    rwa [nothing, empty] at holds'

theorem shaped_tableDevice : Shaped tableDevice :=
  ⟨by decide, by decide, by decide, by decide, by decide⟩

theorem accepted_tableDevice : Accepted tableDevice.header tableDevice.entries :=
  ⟨by decide, by decide +kernel, by decide +kernel⟩

theorem init_finds_tableDevice :
    ∃ t, (init tableDevice.sectorSize).run (onHeap ⟨256, 256, 4352⟩ tableDevice) freshInit =
        some ((), t) ∧
      Holds sizeofGptPartition t.heap t.vec [tableDevice.entries.bytes 128 128] := by
  obtain ⟨t, ran, found, -⟩ := @init_finds tableDevice ⟨256, 256, 4352⟩ 4096 256 freshInit
    region_freshHeap (by decide) reachable_freshHeap rfl rfl rfl (fun _ => rfl)
    (Program.all_of_allB (by decide +kernel))
  exact ⟨t, ran, found shaped_tableDevice accepted_tableDevice⟩

end KopalniaOS.Gpt
