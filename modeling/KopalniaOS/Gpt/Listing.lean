import KopalniaOS.Gpt.Exits

/-!
# Listing the partitions

`list_partitions` goes by what `init` left in the object: the pointer to the header, which `init`
gave back to the heap, and the vector.
-/
namespace KopalniaOS.Gpt

open Library

/-! ### The code -/

/-- `header->…`, `partitions[i].…`, the local `name_buf`, `device->get_sector_size()`. -/
inductive ListOp where
  | loadHeader (width offset : Nat)
  | loadPartition (i width offset : Nat)
  | storeName (width offset value : Nat)
  | getSectorSize
  | log (entry : LogEntry)

abbrev ListOp.Answer : ListOp → Type
  | .loadHeader .. | .loadPartition .. | .getSectorSize => Nat
  | _ => Unit

abbrev ListProgram := Program ListOp ListOp.Answer

def loadHeader (width offset : Nat) : ListProgram Nat :=
  Program.perform (ListOp.loadHeader width offset)

def loadPartition (i width offset : Nat) : ListProgram Nat :=
  Program.perform (ListOp.loadPartition i width offset)

def storeName (width offset value : Nat) : ListProgram Unit :=
  Program.perform (ListOp.storeName width offset value)

def getSectorSize : ListProgram Nat := Program.perform ListOp.getSectorSize

def logLine (entry : LogEntry) : ListProgram Unit := Program.perform (ListOp.log entry)

/-- `mem::memcmp` of a stored partition and a string literal. -/
def memcmpPartition (i : Nat) : Nat → List Nat → ListProgram Bool
  | _, [] => pure true
  | offset, byte :: rest => do
    let found ← loadPartition i 1 offset
    if found ≠ byte then pure false else memcmpPartition i (offset + 1) rest

/-- The loop that fills `name_buf`, with `left` turns to go. -/
def copyPartitionName (i : Nat) : (left j : Nat) → ListProgram Unit
  | 0, _ => pure ()
  | left + 1, j => do
    let wc ← loadPartition i 2 (56 + 2 * j)
    if wc = 0 then pure ()
    else do
      storeName 1 j (wc &&& 0xFF)
      copyPartitionName i left (j + 1)

/-- The body of the loop. -/
def listPartition (i : Nat) : ListProgram Unit := do
  let unused ← memcmpPartition i 0 (List.replicate 16 0)
  if unused = true then pure ()
  else do
    let startingLba ← loadPartition i 8 32
    if startingLba = 0 then pure ()
    else do
      let name ← loadPartition i 2 56
      if name = 0 then pure ()
      else do
        storeName 37 0 0
        copyPartitionName i 36 0
        logLine (.found "[ GPT ] Found partition %i with name of '%s'" i)
        let endingLba ← loadPartition i 8 40
        let startingLba ← loadPartition i 8 32
        let sectorSize ← getSectorSize
        logLine (.partitionSize "[ GPT ] Partition size: %f%s" (sub64 endingLba startingLba) sectorSize)

/-- The loop reads its bound from the header in every turn; `left` bounds the turns. -/
def listLoop : (left i : Nat) → ListProgram Unit
  | 0, _ => .stuck
  | left + 1, i => do
    let count ← loadHeader 4 80
    if i < count then do
      listPartition i
      listLoop left (i + 1)
    else pure ()

def listPartitions : ListProgram Unit := listLoop (2 ^ 32) 0

/-! ### What the list is made from -/

/-- What the heap was used for since `init`: the bytes that a header pointer finds in memory that
was given back, whether somebody else owns that memory by now, and what lies behind the vector. -/
structure Later where
  headerBytes : Memory
  headerOwned : Bool
  behind : Nat → Memory

/-- The bytes of a partition, from 0 on. -/
def partitionBytes (p : List UInt8) : Memory := fun k => p.getD k 0

/-- The buffer that `header` points to, if it is still allocated. -/
def GptState.headerBuffer (st : GptState) : Option (Buffer × Nat) :=
  st.header.bind fun b => (st.held b).map fun n => (b, n)

def GptState.loadHeader (st : GptState) (later : Later) (width offset : Nat) : Nat :=
  match st.headerBuffer with
  | some (b, _) => (st.mem b).load width offset
  | none => later.headerBytes.load width offset

def GptState.loadPartition (st : GptState) (later : Later) (i width offset : Nat) : Nat :=
  match st.partitions[i]? with
  | some p => (partitionBytes p).load width offset
  | none => (later.behind i).load width offset

def listHandler (sectorSize : Nat) (later : Later) : Handler ListOp ListOp.Answer GptState
  | .loadHeader w off, st => some (st.loadHeader later w off, st)
  | .loadPartition i w off, st => some (st.loadPartition later i w off, st)
  | .storeName w off v, st => some ((), st.write .nameBuf w off v)
  | .getSectorSize, st => some (sectorSize, st)
  | .log entry, st => some ((), { st with logged := st.logged ++ [entry] })

/-- Reads through `header` find memory that somebody owns, and reads of the vector an element. -/
def ReadsLive (later : Later) (o : ListOp) (st : GptState) : Prop :=
  match o with
  | .loadHeader width offset =>
    match st.headerBuffer with
    | some (_, n) => offset + width ≤ n
    | none => later.headerOwned = true
  | .loadPartition i width offset => i < st.partitions.length ∧ offset + width ≤ sizeofGptPartition
  | .getSectorSize => st.hasDevice = true
  | _ => True

/-- The two lines about a partition. -/
def partitionLines (sectorSize : Nat) (p : List UInt8 × Nat) : List LogEntry :=
  [.found "[ GPT ] Found partition %i with name of '%s'" p.2,
    .partitionSize "[ GPT ] Partition size: %f%s"
      (sub64 ((partitionBytes p.1).load 8 40) ((partitionBytes p.1).load 8 32)) sectorSize]

/-- Whatever the heap was used for, `list_partitions` reads live memory and elements of the vector,
and reports each of them once and in order. -/
def ListsPartitions (sectorSize : Nat) (st : GptState) : Prop :=
  ∀ later : Later, listPartitions.All (listHandler sectorSize later) (ReadsLive later) st ∧
    ∃ t, listPartitions.run (listHandler sectorSize later) st = some ((), t) ∧
      t.logged = st.logged ++ st.partitions.zipIdx.flatMap (partitionLines sectorSize)

/-! ### What it takes to list them -/

section Listable

variable {st t u : GptState} {sectorSize i : Nat} {later : Later} {p : List UInt8}

/-- The header is still allocated and counts the partitions in the vector, which all pass the tests. -/
structure Listable (st : GptState) : Prop where
  header : ∃ b n, b ≠ .nameBuf ∧ st.headerBuffer = some (b, n) ∧ 84 ≤ n ∧
    (st.mem b).load 4 80 = st.partitions.length
  device : st.hasDevice = true
  used : ∀ p ∈ st.partitions, passes (partitionBytes p) 0 = true

/-- From `st` to `t` the lines were logged, and otherwise only `name_buf` has changed. -/
structure Reports (lines : List LogEntry) (st t : GptState) : Prop where
  partitions : t.partitions = st.partitions
  headerBuffer : t.headerBuffer = st.headerBuffer
  device : t.hasDevice = st.hasDevice
  mem : ∀ b, b ≠ .nameBuf → t.mem b = st.mem b
  logged : t.logged = st.logged ++ lines

theorem Reports.refl (st : GptState) : Reports [] st st :=
  ⟨rfl, rfl, rfl, fun _ _ => rfl, (List.append_nil _).symm⟩

theorem Reports.trans {lines more : List LogEntry} (first : Reports lines st t)
    (second : Reports more t u) : Reports (lines ++ more) st u where
  partitions := second.partitions.trans first.partitions
  headerBuffer := second.headerBuffer.trans first.headerBuffer
  device := second.device.trans first.device
  mem b other := (second.mem b other).trans (first.mem b other)
  logged := by rw [second.logged, first.logged, List.append_assoc]

theorem reports_writeName (width offset value : Nat) :
    Reports [] st (st.write .nameBuf width offset value) :=
  ⟨rfl, rfl, rfl, fun _ other => Function.update_of_ne other _ _, (List.append_nil _).symm⟩

theorem reports_log (entry : LogEntry) :
    Reports [entry] st { st with logged := st.logged ++ [entry] } :=
  ⟨rfl, rfl, rfl, fun _ _ => rfl, rfl⟩

theorem Listable.reports {lines : List LogEntry} (listable : Listable st) (done : Reports lines st t) :
    Listable t := by
  obtain ⟨b, n, other, held, room, count⟩ := listable.header
  refine ⟨⟨b, n, other, done.headerBuffer.trans held, room, ?_⟩, done.device.trans listable.device, ?_⟩
  · rw [done.mem b other, done.partitions, count]
  · rw [done.partitions]
    exact listable.used

/-- A read of an element that there is. -/
theorem ensures_loadPartition {α : Type} {f : Nat → ListProgram α} {post : α → GptState → Prop}
    {width offset : Nat} (found : st.partitions[i]? = some p) (inside : offset + width ≤ 128)
    (next : (f ((partitionBytes p).load width offset)).Ensures (listHandler sectorSize later)
      (ReadsLive later) st post) :
    (loadPartition i width offset >>= f).Ensures (listHandler sectorSize later) (ReadsLive later) st
      post := by
  have answer : listHandler sectorSize later (.loadPartition i width offset) st =
      some ((partitionBytes p).load width offset, st) := by
    simp [listHandler, GptState.loadPartition, found]
  exact Program.ensures_perform answer ⟨(List.getElem?_eq_some_iff.mp found).1, inside⟩ next

theorem memcmpPartition_ensures (found : st.partitions[i]? = some p) (offset : Nat)
    (bytes : List Nat) (inside : offset + bytes.length ≤ 128) :
    (memcmpPartition i offset bytes).Ensures (listHandler sectorSize later) (ReadsLive later) st
      fun same t => same = startsWith (partitionBytes p) offset bytes ∧ t = st := by
  induction bytes generalizing offset with
  | nil => exact ⟨rfl, rfl⟩
  | cons byte rest ih =>
    rw [List.length_cons] at inside
    rw [memcmpPartition, startsWith]
    refine ensures_loadPartition found (by omega) ?_
    by_cases same : (partitionBytes p).load 1 offset = byte
    · rw [if_neg (not_not.mpr same), same, beq_self_eq_true, Bool.true_and]
      exact ih (offset + 1) (by omega)
    · rw [if_pos same, beq_eq_false_iff_ne.mpr same, Bool.false_and]
      exact ⟨rfl, rfl⟩

theorem copyPartitionName_ensures (found : st.partitions[i]? = some p) (left j : Nat)
    (short : left + j ≤ 36) :
    (copyPartitionName i left j).Ensures (listHandler sectorSize later) (ReadsLive later) st
      fun _ t => Reports [] st t := by
  induction left generalizing j st with
  | zero => exact .refl st
  | succ left ih =>
    rw [copyPartitionName]
    refine ensures_loadPartition found (by omega) ?_
    split
    · exact .refl st
    · refine Program.ensures_perform rfl trivial ?_
      have written : Reports [] st _ :=
        reports_writeName 1 j ((partitionBytes p).load 2 (56 + 2 * j) &&& 0xFF)
      exact (ih (written.partitions.symm ▸ found) (j + 1) (by omega)).mono fun _ _ => written.trans

theorem listPartition_ensures (device : st.hasDevice = true) (found : st.partitions[i]? = some p)
    (used : passes (partitionBytes p) 0 = true) :
    (listPartition i).Ensures (listHandler sectorSize later) (ReadsLive later) st
      fun _ t => Reports (partitionLines sectorSize (p, i)) st t := by
  simp only [passes, Bool.and_eq_true, Bool.not_eq_true', bne_iff_ne, Nat.zero_add] at used
  obtain ⟨⟨kind, start⟩, name⟩ := used
  rw [listPartition]
  -- none of the three tests skips the partition
  refine Program.ensures_bind (memcmpPartition_ensures found 0 _ (by decide)) ?_
  rintro _ st ⟨rfl, rfl⟩
  rw [kind, if_neg Bool.false_ne_true]
  refine ensures_loadPartition found (by decide) ?_
  rw [if_neg start]
  refine ensures_loadPartition found (by decide) ?_
  rw [if_neg name]
  refine Program.ensures_perform rfl trivial ?_
  have cleared : Reports [] st _ := reports_writeName 37 0 0
  have found' : (st.write .nameBuf 37 0 0).partitions[i]? = some p := found
  refine Program.ensures_bind (copyPartitionName_ensures found' 36 0 (by decide)) fun _ t copied => ?_
  have named := cleared.trans copied
  refine Program.ensures_perform rfl trivial ?_
  have first := named.trans (reports_log (.found "[ GPT ] Found partition %i with name of '%s'" i))
  refine ensures_loadPartition (first.partitions.symm ▸ found) (by decide) ?_
  refine ensures_loadPartition (first.partitions.symm ▸ found) (by decide) ?_
  refine Program.ensures_perform rfl (first.device.trans device) ?_
  refine Program.ensures_perform rfl trivial ?_
  exact first.trans (reports_log _)

/-- From entry `i` on. -/
theorem listLoop_ensures (listable : Listable st) (left n : Nat)
    (ahead : i + n = st.partitions.length) (enough : n < left) :
    (listLoop left i).Ensures (listHandler sectorSize later) (ReadsLive later) st fun _ t =>
      t.logged = st.logged ++ (st.partitions.zipIdx.drop i).flatMap (partitionLines sectorSize) := by
  induction left generalizing i n st with
  | zero => omega
  | succ left ih =>
    obtain ⟨b, size, -, held, room, count⟩ := listable.header
    have counts : listHandler sectorSize later (.loadHeader 4 80) st =
        some (st.partitions.length, st) := by
      simp [listHandler, GptState.loadHeader, held, count]
    have live : ReadsLive later (.loadHeader 4 80) st := by
      rw [ReadsLive, held]
      exact room
    rw [listLoop]
    -- the bound is read again in every turn
    refine Program.ensures_perform counts live ?_
    cases n with
    | zero =>
      rw [if_neg (by omega), List.drop_of_length_le (by simp; omega)]
      exact (List.append_nil _).symm
    | succ n =>
      have inside : i < st.partitions.length := by omega
      rw [if_pos inside]
      refine Program.ensures_bind (listPartition_ensures listable.device
        (List.getElem?_eq_getElem inside) (listable.used _ (List.getElem_mem inside))) ?_
      intro _ t done
      have same : t.partitions = st.partitions := done.partitions
      have split : st.partitions.zipIdx.drop i =
          (st.partitions[i], i) :: st.partitions.zipIdx.drop (i + 1) := by
        rw [List.drop_eq_getElem_cons (by simpa using inside)]
        simp
      refine (ih (listable.reports done) n (by rw [same]; omega) (by omega)).mono ?_
      intro _ u rest
      rw [rest, done.logged, same, split, List.flatMap_cons, List.append_assoc]

/-- A header that is still allocated and counts what is in the vector is what the list needs. -/
theorem listsPartitions_of_listable (sectorSize : Nat) (listable : Listable st) :
    ListsPartitions sectorSize st := by
  intro later
  obtain ⟨b, n, -, held, room, count⟩ := listable.header
  have few : st.partitions.length < 2 ^ 32 := count ▸ Memory.load_lt (st.mem b) 4 80
  have lists : listPartitions.Ensures (listHandler sectorSize later) (ReadsLive later) st _ :=
    listLoop_ensures listable (2 ^ 32) st.partitions.length (Nat.zero_add _) few
  refine ⟨lists.all, ?_⟩
  obtain ⟨_, t, ran, logged⟩ := lists.returns
  exact ⟨t, ran, logged⟩

end Listable

/-! ### What `init` leaves -/

variable {dev : Device} {st : GptState}

/-- `header` is null, or what it points to was freed. -/
def Dangling (st : GptState) : Prop := st.headerBuffer = none

/-- The header was read; only `setHeader` changes the member. -/
def Pointing (st : GptState) : Prop := st.header = some .header

theorem pointing_keeps (o : GptOp) (s : GptState) (r : GptOp.Answer o × GptState)
    (other : ∀ b, o ≠ .setHeader b) (before : Pointing s) (answer : gptHandler dev o s = some r) :
    Pointing r.2 := by
  cases o with
  | setHeader b => exact (other b rfl).elim
  | read start count b =>
    cases answer
    change (if dev.readOk b then _ else s).header = _
    split <;> exact before
  | pushBack b off =>
    obtain ⟨-, answer⟩ := Option.ite_none_right_eq_some.mp answer
    cases answer
    exact before
  | _ =>
    cases answer
    exact before

theorem working_keeps (o : GptOp) (s : GptState) (working : Working o) (before : Pointing s) :
    True → True ∧ (gptHandler dev o s = none → True) ∧
      ∀ r, gptHandler dev o s = some r → Pointing r.2 := by
  refine fun _ => ⟨trivial, fun _ => trivial, fun r => pointing_keeps o s r ?_ before⟩
  rintro b rfl
  exact working

theorem load_count_lt (s : GptState) (r : GptOp.Answer (.load .header 4 80) × GptState)
    (answer : gptHandler dev (.load .header 4 80) s = some r) : (r.1 : Nat) < 2 ^ 32 := by
  cases answer
  exact Memory.load_lt _ 4 80

/-- `init` gives the buffer back last. -/
theorem freeAlign_leaves (pointing : Pointing st) :
    (freeAlign .header).Leaves (gptHandler dev) st fun _ t => Dangling t := by
  rw [freeAlign, Program.perform, Program.leaves_op]
  rintro _ ⟨⟩
  change GptState.headerBuffer _ = none
  rw [GptState.headerBuffer, show st.header = some .header from pointing]
  simp

theorem freeBoth_leaves (pointing : Pointing st) :
    (freeAlign .partitionsBuf >>= fun _ => freeAlign .header).Leaves (gptHandler dev) st
      fun _ t => Dangling t := by
  rw [freeAlign, Program.leaves_perform_bind]
  exact fun r answer => freeAlign_leaves (pointing_keeps _ st r (by simp) pointing answer)

theorem findPartitions_leaves (pointing : Pointing st) (sectorSize : Nat) :
    (findPartitions sectorSize).Leaves (gptHandler dev) st fun _ t => Dangling t := by
  rw [findPartitions, Program.leaves_bind]
  refine (always_validateGptPartitionEntries.meets working_keeps pointing).mono fun valid t after => ?_
  split
  · rw [log, Program.leaves_perform_bind]
    exact fun r answer => freeBoth_leaves (pointing_keeps _ t r (by simp) after answer)
  · rw [Program.leaves_bind]
    refine (visitEntries_meets working_keeps load_count_lt sectorSize (2 ^ 32) 0 (by decide)
      (by decide) after).mono fun _ u found => freeBoth_leaves found

theorem readEntries_leaves (pointing : Pointing st) (sectorSize : Nat) :
    (readEntries sectorSize).Leaves (gptHandler dev) st fun _ t => Dangling t := by
  simp only [readEntries, load, mallocAlign, read, Program.leaves_perform_bind]
  rintro size sized count counted _ allocated lba found ok answered
  have counting := pointing_keeps _ _ _ (by simp) (pointing_keeps _ _ _ (by simp) pointing sized) counted
  have finding := pointing_keeps _ _ _ (by simp) (pointing_keeps _ _ _ (by simp) counting allocated) found
  have reading := pointing_keeps _ _ _ (by simp) finding answered
  split
  · exact freeBoth_leaves reading
  · exact findPartitions_leaves reading sectorSize

theorem parseHeader_leaves (sectorSize : Nat) :
    (parseHeader sectorSize).Leaves (gptHandler dev) st fun _ t => Dangling t := by
  rw [parseHeader, setHeader, Program.leaves_perform_bind]
  rintro _ ⟨⟩
  rw [Program.leaves_bind]
  have pointing : Pointing { st with header := some .header } := rfl
  refine (always_validateGpt.meets working_keeps pointing).mono fun valid t after => ?_
  split
  · rw [log, Program.leaves_perform_bind]
    exact fun r answer => freeAlign_leaves (pointing_keeps _ t r (by simp) after answer)
  · rw [log, Program.leaves_perform_bind]
    exact fun r answer => readEntries_leaves (pointing_keeps _ t r (by simp) after answer) sectorSize

/-- On each of its exits. -/
theorem init_leaves (fresh : st.header = none) (sectorSize : Nat) :
    (init sectorSize).Leaves (gptHandler dev) st fun _ t => Dangling t := by
  rw [init, setDevice, Program.leaves_perform_bind]
  rintro _ ⟨⟩
  rw [mallocAlign, Program.leaves_perform_bind]
  rintro _ ⟨⟩
  rw [read, Program.leaves_perform_bind]
  intro ok answer
  split
  case isTrue failed =>
    rw [log, Program.perform, Program.leaves_op]
    rintro _ ⟨⟩
    -- nothing has set the pointer
    cases answer
    have unread : dev.readOk .header = false := failed
    change GptState.headerBuffer _ = none
    simp [GptState.headerBuffer, unread, fresh]
  case isFalse => exact parseHeader_leaves sectorSize

/-! ### What the list is made from after `init` -/

/-- The first thing that the list needs is the number of entries in the header. -/
theorem not_listsPartitions (sectorSize : Nat) (dangling : Dangling st) :
    ¬ListsPartitions sectorSize st := by
  intro lists
  obtain ⟨live, -⟩ := lists ⟨fun _ => 0, false, fun _ _ => 0⟩
  have first := live (.loadHeader 4 80) st (.inl ⟨rfl, rfl⟩)
  rw [ReadsLive, show st.headerBuffer = none from dangling] at first
  cases first

/-- On no disk, and whatever becomes of the reads and the allocations, can the partitions be listed
after `init`. -/
theorem init_not_listsPartitions (dev : Device) (st t : GptState) (fresh : st.header = none)
    (ran : (init dev.sectorSize).run (gptHandler dev) st = some ((), t)) :
    ¬ListsPartitions dev.sectorSize t :=
  not_listsPartitions dev.sectorSize ((init_leaves fresh dev.sectorSize).result ran)

/-- A disk without a partition table. -/
theorem init_not_listsPartitions_zeroDevice : ∃ t,
    (init zeroDevice.sectorSize).run (gptHandler zeroDevice) zeroState = some ((), t) ∧
      ¬ListsPartitions zeroDevice.sectorSize t :=
  ⟨_, rfl, init_not_listsPartitions zeroDevice zeroState _ rfl rfl⟩

/-- The null pointer that `init` leaves when it cannot read the disk is followed all the same. -/
theorem not_listsPartitions_deadDevice : ¬∀ dev st t, st.header = none →
    (init dev.sectorSize).run (gptHandler dev) st = some ((), t) →
    ListsPartitions dev.sectorSize t := by
  intro claimed
  obtain ⟨t, ran⟩ : ∃ t, (init deadDevice.sectorSize).run (gptHandler deadDevice) zeroState =
      some ((), t) := ⟨_, rfl⟩
  have dangling : Dangling t := (init_leaves rfl _).result ran
  exact not_listsPartitions _ dangling (claimed deadDevice zeroState t rfl ran)

end KopalniaOS.Gpt
