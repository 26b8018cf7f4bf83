import KopalniaOS.Gpt.Exits
import KopalniaOS.Stdlib.Vector

/-!
# `init` and the heap

The calls of `malloc_align` and `free_align` and the vector of partitions on a real heap. What the
buffers contain stays apart from the blocks they are in, so this holds of every disk.
-/
namespace KopalniaOS.Gpt

open Library Heap Stdlib

/-! ### The heap behind `init` -/

/-- `ptr` has the pointers to the buffers, and `vec` is the member `partitions`; the list of the
same name in `gpt` is what it should hold, and no operation reads it. -/
structure InitState where
  gpt : GptState
  heap : HeapState
  ptr : Buffer → Nat
  vec : Vector

def onHeap (g : Globals) (dev : Device) : Handler GptOp GptOp.Answer InitState
  | .mallocAlign b size align, st => do
    let (p, heap) ← clientHandler g (.mallocAlign size align) st.heap
    let held := Function.update st.gpt.held b (if p = 0 then none else some size)
    some ((), { st with heap, ptr := Function.update st.ptr b p, gpt := { st.gpt with held } })
  | .freeAlign b, st => do
    let (_, heap) ← clientHandler g (.freeAlign (st.ptr b)) st.heap
    some ((), { st with heap, gpt := { st.gpt with held := Function.update st.gpt.held b none } })
  | .pushBack b off, st => do
    let entry := (st.gpt.mem b).load sizeofGptPartition off
    let (vec, heap) ← (Stdlib.pushBack sizeofGptPartition st.vec entry).run (clientHandler g) st.heap
    let found := (st.gpt.mem b).bytes off sizeofGptPartition
    some ((), { st with heap, vec, gpt := { st.gpt with partitions := st.gpt.partitions ++ [found] } })
  | o, st => (gptHandler dev o st.gpt).map fun r => (r.1, { st with gpt := r.2 })

/-- The heap has memory for the operation. -/
def Grants (g : Globals) (o : GptOp) (st : InitState) : Prop :=
  match o with
  | .mallocAlign _ size align =>
    (clientHandler g (.mallocAlign size align) st.heap).map Prod.fst ≠ some 0
  | .pushBack .. => ¬GrowthFails g sizeofGptPartition st.heap st.vec
  | _ => True

instance (g : Globals) : (o : GptOp) → (st : InitState) → Decidable (Grants g o st)
  | .mallocAlign .., _ => inferInstanceAs (Decidable (_ ≠ _))
  | .pushBack .., _ => inferInstanceAs (Decidable (¬_))
  | .load .., _ | .store .., _ | .freeAlign _, _ | .read .., _ | .setDevice, _ | .setHeader _, _
  | .log _, _ => inferInstanceAs (Decidable True)

/-- `free_align` gets null or a pointer in front of which the address of its live block stands. -/
def FreesHeld (o : GptOp) (st : InitState) : Prop :=
  match o with
  | .freeAlign b => st.ptr b = 0 ∨ ∃ n raw, Held st.heap n (st.ptr b) raw
  | _ => True

/-- If `granted`, a run may rely on memory and has to return. -/
def ledger (g : Globals) (granted : Prop) : Contract GptOp InitState where
  assume o st := granted → Grants g o st
  guarantee := FreesHeld
  mayHang := ¬granted

/-! ### Who owns the live blocks -/

/-- The block behind a buffer; there is none if there was no memory for it. -/
def BufferAt (st : InitState) (b : Buffer) : Option Nat → Prop
  | some raw => ∃ n, Held st.heap n (st.ptr b) raw
  | none => st.ptr b = 0

/-- The live blocks are those of the buffers `bs`, that of the vector, and others. -/
structure Owns (g : Globals) (others : List Nat) (bs : List Buffer) (st : InitState) : Prop where
  sound : Sound g st.heap
  holds : Holds sizeofGptPartition st.heap st.vec st.gpt.partitions
  buffers : ∃ raw : Buffer → Option Nat, (∀ b ∈ bs, BufferAt st b (raw b)) ∧
    st.heap.live.Perm (bs.filterMap raw ++ (st.vec.blocks ++ others))

variable {g : Globals} {dev : Device} {others : List Nat} {bs : List Buffer} {st t : InitState}
  {granted : Prop} {α : Type} {post : α → InitState → Prop} {b : Buffer}

/-- Operations that leave the heap and the vector alone. -/
def HeapFree : GptOp → Prop
  | .mallocAlign .. | .freeAlign .. | .pushBack .. => False
  | _ => True

theorem onHeap_of_heapFree {o : GptOp} (free : HeapFree o) (st : InitState) :
    onHeap g dev o st = (gptHandler dev o st.gpt).map fun r => (r.1, { st with gpt := r.2 }) := by
  cases o with
  | mallocAlign | freeAlign | pushBack => cases free
  | _ => rfl

theorem gptHandler_partitions {o : GptOp} (free : HeapFree o) {s : GptState}
    {r : GptOp.Answer o × GptState} (answer : gptHandler dev o s = some r) :
    r.2.partitions = s.partitions := by
  cases o with
  | mallocAlign | freeAlign | pushBack => cases free
  | read start count b =>
    cases answer
    change (if dev.readOk b then _ else s).partitions = _
    split <;> rfl
  | _ =>
    cases answer
    rfl

theorem gptHandler_some (dev : Device) {o : GptOp} (free : HeapFree o) (s : GptState) :
    ∃ r, gptHandler dev o s = some r := by
  cases o with
  | mallocAlign | freeAlign | pushBack => cases free
  | _ => exact ⟨_, rfl⟩

/-- The heap does not see them. -/
theorem Owns.heapFree (owns : Owns g others bs st) {s : GptState}
    (same : s.partitions = st.gpt.partitions) : Owns g others bs { st with gpt := s } :=
  ⟨owns.sound, by rw [same]; exact owns.holds, owns.buffers⟩

theorem meets_heapFree {o : GptOp} {f : GptOp.Answer o → GptProgram α} (free : HeapFree o)
    (owns : Owns g others bs st)
    (next : ∀ r, gptHandler dev o st.gpt = some r → Owns g others bs { st with gpt := r.2 } →
      (f r.1).Meets (onHeap g dev) (ledger g granted) { st with gpt := r.2 } post) :
    (Program.perform o >>= f).Meets (onHeap g dev) (ledger g granted) st post := by
  rw [Program.meets_perform_bind, onHeap_of_heapFree free]
  obtain ⟨r, answer⟩ := gptHandler_some dev free st.gpt
  intro _
  refine ⟨?_, by simp [answer], ?_⟩
  · cases o with
    | freeAlign => cases free
    | _ => trivial
  · rw [answer]
    rintro _ ⟨⟩
    exact next r answer (owns.heapFree (gptHandler_partitions free answer))

/-- The blocks of the buffers and that of the vector are different ones. -/
theorem Owns.apart (owns : Owns g others bs st) {raw : Buffer → Option Nat}
    (perm : st.heap.live.Perm (bs.filterMap raw ++ (st.vec.blocks ++ others))) {p : Nat}
    (member : p ∈ bs.filterMap raw) : p ∈ st.heap.live ∧ p ∉ st.vec.blocks := by
  refine ⟨perm.mem_iff.mpr (List.mem_append_left _ member), fun own => ?_⟩
  have distinct := perm.nodup_iff.mp owns.sound.nodup
  exact (List.nodup_append.mp distinct).2.2 p member p (List.mem_append_left _ own) rfl

theorem BufferAt.preserved {o : Option Nat} (at_ : BufferAt st b o) (same : t.ptr b = st.ptr b)
    (kept : ∀ raw, o = some raw → Preserved st.heap t.heap raw) : BufferAt t b o := by
  cases o with
  | none => exact same.trans at_
  | some raw =>
    obtain ⟨n, held⟩ := at_
    exact ⟨n, by rw [same]; exact held.preserved (kept raw rfl)⟩

/-! ### The operations on the heap -/

/-- A vector with twice the room does not wrap. -/
theorem grown_small (modest : g.heapEnd ≤ g.heapStart + 2 ^ 62) (sound : Sound g st.heap)
    {xs : List (List UInt8)} (holds : Holds sizeofGptPartition st.heap st.vec xs) :
    sizeofGptPartition * st.vec.grown ≤ 2 ^ 64 - 16 := by
  have size : sizeofGptPartition = 128 := rfl
  unfold Vector.grown
  split
  case isTrue => omega
  case isFalse some =>
    obtain ⟨live, fits⟩ := holds.live some
    have bounds := sound.bounds live
    rw [size] at fits ⊢
    omega

/-- What `init` does between taking and giving back buffers. -/
theorem working_owns (modest : g.heapEnd ≤ g.heapStart + 2 ^ 62) (o : GptOp) (st : InitState)
    (working : Working o) (owns : Owns g others bs st) (assumed : granted → Grants g o st) :
    FreesHeld o st ∧ (onHeap g dev o st = none → ¬granted) ∧
      ∀ r, onHeap g dev o st = some r → Owns g others bs r.2 := by
  cases o with
  | pushBack b off =>
    refine ⟨trivial, ?_⟩
    have pushes := run_pushBack owns.sound owns.holds (grown_small modest owns.sound owns.holds)
      (by decide) (st.gpt.mem b) off
    rcases pushes with ⟨fails, ran⟩ | ⟨heap, vec, ran, replaced⟩
    · refine ⟨fun _ memory => assumed memory fails, fun r answer => ?_⟩
      simp [onHeap, ran] at answer
    · refine ⟨fun none => ?_, fun r answer => ?_⟩
      · simp [onHeap, ran] at none
      · simp only [onHeap, ran, Option.bind_eq_bind, Option.bind_some, Option.some.injEq] at answer
        subst answer
        obtain ⟨raw, at_, perm⟩ := owns.buffers
        refine ⟨replaced.sound, replaced.holds, raw, fun b' member => ?_, ?_⟩
        · refine (at_ b' member).preserved rfl fun r named => ?_
          have own := owns.apart perm (List.mem_filterMap.mpr ⟨b', member, named⟩)
          exact replaced.kept r own.1 own.2
        · -- the vector traded its block, and the others stayed
          have swapped := replaced.live (bs.filterMap raw ++ others)
            (perm.trans (List.perm_append_comm_assoc _ _ _))
          exact swapped.trans (List.perm_append_comm_assoc _ _ _)
  | load | store | log =>
    refine ⟨trivial, fun none => ?_, fun r answer => ?_⟩
    · simp [onHeap, gptHandler] at none
    · cases answer
      exact owns.heapFree rfl
  | _ => cases working

theorem filterMap_update {raw : Buffer → Option Nat} (new : b ∉ bs) (o : Option Nat) :
    bs.filterMap (Function.update raw b o) = bs.filterMap raw := by
  refine List.filterMap_congr fun b' member => ?_
  have other : b' ≠ b := by
    rintro rfl
    exact new member
  exact Function.update_of_ne other _ _

/-- `malloc_align` hands out a new block, or nothing. -/
theorem mallocAlign_owns (owns : Owns g others bs st) (new : b ∉ bs) {n : Nat}
    (small : n + 4 + 8 ≤ 2 ^ 64 - 16) :
    ∃ p heap, clientHandler g (.mallocAlign n 4) st.heap = some (p, heap) ∧ ∀ s,
      s.partitions = st.gpt.partitions → Owns g others (b :: bs)
        { st with heap, ptr := Function.update st.ptr b p, gpt := s } := by
  obtain ⟨raw, at_, perm⟩ := owns.buffers
  have other {b' : Buffer} (member : b' ∈ bs) : b' ≠ b := by
    rintro rfl
    exact new member
  -- a refused request leaves a buffer without a block
  rcases handle_mallocAlign (k := 2) owns.sound small with failed | ⟨p, r, m, ran, given, held, -⟩
  · refine ⟨0, st.heap, failed, fun s same => ⟨owns.sound, by rw [same]; exact owns.holds,
      Function.update raw b none, fun b' member => ?_, ?_⟩⟩
    · rcases List.mem_cons.mp member with rfl | old
      · rw [Function.update_self]
        exact Function.update_self ..
      · rw [Function.update_of_ne (other old)]
        exact (at_ b' old).preserved (Function.update_of_ne (other old) _ _) fun r named =>
          .refl (owns.apart perm (List.mem_filterMap.mpr ⟨b', old, named⟩)).1
    · rw [List.filterMap_cons, Function.update_self, filterMap_update new]
      exact perm
  · refine ⟨p, _, ran, fun s same => ⟨given.sound, ?_, Function.update raw b (some r),
      -- the new block is apart from those of the vector and of the other buffers
      fun b' member => ?_, ?_⟩⟩
    · rw [same]
      exact owns.holds.preserved fun q own => given.kept q (by
        obtain ⟨some, rfl⟩ := mem_blocks.mp own
        exact (owns.holds.live some).1)
    · rcases List.mem_cons.mp member with rfl | old
      · rw [Function.update_self]
        refine ⟨n, ?_⟩
        change Held _ n (Function.update st.ptr b' p b') r
        rw [Function.update_self]
        exact held
      · rw [Function.update_of_ne (other old)]
        exact (at_ b' old).preserved (Function.update_of_ne (other old) _ _) fun r named =>
          given.kept r (owns.apart perm (List.mem_filterMap.mpr ⟨b', old, named⟩)).1
    · rw [List.filterMap_cons, Function.update_self, filterMap_update new]
      change (st.heap.allocated r m).live.Perm _
      rw [given.live_eq]
      exact perm.cons r

/-- `free_align` gives the block of a buffer back, or does nothing. -/
theorem freeAlign_owns (owns : Owns g others (b :: bs) st) :
    FreesHeld (.freeAlign b) st ∧
      ∃ heap, clientHandler g (.freeAlign (st.ptr b)) st.heap = some ((), heap) ∧ ∀ s,
        s.partitions = st.gpt.partitions → Owns g others bs { st with heap, gpt := s } := by
  obtain ⟨raw, at_, perm⟩ := owns.buffers
  have here := at_ b List.mem_cons_self
  cases named : raw b with
  | none =>
    rw [named] at here
    have null : st.ptr b = 0 := here
    refine ⟨.inl null, st.heap, by rw [null]; exact handle_freeAlign_null, fun s same => ?_⟩
    rw [List.filterMap_cons, named] at perm
    exact ⟨owns.sound, by rw [same]; exact owns.holds, raw,
      fun b' member => at_ b' (List.mem_cons_of_mem b member), perm⟩
  | some r =>
    rw [named] at here
    obtain ⟨n, held⟩ : ∃ n, Held st.heap n (st.ptr b) r := here
    obtain ⟨m, ran, sound, kept⟩ := handle_freeAlign owns.sound held
    refine ⟨.inr ⟨n, r, held⟩, _, ran, fun s same => ⟨sound, ?_, raw, fun b' member => ?_, ?_⟩⟩
    · rw [same]
      refine owns.holds.preserved fun q own => kept q ?_ ?_
      · obtain ⟨some, rfl⟩ := mem_blocks.mp own
        exact (owns.holds.live some).1
      · rintro rfl
        exact (owns.apart perm (by simp [named])).2 own
    · refine (at_ b' (List.mem_cons_of_mem b member)).preserved rfl fun r' named' => kept r' ?_ ?_
      · exact (owns.apart perm (List.mem_filterMap.mpr ⟨b', List.mem_cons_of_mem b member, named'⟩)).1
      · -- no block is behind two buffers
        rintro rfl
        have distinct := perm.nodup_iff.mp owns.sound.nodup
        rw [List.filterMap_cons, named] at distinct
        have absent := (List.nodup_cons.mp (List.nodup_append.mp distinct).1).1
        exact absent (List.mem_filterMap.mpr ⟨b', member, named'⟩)
    · rw [List.filterMap_cons, named] at perm
      have erased := perm.erase r
      rw [List.cons_append, List.erase_cons_head] at erased
      exact erased

/-! ### The exits -/

theorem meets_mallocAlign (owns : Owns g others bs st) (new : b ∉ bs) {n : Nat}
    (small : n + 4 + 8 ≤ 2 ^ 64 - 16) {f : Unit → GptProgram α}
    (next : ∀ t, Owns g others (b :: bs) t → (f ()).Meets (onHeap g dev) (ledger g granted) t post) :
    (mallocAlign b n 4 >>= f).Meets (onHeap g dev) (ledger g granted) st post := by
  obtain ⟨p, heap, ran, owns'⟩ := mallocAlign_owns owns new small
  rw [mallocAlign, Program.meets_perform_bind]
  intro _
  refine ⟨trivial, fun none => ?_, fun r answer => ?_⟩
  · simp [onHeap, ran] at none
  · simp only [onHeap, ran, Option.bind_eq_bind, Option.bind_some, Option.some.injEq] at answer
    subst answer
    exact next _ (owns' _ rfl)

theorem meets_freeAlign (owns : Owns g others (b :: bs) st) {f : Unit → GptProgram α}
    (next : ∀ t, Owns g others bs t → (f ()).Meets (onHeap g dev) (ledger g granted) t post) :
    (freeAlign b >>= f).Meets (onHeap g dev) (ledger g granted) st post := by
  obtain ⟨held, heap, ran, owns'⟩ := freeAlign_owns owns
  rw [freeAlign, Program.meets_perform_bind]
  intro _
  refine ⟨held, fun none => ?_, fun r answer => ?_⟩
  · simp [onHeap, ran] at none
  · simp only [onHeap, ran, Option.bind_eq_bind, Option.bind_some, Option.some.injEq] at answer
    subst answer
    exact next _ (owns' _ rfl)

/-- The last operation of every exit but the first. -/
theorem meets_freeHeader (owns : Owns g others [.header] st) :
    (freeAlign .header).Meets (onHeap g dev) (ledger g granted) st fun _ t => Owns g others [] t :=
  meets_freeAlign (f := fun _ => .ret ()) owns fun _ owns' => owns'

theorem meets_freeBoth (owns : Owns g others [.partitionsBuf, .header] st) :
    (freeAlign .partitionsBuf >>= fun _ => freeAlign .header).Meets (onHeap g dev) (ledger g granted)
      st fun _ t => Owns g others [] t :=
  meets_freeAlign owns fun _ => meets_freeHeader

theorem load_entryCount_lt (s : InitState) (r : GptOp.Answer (.load .header 4 80) × InitState)
    (answer : onHeap g dev (.load .header 4 80) s = some r) : (r.1 : Nat) < 2 ^ 32 := by
  cases answer
  exact Memory.load_lt _ 4 80

theorem meets_findPartitions (modest : g.heapEnd ≤ g.heapStart + 2 ^ 62)
    (owns : Owns g others [.partitionsBuf, .header] st) (sectorSize : Nat) :
    (findPartitions sectorSize).Meets (onHeap g dev) (ledger g granted) st
      fun _ t => Owns g others [] t := by
  rw [findPartitions, Program.meets_bind]
  refine (always_validateGptPartitionEntries.meets (working_owns modest) owns).mono
    fun valid t checked => ?_
  split
  · exact meets_heapFree trivial checked fun _ _ => meets_freeBoth
  · rw [Program.meets_bind]
    refine (visitEntries_meets (working_owns modest) load_entryCount_lt sectorSize (2 ^ 32) 0
      (by decide) (by decide) checked).mono fun _ u visited => meets_freeBoth visited

theorem meets_readEntries (modest : g.heapEnd ≤ g.heapStart + 2 ^ 62)
    (owns : Owns g others [.header] st) (sectorSize : Nat) :
    (readEntries sectorSize).Meets (onHeap g dev) (ledger g granted) st
      fun _ t => Owns g others [] t := by
  refine meets_heapFree trivial owns fun size _ owns => ?_
  refine meets_heapFree trivial owns fun count _ owns => ?_
  have small := Nat.mod_lt (size.1 * count.1) (by decide : 2 ^ 32 > 0)
  refine meets_mallocAlign owns (by simp) (by omega) fun t owns => ?_
  refine meets_heapFree trivial owns fun lba _ owns => ?_
  refine meets_heapFree trivial owns fun ok _ owns => ?_
  split
  · exact meets_freeBoth owns
  · exact meets_findPartitions modest owns sectorSize

theorem meets_parseHeader (modest : g.heapEnd ≤ g.heapStart + 2 ^ 62)
    (owns : Owns g others [.header] st) (sectorSize : Nat) :
    (parseHeader sectorSize).Meets (onHeap g dev) (ledger g granted) st
      fun _ t => Owns g others [] t := by
  refine meets_heapFree trivial owns fun _ _ owns => ?_
  rw [Program.meets_bind]
  refine (always_validateGpt.meets (working_owns modest) owns).mono fun valid t checked => ?_
  split
  · exact meets_heapFree trivial checked fun _ _ => meets_freeHeader
  · exact meets_heapFree trivial checked fun _ _ owns => meets_readEntries modest owns sectorSize

/-- Only the exit after a failed read of the header keeps a buffer. -/
theorem meets_init (modest : g.heapEnd ≤ g.heapStart + 2 ^ 62) (owns : Owns g others [] st)
    (sectorSize : Nat) :
    (init sectorSize).Meets (onHeap g dev) (ledger g granted) st
      fun _ t => Owns g others (if dev.readOk .header then [] else [.header]) t := by
  refine meets_heapFree trivial owns fun _ _ owns => ?_
  refine meets_mallocAlign owns (by simp) (by decide) fun t owns => ?_
  refine meets_heapFree trivial owns fun ok answer owns => ?_
  have outcome : ok.1 = dev.readOk .header := by
    cases answer
    rfl
  by_cases read : dev.readOk .header = true
  · rw [if_neg (by simp [outcome, read]), if_pos read]
    exact meets_parseHeader modest owns sectorSize
  · rw [if_pos (by simpa [outcome] using read), if_neg read]
    exact meets_heapFree (f := fun _ => .ret ()) trivial owns fun _ _ owns => owns

/-! ### What stays behind -/

variable {size addr : Nat}

theorem modest_of_region (region : Region size addr) (modest : size ≤ 2 ^ 62)
    (reached : Reachable size addr g st.heap) : g.heapEnd ≤ g.heapStart + 2 ^ 62 := by
  obtain ⟨rfl, -⟩ := reachable_inv region reached
  exact Nat.add_le_add_left modest addr

/-- Before `init` everything but the block of the vector is somebody else's. -/
theorem owns_nothing (sound : Sound g st.heap)
    (holds : Holds sizeofGptPartition st.heap st.vec st.gpt.partitions) :
    ∃ others, (∀ q ∈ others, q ∈ st.heap.live) ∧ Owns g others [] st := by
  by_cases none : st.vec.capacity = 0
  · refine ⟨st.heap.live, fun _ member => member, sound, holds, fun _ => Option.none, by simp, ?_⟩
    rw [blocks_nil none]
    exact .refl _
  · have live := (holds.live none).1
    refine ⟨st.heap.live.erase st.vec.data, fun _ member => List.mem_of_mem_erase member, sound,
      holds, fun _ => Option.none, by simp, ?_⟩
    rw [blocks_cons none]
    exact List.perm_cons_erase live

/-- Every buffer is given back once, by a call of `free_align` while its block is live; and of the
blocks that are live after `init` only that of the vector was not live before. -/
def Balanced (g : Globals) (dev : Device) (st t : InitState) : Prop :=
  (init dev.sectorSize).All (onHeap g dev) FreesHeld st ∧
    ∀ q ∈ t.heap.live, q ∈ st.heap.live ∨ q ∈ t.vec.blocks

/-- No memory for the 512 bytes of the header. -/
def HeaderRefused (g : Globals) (st : InitState) : Prop :=
  ∃ heap, clientHandler g (.mallocAlign 512 4) st.heap = some (0, heap)

theorem run_init_unread (unread : dev.readOk .header = false) {p : Nat} {heap : HeapState}
    (given : clientHandler g (.mallocAlign 512 4) st.heap = some (p, heap)) :
    ∃ t, (init dev.sectorSize).run (onHeap g dev) st = some ((), t) ∧ t.heap = heap ∧
      t.vec = st.vec := by
  simp [init, setDevice, mallocAlign, read, log, onHeap, gptHandler, given, unread]

theorem all_freesHeld (modest : g.heapEnd ≤ g.heapStart + 2 ^ 62) (owns : Owns g others [] st)
    (sectorSize : Nat) : (init sectorSize).All (onHeap g dev) FreesHeld st :=
  (@meets_init g dev others st False modest owns sectorSize).guaranteed fun _ _ _ => False.elim

/-- For every disk, and whatever becomes of the reads: if `init` returns, nothing is left behind,
unless the header could not be read into the buffer that was taken for it. -/
theorem init_balanced_iff (region : Region size addr) (modest : size ≤ 2 ^ 62)
    (reached : Reachable size addr g st.heap)
    (holds : Holds sizeofGptPartition st.heap st.vec st.gpt.partitions)
    (ran : (init dev.sectorSize).run (onHeap g dev) st = some ((), t)) :
    Balanced g dev st t ↔ dev.readOk .header = true ∨ HeaderRefused g st := by
  have modest := modest_of_region region modest reached
  obtain ⟨others, old, owns⟩ := owns_nothing (sound_of_reachable region reached) holds
  have frees : (init dev.sectorSize).All (onHeap g dev) FreesHeld st :=
    all_freesHeld modest owns dev.sectorSize
  by_cases read : dev.readOk .header = true
  · refine iff_of_true ⟨frees, fun q live => ?_⟩ (.inl read)
    have owned := (@meets_init g dev others st False modest owns dev.sectorSize).result
      (fun _ _ _ => False.elim) ran
    rw [if_pos read] at owned
    obtain ⟨raw, -, perm⟩ := owned.buffers
    rcases List.mem_append.mp (perm.mem_iff.mp live) with absent | known
    · cases absent
    · exact (List.mem_append.mp known).elim .inr fun other => .inl (old q other)
  · have unread : dev.readOk .header = false := by simpa using read
    rcases handle_mallocAlign (n := 512) (k := 2) owns.sound (by decide) with failed |
      ⟨p, raw, m, allocated, given, held, -⟩
    · obtain ⟨t', ran', heap, -⟩ := run_init_unread unread failed
      cases ran.symm.trans ran'
      exact iff_of_true ⟨frees, fun q live => .inl (heap ▸ live)⟩ (.inr ⟨_, failed⟩)
    · obtain ⟨t', ran', heap, vec⟩ := run_init_unread unread allocated
      cases ran.symm.trans ran'
      refine iff_of_false (fun balanced => ?_) ?_
      · -- the block of the header is new, and it is not that of the vector
        have live : raw ∈ t.heap.live := heap ▸ given.member
        rcases balanced.2 raw live with before | own
        · exact given.fresh before
        · rw [vec] at own
          obtain ⟨some, rfl⟩ := mem_blocks.mp own
          exact given.fresh (holds.live some).1
      · rintro (done | ⟨heap', refused⟩)
        · exact read done
        · have null : p = 0 := by
            rw [show (4 : Nat) = 2 ^ 2 from rfl, allocated] at refused
            cases refused
            rfl
          have above := held.above
          omega

/-- A fresh manager on a fresh heap. -/
def freshInit : InitState := ⟨zeroState, freshHeap, fun _ => 0, emptyVector⟩

theorem sound_freshHeap : Sound ⟨256, 256, 4352⟩ freshHeap :=
  sound_of_reachable region_freshHeap reachable_freshHeap

theorem handled_fresh : ∃ p heap,
    clientHandler ⟨256, 256, 4352⟩ (.mallocAlign 512 4) freshHeap = some (p, heap) := by
  rcases handle_mallocAlign (n := 512) (k := 2) sound_freshHeap (by decide) with failed |
    ⟨p, raw, m, ran, -⟩
  · exact ⟨_, _, failed⟩
  · exact ⟨_, _, ran⟩

theorem init_balanced_iff_deadDevice : ∃ t,
    (init deadDevice.sectorSize).run (onHeap ⟨256, 256, 4352⟩ deadDevice) freshInit = some ((), t) ∧
      (Balanced ⟨256, 256, 4352⟩ deadDevice freshInit t ↔
        deadDevice.readOk .header = true ∨ HeaderRefused ⟨256, 256, 4352⟩ freshInit) := by
  obtain ⟨p, heap, given⟩ := handled_fresh
  obtain ⟨t, ran, -⟩ := @run_init_unread _ deadDevice freshInit rfl _ _ given
  exact ⟨t, ran, init_balanced_iff region_freshHeap (by decide) reachable_freshHeap
    (holds_emptyVector _ _) ran⟩

/-- The buffer for a header that cannot be read stays allocated. -/
theorem not_balanced_deadDevice : ¬∀ size addr g dev st t, Region size addr → size ≤ 2 ^ 62 →
    Reachable size addr g (InitState.heap st) →
    Holds sizeofGptPartition st.heap st.vec st.gpt.partitions →
    (init (Device.sectorSize dev)).run (onHeap g dev) st = some ((), t) → Balanced g dev st t := by
  intro claimed
  obtain ⟨p, heap, given⟩ := handled_fresh
  have live : (clientHandler ⟨256, 256, 4352⟩ (.mallocAlign 512 4) freshHeap).map
      (fun r => r.2.live) = some [288] := by decide +kernel
  rw [given] at live
  obtain ⟨t, ran, same, vec⟩ := @run_init_unread _ deadDevice freshInit rfl _ _ given
  have balanced := claimed 4096 256 _ deadDevice freshInit t region_freshHeap (by decide)
    reachable_freshHeap (holds_emptyVector _ _) ran
  have kept : 288 ∈ t.heap.live := by
    have block : heap.live = [288] := Option.some.inj live
    rw [same, block]
    exact List.mem_singleton_self 288
  -- the block was not there before the call, and the vector does not own it
  rcases balanced.2 288 kept with before | own
  · cases before
  · rw [vec] at own
    cases own

end KopalniaOS.Gpt
