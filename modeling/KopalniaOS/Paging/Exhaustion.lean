import KopalniaOS.Heap.BlockList
import KopalniaOS.Paging.Translation

/-!
# Exhausted heaps

`alloc_page` does not test for null. As long as every allocation finds a block the tables
stay well formed whatever is mapped; the first one that does not makes `memset` write to
the bytes from zero on.
-/
namespace KopalniaOS.Paging

open Library Heap

variable {g : Globals} {hhdm : Nat} {st : State} {ss : List Seg} {page : Pages}

/-- When `alloc_page` asks, the heap has a free block that is large enough for the request. -/
def Roomy (g : Globals) (o : PageOp) (st : State) : Prop :=
  o = .mallocAlign 4096 4096 →
    ∃ bs, blockList g st.heap.mem = some bs ∧ ∃ b ∈ bs, b.free = true ∧ 8208 ≤ b.size

theorem roomy_iff (placed : Placed g) (inv : HeapInv g st.heap ss) :
    Roomy g (.mallocAlign 4096 4096) st ↔ Room 0 ss := by
  have listed := blockList_eq placed inv.represents
  constructor
  · intro roomy
    obtain ⟨bs, found, b, member, free, large⟩ := roomy rfl
    cases listed.symm.trans found
    exact ⟨b.seg, seg_mem member, free, large⟩
  · rintro ⟨s, member, free, large⟩ -
    obtain ⟨b, inside, rfl⟩ := exists_block.mp member
    exact ⟨_, listed, b, inside, free, large⟩

theorem grants_roomy (placed : Placed g) : Grants g (Roomy g) :=
  fun _ _ inv roomy => (roomy_iff placed inv).mp roomy

theorem funded_roomy (placed : Placed g) : Funded g (Roomy g) where
  others _ _ other := fun is => (other 4096 4096 is).elim
  enough _ _ inv room := (roomy_iff placed inv).mpr room

/-! ### One level -/

/-- `memset` starts at address zero when `alloc_page` is refused, and no table lies there. -/
theorem room_of_good (placed : Placed g) (tree : Tree g hhdm st ss page)
    (good : (allocPage hhdm).All (pageHandler g) (Good hhdm) st) : Room 0 ss := by
  by_contra full
  obtain ⟨st', answer, pages⟩ := allocate_refused placed tree.heap full
  rw [allocPage, pageAlloc, Program.all_perform_bind] at good
  -- the first byte `memset` writes is at zero
  have written := good.2 _ answer
  rw [memset, memsetLoop, storeByte, Program.all_bind, Program.all_perform_bind] at written
  obtain ⟨a, member, low, -⟩ := written.1.1.2
  rw [pages] at member
  have pos := (tree.bounds placed member).1
  have zero : a ≤ 0 := low
  omega

theorem roomy_ensureTable (placed : Placed g) (tree : Tree g hhdm st ss page) (t : Table) (i : Nat)
    (good : (ensureTable hhdm t i).All (pageHandler g) (Good hhdm) st) :
    (ensureTable hhdm t i).All (pageHandler g) (Roomy g) st := by
  -- the level asks for a page only where the entry is absent
  refine all_ensureTable (funded_roomy placed) tree t i fun absent => ?_
  rw [ensureTable, readEntry, Program.all_perform_bind] at good
  have filled := good.2 (st.entry t i, st) rfl
  rw [if_pos absent, Program.all_bind, Program.all_bind] at filled
  exact room_of_good placed tree filled.1.1

/-! ### Programs that keep the tables -/

/-- Some tree represents the tables. -/
def Rooted (g : Globals) (hhdm : Nat) (st : State) : Prop := ∃ ss page, Tree g hhdm st ss page

/-- However long it runs, a program that never asks in vain keeps the tables well formed,
and one that keeps them well formed has never asked in vain. -/
structure Safe {α : Type} (g : Globals) (hhdm : Nat) (p : PageProgram α) : Prop where
  keeps : ∀ st, Rooted g hhdm st →
    p.Meets (pageHandler g) (tables hhdm (Roomy g) True) st fun _ st' => Rooted g hhdm st'
  roomy : ∀ st, Rooted g hhdm st →
    p.All (pageHandler g) (Good hhdm) st → p.All (pageHandler g) (Roomy g) st

theorem safe_ret {α : Type} (a : α) : Safe g hhdm (.ret a) where
  keeps _ rooted := rooted
  roomy st _ _ := Program.all_ret a st

theorem safe_stuck {α : Type} : Safe (α := α) g hhdm .stuck where
  keeps _ _ := trivial
  roomy st _ _ := Program.all_stuck st

theorem Safe.bind {α β : Type} {p : PageProgram α} {f : α → PageProgram β} (first : Safe g hhdm p)
    (rest : ∀ a, Safe g hhdm (f a)) : Safe g hhdm (p >>= f) where
  keeps st rooted := by
    rw [Program.meets_bind]
    exact (first.keeps st rooted).mono fun a st' rooted' => (rest a).keeps st' rooted'
  roomy st rooted good :=
    Program.all_bind_of_imp (first.roomy st rooted) (first.keeps st rooted)
      (fun a st' rooted' => (rest a).roomy st' rooted') good

theorem safe_mapPage (placed : Placed g) (direct : DirectMap hhdm) (v : Nat) {leaf : Nat}
    (word : leaf < 2 ^ 64) : Safe g hhdm (mapPage hhdm v leaf) where
  keeps := by
    rintro st ⟨ss, page, tree⟩
    refine (meets_mapPage placed direct (grants_roomy placed) tree v leaf word).mono ?_
    rintro _ st' ⟨ss', page', tree', -, -⟩
    exact ⟨ss', page', tree'⟩
  roomy := by
    rintro st ⟨ss, page, tree⟩
    have grants := grants_roomy placed
    have root : tableOf page [] = some .root := rfl
    -- at each level the tree that the levels before it left behind is used
    refine Program.all_bind_of_imp (roomy_ensureTable placed tree _ _)
      (meets_ensureTable placed direct grants tree root (by simp) (index_lt v 39)) ?_
    rintro pdpt st₁ ⟨ss₁, page₁, tree₁, at₁, -, -⟩
    refine Program.all_bind_of_imp (roomy_ensureTable placed tree₁ _ _)
      (meets_ensureTable placed direct grants tree₁ at₁ (by simp) (index_lt v 30)) ?_
    rintro pd st₂ ⟨ss₂, page₂, tree₂, at₂, -, -⟩
    refine Program.all_bind_of_imp (roomy_ensureTable placed tree₂ _ _)
      (meets_ensureTable placed direct grants tree₂ at₂ (by simp) (index_lt v 21)) ?_
    intro pt st₃ _ _
    exact (Program.all_op _ _ _).mpr ⟨nofun, fun _ _ => Program.all_ret _ _⟩

/-! ### Any calls -/

/-- The arguments of a call are words. -/
def Call.Words : Call → Prop
  | .mapMemory start last flags => start < 2 ^ 64 ∧ last < 2 ^ 64 ∧ flags < 2 ^ 64
  | .mapMemoryVp virt phys size flags =>
    virt < 2 ^ 64 ∧ phys < 2 ^ 64 ∧ size < 2 ^ 64 ∧ flags < 2 ^ 64

theorem safe_mapMemoryLoop (placed : Placed g) (direct : DirectMap hhdm) {last flags : Nat}
    (word : flags < 2 ^ 64) (bound : last < 2 ^ 64) (fuel addr : Nat) :
    Safe g hhdm (mapMemoryLoop hhdm last flags fuel addr) := by
  induction fuel generalizing addr with
  | zero => exact safe_stuck
  | succ fuel ih =>
    rw [mapMemoryLoop]
    split
    · have leaf : addr ||| flags < 2 ^ 64 := Nat.or_lt_two_pow (by omega) word
      exact (safe_mapPage placed direct addr leaf).bind fun _ => ih _
    · exact safe_ret ()

theorem safe_mapMemoryVpLoop (placed : Placed g) (direct : DirectMap hhdm) {flags : Nat}
    (word : flags < 2 ^ 64) (virt phys size fuel offset : Nat) :
    Safe g hhdm (mapMemoryVpLoop hhdm virt phys size flags fuel offset) := by
  induction fuel generalizing offset with
  | zero => exact safe_stuck
  | succ fuel ih =>
    rw [mapMemoryVpLoop]
    split
    · have leaf : u64 (phys + offset) ||| flags < 2 ^ 64 := Nat.or_lt_two_pow (u64_lt _) word
      exact (safe_mapPage placed direct _ leaf).bind fun _ => ih _
    · exact safe_ret ()

theorem safe_call (placed : Placed g) (direct : DirectMap hhdm) {c : Call} (words : c.Words)
    (fuel : Nat) : Safe g hhdm (c.code hhdm fuel) := by
  cases c with
  | mapMemory start last flags =>
    have bound : u64 (last + 4095) &&& not64 4095 < 2 ^ 64 :=
      Nat.and_lt_two_pow _ (by unfold not64; omega)
    exact safe_mapMemoryLoop placed direct words.2.2 bound fuel _
  | mapMemoryVp virt phys size flags =>
    exact safe_mapMemoryVpLoop placed direct words.2.2.2 virt phys size fuel 0

theorem safe_runCalls (placed : Placed g) (direct : DirectMap hhdm) (fuel : Nat)
    {calls : List Call} (words : ∀ c ∈ calls, c.Words) :
    Safe g hhdm (runCalls hhdm fuel calls) := by
  induction calls with
  | nil => exact safe_ret ()
  | cons c calls ih =>
    have first := safe_call placed direct (words c List.mem_cons_self) fuel
    exact first.bind fun _ => ih fun d member => words d (List.mem_cons_of_mem c member)

/-- In every run of mapping calls, the tables are well formed and all writes go to tables at
every step exactly when every `alloc_page` found a block, and then they are at the end. -/
theorem tables_wellFormed_iff {size addr fuel : Nat} {h : HeapState} {p : Nat → Nat}
    {calls : List Call} (region : Region size addr) (reached : Reachable size addr g h)
    (direct : DirectMap hhdm) (words : ∀ c ∈ calls, c.Words)
    (started : init.run (pageHandler g) ⟨h, p, []⟩ = some ((), st)) :
    ((runCalls hhdm fuel calls).All (pageHandler g) (Good hhdm) st ↔
        (runCalls hhdm fuel calls).All (pageHandler g) (Roomy g) st) ∧
      ((runCalls hhdm fuel calls).All (pageHandler g) (Roomy g) st →
        ∀ st', (runCalls hhdm fuel calls).run (pageHandler g) st = some ((), st') →
          TreeWellFormed hhdm st') := by
  obtain ⟨rfl, ss, inv⟩ := reachable_inv region reached
  have placed := placed_heapInit region
  have rooted : Rooted _ hhdm st := ⟨ss, _, tree_init inv started⟩
  have safe := safe_runCalls placed direct fuel words
  have meets := safe.keeps st rooted
  refine ⟨⟨safe.roomy st rooted, meets.guaranteed⟩, fun roomy st' ran => ?_⟩
  obtain ⟨ss', page', tree'⟩ := meets.result roomy ran
  exact tree'.wellFormed placed direct

/-! ### A heap without room -/

/-- A heap of 4 KiB, and `PML4` after `Init`. -/
def smallState : State := ⟨freshHeap, fun j => if 0 ≤ j ∧ j < 0 + 512 then 0 else 0, []⟩

theorem started_small : init.run (pageHandler ⟨256, 256, 4352⟩) ⟨freshHeap, fun _ => 0, []⟩ =
    some ((), smallState) :=
  run_initLoop 512 0 _

theorem words_first : ∀ c ∈ [Call.mapMemory 0 4096 1], c.Words := by
  intro c member
  obtain rfl := List.mem_singleton.mp member
  exact ⟨by decide, by decide, by decide⟩

theorem tables_wellFormed_iff_fresh :
    (runCalls 0 2 [.mapMemory 0 4096 1]).All (pageHandler freshGlobals) (Good 0) freshState ↔
      (runCalls 0 2 [.mapMemory 0 4096 1]).All (pageHandler freshGlobals) (Roomy freshGlobals)
        freshState := by
  exact (tables_wellFormed_iff region_fresh reachable_fresh directMap_zero words_first started_fresh).1

/-- The first mapping on that heap makes `memset` write to address zero. -/
theorem exhausted_not_wellFormed :
    ¬∀ hhdm size addr fuel g h p calls st, Region size addr → Reachable size addr g h →
      DirectMap hhdm → (∀ c ∈ calls, Call.Words c) →
      init.run (pageHandler g) ⟨h, p, []⟩ = some ((), st) →
      (runCalls hhdm fuel calls).All (pageHandler g) (Good hhdm) st := by
  intro claimed
  have good := claimed 0 4096 256 2 ⟨256, 256, 4352⟩ freshHeap _ _ smallState region_freshHeap
    reachable_freshHeap directMap_zero words_first started_small
  have inv := inv_heapInit region_freshHeap fun _ => 0
  have tree : Tree _ 0 smallState _ fun _ => none := tree_init inv started_small
  -- the first page of the call asks for a table
  rw [runCalls, Program.all_bind] at good
  have mapped := good.1
  rw [Call.code, mapMemory, mapMemoryLoop, if_pos (by decide), Program.all_bind] at mapped
  have first := mapped.1
  rw [mapPage, Program.all_bind, ensureTable, readEntry, Program.all_perform_bind] at first
  have filled := first.1.2 (0, smallState) rfl
  rw [if_pos (by decide), Program.all_bind, Program.all_bind] at filled
  obtain ⟨s, member, -, large⟩ := room_of_good (placed_heapInit region_freshHeap) tree filled.1.1
  obtain rfl := List.mem_singleton.mp member
  exact absurd large (by decide)

end KopalniaOS.Paging
