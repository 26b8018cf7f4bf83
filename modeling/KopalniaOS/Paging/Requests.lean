import KopalniaOS.Paging.Mapping

/-!
# Sequences of mapping calls

A call is the list of pages it sets, in order. Both loops and every sequence of calls meet
the contract of the tables with the pages of their lists as postcondition, and a free
block of three pages for each page on the list is memory enough.
-/
namespace KopalniaOS.Paging

open Library Heap

variable {g : Globals} {hhdm : Nat} {st : State} {ss : List Seg} {page : Pages}
variable {assume : PageOp → State → Prop} {hang : Prop}

/-! ### Page lists -/

/-- The view after setting pages one after the other. -/
def applied : List (Nat × Nat) → (Nat → Option Nat) → Nat → Option Nat
  | [], f => f
  | w :: ws, f => applied ws fun virt => if slot virt = slot w.1 then present w.2 else f virt

theorem applied_append (ws ws' : List (Nat × Nat)) (f : Nat → Option Nat) :
    applied (ws ++ ws') f = applied ws' (applied ws f) := by
  induction ws generalizing f with
  | nil => rfl
  | cons w ws ih => exact ih _

theorem applied_of_none {ws : List (Nat × Nat)} {f : Nat → Option Nat} {virt : Nat}
    (other : ∀ w ∈ ws, slot virt ≠ slot w.1) : applied ws f virt = f virt := by
  induction ws generalizing f with
  | nil => rfl
  | cons w ws ih =>
    rw [applied, ih fun u member => other u (List.mem_cons_of_mem w member),
      if_neg (other w List.mem_cons_self)]

/-- When all writes to a page agree, their order does not matter. -/
theorem applied_of_all {ws : List (Nat × Nat)} {f : Nat → Option Nat} {virt : Nat} {r : Option Nat}
    (some : ∃ w ∈ ws, slot virt = slot w.1) (agree : ∀ w ∈ ws, slot virt = slot w.1 → present w.2 = r) :
    applied ws f virt = r := by
  induction ws generalizing f with
  | nil =>
    obtain ⟨w, member, -⟩ := some
    cases member
  | cons w ws ih =>
    rw [applied]
    -- the last write to the page decides, and all of them agree
    by_cases later : ∃ u ∈ ws, slot virt = slot u.1
    · exact ih later fun u member => agree u (List.mem_cons_of_mem w member)
    · have others : ∀ u ∈ ws, slot virt ≠ slot u.1 := fun u member same => later ⟨u, member, same⟩
      obtain ⟨u, member, same⟩ := some
      rcases List.mem_cons.mp member with rfl | tail
      · rw [applied_of_none others, if_pos same]
        exact agree u List.mem_cons_self same
      · exact (others u tail same).elim

/-- The pages `Map_memory_vp` sets from the `j`-th on. -/
def vpWrites (virt phys flags j count : Nat) : List (Nat × Nat) :=
  (List.range' j count).map fun i => (u64 (virt + 4096 * i), u64 (phys + 4096 * i) ||| flags)

/-- The pages `Map_memory` sets from the `j`-th on. -/
def identityWrites (start flags j count : Nat) : List (Nat × Nat) :=
  (List.range' j count).map fun i => (start + 4096 * i, (start + 4096 * i) ||| flags)

def Call.writes : Call → List (Nat × Nat)
  | .mapMemory start last flags =>
    identityWrites (start / 4096 * 4096) flags 0 ((last + 4095) / 4096 - start / 4096)
  | .mapMemoryVp virt phys size flags => vpWrites virt phys flags 0 ((size + 4095) / 4096)

/-! ### The loops -/

/-- What a call leaves behind: a tree whose view is the old one with the pages set. -/
abbrev Sets (g : Globals) (hhdm : Nat) (st : State) (ss : List Seg) (page : Pages)
    (ws : List (Nat × Nat)) (st' : State) : Prop :=
  ∃ ss' page', Tree g hhdm st' ss' page' ∧ Spends (3 * ws.length) ss ss' ∧
    ∀ virt, view st' page' virt = applied ws (view st page) virt

/-- Setting more pages after `ws`. -/
theorem sets_append {st₁ st₂ : State} {ss₁ : List Seg} {page₁ : Pages} {ws ws' : List (Nat × Nat)}
    (spends : Spends (3 * ws.length) ss ss₁)
    (set : ∀ virt, view st₁ page₁ virt = applied ws (view st page) virt)
    (rest : Sets g hhdm st₁ ss₁ page₁ ws' st₂) : Sets g hhdm st ss page (ws ++ ws') st₂ := by
  obtain ⟨ss₂, page₂, tree₂, spends', sets⟩ := rest
  refine ⟨ss₂, page₂, tree₂, fun k room => spends' k (spends _ (room.mono ?_)), fun virt => ?_⟩
  · rw [List.length_append]
    omega
  · rw [sets, funext set, applied_append]

/-- Setting more pages after one. -/
theorem sets_cons {st₁ st₂ : State} {ss₁ : List Seg} {page₁ : Pages} {w : Nat × Nat}
    {ws : List (Nat × Nat)} (spends : Spends 3 ss ss₁)
    (set : ∀ virt, view st₁ page₁ virt =
      if slot virt = slot w.1 then present w.2 else view st page virt)
    (rest : Sets g hhdm st₁ ss₁ page₁ ws st₂) : Sets g hhdm st ss page (w :: ws) st₂ := by
  have one : ∀ virt, view st₁ page₁ virt = applied [w] (view st page) virt := set
  have spent : Spends (3 * [w].length) ss ss₁ := spends
  exact sets_append spent one rest

theorem meets_mapMemoryVpLoop (placed : Placed g) (direct : DirectMap hhdm)
    (grants : Grants g assume) {virt phys size flags : Nat} (word : flags < 2 ^ 64)
    (noWrap : size ≤ 2 ^ 64 - 4096) (count j fuel : Nat) (tree : Tree g hhdm st ss page)
    (covers : size ≤ 4096 * (j + count)) (tight : 4096 * (j + count) < size + 4096)
    (enough : count < fuel) :
    (mapMemoryVpLoop hhdm virt phys size flags fuel (4096 * j)).Meets (pageHandler g)
      (tables hhdm assume hang) st fun _ st' =>
        Sets g hhdm st ss page (vpWrites virt phys flags j count) st' := by
  induction count generalizing st ss page j fuel with
  | zero =>
    obtain ⟨fuel, rfl⟩ : ∃ k, fuel = k + 1 := ⟨fuel - 1, by omega⟩
    rw [mapMemoryVpLoop, if_neg (by omega)]
    exact ⟨ss, page, tree, .refl _ ss, fun _ => rfl⟩
  | succ count ih =>
    obtain ⟨fuel, rfl⟩ : ∃ k, fuel = k + 1 := ⟨fuel - 1, by omega⟩
    -- the offset cannot wrap: the last step ends less than a page behind `size`
    have next : u64 (4096 * j + 4096) = 4096 * (j + 1) := by
      rw [u64_of_lt (by omega)]
      omega
    have leaf : u64 (phys + 4096 * j) ||| flags < 2 ^ 64 := Nat.or_lt_two_pow (u64_lt _) word
    rw [mapMemoryVpLoop, if_pos (by omega), next, Program.meets_bind]
    refine (meets_mapPage placed direct grants tree _ _ leaf).mono ?_
    rintro _ st₁ ⟨ss₁, page₁, tree₁, spends₁, set⟩
    refine (ih (j + 1) fuel tree₁ (by omega) (by omega) (by omega)).mono ?_
    intro _ st₂ rest
    rw [vpWrites, List.range'_succ, List.map_cons]
    exact sets_cons spends₁ set rest

theorem meets_mapMemoryLoop (placed : Placed g) (direct : DirectMap hhdm)
    (grants : Grants g assume) {start last flags : Nat} (word : flags < 2 ^ 64)
    (noWrap : last < 2 ^ 64) (count j fuel : Nat) {addr : Nat} (here : addr = start + 4096 * j)
    (tree : Tree g hhdm st ss page) (covers : last ≤ start + 4096 * (j + count))
    (tight : 0 < count → start + 4096 * (j + count) ≤ last) (enough : count < fuel) :
    (mapMemoryLoop hhdm last flags fuel addr).Meets (pageHandler g)
      (tables hhdm assume hang) st fun _ st' =>
        Sets g hhdm st ss page (identityWrites start flags j count) st' := by
  induction count generalizing st ss page j fuel addr with
  | zero =>
    obtain ⟨fuel, rfl⟩ : ∃ k, fuel = k + 1 := ⟨fuel - 1, by omega⟩
    rw [mapMemoryLoop, if_neg (by omega)]
    exact ⟨ss, page, tree, .refl _ ss, fun _ => rfl⟩
  | succ count ih =>
    obtain ⟨fuel, rfl⟩ : ∃ k, fuel = k + 1 := ⟨fuel - 1, by omega⟩
    -- the address cannot wrap: the loop ends at a multiple of the page size
    have next : u64 (addr + 4096) = start + 4096 * (j + 1) := by
      rw [u64_of_lt (by omega)]
      omega
    have leaf : addr ||| flags < 2 ^ 64 := Nat.or_lt_two_pow (by omega) word
    rw [mapMemoryLoop, if_pos (by omega), Program.meets_bind]
    refine (meets_mapPage placed direct grants tree _ _ leaf).mono ?_
    rintro _ st₁ ⟨ss₁, page₁, tree₁, spends₁, set⟩
    refine (ih (j + 1) fuel next tree₁ (by omega) (by omega) (by omega)).mono ?_
    intro _ st₂ rest
    rw [identityWrites, List.range'_succ, List.map_cons, ← here]
    exact sets_cons spends₁ set rest

/-- What a call needs so that its loop ends: the sums its bounds are made of do not wrap. -/
def Call.Bounded : Call → Prop
  | .mapMemory start last flags => start < 2 ^ 64 ∧ last + 4095 < 2 ^ 64 ∧ flags < 2 ^ 64
  | .mapMemoryVp _ _ size flags => size ≤ 2 ^ 64 - 4096 ∧ flags < 2 ^ 64

theorem meets_call (placed : Placed g) (direct : DirectMap hhdm) (grants : Grants g assume)
    (tree : Tree g hhdm st ss page) {c : Call} (bounded : c.Bounded) :
    (c.code hhdm loopBound).Meets (pageHandler g) (tables hhdm assume hang) st fun _ st' =>
      Sets g hhdm st ss page c.writes st' := by
  unfold loopBound
  cases c with
  | mapMemory start last flags =>
    obtain ⟨startWord, noWrap, word⟩ := bounded
    simp only [Call.code, mapMemory, Call.writes]
    rw [u64_of_lt noWrap, and_not64_page noWrap, and_not64_page startWord]
    refine meets_mapMemoryLoop placed direct grants word ?_ _ 0 _ ?_ tree ?_ ?_ ?_ <;> omega
  | mapMemoryVp virt phys size flags =>
    obtain ⟨noWrap, word⟩ := bounded
    simp only [Call.code, mapMemoryVp, Call.writes]
    exact meets_mapMemoryVpLoop placed direct grants word noWrap _ 0 _ tree (by omega) (by omega)
      (by omega)

theorem meets_runCalls (placed : Placed g) (direct : DirectMap hhdm) (grants : Grants g assume)
    (tree : Tree g hhdm st ss page) (calls : List Call) (bounded : ∀ c ∈ calls, c.Bounded) :
    (runCalls hhdm loopBound calls).Meets (pageHandler g) (tables hhdm assume hang) st fun _ st' =>
      Sets g hhdm st ss page (calls.flatMap Call.writes) st' := by
  induction calls generalizing st ss page with
  | nil => exact ⟨ss, page, tree, .refl _ ss, fun _ => rfl⟩
  | cons c calls ih =>
    rw [runCalls, Program.meets_bind]
    refine (meets_call placed direct grants tree (bounded c List.mem_cons_self)).mono ?_
    rintro _ st₁ ⟨ss₁, page₁, tree₁, spends₁, set⟩
    refine (ih tree₁ fun d member => bounded d (List.mem_cons_of_mem c member)).mono ?_
    intro _ st₂ rest
    exact sets_append spends₁ set rest

/-! ### Memory enough -/

/-- An assumption that holds wherever a page can be taken, and of all other operations. -/
structure Funded (g : Globals) (assume : PageOp → State → Prop) : Prop where
  others : ∀ o st, (∀ size align, o ≠ .mallocAlign size align) → assume o st
  enough : ∀ st ss, HeapInv g st.heap ss → Room 0 ss → assume (.mallocAlign 4096 4096) st

theorem all_memsetLoop (funded : Funded g assume) (dst value count i : Nat) :
    (memsetLoop dst value count i).All (pageHandler g) assume st := by
  induction count generalizing st i with
  | zero => exact Program.all_ret () st
  | succ count ih =>
    rw [memsetLoop, storeByte, Program.all_perform_bind]
    exact ⟨funded.others _ _ (by simp), fun r _ => ih (i + 1)⟩

theorem all_allocPage (funded : Funded g assume) (tree : Tree g hhdm st ss page)
    (room : Room 0 ss) : (allocPage hhdm).All (pageHandler g) assume st := by
  rw [allocPage, pageAlloc, Program.all_perform_bind]
  refine ⟨funded.enough st ss tree.heap room, fun r _ => ?_⟩
  rw [Program.all_bind]
  exact ⟨all_memsetLoop funded _ _ _ _, fun _ _ _ => Program.all_ret _ _⟩

theorem all_ensureTable (funded : Funded g assume) (tree : Tree g hhdm st ss page) (t : Table)
    (i : Nat) (room : st.entry t i &&& Present = 0 → Room 0 ss) :
    (ensureTable hhdm t i).All (pageHandler g) assume st := by
  have last (t' : State) : (readEntry t i >>= fun entry =>
      (pure (.page (toVirtual hhdm (entry &&& tableMask))) : PageProgram Table)).All
      (pageHandler g) assume t' := by
    rw [readEntry, Program.all_perform_bind]
    exact ⟨funded.others _ _ (by simp), fun _ _ => Program.all_ret _ _⟩
  rw [ensureTable, readEntry, Program.all_perform_bind]
  refine ⟨funded.others _ _ (by simp), fun r answer => ?_⟩
  cases answer
  rw [Program.all_bind]
  -- only a missing table takes a page
  refine ⟨?_, fun _ t' _ => last t'⟩
  split
  · next absent =>
    rw [Program.all_bind]
    refine ⟨all_allocPage funded tree (room absent), fun _ _ _ => ?_⟩
    exact (Program.all_op _ _ _).mpr ⟨funded.others _ _ (by simp), fun _ _ => Program.all_ret _ _⟩
  · exact Program.all_ret _ _

/-- A page needs three tables at most. -/
theorem all_mapPage (placed : Placed g) (direct : DirectMap hhdm) (grants : Grants g assume)
    (funded : Funded g assume) (tree : Tree g hhdm st ss page) (v leaf : Nat) (room : Room 2 ss) :
    (mapPage hhdm v leaf).All (pageHandler g) assume st := by
  have root : tableOf page [] = some .root := rfl
  rw [mapPage]
  apply Program.all_bind_of_meets (all_ensureTable funded tree _ _ fun _ => room.mono (by omega))
    (meets_ensureTable placed direct grants tree root (by simp) (index_lt v 39))
  rintro pdpt st₁ ⟨ss₁, page₁, tree₁, at₁, -, spends₁⟩
  have room₁ : Room 1 ss₁ := spends₁ 1 room
  apply Program.all_bind_of_meets (all_ensureTable funded tree₁ _ _ fun _ => room₁.mono (by omega))
    (meets_ensureTable placed direct grants tree₁ at₁ (by simp) (index_lt v 30))
  rintro pd st₂ ⟨ss₂, page₂, tree₂, at₂, -, spends₂⟩
  rw [Program.all_bind]
  refine ⟨all_ensureTable funded tree₂ _ _ fun _ => spends₂ 0 room₁, fun _ _ _ => ?_⟩
  exact (Program.all_op _ _ _).mpr ⟨funded.others _ _ (by simp), fun _ _ => Program.all_ret _ _⟩

/-- A loop that maps `count` pages needs the memory of `3 * count` tables at most. -/
theorem all_mapMemoryVpLoop (placed : Placed g) (direct : DirectMap hhdm) (grants : Grants g assume)
    (funded : Funded g assume) {virt phys size flags : Nat} (word : flags < 2 ^ 64)
    (noWrap : size ≤ 2 ^ 64 - 4096) (count j fuel : Nat) (tree : Tree g hhdm st ss page)
    (covers : size ≤ 4096 * (j + count)) (room : Room (3 * count) ss) :
    (mapMemoryVpLoop hhdm virt phys size flags fuel (4096 * j)).All (pageHandler g) assume st := by
  induction fuel generalizing st ss page j count with
  | zero => exact Program.all_stuck st
  | succ fuel ih =>
    rw [mapMemoryVpLoop]
    by_cases more : 4096 * j < size
    -- one more turn pays for at most three tables
    · obtain ⟨count, rfl⟩ : ∃ k, count = k + 1 := ⟨count - 1, by omega⟩
      have next : u64 (4096 * j + 4096) = 4096 * (j + 1) := by
        rw [u64_of_lt (by omega)]
        omega
      have leaf : u64 (phys + 4096 * j) ||| flags < 2 ^ 64 := Nat.or_lt_two_pow (u64_lt _) word
      rw [if_pos more, next]
      apply Program.all_bind_of_meets
        (all_mapPage placed direct grants funded tree _ _ (room.mono (by omega)))
        (meets_mapPage placed direct grants tree _ _ leaf)
      rintro _ st₁ ⟨ss₁, page₁, tree₁, spends₁, -⟩
      exact ih count (j + 1) tree₁ (by omega) (spends₁ _ room)
    · rw [if_neg more]
      exact Program.all_ret () st

theorem all_mapMemoryLoop (placed : Placed g) (direct : DirectMap hhdm) (grants : Grants g assume)
    (funded : Funded g assume) {last flags : Nat} (word : flags < 2 ^ 64) (aligned : 4096 ∣ last)
    (noWrap : last < 2 ^ 64) (count fuel addr : Nat) (tree : Tree g hhdm st ss page)
    (covers : last ≤ addr + 4096 * count) (start : 4096 ∣ addr) (room : Room (3 * count) ss) :
    (mapMemoryLoop hhdm last flags fuel addr).All (pageHandler g) assume st := by
  induction fuel generalizing st ss page addr count with
  | zero => exact Program.all_stuck st
  | succ fuel ih =>
    rw [mapMemoryLoop]
    by_cases more : addr < last
    -- one more turn pays for at most three tables
    · obtain ⟨count, rfl⟩ : ∃ k, count = k + 1 := ⟨count - 1, by omega⟩
      have next : u64 (addr + 4096) = addr + 4096 := u64_of_lt (by omega)
      have leaf : addr ||| flags < 2 ^ 64 := Nat.or_lt_two_pow (by omega) word
      rw [if_pos more, next]
      apply Program.all_bind_of_meets
        (all_mapPage placed direct grants funded tree _ _ (room.mono (by omega)))
        (meets_mapPage placed direct grants tree _ _ leaf)
      rintro _ st₁ ⟨ss₁, page₁, tree₁, spends₁, -⟩
      exact ih count (addr + 4096) tree₁ (by omega) (by omega) (spends₁ _ room)
    · rw [if_neg more]
      exact Program.all_ret () st

theorem all_call (placed : Placed g) (direct : DirectMap hhdm) (grants : Grants g assume)
    (funded : Funded g assume) (tree : Tree g hhdm st ss page) {c : Call} (bounded : c.Bounded)
    (fuel : Nat) (room : Room (3 * c.writes.length) ss) :
    (c.code hhdm fuel).All (pageHandler g) assume st := by
  cases c with
  | mapMemory start last flags =>
    obtain ⟨startWord, noWrap, word⟩ := bounded
    simp only [Call.writes, identityWrites, List.length_map, List.length_range'] at room
    simp only [Call.code, mapMemory]
    rw [u64_of_lt noWrap, and_not64_page noWrap, and_not64_page startWord]
    refine all_mapMemoryLoop placed direct grants funded word ?_ ?_ _ fuel _ tree ?_ ?_ room <;> omega
  | mapMemoryVp virt phys size flags =>
    obtain ⟨noWrap, word⟩ := bounded
    simp only [Call.writes, vpWrites, List.length_map, List.length_range'] at room
    exact all_mapMemoryVpLoop placed direct grants funded word noWrap _ 0 fuel tree (by omega) room

theorem all_runCalls (placed : Placed g) (direct : DirectMap hhdm) (grants : Grants g assume)
    (funded : Funded g assume) (tree : Tree g hhdm st ss page) (calls : List Call)
    (bounded : ∀ c ∈ calls, c.Bounded)
    (room : Room (3 * (calls.flatMap Call.writes).length) ss) :
    (runCalls hhdm loopBound calls).All (pageHandler g) assume st := by
  induction calls generalizing st ss page with
  | nil => exact Program.all_ret () st
  | cons c calls ih =>
    have first := bounded c List.mem_cons_self
    rw [List.flatMap_cons, List.length_append] at room
    rw [runCalls]
    apply Program.all_bind_of_meets
      (all_call placed direct grants funded tree first loopBound (room.mono (by omega)))
      (meets_call placed direct grants tree first)
    rintro _ st₁ ⟨ss₁, page₁, tree₁, spends₁, -⟩
    refine ih tree₁ (fun d member => bounded d (List.mem_cons_of_mem c member)) (spends₁ _ ?_)
    exact room.mono (by omega)

end KopalniaOS.Paging
