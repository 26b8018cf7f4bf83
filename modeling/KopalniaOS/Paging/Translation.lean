import KopalniaOS.Paging.Requests

/-!
# What the walk finds

After any sequence of mapping calls the walk finds what the last call that contains a page
gave it, and nothing where no call reached.
-/
namespace KopalniaOS.Paging

open Library Heap

variable {g : Globals} {hhdm : Nat} {st : State} {ss : List Seg} {page : Pages}

/-! ### The start -/

theorem run_initLoop (count i : Nat) (st : State) :
    (initLoop count i).run (pageHandler g) st =
      some ((), { st with pml4 := fun j => if i ≤ j ∧ j < i + count then 0 else st.pml4 j }) := by
  induction count generalizing i st with
  | zero =>
    have none (j : Nat) : ¬(i ≤ j ∧ j < i) := by omega
    simp [initLoop, none]
  | succ count ih =>
    have first : (writeEntry .root i 0).run (pageHandler g) st =
        some ((), st.writeEntry .root i 0) := rfl
    rw [initLoop, Program.run_bind, first, Option.bind_some, ih]
    congr 2
    simp only [State.writeEntry, State.mk.injEq, true_and, and_true]
    -- the loop goes on with the entries behind this one
    funext j
    by_cases here : j = i
    · subst here
      simp [Function.update_self]
    · rw [Function.update_of_ne here]
      by_cases later : i + 1 ≤ j ∧ j < i + 1 + count
      · rw [if_pos later, if_pos (by omega)]
      · rw [if_neg later, if_neg (by omega)]

/-- `Init` leaves the empty tree. -/
theorem tree_init {h : HeapState} {p : Nat → Nat} (inv : HeapInv g h ss)
    (started : init.run (pageHandler g) ⟨h, p, []⟩ = some ((), st)) :
    Tree g hhdm st ss fun _ => none := by
  rw [init, run_initLoop] at started
  cases started
  refine ⟨inv, nofun, nofun, rfl, nofun, nofun, fun _ _ assigned => (assigned rfl).elim,
    fun path t i _ index at_ => ?_⟩
  cases path with
  | nil =>
    cases at_
    exact if_pos ⟨Nat.zero_le i, by omega⟩
  | cons j path => cases at_

/-- An allocation that succeeds has found room. -/
theorem grants_succeeds (placed : Placed g) : Grants g (Succeeds g) := by
  intro st ss inv succeeds
  by_contra full
  obtain ⟨st', answer, -⟩ := allocate_refused placed inv full
  exact succeeds 4096 4096 rfl _ answer rfl

/-- Where there is room, an allocation succeeds. -/
theorem funded_succeeds (placed : Placed g) : Funded g (Succeeds g) where
  others o st other := fun size align is => (other size align is).elim
  enough st ss inv room := by
    intro size align is r answer
    cases is
    obtain ⟨s, a, m, ss', given, aligned⟩ := allocate_page placed inv room
    cases given.symm.trans answer
    have := aligned.above
    exact Nat.ne_of_gt (by omega)

/-! ### What a sequence of calls maps -/

/-- The calls the property is about: aligned ranges of canonical pages with physical
addresses below `2 ^ 52`, and flags that say present. -/
def Call.Valid : Call → Prop
  | .mapMemory start last flags =>
    flags < 2 ^ 64 ∧ flags &&& Present ≠ 0 ∧ 4096 ∣ start ∧ start < 2 ^ 64 ∧
      last + 4095 < 2 ^ 64 ∧ ∀ v, 4096 ∣ v → start ≤ v → v < last → Canonical v ∧ v < 2 ^ 52
  | .mapMemoryVp virt phys size flags =>
    flags < 2 ^ 64 ∧ flags &&& Present ≠ 0 ∧ 4096 ∣ virt ∧ virt < 2 ^ 64 ∧ 4096 ∣ phys ∧
      4096 ∣ size ∧ size < 2 ^ 64 ∧ phys + size ≤ 2 ^ 52 ∧
      ∀ o, 4096 ∣ o → o < size → Canonical (u64 (virt + o))

/-- The physical page and the flags a call gives to a page of its range. -/
def Call.target (v : Nat) : Call → Option (Nat × Nat)
  | .mapMemory start last flags => if start ≤ v ∧ v < last then some (v, flags) else none
  | .mapMemoryVp virt phys size flags =>
    if sub64 v virt < size then some (phys + sub64 v virt, flags) else none

/-- What the last call that contains `v` gives it. -/
def expected (calls : List Call) (v : Nat) : Option (Nat × Nat) :=
  calls.reverse.findSome? (Call.target v)

/-- Canonical addresses that the indices cannot tell apart are in the same page. -/
theorem page_inj {v w : Nat} (canonicalV : Canonical v) (canonicalW : Canonical w)
    (same : slot v = slot w) : v / 4096 = w / 4096 := by
  unfold Canonical at canonicalV canonicalW
  unfold slot at same
  omega

theorem slot_inj {v w : Nat} (alignedV : 4096 ∣ v) (alignedW : 4096 ∣ w) (canonicalV : Canonical v)
    (canonicalW : Canonical w) (same : slot v = slot w) : v = w := by
  have pages := page_inj canonicalV canonicalW same
  omega

theorem present_or {p flags : Nat} (flag : flags &&& Present ≠ 0) :
    present (p ||| flags) = some (p ||| flags) := by
  unfold present
  rw [if_neg]
  intro zero
  rw [Nat.and_or_distrib_right, Nat.or_eq_zero_iff] at zero
  exact flag zero.2

theorem applied_mapMemory {start last flags : Nat} (valid : (Call.mapMemory start last flags).Valid)
    {v : Nat} (aligned : 4096 ∣ v) (canonical : Canonical v) (f : Nat → Option Nat) :
    applied (Call.mapMemory start last flags).writes f v =
      (((Call.mapMemory start last flags).target v).map fun t => t.1 ||| t.2).or (f v) := by
  obtain ⟨-, flag, alignedStart, -, -, pages⟩ := valid
  have rounded : start / 4096 * 4096 = start := by omega
  simp only [Call.writes, identityWrites, rounded, Call.target]
  -- a page of the range with the slot of `v` is `v`
  have unique {i : Nat} (inside : i < (last + 4095) / 4096 - start / 4096)
      (same : slot v = slot (start + 4096 * i)) : v = start + 4096 * i := by
    have page := pages (start + 4096 * i) (by omega) (by omega) (by omega)
    exact slot_inj aligned (by omega) canonical page.1 same
  by_cases inside : start ≤ v ∧ v < last
  · rw [if_pos inside]
    apply applied_of_all
    · refine ⟨_, List.mem_map.mpr ⟨(v - start) / 4096, ?_, rfl⟩, ?_⟩
      · simp only [List.mem_range'_1]
        omega
      · congr 1
        omega
    · intro w member same
      obtain ⟨i, range, rfl⟩ := List.mem_map.mp member
      simp only [List.mem_range'_1] at range
      have equal := unique (by omega) same
      simp only [← equal]
      exact present_or flag
  · rw [if_neg inside]
    apply applied_of_none
    intro w member same
    obtain ⟨i, range, rfl⟩ := List.mem_map.mp member
    simp only [List.mem_range'_1] at range
    have equal := unique (by omega) same
    omega

theorem applied_mapMemoryVp {virt phys size flags : Nat}
    (valid : (Call.mapMemoryVp virt phys size flags).Valid) {v : Nat} (aligned : 4096 ∣ v)
    (canonical : Canonical v) (f : Nat → Option Nat) :
    applied (Call.mapMemoryVp virt phys size flags).writes f v =
      (((Call.mapMemoryVp virt phys size flags).target v).map fun t => t.1 ||| t.2).or (f v) := by
  obtain ⟨-, flag, alignedVirt, word, alignedPhys, alignedSize, sizeWord, low, pages⟩ := valid
  have vWord : v < 2 ^ 64 := by
    unfold Canonical at canonical
    omega
  simp only [Call.writes, vpWrites, Call.target]
  -- a page of the range with the slot of `v` is `v`, so its offset is that of `v`
  have unique {i : Nat} (inside : 4096 * i < size) (same : slot v = slot (u64 (virt + 4096 * i))) :
      sub64 v virt = 4096 * i := by
    have page := pages (4096 * i) (by omega) inside
    have equal := slot_inj aligned (by unfold u64; omega) canonical page same
    unfold sub64
    unfold u64 at equal ⊢
    omega
  by_cases inside : sub64 v virt < size
  · rw [if_pos inside]
    -- the offset of `v` in the range is the step that sets its page
    have back : u64 (virt + sub64 v virt) = v := by
      rw [Nat.add_comm]
      exact u64_sub64_add vWord word
    have multiple : 4096 ∣ sub64 v virt := by
      unfold sub64 u64
      omega
    apply applied_of_all
    · refine ⟨_, List.mem_map.mpr ⟨sub64 v virt / 4096, ?_, rfl⟩, ?_⟩
      · simp only [List.mem_range'_1]
        omega
      · rw [Nat.mul_div_cancel' multiple, back]
    · intro w member same
      obtain ⟨i, range, rfl⟩ := List.mem_map.mp member
      simp only [List.mem_range'_1] at range
      have equal := unique (by omega) same
      simp only [← equal, u64_of_lt (show phys + sub64 v virt < 2 ^ 64 by omega)]
      exact present_or flag
  · rw [if_neg inside]
    apply applied_of_none
    intro w member same
    obtain ⟨i, range, rfl⟩ := List.mem_map.mp member
    simp only [List.mem_range'_1] at range
    have equal := unique (by omega) same
    omega

theorem Call.Valid.bounded {c : Call} (valid : c.Valid) : c.Bounded := by
  cases c with
  | mapMemory start last flags =>
    obtain ⟨word, -, -, startWord, noWrap, -⟩ := valid
    exact ⟨startWord, noWrap, word⟩
  | mapMemoryVp virt phys size flags =>
    obtain ⟨word, -, -, -, -, aligned, sizeWord, -⟩ := valid
    exact ⟨by omega, word⟩

/-- The pages set by valid calls are what the last call that contains them says. -/
theorem applied_calls (calls : List Call) (valid : ∀ c ∈ calls, c.Valid) {v : Nat}
    (aligned : 4096 ∣ v) (canonical : Canonical v) (f : Nat → Option Nat) :
    applied (calls.flatMap Call.writes) f v =
      ((expected calls v).map fun t => t.1 ||| t.2).or (f v) := by
  induction calls generalizing f with
  | nil => rfl
  | cons c calls ih =>
    have here : applied c.writes f v = ((c.target v).map fun t => t.1 ||| t.2).or (f v) := by
      have first := valid c List.mem_cons_self
      cases c with
      | mapMemory start last flags => exact applied_mapMemory first aligned canonical f
      | mapMemoryVp virt phys size flags => exact applied_mapMemoryVp first aligned canonical f
    have last : expected (c :: calls) v = (expected calls v).or (c.target v) := by
      simp [expected, List.findSome?_append]
    rw [List.flatMap_cons, applied_append,
      ih (fun d member => valid d (List.mem_cons_of_mem c member)), here, last]
    cases expected calls v <;> rfl

/-- The page and the flags of a call have the shape an entry keeps apart. -/
theorem expected_page {calls : List Call} (valid : ∀ c ∈ calls, c.Valid) {v : Nat}
    (aligned : 4096 ∣ v) {t : Nat × Nat} (found : expected calls v = some t) :
    4096 ∣ t.1 ∧ t.1 < 2 ^ 52 ∧ t.2 < 2 ^ 64 := by
  -- the latest call that covers the page decides
  obtain ⟨c, member, target⟩ := List.exists_of_findSome?_eq_some found
  have call := valid c (List.mem_reverse.mp member)
  cases c with
  | mapMemory start last flags =>
    obtain ⟨word, -, -, -, -, pages⟩ := call
    simp only [Call.target, Option.ite_none_right_eq_some, Option.some.injEq] at target
    obtain ⟨inside, rfl⟩ := target
    exact ⟨aligned, (pages v aligned inside.1 inside.2).2, word⟩
  | mapMemoryVp virt phys size flags =>
    obtain ⟨word, -, alignedVirt, -, alignedPhys, -, -, low, -⟩ := call
    simp only [Call.target, Option.ite_none_right_eq_some, Option.some.injEq] at target
    obtain ⟨inside, rfl⟩ := target
    refine ⟨?_, by simp only; omega, word⟩
    have multiple : 4096 ∣ sub64 v virt := by
      unfold sub64 u64
      omega
    exact Nat.dvd_add alignedPhys multiple

/-- An entry keeps page and flags apart, unless flags reach into the address bits. -/
theorem entry_split {p flags : Nat} (aligned : 4096 ∣ p) (low : p < 2 ^ 52) (word : flags < 2 ^ 64)
    (apart : flags &&& addressMask = 0) :
    (p ||| flags) &&& addressMask = p ∧ (p ||| flags) &&& not64 addressMask = flags := by
  have kept : p &&& addressMask = p := by
    have split : addressMask = not64 4095 &&& (2 ^ 52 - 1) := by decide
    rw [split, ← Nat.and_assoc, and_not64_page (by omega), Nat.and_two_pow_sub_one_eq_mod]
    omega
  have complement : flags &&& not64 addressMask = flags := by
    have whole : flags &&& (addressMask ||| not64 addressMask) = flags := by
      rw [show addressMask ||| not64 addressMask = 2 ^ 64 - 1 by decide,
        Nat.and_two_pow_sub_one_eq_mod, Nat.mod_eq_of_lt word]
    rwa [Nat.and_or_distrib_left, apart, Nat.zero_or] at whole
  -- the page has address bits only, and the flags none of them
  have none : p &&& not64 addressMask = 0 := by
    rw [← kept, Nat.and_assoc, show addressMask &&& not64 addressMask = 0 by decide, Nat.and_zero]
  rw [Nat.and_or_distrib_right, Nat.and_or_distrib_right, kept, apart, none, complement]
  exact ⟨Nat.or_zero p, Nat.zero_or flags⟩

/-- After any sequence of valid calls whose allocations succeed, the walk of a canonical page
finds the page and flags of the last call that contains it, and nothing where none does. The
walk may use the code's mask, or the processor's when the heap is in physical reach. -/
theorem walk_runCalls {size addr : Nat} {h : HeapState} {p : Nat → Nat} {calls : List Call}
    {mask : Nat} (region : Region size addr) (reached : Reachable size addr g h)
    (direct : DirectMap hhdm) (valid : ∀ c ∈ calls, c.Valid)
    (masked : WalkMask g hhdm mask)
    (started : init.run (pageHandler g) ⟨h, p, []⟩ = some ((), st))
    (granted : (runCalls hhdm loopBound calls).All (pageHandler g) (Succeeds g) st) :
    ∃ st', (runCalls hhdm loopBound calls).run (pageHandler g) st = some ((), st') ∧
      ∀ v, 4096 ∣ v → Canonical v →
        walk mask hhdm st' v = (expected calls v).map (fun t => t.1 ||| t.2) ∧
        ∀ t, expected calls v = some t → t.2 &&& addressMask = 0 →
          (t.1 ||| t.2) &&& addressMask = t.1 ∧ (t.1 ||| t.2) &&& not64 addressMask = t.2 := by
  obtain ⟨rfl, ss, inv⟩ := reachable_inv region reached
  have placed := placed_heapInit region
  have recovers := masked.recovers placed direct
  have tree : Tree _ hhdm st ss fun _ => none := tree_init inv started
  -- the tables start empty, and every call sets what it covers
  obtain ⟨_, st', ran, ss', page', tree', -, sets⟩ := (meets_runCalls placed direct
    (grants_succeeds placed) tree calls fun c member => (valid c member).bounded).returns granted id
  refine ⟨st', ran, fun v aligned canonical => ⟨?_, fun t found apart => ?_⟩⟩
  · rw [tree'.walk_eq placed direct recovers, sets, applied_calls calls valid aligned canonical]
    exact Option.or_none
  · obtain ⟨alignedPage, low, word⟩ := expected_page valid aligned found
    exact entry_split alignedPage low word apart

/-! ### A first mapping -/

/-- The globals of a heap of 64 KiB. -/
def freshGlobals : Globals := ⟨65536, 65536, 131072⟩

/-- That heap with nothing in it, and `PML4` after `Init`. -/
def freshState : State :=
  ⟨⟨freshHeader (fun _ => 0) 65536 65504 0 0, []⟩,
    fun j => if 0 ≤ j ∧ j < 0 + 512 then 0 else 0, []⟩

theorem region_fresh : Region 65536 65536 :=
  ⟨by decide, by decide, by decide, by decide, by decide⟩

theorem reachable_fresh : Reachable 65536 65536 freshGlobals freshState.heap :=
  .init (run_heapInit region_fresh fun _ => 0)

theorem started_fresh : init.run (pageHandler freshGlobals) ⟨freshState.heap, fun _ => 0, []⟩ =
    some ((), freshState) :=
  run_initLoop 512 0 _

theorem directMap_zero : DirectMap 0 := ⟨by decide, by decide⟩

theorem placed_fresh : Placed freshGlobals := placed_heapInit region_fresh

theorem tree_fresh : Tree freshGlobals 0 freshState [⟨65536, 65504, true⟩] fun _ => none :=
  tree_init (inv_heapInit region_fresh fun _ => 0) started_fresh

/-- Two pages fit into that heap with all their tables. -/
theorem room_fresh : Room 6 [⟨65536, 65504, true⟩] :=
  ⟨_, List.mem_singleton.mpr rfl, rfl, by decide⟩

theorem walk_runCalls_identity :
    ∃ st', (runCalls 0 loopBound [.mapMemory 0 4096 1]).run (pageHandler freshGlobals) freshState =
        some ((), st') ∧
      walk tableMask 0 st' 0 = some 1 ∧ walk tableMask 0 st' 4096 = none := by
  have valid : ∀ c ∈ [Call.mapMemory 0 4096 1], c.Valid := by
    intro c member
    obtain rfl := List.mem_singleton.mp member
    refine ⟨by decide, by decide, by decide, by decide, by decide, fun v _ _ below => ?_⟩
    exact ⟨.inl (by omega), by omega⟩
  have granted := all_runCalls placed_fresh directMap_zero (grants_succeeds placed_fresh)
    (funded_succeeds placed_fresh) tree_fresh _ (fun c member => (valid c member).bounded)
    (room_fresh.mono (by decide))
  obtain ⟨st', ran, walks⟩ := walk_runCalls region_fresh reachable_fresh directMap_zero valid
    (.inl rfl) started_fresh granted
  exact ⟨st', ran, (walks 0 (by decide) (.inl (by decide))).1,
    (walks 4096 (by decide) (.inl (by decide))).1⟩

end KopalniaOS.Paging
