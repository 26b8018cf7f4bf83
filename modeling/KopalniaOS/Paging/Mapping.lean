import KopalniaOS.Paging.Tree

/-!
# What the mapping calls do to the tree

Each function of `Paging.cpp` meets one contract: as long as `alloc_page` is given memory,
every write goes to `PML4` or to a page of its own, and the tree stays well formed. The
postconditions say which entries a call sets.
-/
namespace KopalniaOS.Paging

open Library Heap

variable {g : Globals} {hhdm : Nat} {st : State} {ss : List Seg} {page : Pages}

/-! ### The contract -/

/-- What is owed at every operation. -/
def Good (hhdm : Nat) (o : PageOp) (st : State) : Prop := TreeWellFormed hhdm st ∧ InTables st o

/-- `assume` is what is known about allocations; a call may hang when `hang` allows it. -/
def tables (hhdm : Nat) (assume : PageOp → State → Prop) (hang : Prop) : Contract PageOp State :=
  ⟨assume, Good hhdm, hang⟩

/-- A free block from which `k` pages can be taken before the last one. -/
def Room (k : Nat) (ss : List Seg) : Prop := ∃ s ∈ ss, s.free = true ∧ 8208 + 8240 * k ≤ s.size

/-- What took at most `n` pages from the heap. -/
def Spends (n : Nat) (ss ss' : List Seg) : Prop := ∀ k, Room (k + n) ss → Room k ss'

theorem Room.mono {k k' : Nat} (room : Room k ss) (le : k' ≤ k) : Room k' ss := by
  obtain ⟨s, member, free, large⟩ := room
  exact ⟨s, member, free, by omega⟩

theorem Spends.refl (n : Nat) (ss : List Seg) : Spends n ss ss :=
  fun _ room => room.mono (by omega)

theorem Spends.trans {n n' : Nat} {ss₁ ss₂ : List Seg} (first : Spends n ss ss₁)
    (second : Spends n' ss₁ ss₂) : Spends (n + n') ss ss₂ := by
  intro k room
  apply second
  apply first
  exact room.mono (by omega)

/-- The assumption is good enough for `alloc_page` on every good heap. -/
def Grants (g : Globals) (assume : PageOp → State → Prop) : Prop :=
  ∀ st ss, HeapInv g st.heap ss → assume (.mallocAlign 4096 4096) st → Room 0 ss

/-- The allocation of this operation does not return null. -/
def Succeeds (g : Globals) (o : PageOp) (st : State) : Prop :=
  ∀ size align, o = .mallocAlign size align → ∀ r, st.allocate g size align = some r → r.1 ≠ 0

variable {assume : PageOp → State → Prop} {hang : Prop}

/-! ### `alloc_page` -/

/-- The state after `malloc_align` gave the page at `a` out of the segment `s`. -/
def State.grown (st : State) (s : Seg) (a : Nat) (m : Memory) : State :=
  ⟨st.heap.allocated (s.addr + 32) m, st.pml4, a :: st.pages⟩

/-- The pages there were are where they were, with what they held. -/
theorem Tree.kept (tree : Tree g hhdm st ss page) {s : Seg} {ss' : List Seg} {a : Nat} {m : Memory}
    (given : AlignedIn g st.heap ss 4096 4096 a m s ss') {b : Nat} (member : b ∈ st.pages) :
    (∃ t ∈ ss', t.free = false ∧ t ≠ s ∧ Inside t b) ∧
      ∀ x, b ≤ x → x < b + 4096 → m x = st.heap.mem x := by
  obtain ⟨-, t, inside, unfree, lower, upper⟩ := tree.placed b member
  obtain ⟨stays, other⟩ := given.kept t inside unfree
  refine ⟨⟨t, stays, unfree, other, lower, upper⟩, fun x above below => ?_⟩
  exact given.payload t inside unfree x (by omega) (by omega)

theorem Tree.grown (placed : Placed g) (tree : Tree g hhdm st ss page) {s : Seg} {ss' : List Seg}
    {a : Nat} {m : Memory} (given : AlignedIn g st.heap ss 4096 4096 a m s ss') :
    Tree g hhdm (st.grown s a m) ss' page := by
  have above := given.above
  have here : Inside s a := ⟨by omega, given.below⟩
  -- segments are disjoint, so a page lies in one of them only
  have unique {t : Seg} {b : Nat} (member : t ∈ ss') (inT : Inside t b) {u : Seg} (other : u ∈ ss')
      (inU : Inside u b) : t = u :=
    inside_unique given.inv member other inT inU
  refine ⟨given.inv, fun b member => ?_, fun b first c second t inside inB inC => ?_, tree.noRoot,
    fun path b assigned => List.mem_cons_of_mem a (tree.logged path b assigned), tree.alone,
    tree.closed, fun path t i short index at_ => ?_⟩
  · rcases List.mem_cons.mp member with rfl | old
    · exact ⟨given.multiple, s, given.member, given.unfree, here⟩
    · obtain ⟨⟨t, inside, unfree, -, within⟩, -⟩ := tree.kept given old
      exact ⟨(tree.placed b old).1, t, inside, unfree, within⟩
  · rcases List.mem_cons.mp first with rfl | oldB <;> rcases List.mem_cons.mp second with rfl | oldC
    · rfl
    · obtain ⟨⟨u, insideU, -, other, within⟩, -⟩ := tree.kept given oldC
      have fromB := unique inside inB given.member here
      have fromC := unique inside inC insideU within
      exact (other (fromC.symm.trans fromB)).elim
    · obtain ⟨⟨u, insideU, -, other, within⟩, -⟩ := tree.kept given oldB
      have fromC := unique inside inC given.member here
      have fromB := unique inside inB insideU within
      exact (other (fromB.symm.trans fromC)).elim
    · obtain ⟨-, u, memberU, unfreeU, withinU⟩ := tree.placed b oldB
      obtain ⟨-, w, memberW, unfreeW, withinW⟩ := tree.placed c oldC
      obtain rfl := unique inside inB (given.kept u memberU unfreeU).1 withinU
      obtain rfl := unique inside inC (given.kept w memberW unfreeW).1 withinW
      exact tree.apart b oldB c oldC t memberU withinU withinW
  · rw [← tree.linked path t i short index at_]
    cases path with
    | nil =>
      cases at_
      rfl
    | cons j path =>
      obtain ⟨b, assigned, rfl⟩ := Option.map_eq_some_iff.mp at_
      have old := tree.logged _ b assigned
      exact entry_congr (tree.bounds placed old).2 index (tree.kept given old).2

/-- What an allocation for a page does, when there is room. -/
theorem allocate_page (placed : Placed g) (inv : HeapInv g st.heap ss) (room : Room 0 ss) :
    ∃ s a m ss', st.allocate g 4096 4096 = some (a, st.grown s a m) ∧
      AlignedIn g st.heap ss 4096 4096 a m s ss' := by
  have rounded : roundSize (4096 + 2 ^ 12 + 8) = 8208 := by decide
  rcases inv.mallocAlign placed (n := 4096) (k := 12) (by decide) (by decide) with
    ⟨none, -, -⟩ | ⟨s, ss', a, m, m₁, ran, aligned, given⟩
  · obtain ⟨s, member, free, large⟩ := room
    -- the scan would have taken the large block
    have refused := none s member
    rw [rounded] at refused
    simp [fits, free, large] at refused
  · have notNull : a ≠ 0 := by
      have := given.above
      omega
    have aligned' : (mallocAlign g 4096 4096).run memHandler st.heap.mem = some (a, m) := aligned
    have ran' : (malloc g (alignedTotal 4096 4096)).run memHandler st.heap.mem =
        some (s.addr + 32, m₁) := ran
    refine ⟨s, a, m, ss', ?_, given⟩
    simp [State.allocate, State.grown, aligned', ran', notNull]

/-- Without room `malloc_align` gives null. -/
theorem allocate_refused (placed : Placed g) (inv : HeapInv g st.heap ss) (full : ¬Room 0 ss) :
    ∃ st', st.allocate g 4096 4096 = some (0, st') ∧ st'.pages = st.pages := by
  have rounded : roundSize (alignedTotal 4096 4096) = 8208 := by decide
  rcases inv.malloc placed (alignedTotal 4096 4096) with ⟨-, failed⟩ |
    ⟨xs, s, ys, -, rfl, -, free, fit, -⟩
  · have null := run_mallocAlign (by decide) failed
    rw [if_pos rfl] at null
    refine ⟨⟨st.heap.allocated 0 st.heap.mem, st.pml4, st.pages⟩, ?_, rfl⟩
    simp [State.allocate, failed, null]
  · exact (full ⟨s, by simp, free, by omega⟩).elim

/-- A page that was just allocated is none of those there were. -/
theorem Tree.fresh (tree : Tree g hhdm st ss page) {s : Seg} {ss' : List Seg} {a : Nat} {m : Memory}
    (given : AlignedIn g st.heap ss 4096 4096 a m s ss') {b : Nat} (old : b ∈ st.pages) : a ≠ b := by
  rintro rfl
  have above := given.above
  obtain ⟨⟨t, inside, -, other, within⟩, -⟩ := tree.kept given old
  exact other (inside_unique given.inv inside given.member within ⟨by omega, given.below⟩)

/-- `memset` of a page that no path uses. -/
theorem meets_memsetLoop (placed : Placed g) (direct : DirectMap hhdm) {a : Nat} (value count i : Nat)
    (tree : Tree g hhdm st ss page) (member : a ∈ st.pages) (unused : ∀ path, page path ≠ some a)
    (within : i + count ≤ 4096) :
    (memsetLoop a value count i).Meets (pageHandler g) (tables hhdm assume hang) st fun _ st' =>
      ∃ m, st' = st.withMem m ∧ Tree g hhdm st' ss page ∧
        (∀ x, a + i ≤ x → x < a + i + count → m x = UInt8.ofNat value) ∧
        ∀ x, x < a + i ∨ a + i + count ≤ x → m x = st.heap.mem x := by
  induction count generalizing st i with
  | zero => exact ⟨st.heap.mem, rfl, tree, fun x above below => by omega, fun x _ => rfl⟩
  | succ count ih =>
    have address : u64 (a + i) = a + i := by
      have := (tree.bounds placed member).2
      exact u64_of_lt (by omega)
    have written (x : Nat) : st.heap.mem.store 1 (a + i) value x =
        if x = a + i then UInt8.ofNat value else st.heap.mem x := by
      simp [Memory.store, Function.update_apply]
    have filled : Tree g hhdm (st.withMem (st.heap.mem.store 1 (a + i) value)) ss page :=
      tree.fill placed member unused fun x outside => by rw [written, if_neg (by omega)]
    rw [memsetLoop, address]
    intro _
    refine ⟨⟨tree.wellFormed placed direct, a, member, by omega, by omega⟩, by simp [pageHandler], ?_⟩
    rintro r answer
    cases answer
    refine (ih (i + 1) filled member (by omega)).mono ?_
    rintro _ _ ⟨m, rfl, tree', inner, outer⟩
    refine ⟨m, rfl, tree', fun x above below => ?_, fun x outside => ?_⟩
    · -- the byte of this round stays: the later ones lie behind it
      by_cases first : x = a + i
      · rw [outer x (by omega)]
        exact (written x).trans (if_pos first)
      · exact inner x (by omega) (by omega)
    · rw [outer x (by omega)]
      exact (written x).trans (if_neg (by omega))

/-- `alloc_page` gives a zeroed page that no path uses, and keeps what the others hold. -/
theorem meets_allocPage (placed : Placed g) (direct : DirectMap hhdm) (grants : Grants g assume)
    (tree : Tree g hhdm st ss page) :
    (allocPage hhdm).Meets (pageHandler g) (tables hhdm assume hang) st fun phys st' =>
      ∃ a ss', phys = toPhysical hhdm a ∧ Tree g hhdm st' ss' page ∧ a ∈ st'.pages ∧
        Spends 1 ss ss' ∧
        (∀ path, page path ≠ some a) ∧ (∀ i, i < 512 → st'.entry (.page a) i = 0) ∧
        st'.pml4 = st.pml4 ∧ ∀ b ∈ st.pages, b ∈ st'.pages ∧
          ∀ i, i < 512 → st'.entry (.page b) i = st.entry (.page b) i := by
  rw [allocPage, pageAlloc, Program.meets_perform_bind]
  intro assumed
  obtain ⟨s, a, m, ss', answer, given⟩ := allocate_page placed tree.heap (grants st ss tree.heap assumed)
  refine ⟨⟨tree.wellFormed placed direct, trivial⟩, fun none => ?_, fun r answered => ?_⟩
  · exact nomatch none.symm.trans answer
  cases answer.symm.trans answered
  have grown := tree.grown placed given
  -- a new page is not yet assigned to any path
  have unused (path : List Nat) : page path ≠ some a := fun assigned =>
    tree.fresh given (tree.logged path a assigned) rfl
  have fresh : a ∈ (st.grown s a m).pages := List.mem_cons_self
  rw [Program.meets_bind, memset]
  refine (meets_memsetLoop placed direct 0 4096 0 grown fresh unused (Nat.le_refl _)).mono ?_
  rintro _ _ ⟨m', rfl, tree', zero, kept⟩
  -- with its header and the alignment a page takes 8208 bytes from one free block
  have spends : Spends 1 ss ss' := by
    rintro k ⟨t, inside, free, large⟩
    have rounded : roundSize (4096 + 4096 + 8) = 8208 := by decide
    obtain ⟨t', inside', free', left⟩ := given.rest t inside free (by omega)
    exact ⟨t', inside', free', by omega⟩
  refine ⟨a, ss', rfl, tree', fresh, spends, unused, fun i index => ?_, rfl, fun b old => ?_⟩
  · have bound := (grown.bounds placed fresh).2
    have address : u64 (a + 8 * i) = a + 8 * i := u64_of_lt (by omega)
    simp only [State.entry, State.withMem, address]
    exact Memory.load_zero m' 8 _ fun x above below => zero x (by omega) (by omega)
  · have stays : b ∈ (st.grown s a m).pages := List.mem_cons_of_mem a old
    have apart := grown.disjoint fresh stays (tree.fresh given old)
    refine ⟨stays, fun i index => ?_⟩
    refine entry_congr (tree.bounds placed old).2 index fun x above below => ?_
    exact (kept x (by omega)).trans ((tree.kept given old).2 x above below)

/-! ### One level -/

/-- Tables are only added, and what the tree maps stays. -/
structure Grows (st : State) (page : Pages) (st' : State) (page' : Pages) : Prop where
  tables : ∀ path t, tableOf page path = some t → tableOf page' path = some t
  views : ∀ virt, view st' page' virt = view st page virt

theorem Grows.refl (st : State) (page : Pages) : Grows st page st page :=
  ⟨fun _ _ at_ => at_, fun _ => rfl⟩

theorem Grows.trans {st₁ st₂ : State} {page₁ page₂ : Pages} (first : Grows st page st₁ page₁)
    (second : Grows st₁ page₁ st₂ page₂) : Grows st page st₂ page₂ :=
  ⟨fun path t at_ => second.tables path t (first.tables path t at_),
    fun virt => (second.views virt).trans (first.views virt)⟩

/-- Linking a zeroed page maps nothing. -/
theorem Tree.grows_link (placed : Placed g) {st₁ : State} {ss₁ : List Seg}
    (tree : Tree g hhdm st ss page) (tree₁ : Tree g hhdm st₁ ss₁ page) {path : List Nat} {t : Table}
    {i a : Nat} (at_ : tableOf page path = some t) (short : path.length < 3) (index : i < 512)
    (absent : page (i :: path) = none) (member : a ∈ st₁.pages)
    (unused : ∀ path, page path ≠ some a) (zero : ∀ j, j < 512 → st₁.entry (.page a) j = 0)
    (kept : ∀ b ∈ st.pages, b ∈ st₁.pages ∧
      ∀ j, j < 512 → st₁.entry (.page b) j = st.entry (.page b) j)
    (word : linkTo hhdm a < 2 ^ 64) :
    Grows st page (st₁.writeEntry t i (linkTo hhdm a))
      (Function.update page (i :: path) (some a)) := by
  have known := tableOf_known tree₁ at_
  have leaf (virt : Nat) (b : Nat) (listed : b ∈ st₁.pages) (other : t ≠ .page b) :
      (st₁.writeEntry t i (linkTo hhdm a)).entry (.page b) (leafIndex virt) =
        st₁.entry (.page b) (leafIndex virt) := by
    rw [tree₁.entry_write placed known (.inr ⟨b, listed, rfl⟩) index (leafIndex_lt virt) word,
      if_neg fun both => other both.1.symm]
  constructor
  · intro q t' at'
    by_cases here : q = i :: path
    · subst here
      simp [tableOf, absent] at at'
    · rw [tableOf_update here]
      exact at'
  · intro virt
    unfold view
    -- a leaf table that is new maps nothing, and the others hold what they held
    by_cases here : pathOf virt = i :: path
    · rw [here, Function.update_self, absent]
      have other : t ≠ .page a := by
        rintro rfl
        cases path with
        | nil => cases at_
        | cons j path =>
          obtain ⟨b, assigned, same⟩ := Option.map_eq_some_iff.mp at_
          cases same
          exact unused _ assigned
      simp only [Option.bind_some, Option.bind_none]
      rw [leaf virt a member other, zero _ (leafIndex_lt virt)]
      rfl
    · rw [Function.update_of_ne here]
      cases assigned : page (pathOf virt) with
      | none => rw [Option.bind_none, Option.bind_none]
      | some b =>
        have old := tree.logged _ b assigned
        have other : t ≠ .page b := by
          rintro rfl
          have deep : tableOf page (pathOf virt) = some (.page b) := by
            simp only [pathOf] at assigned
            simp [tableOf, pathOf, assigned]
          rw [tableOf_inj tree at_ deep] at short
          simp [pathOf] at short
        simp only [Option.bind_some]
        rw [leaf virt b (kept b old).1 other, (kept b old).2 _ (leafIndex_lt virt)]

/-- One level of the walk: the table is there afterwards, and nothing else changed. -/
theorem meets_ensureTable (placed : Placed g) (direct : DirectMap hhdm) (grants : Grants g assume)
    (tree : Tree g hhdm st ss page) {path : List Nat} {t : Table} {i : Nat}
    (at_ : tableOf page path = some t) (short : path.length < 3) (index : i < 512) :
    (ensureTable hhdm t i).Meets (pageHandler g) (tables hhdm assume hang) st fun t' st' =>
      ∃ ss' page', Tree g hhdm st' ss' page' ∧ tableOf page' (i :: path) = some t' ∧
        Grows st page st' page' ∧ Spends 1 ss ss' := by
  -- once the link is there, the second read finds it
  have second {st' : State} {ss' : List Seg} {page' : Pages} (tree' : Tree g hhdm st' ss' page')
      (grows : Grows st page st' page') (spends : Spends 1 ss ss') {a : Nat}
      (assigned : page' (i :: path) = some a) :
      (readEntry t i >>= fun entry =>
        (pure (.page (toVirtual hhdm (entry &&& tableMask))) : PageProgram Table)).Meets
        (pageHandler g) (tables hhdm assume hang) st' fun t' st' =>
          ∃ ss' page', Tree g hhdm st' ss' page' ∧ tableOf page' (i :: path) = some t' ∧
            Grows st page st' page' ∧ Spends 1 ss ss' := by
    rw [readEntry, Program.meets_perform_bind]
    intro _
    refine ⟨⟨tree'.wellFormed placed direct, trivial⟩, by simp [pageHandler], ?_⟩
    rintro r answer
    cases answer
    have link := tree'.linked path t i short index (grows.tables path t at_)
    have target := tree'.target placed direct (recovers_tableMask g direct)
      (tree'.logged _ a assigned)
    refine ⟨ss', page', tree', ?_, grows, spends⟩
    simp only [link, assigned, Option.elim, target]
    simp [tableOf, assigned]
  rw [ensureTable, readEntry, Program.meets_perform_bind]
  intro _
  refine ⟨⟨tree.wellFormed placed direct, trivial⟩, by simp [pageHandler], ?_⟩
  rintro r answer
  cases answer
  have link := tree.linked path t i short index at_
  dsimp only
  cases assigned : page (i :: path) with
  | some a =>
    have aligned := (tree.placed a (tree.logged _ a assigned)).1
    -- the link is there already
    have there : ¬st.entry t i &&& Present = 0 := by
      rw [link, assigned, Option.elim, linkTo_present direct aligned]
      decide
    rw [if_neg there]
    exact second tree (.refl st page) (.refl 1 ss) assigned
  | none =>
    -- a page is taken from the heap and linked
    have missing : st.entry t i &&& Present = 0 := by
      rw [link, assigned, Option.elim, Nat.zero_and]
    rw [if_pos missing, Program.meets_bind, Program.meets_bind]
    refine (meets_allocPage placed direct grants tree).mono ?_
    rintro _ st₁ ⟨a, ss₁, rfl, tree₁, member, spends, unused, zero, root, kept⟩
    have aligned := (tree₁.placed a member).1
    have word := linkTo_lt direct aligned
    intro _
    refine ⟨⟨tree₁.wellFormed placed direct, ?_⟩, by simp [pageHandler], ?_⟩
    · rcases tableOf_known tree₁ at_ with rfl | ⟨b, listed, rfl⟩
      · exact index
      · exact ⟨listed, index⟩
    rintro r answer
    cases answer
    have linked := tree₁.link placed at_ short index assigned member unused zero word
    have grows := tree.grows_link placed tree₁ at_ short index assigned member unused zero kept word
    exact second linked grows spends (Function.update_self ..)

/-! ### One page -/

/-- The page of a canonical address, as the four indices see it. -/
def slot (virt : Nat) : Nat := virt / 2 ^ 12 % 2 ^ 36

theorem slot_eq_iff (v w : Nat) : slot v = slot w ↔ pathOf v = pathOf w ∧ leafIndex v = leafIndex w := by
  have index (x k : Nat) : x >>> k &&& 0x1FF = x / 2 ^ k % 512 := by
    rw [show (0x1FF : Nat) = 2 ^ 9 - 1 from rfl, Nat.and_two_pow_sub_one_eq_mod,
      Nat.shiftRight_eq_div_pow]
  simp only [slot, pathOf, leafIndex, index, List.cons.injEq, and_true]
  omega

/-- Writing a leaf sets the view of one page. -/
theorem Tree.view_write (placed : Placed g) (tree : Tree g hhdm st ss page) {v a leaf : Nat}
    (assigned : page (pathOf v) = some a) (word : leaf < 2 ^ 64) (virt : Nat) :
    view (st.writeEntry (.page a) (leafIndex v) leaf) page virt =
      if slot virt = slot v then present leaf else view st page virt := by
  have member := tree.logged _ a assigned
  have known : Known st (.page a) := .inr ⟨a, member, rfl⟩
  unfold view
  -- no table covers `virt`, or one does, and then it is that of `v` or another one
  cases other : page (pathOf virt) with
  | none =>
    have different : slot virt ≠ slot v := by
      intro same
      rw [((slot_eq_iff virt v).mp same).1, assigned] at other
      cases other
    rw [if_neg different, Option.bind_none, Option.bind_none]
  | some b =>
    simp only [Option.bind_some]
    rw [tree.entry_write placed known (.inr ⟨b, tree.logged _ b other, rfl⟩) (leafIndex_lt v)
      (leafIndex_lt virt) word]
    by_cases same : slot virt = slot v
    · obtain ⟨path, index⟩ := (slot_eq_iff virt v).mp same
      rw [path, assigned] at other
      rw [if_pos same, if_pos ⟨congrArg Table.page (Option.some.inj other).symm, index⟩]
    · rw [if_neg same, if_neg]
      rintro ⟨equal, index⟩
      cases equal
      exact same ((slot_eq_iff virt v).mpr ⟨tree.alone _ _ a other assigned, index⟩)

/-- `mapPage` sets one page and leaves the others as they were. -/
theorem meets_mapPage (placed : Placed g) (direct : DirectMap hhdm) (grants : Grants g assume)
    (tree : Tree g hhdm st ss page) (v leaf : Nat) (word : leaf < 2 ^ 64) :
    (mapPage hhdm v leaf).Meets (pageHandler g) (tables hhdm assume hang) st fun _ st' =>
      ∃ ss' page', Tree g hhdm st' ss' page' ∧ Spends 3 ss ss' ∧
        ∀ virt, view st' page' virt = if slot virt = slot v then present leaf else view st page virt := by
  have root : tableOf page [] = some .root := rfl
  rw [mapPage, Program.meets_bind]
  -- three levels of tables, each of which is there already or is allocated
  refine (meets_ensureTable placed direct grants tree root (by simp) (index_lt v 39)).mono ?_
  rintro pdpt st₁ ⟨ss₁, page₁, tree₁, at₁, grows₁, spends₁⟩
  rw [Program.meets_bind]
  refine (meets_ensureTable placed direct grants tree₁ at₁ (by simp) (index_lt v 30)).mono ?_
  rintro pd st₂ ⟨ss₂, page₂, tree₂, at₂, grows₂, spends₂⟩
  rw [Program.meets_bind]
  refine (meets_ensureTable placed direct grants tree₂ at₂ (by simp) (index_lt v 21)).mono ?_
  rintro pt st₃ ⟨ss₃, page₃, tree₃, at₃, grows₃, spends₃⟩
  obtain ⟨a, assigned, rfl⟩ := Option.map_eq_some_iff.mp at₃
  have grows := (grows₁.trans grows₂).trans grows₃
  intro _
  refine ⟨⟨tree₃.wellFormed placed direct, tree₃.logged _ a assigned, leafIndex_lt v⟩,
    by simp [pageHandler], ?_⟩
  rintro r answer
  cases answer
  refine ⟨ss₃, page₃, tree₃.write_leaf placed rfl assigned (leafIndex_lt v) word,
    (spends₁.trans spends₂).trans spends₃, fun virt => ?_⟩
  -- new tables are empty and change nothing that is mapped; the leaf changes one page
  rw [← grows.views virt]
  exact tree₃.view_write placed assigned word virt

end KopalniaOS.Paging
