import KopalniaOS.Paging.Model

/-!
# The tree of page tables

A table below `PML4` is named by the path of indices that leads to it, the last index
first. `Tree` relates the entries in memory to an assignment of heap pages to paths. Every
operation of the mapping code either fills a page that no path uses yet, links such a page
into the tree, or writes an entry of a table at the last level.
-/
namespace KopalniaOS.Paging

open Library Heap

variable {g : Globals} {hhdm : Nat} {st : State} {ss : List Seg}

/-! ### The tree in public terms -/

/-- The table at a path, as the code would reach it. -/
def tableAt (hhdm : Nat) (st : State) : List Nat → Option Table
  | [] => some .root
  | i :: path => (tableAt hhdm st path).bind fun t => follow tableMask hhdm st t i

/-- A path to a table below `PML4`. -/
def Path (path : List Nat) : Prop := 0 < path.length ∧ path.length ≤ 3 ∧ ∀ i ∈ path, i < 512

/-- The page at `a` lies in the payload of the live pointer `p`. -/
def InBlock (st : State) (p a : Nat) : Prop :=
  p ∈ st.heap.live ∧ p ≤ a ∧ a + 4096 ≤ p + field st.heap.mem (p - sizeofBlock) .size

/-- Every present entry above the last level refers to a page of its own, and every such
page is aligned and lies alone in a live block. -/
structure TreeWellFormed (hhdm : Nat) (st : State) : Prop where
  linked : ∀ path t, Path path → tableAt hhdm st path = some t → ∃ a ∈ st.pages, t = .page a
  alone : ∀ path path' t, Path path → Path path' → tableAt hhdm st path = some t →
    tableAt hhdm st path' = some t → path = path'
  placed : ∀ a ∈ st.pages, 4096 ∣ a ∧ ∃ p, InBlock st p a
  apart : ∀ a ∈ st.pages, ∀ b ∈ st.pages, ∀ p, InBlock st p a → InBlock st p b → a = b

/-- A write goes to `PML4` or to a page that `alloc_page` got. -/
def InTables (st : State) : PageOp → Prop
  | .writeEntry .root i _ => i < 512
  | .writeEntry (.page a) i _ => a ∈ st.pages ∧ i < 512
  | .storeByte x _ => ∃ a ∈ st.pages, a ≤ x ∧ x < a + 4096
  | _ => True

/-! ### The representation -/

/-- The pages that tables were put in. -/
abbrev Pages := List Nat → Option Nat

def tableOf (page : Pages) : List Nat → Option Table
  | [] => some .root
  | i :: path => (page (i :: path)).map .page

/-- The page at `a` lies in the payload of `s`. -/
def Inside (s : Seg) (a : Nat) : Prop := s.addr + 32 ≤ a ∧ a + 4096 ≤ s.addr + 32 + s.size

/-- The entry that refers to the page at `a`. -/
def linkTo (hhdm a : Nat) : Nat := toPhysical hhdm a ||| Present ||| Writable ||| User

structure Tree (g : Globals) (hhdm : Nat) (st : State) (ss : List Seg) (page : Pages) : Prop where
  heap : HeapInv g st.heap ss
  placed : ∀ a ∈ st.pages, 4096 ∣ a ∧ ∃ s ∈ ss, s.free = false ∧ Inside s a
  apart : ∀ a ∈ st.pages, ∀ b ∈ st.pages, ∀ s ∈ ss, Inside s a → Inside s b → a = b
  noRoot : page [] = none
  logged : ∀ path a, page path = some a → a ∈ st.pages
  alone : ∀ path path' a, page path = some a → page path' = some a → path = path'
  closed : ∀ i path, page (i :: path) ≠ none →
    path.length < 3 ∧ i < 512 ∧ (tableOf page path).isSome = true
  linked : ∀ path t i, path.length < 3 → i < 512 → tableOf page path = some t →
    st.entry t i = (page (i :: path)).elim 0 (linkTo hhdm)

variable {page : Pages}

/-- A table the code may write. -/
def Known (st : State) (t : Table) : Prop := t = .root ∨ ∃ a ∈ st.pages, t = .page a

theorem tableOf_known (tree : Tree g hhdm st ss page) {path : List Nat} {t : Table}
    (at_ : tableOf page path = some t) : Known st t := by
  cases path with
  | nil => exact .inl (Option.some.inj at_).symm
  | cons i path =>
    obtain ⟨a, assigned, rfl⟩ := Option.map_eq_some_iff.mp at_
    exact .inr ⟨a, tree.logged _ a assigned, rfl⟩

theorem tableOf_inj (tree : Tree g hhdm st ss page) {path path' : List Nat} {t : Table}
    (first : tableOf page path = some t) (second : tableOf page path' = some t) : path = path' := by
  cases path with
  | nil =>
    cases path' with
    | nil => rfl
    | cons j path' =>
      -- `PML4` is no page
      obtain ⟨b, -, rfl⟩ := Option.map_eq_some_iff.mp second
      cases first
  | cons i path =>
    obtain ⟨a, assigned, rfl⟩ := Option.map_eq_some_iff.mp first
    cases path' with
    | nil => cases second
    | cons j path' =>
      obtain ⟨b, assigned', same⟩ := Option.map_eq_some_iff.mp second
      cases same
      exact tree.alone _ _ a assigned assigned'

/-! ### Pages in the heap -/

theorem inside_unique {h : HeapState} (inv : HeapInv g h ss) {s t : Seg} {a : Nat} (first : s ∈ ss)
    (second : t ∈ ss) (inS : Inside s a) (inT : Inside t a) : s = t := by
  rcases inv.represents.tiles.separate first second with same | apart | apart
  · exact same
  · have := inS.2
    have := inT.1
    omega
  · have := inS.1
    have := inT.2
    omega

theorem Tree.bounds (placed : Placed g) (tree : Tree g hhdm st ss page) {a : Nat}
    (member : a ∈ st.pages) : 0 < a ∧ a + 4096 < 2 ^ 64 := by
  obtain ⟨-, s, inside, -, lower, upper⟩ := tree.placed a member
  have := tree.heap.represents.bounds placed inside
  omega

theorem Tree.disjoint (tree : Tree g hhdm st ss page) {a b : Nat} (first : a ∈ st.pages)
    (second : b ∈ st.pages) (different : a ≠ b) : a + 4096 ≤ b ∨ b + 4096 ≤ a := by
  obtain ⟨-, s, memberS, -, lowerA, upperA⟩ := tree.placed a first
  obtain ⟨-, t, memberT, -, lowerB, upperB⟩ := tree.placed b second
  rcases tree.heap.represents.tiles.separate memberS memberT with rfl | apart | apart
  · exact (different (tree.apart a first b second s memberS ⟨lowerA, upperA⟩ ⟨lowerB, upperB⟩)).elim
  · omega
  · omega

/-- The live block a page lies in. -/
theorem Tree.inBlock (tree : Tree g hhdm st ss page) {p a : Nat} :
    InBlock st p a ↔ ∃ s ∈ ss, s.free = false ∧ s.addr + 32 = p ∧ Inside s a := by
  unfold InBlock
  rw [tree.heap.mem_live]
  constructor
  · rintro ⟨⟨s, member, unfree, rfl⟩, lower, upper⟩
    rw [sizeofBlock, Nat.add_sub_cancel, (tree.heap.fields member).2] at upper
    exact ⟨s, member, unfree, rfl, lower, upper⟩
  · rintro ⟨s, member, unfree, rfl, lower, upper⟩
    refine ⟨⟨s, member, unfree, rfl⟩, lower, ?_⟩
    rw [sizeofBlock, Nat.add_sub_cancel, (tree.heap.fields member).2]
    exact upper

/-- Changing memory inside one page keeps the heap. -/
theorem Tree.heap_withMem (tree : Tree g hhdm st ss page) {a : Nat} {m : Memory}
    (member : a ∈ st.pages) (same : ∀ x, x < a ∨ a + 4096 ≤ x → m x = st.heap.mem x) :
    HeapInv g (st.withMem m).heap ss := by
  obtain ⟨-, s, inside, unfree, lower, upper⟩ := tree.placed a member
  refine tree.heap.fill (tree.heap.mem_live.mpr ⟨s, inside, unfree, rfl⟩) fun x outside => ?_
  rw [sizeofBlock, Nat.add_sub_cancel, (tree.heap.fields inside).2] at outside
  exact same x (by omega)

theorem entry_congr {st' : State} {a i : Nat} (word : a + 4096 < 2 ^ 64) (index : i < 512)
    (same : ∀ x, a ≤ x → x < a + 4096 → st'.heap.mem x = st.heap.mem x) :
    st'.entry (.page a) i = st.entry (.page a) i := by
  have address : u64 (a + 8 * i) = a + 8 * i := u64_of_lt (by omega)
  simp only [State.entry, address]
  exact Memory.load_congr 8 _ fun x lower upper => same x (by omega) (by omega)

/-! ### Writing entries -/

/-- Entries are cells: a write changes the one it names and no other. -/
theorem Tree.entry_write (placed : Placed g) (tree : Tree g hhdm st ss page) {t t' : Table}
    {i j v : Nat} (known : Known st t) (known' : Known st t') (index : i < 512) (index' : j < 512)
    (word : v < 2 ^ 64) :
    (st.writeEntry t i v).entry t' j = if t' = t ∧ j = i then v else st.entry t' j := by
  rcases known with rfl | ⟨a, member, rfl⟩
  · rcases known' with rfl | ⟨b, member', rfl⟩
    · simp [State.writeEntry, State.entry, Function.update_apply]
    · simp [State.writeEntry, State.entry]
  · rcases known' with rfl | ⟨b, member', rfl⟩
    · simp [State.writeEntry, State.entry, State.withMem]
    · have boundA := tree.bounds placed member
      have boundB := tree.bounds placed member'
      have addressA : u64 (a + 8 * i) = a + 8 * i := u64_of_lt (by omega)
      have addressB : u64 (b + 8 * j) = b + 8 * j := u64_of_lt (by omega)
      simp only [State.writeEntry, State.entry, State.withMem, addressA, addressB, Table.page.injEq]
      by_cases here : b = a ∧ j = i
      · obtain ⟨rfl, rfl⟩ := here
        rw [if_pos ⟨rfl, rfl⟩]
        exact Memory.load_store_same _ (by omega)
      · rw [if_neg here]
        apply Memory.load_store_disjoint
        -- another entry of the same page, or another page
        by_cases same : b = a
        · have other : j ≠ i := fun equal => here ⟨same, equal⟩
          omega
        · have apart := tree.disjoint member member' (Ne.symm same)
          omega

theorem Tree.heap_write (placed : Placed g) (tree : Tree g hhdm st ss page) {t : Table} {i : Nat}
    (v : Nat) (known : Known st t) (index : i < 512) : HeapInv g (st.writeEntry t i v).heap ss := by
  rcases known with rfl | ⟨a, member, rfl⟩
  · exact tree.heap
  · have bound := tree.bounds placed member
    have address : u64 (a + 8 * i) = a + 8 * i := u64_of_lt (by omega)
    refine tree.heap_withMem member fun x outside => ?_
    rw [address]
    exact Memory.store_outside _ _ _ _ _ (by omega)

theorem pages_write (t : Table) (i v : Nat) : (st.writeEntry t i v).pages = st.pages := by
  cases t <;> rfl

/-- An entry of a table at the last level is no link. -/
theorem Tree.write_leaf (placed : Placed g) (tree : Tree g hhdm st ss page) {path : List Nat}
    {a i v : Nat} (leaf : path.length = 3) (assigned : page path = some a) (index : i < 512)
    (word : v < 2 ^ 64) : Tree g hhdm (st.writeEntry (.page a) i v) ss page := by
  have known : Known st (.page a) := .inr ⟨a, tree.logged path a assigned, rfl⟩
  have at_ : tableOf page path = some (.page a) := by
    cases path with
    | nil => cases leaf
    | cons j path => simp [tableOf, assigned]
  refine ⟨tree.heap_write placed v known index, tree.placed, tree.apart, tree.noRoot, tree.logged,
    tree.alone, tree.closed, fun path' t j short index' at' => ?_⟩
  -- the tables with links are those at shorter paths
  have other : t ≠ .page a := by
    rintro rfl
    rw [tableOf_inj tree at' at_] at short
    omega
  rw [tree.entry_write placed known (tableOf_known tree at') index index' word,
    if_neg (fun both => other both.1)]
  exact tree.linked path' t j short index' at'

/-- Filling a page that no path uses. -/
theorem Tree.fill (placed : Placed g) (tree : Tree g hhdm st ss page) {a : Nat} {m : Memory}
    (member : a ∈ st.pages) (unused : ∀ path, page path ≠ some a)
    (same : ∀ x, x < a ∨ a + 4096 ≤ x → m x = st.heap.mem x) :
    Tree g hhdm (st.withMem m) ss page := by
  refine ⟨tree.heap_withMem member same, tree.placed, tree.apart, tree.noRoot, tree.logged,
    tree.alone, tree.closed, fun path t i short index at_ => ?_⟩
  rw [← tree.linked path t i short index at_]
  cases path with
  | nil =>
    cases at_
    rfl
  | cons j path =>
    obtain ⟨b, assigned, rfl⟩ := Option.map_eq_some_iff.mp at_
    have listed := tree.logged _ b assigned
    have different : a ≠ b := fun equal => unused _ (equal ▸ assigned)
    have apart := tree.disjoint member listed different
    exact entry_congr (tree.bounds placed listed).2 index fun x lower upper => same x (by omega)

theorem tableOf_update {path q : List Nat} {i a : Nat} (other : q ≠ i :: path) :
    tableOf (Function.update page (i :: path) (some a)) q = tableOf page q := by
  cases q with
  | nil => rfl
  | cons j q => simp only [tableOf, Function.update_of_ne other]

theorem tableOf_update_self {path : List Nat} {i a : Nat} :
    tableOf (Function.update page (i :: path) (some a)) (i :: path) = some (.page a) := by
  simp [tableOf]

/-- Only the new path leads to `a`. -/
theorem Tree.alone_update (tree : Tree g hhdm st ss page) {a : Nat} (unused : ∀ path, page path ≠ some a)
    (new : List Nat) {q r : List Nat} {b : Nat}
    (first : Function.update page new (some a) q = some b)
    (second : Function.update page new (some a) r = some b) : q = r := by
  by_cases hereQ : q = new <;> by_cases hereR : r = new
  · exact hereQ.trans hereR.symm
  · subst hereQ
    rw [Function.update_self] at first
    rw [Function.update_of_ne hereR, ← Option.some.inj first] at second
    exact (unused r second).elim
  · subst hereR
    rw [Function.update_self] at second
    rw [Function.update_of_ne hereQ, ← Option.some.inj second] at first
    exact (unused q first).elim
  · rw [Function.update_of_ne hereQ] at first
    rw [Function.update_of_ne hereR] at second
    exact tree.alone q r b first second

/-- A new page has its parent, and an older one still has its own. -/
theorem Tree.closed_update (tree : Tree g hhdm st ss page) {path : List Nat} {t : Table} {i a : Nat}
    (at_ : tableOf page path = some t) (short : path.length < 3) (index : i < 512) {j : Nat}
    {q : List Nat} (assigned : Function.update page (i :: path) (some a) (j :: q) ≠ none) :
    q.length < 3 ∧ j < 512 ∧
      (tableOf (Function.update page (i :: path) (some a)) q).isSome = true := by
  by_cases here : j :: q = i :: path
  · obtain ⟨rfl, rfl⟩ := List.cons.inj here
    refine ⟨short, index, ?_⟩
    rw [tableOf_update (List.cons_ne_self _ _).symm, at_]
    rfl
  · rw [Function.update_of_ne here] at assigned
    obtain ⟨shortQ, indexJ, parent⟩ := tree.closed j q assigned
    refine ⟨shortQ, indexJ, ?_⟩
    -- the parent may be the new table
    by_cases parentHere : q = i :: path
    · rw [parentHere, tableOf_update_self]
      rfl
    · rw [tableOf_update parentHere]
      exact parent

/-- A page that is not there has no children. -/
theorem Tree.childless (tree : Tree g hhdm st ss page) {path : List Nat} {i : Nat}
    (absent : page (i :: path) = none) (j : Nat) : page (j :: i :: path) = none := by
  by_contra present
  obtain ⟨-, -, parent⟩ := tree.closed j (i :: path) present
  simp [tableOf, absent] at parent

/-- Linking a zeroed page that no path uses. -/
theorem Tree.link (placed : Placed g) (tree : Tree g hhdm st ss page) {path : List Nat} {t : Table}
    {i a : Nat} (at_ : tableOf page path = some t) (short : path.length < 3) (index : i < 512)
    (absent : page (i :: path) = none) (member : a ∈ st.pages)
    (unused : ∀ path, page path ≠ some a) (zero : ∀ j, j < 512 → st.entry (.page a) j = 0)
    (word : linkTo hhdm a < 2 ^ 64) :
    Tree g hhdm (st.writeEntry t i (linkTo hhdm a)) ss
      (Function.update page (i :: path) (some a)) := by
  have known := tableOf_known tree at_
  have notParent : t ≠ .page a := by
    rintro rfl
    cases path with
    | nil => cases at_
    | cons j path =>
      obtain ⟨b, assigned, same⟩ := Option.map_eq_some_iff.mp at_
      cases same
      exact unused _ assigned
  have pages : (st.writeEntry t i (linkTo hhdm a)).pages = st.pages := pages_write t i _
  refine ⟨tree.heap_write placed _ known index, pages ▸ tree.placed, pages ▸ tree.apart, ?_, ?_,
    fun _ _ _ => tree.alone_update unused _, fun _ _ => tree.closed_update at_ short index, ?_⟩
  · rw [Function.update_of_ne (by simp)]
    exact tree.noRoot
  · intro q b assigned
    rw [pages]
    by_cases here : q = i :: path
    · subst here
      rw [Function.update_self] at assigned
      exact Option.some.inj assigned ▸ member
    · rw [Function.update_of_ne here] at assigned
      exact tree.logged q b assigned
  · intro q t' j shortQ indexJ at'
    by_cases here : q = i :: path
    · -- the new table itself: all its entries are zero and it has no children
      subst here
      rw [tableOf_update_self] at at'
      cases at'
      rw [Function.update_of_ne (List.cons_ne_self _ _), tree.childless absent,
        tree.entry_write placed known (.inr ⟨a, member, rfl⟩) index indexJ word,
        if_neg (fun both => notParent both.1.symm)]
      exact zero j indexJ
    · rw [tableOf_update here] at at'
      rw [tree.entry_write placed known (tableOf_known tree at') index indexJ word]
      -- of the old tables, one entry changed: the one that now has a child
      by_cases slot : t' = t ∧ j = i
      · obtain ⟨rfl, rfl⟩ := slot
        obtain rfl := tableOf_inj tree at' at_
        rw [if_pos ⟨rfl, rfl⟩, Function.update_self]
        rfl
      · have other : j :: q ≠ i :: path := by
          intro same
          obtain ⟨rfl, rfl⟩ := List.cons.inj same
          exact slot ⟨Option.some.inj (at'.symm.trans at_), rfl⟩
        rw [if_neg slot, Function.update_of_ne other]
        exact tree.linked q t' j shortQ indexJ at'

/-! ### Following links -/

/-- What the boot loader promises about the direct map. -/
structure DirectMap (hhdm : Nat) : Prop where
  aligned : 4096 ∣ hhdm
  word : hhdm < 2 ^ 64

/-- The mask of a page offset rounds down to a page. -/
theorem and_not64_page {x : Nat} (small : x < 2 ^ 64) : x &&& not64 4095 = x / 4096 * 4096 :=
  and_not64_two_pow_sub_one (k := 12) small (by decide)

theorem toPhysical_dvd (direct : DirectMap hhdm) {a : Nat} (aligned : 4096 ∣ a) :
    4096 ∣ toPhysical hhdm a := by
  have := direct.aligned
  unfold toPhysical sub64 u64
  omega

/-- The link bits are below the address bits. -/
theorem linkTo_eq (direct : DirectMap hhdm) {a : Nat} (aligned : 4096 ∣ a) :
    linkTo hhdm a = toPhysical hhdm a + 7 := by
  have multiple := toPhysical_dvd direct aligned
  unfold linkTo
  rw [Nat.or_assoc, Nat.or_assoc, show Present ||| (Writable ||| User) = 7 from rfl]
  exact or_eq_add (k := 12) (by omega) (by decide)

theorem linkTo_lt (direct : DirectMap hhdm) {a : Nat} (aligned : 4096 ∣ a) :
    linkTo hhdm a < 2 ^ 64 := by
  have multiple := toPhysical_dvd direct aligned
  have word : toPhysical hhdm a < 2 ^ 64 := sub64_lt a hhdm
  rw [linkTo_eq direct aligned]
  omega

theorem linkTo_present (direct : DirectMap hhdm) {a : Nat} (aligned : 4096 ∣ a) :
    linkTo hhdm a &&& Present = 1 := by
  have multiple := toPhysical_dvd direct aligned
  rw [linkTo_eq direct aligned, Present, Nat.and_one_is_mod]
  omega

/-- A mask that gets back the address of every page of the heap. -/
def Recovers (g : Globals) (hhdm mask : Nat) : Prop :=
  ∀ a, 4096 ∣ a → g.heapStart ≤ a → a < g.heapEnd → linkTo hhdm a &&& mask = toPhysical hhdm a

theorem recovers_tableMask (g : Globals) (direct : DirectMap hhdm) : Recovers g hhdm tableMask := by
  intro a aligned _ _
  have multiple := toPhysical_dvd direct aligned
  rw [tableMask, and_not64_page (linkTo_lt direct aligned), linkTo_eq direct aligned]
  omega

/-- The processor's mask does, when the heap lies in the first `2 ^ 52` physical bytes. -/
theorem recovers_addressMask (direct : DirectMap hhdm) (low : hhdm ≤ g.heapStart)
    (high : g.heapEnd ≤ hhdm + 2 ^ 52) (placed : Placed g) : Recovers g hhdm addressMask := by
  intro a aligned lower upper
  have physical : toPhysical hhdm a = a - hhdm := by
    have := placed.bound
    exact sub64_of_le (by omega) (by omega)
  have split : addressMask = tableMask &&& (2 ^ 52 - 1) := by decide
  rw [split, ← Nat.and_assoc, recovers_tableMask g direct a aligned lower upper,
    Nat.and_two_pow_sub_one_eq_mod, physical]
  omega

variable {mask : Nat}

/-- The masks of the walk: the code's, or the processor's, which reaches less far. -/
def WalkMask (g : Globals) (hhdm mask : Nat) : Prop :=
  mask = tableMask ∨ mask = addressMask ∧ hhdm ≤ g.heapStart ∧ g.heapEnd ≤ hhdm + 2 ^ 52

theorem WalkMask.recovers (placed : Placed g) (direct : DirectMap hhdm)
    (masked : WalkMask g hhdm mask) : Recovers g hhdm mask := by
  rcases masked with rfl | ⟨rfl, low, high⟩
  · exact recovers_tableMask g direct
  · exact recovers_addressMask direct low high placed

/-- A link leads back to its page. -/
theorem Tree.target (placed : Placed g) (direct : DirectMap hhdm) (recovers : Recovers g hhdm mask)
    (tree : Tree g hhdm st ss page) {a : Nat} (member : a ∈ st.pages) :
    toVirtual hhdm (linkTo hhdm a &&& mask) = a := by
  obtain ⟨aligned, s, inside, -, lower, upper⟩ := tree.placed a member
  have bounds := tree.heap.represents.tiles.bounds inside
  have word := (tree.bounds placed member).2
  rw [recovers a aligned (by omega) (by omega)]
  exact u64_sub64_add (by omega) direct.word

theorem Tree.follow_eq (placed : Placed g) (direct : DirectMap hhdm) (recovers : Recovers g hhdm mask)
    (tree : Tree g hhdm st ss page) {path : List Nat} {t : Table} {i : Nat}
    (at_ : tableOf page path = some t) (short : path.length < 3) (index : i < 512) :
    follow mask hhdm st t i = tableOf page (i :: path) := by
  unfold follow
  rw [tree.linked path t i short index at_, tableOf]
  cases assigned : page (i :: path) with
  | none => simp
  | some a =>
    have member := tree.logged _ a assigned
    have target := tree.target placed direct recovers member
    simp [linkTo_present direct (tree.placed a member).1, target]

theorem Tree.tableAt_eq (placed : Placed g) (direct : DirectMap hhdm)
    (tree : Tree g hhdm st ss page) (path : List Nat) (short : path.length ≤ 3)
    (indices : ∀ i ∈ path, i < 512) : tableAt hhdm st path = tableOf page path := by
  induction path with
  | nil => rfl
  | cons i path ih =>
    simp only [List.length_cons] at short
    -- a path is followed from its end, so the shorter path comes first
    rw [tableAt, ih (by omega) fun j member => indices j (List.mem_cons_of_mem i member)]
    cases at_ : tableOf page path with
    | some t =>
      exact tree.follow_eq placed direct (recovers_tableMask g direct) at_ (by omega)
        (indices i List.mem_cons_self)
    | none =>
      cases assigned : page (i :: path) with
      | none => simp [tableOf, assigned]
      | some a =>
        obtain ⟨-, -, parent⟩ := tree.closed i path (by simp [assigned])
        rw [at_] at parent
        cases parent

/-- The representation implies the public property. -/
theorem Tree.wellFormed (placed : Placed g) (direct : DirectMap hhdm)
    (tree : Tree g hhdm st ss page) : TreeWellFormed hhdm st where
  linked path t valid at_ := by
    rw [tree.tableAt_eq placed direct path valid.2.1 valid.2.2] at at_
    cases path with
    | nil => exact absurd valid.1 (by simp)
    | cons i path =>
      obtain ⟨a, assigned, rfl⟩ := Option.map_eq_some_iff.mp at_
      exact ⟨a, tree.logged _ a assigned, rfl⟩
  alone path path' t valid valid' first second := by
    rw [tree.tableAt_eq placed direct path valid.2.1 valid.2.2] at first
    rw [tree.tableAt_eq placed direct path' valid'.2.1 valid'.2.2] at second
    exact tableOf_inj tree first second
  placed a member := by
    obtain ⟨aligned, s, inside, unfree, within⟩ := tree.placed a member
    exact ⟨aligned, s.addr + 32, tree.inBlock.mpr ⟨s, inside, unfree, rfl, within⟩⟩
  apart a first b second p inA inB := by
    obtain ⟨s, member, -, addr, withinA⟩ := tree.inBlock.mp inA
    obtain ⟨t, member', -, addr', withinB⟩ := tree.inBlock.mp inB
    -- no two blocks have the same address
    have same : s = t :=
      tree.heap.represents.tiles.eq_of_addr (by decide) member member' (by omega)
    subst same
    exact tree.apart a first b second s member withinA withinB

/-! ### The mapping a tree stands for -/

/-- The path of the last table for a virtual address. -/
def pathOf (virt : Nat) : List Nat :=
  [virt >>> 21 &&& 0x1FF, virt >>> 30 &&& 0x1FF, virt >>> 39 &&& 0x1FF]

def leafIndex (virt : Nat) : Nat := virt >>> 12 &&& 0x1FF

/-- A leaf entry, when it is present. -/
def present (leaf : Nat) : Option Nat := if leaf &&& Present = 0 then none else some leaf

/-- What the tree says about a virtual address. -/
def view (st : State) (page : Pages) (virt : Nat) : Option Nat :=
  (page (pathOf virt)).bind fun a => present (st.entry (.page a) (leafIndex virt))

theorem index_lt (virt k : Nat) : virt >>> k &&& 0x1FF < 512 := by
  rw [show (0x1FF : Nat) = 2 ^ 9 - 1 from rfl, Nat.and_two_pow_sub_one_eq_mod]
  exact Nat.mod_lt _ (by decide)

theorem leafIndex_lt (virt : Nat) : leafIndex virt < 512 := index_lt virt 12

/-- The walk reads the tree. -/
theorem Tree.walk_eq (placed : Placed g) (direct : DirectMap hhdm) (recovers : Recovers g hhdm mask)
    (tree : Tree g hhdm st ss page) (virt : Nat) : walk mask hhdm st virt = view st page virt := by
  -- below a missing table nothing is assigned
  have missing {i : Nat} {path : List Nat} (none : tableOf page path = none) :
      page (i :: path) = Option.none := by
    by_contra present
    obtain ⟨-, -, parent⟩ := tree.closed i path present
    rw [none] at parent
    cases parent
  unfold walk view pathOf
  have root : tableOf page [] = some .root := rfl
  rw [tree.follow_eq placed direct recovers root (by decide) (index_lt virt 39)]
  cases first : tableOf page [virt >>> 39 &&& 0x1FF] with
  | none =>
    have second : tableOf page [virt >>> 30 &&& 0x1FF, virt >>> 39 &&& 0x1FF] = none := by
      simp [tableOf, missing first]
    rw [missing second]
    rfl
  | some pdpt =>
    simp only [Option.bind_eq_bind, Option.bind_some]
    rw [tree.follow_eq placed direct recovers first (by simp) (index_lt virt 30)]
    cases second : tableOf page [virt >>> 30 &&& 0x1FF, virt >>> 39 &&& 0x1FF] with
    | none =>
      rw [missing second]
      rfl
    | some pd =>
      simp only [Option.bind_some]
      rw [tree.follow_eq placed direct recovers second (by simp) (index_lt virt 21), tableOf]
      cases page [virt >>> 21 &&& 0x1FF, virt >>> 30 &&& 0x1FF, virt >>> 39 &&& 0x1FF] with
      | none => rfl
      | some a => rfl

end KopalniaOS.Paging
