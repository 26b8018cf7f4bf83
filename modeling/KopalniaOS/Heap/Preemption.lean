import KopalniaOS.Heap.Canonical
import KopalniaOS.Heap.UsableSize
import KopalniaOS.Library.Interrupts

/-!
# The allocator under interrupt handlers that allocate

`malloc` and `free` do not mask interrupts. A handler that arrives after `malloc` has seen
a free block that is large enough, or after the first write of `free`, can take a block
out from under the interrupted call, and one that frees a block can merge away the block at
which the scan of `malloc` stands. Outside these windows every run keeps the heap good.
-/
namespace KopalniaOS.Heap

open Library Relation

variable {g : Globals} {st st' : HeapState} {ss : List Seg} {size addr n : Nat}

/-- One thing a handler does: allocate and keep the block, allocate a block that it frees again after
use, free a block that it kept before, or write into a block that is live. -/
inductive Irq where
  | keep (size : Nat)
  | scratch (size : Nat)
  | release (ptr : Nat)
  | write (addr : Nat) (value : UInt8)

inductive Irq.Does (g : Globals) : Irq → HeapState → HeapState → Prop where
  | keep {st n p m} : (malloc g n).run memHandler st.mem = some (p, m) →
      Does g (.keep n) st (st.allocated p m)
  | scratch {st n p m m₁ m₂} : (malloc g n).run memHandler st.mem = some (p, m) →
      (∀ x, p = 0 ∨ x < p ∨ p + field m (p - sizeofBlock) .size ≤ x → m₁ x = m x) →
      (free p).run memHandler m₁ = some ((), m₂) → Does g (.scratch n) st ⟨m₂, st.live⟩
  | release {st p m} : p ∈ st.live → (free p).run memHandler st.mem = some ((), m) →
      Does g (.release p) st (st.freed p m)
  | write {st p x v} : p ∈ st.live → p ≤ x → x < p + field st.mem (p - sizeofBlock) .size →
      Does g (.write x v) st ⟨Function.update st.mem x v, st.live⟩

inductive Call where
  | malloc (size : Nat)
  | free (ptr : Nat)

abbrev Call.Result : Call → Type
  | .malloc _ => Nat
  | .free _ => Unit

/-- The block that a call frees is not the handler's to free. -/
def Call.Spares : Call → Irq → Prop
  | .free p, irq => irq ≠ .release p
  | .malloc _, _ => True

/-- Where a `malloc` is, as its own operations show it: at a block of the scan, at a block whose `free`
flag it has seen set, or at the block that it takes. -/
inductive Phase where
  | searching (block : Nat)
  | examining (block : Nat)
  | committed
deriving DecidableEq

/-- One operation of `malloc`: a byte load reads a `free` flag, the load behind a set flag reads the
size of the same block, and every other load the next block. -/
def Phase.next (size : Nat) : Phase → Event MemOp MemOp.Answer → Phase
  | .searching b, ⟨.load 1 _, r⟩ => if r = (0 : Nat) then .searching b else .examining b
  | .searching _, ⟨.load _ _, r⟩ => .searching r
  | .examining b, ⟨.load _ _, r⟩ => if (r : Nat) < size then .searching b else .committed
  | _, _ => .committed

def phase (g : Globals) (size : Nat) : History MemOp MemOp.Answer → Phase
  | [] => .searching g.heapHead
  | e :: tr => (phase g size tr).next size e

/-- `free` of `p` makes the block at `b` a part of the block in front of it: either `b` is what is freed,
and there is a free block in front of it, or `b` is a free block behind what is freed. -/
def Absorbed (m : Memory) (p b : Nat) : Prop :=
  b = p - sizeofBlock ∧ field m b .prev ≠ 0 ∧ field m (field m b .prev) .free ≠ 0 ∨
    field m (p - sizeofBlock) .next = b ∧ field m b .free ≠ 0

/-- The block at `b` is still one when the handler is done. -/
def Irq.Keeps (irq : Irq) (m : Memory) (b : Nat) : Prop := ∀ p, irq = .release p → ¬Absorbed m p b

/-- Where an interrupt does no harm: before `free` has written anything, and in `malloc` as long as no
block that is free and large enough has been found and the block at which it stands is kept. -/
def Open (g : Globals) (m : Memory) (tr : History MemOp MemOp.Answer) : Call → Irq → Prop
  | .free _, _ => tr = []
  | .malloc n, irq =>
    match phase g (roundSize n) tr with
    | .searching b => irq.Keeps m b
    | .examining b => field m b .size < roundSize n ∧ irq.Keeps m b
    | .committed => False

/-- Memory operations on a heap state. -/
def heapHandler : Handler MemOp MemOp.Answer HeapState
  | .load w a, st => some (st.mem.load w a, st)
  | .store w a v, st => some ((), ⟨st.mem.store w a v, st.live⟩)

/-- Calls one after the other, with handlers wherever `allowed` lets them in. -/
def session (g : Globals) (allowed : Call → History MemOp MemOp.Answer → HeapState → Irq → Prop) :
    Session MemOp MemOp.Answer HeapState Call Call.Result where
  handler := heapHandler
  enter
    | .malloc _, st, st' => st' = st
    | .free p, st, st' => (p = 0 ∨ p ∈ st.live) ∧ st' = st
  code
    | .malloc n, _ => malloc g n
    | .free p, _ => free p
  leave
    | .malloc _, p, st => st.allocated p st.mem
    | .free p, _, st => st.freed p st.mem
  busyEnv c tr st st' := ∃ irq, allowed c tr st irq ∧ c.Spares irq ∧ irq.Does g st st'
  idleEnv st st' := ∃ irq : Irq, irq.Does g st st'

/-- The calls as they are: an interrupt can arrive anywhere. -/
def preemptive (g : Globals) : Session MemOp MemOp.Answer HeapState Call Call.Result :=
  session g fun _ _ _ _ => True

/-- The calls when interrupts arrive only where they do no harm. -/
def masked (g : Globals) : Session MemOp MemOp.Answer HeapState Call Call.Result :=
  session g fun c tr st irq => Open g st.mem tr c irq

theorem run_heapHandler {α : Type} (p : MemProgram α) (st : HeapState) :
    p.run heapHandler st = (p.run memHandler st.mem).map fun r => (r.1, ⟨r.2, st.live⟩) := by
  induction p generalizing st with
  | ret a => rfl
  | op o k ih =>
    cases o with
    | load w a => exact ih _ st
    | store w a v => exact ih _ ⟨st.mem.store w a v, st.live⟩
  | stuck => rfl

/-! ### What a handler leaves behind -/

variable {irq : Irq} {s : Seg}

/-- The block is still there, and it is free or has not grown. -/
def Stays (s : Seg) (ss : List Seg) : Prop :=
  ∃ s' ∈ ss, s'.addr = s.addr ∧ (s'.free = true ∨ s'.size ≤ s.size)

theorem Stays.refl (member : s ∈ ss) : Stays s ss := ⟨s, member, rfl, .inr (Nat.le_refl _)⟩

theorem stays_carve {xs ys : List Seg} {t : Seg} (fits : n ≤ s.size) (member : t ∈ xs ++ s :: ys) :
    Stays t (xs ++ carve 32 16 n s ++ ys) := by
  obtain ⟨given, picked, -, -, smaller⟩ := mem_carve s xs ys fits
  by_cases here : t = s
  · subst here
    exact ⟨_, picked, rfl, .inr smaller⟩
  · exact .refl (mem_replaced member here _)

/-- What is in front of a segment, by its header. -/
theorem Represents.prev_getLast? {m : Memory} {xs ys : List Seg} {p : Seg} (placed : Placed g)
    (rep : Represents g m (xs ++ s :: ys)) (last : xs.getLast? = some p) :
    field m s.addr .prev = p.addr ∧ p.addr ≠ 0 ∧ field m p.addr .free = p.free.toNat := by
  obtain ⟨xs, rfl⟩ : ∃ zs, xs = zs ++ [p] := List.getLast?_eq_some_iff.mp last
  have header := rep.header
  have rep' : Represents g m (xs ++ p :: s :: ys) := by simpa using rep
  have notNull := (rep'.bounds placed (s := p) (by simp)).1
  refine ⟨?_, by omega, rep'.header.free⟩
  rw [header.prev]
  simp [lastAddr]

/-- `free` of a live block keeps every other block that it does not merge away. -/
theorem HeapInv.free_stays (placed : Placed g) (inv : HeapInv g st ss) {p : Nat} {m : Memory}
    (member : p ∈ st.live) (ran : (Heap.free p).run memHandler st.mem = some ((), m)) :
    ∃ ss', HeapInv g (st.freed p m) ss' ∧ ∀ t ∈ ss, ¬Absorbed st.mem p t.addr → Stays t ss' := by
  obtain ⟨xs, s, ys, m', ss', rfl, unfree, rfl, freed, inv', joined, -⟩ := inv.free placed member
  cases freed.symm.trans ran
  refine ⟨ss', inv', fun t inside spared => ?_⟩
  have rep := inv.represents
  rw [Absorbed, sizeofBlock, Nat.add_sub_cancel, not_or] at spared
  obtain ⟨front, behind⟩ := spared
  -- what is freed goes if a free block is in front of it
  have notFront : t = s → ∀ q, xs.getLast? = some q → q.free = false := by
    rintro rfl q last
    obtain ⟨prev, notNull, flag⟩ := rep.prev_getLast? placed last
    by_contra free
    refine front ⟨rfl, by rw [prev]; exact notNull, ?_⟩
    rw [prev, flag, eq_true_of_ne_false free]
    decide
  -- and so does a free block behind it
  have notBehind : ys.head? = some t → t.free = false := by
    intro first
    by_contra free
    have flag := (inv.fields inside).1
    obtain ⟨zs, rfl⟩ : ∃ zs, ys = t :: zs := List.head?_eq_some_iff.mp first
    refine behind ⟨rep.header.next, ?_⟩
    rw [flag, eq_true_of_ne_false free]
    decide
  obtain ⟨t', inside', addr, kept⟩ :=
    joined.stays rep.tiles inv'.represents.tiles inv.coalesced inside notFront notBehind
  refine ⟨t', inside', addr, kept.imp_right ?_⟩
  rintro rfl
  exact Nat.le_refl _

/-- One thing a handler does on a good heap. -/
theorem HeapInv.does (placed : Placed g) (inv : HeapInv g st ss) (does : irq.Does g st st') :
    ∃ ss', HeapInv g st' ss' ∧ (∀ s ∈ ss, irq.Keeps st.mem s.addr → Stays s ss') ∧
      ∀ p ∈ st.live, irq ≠ .release p → p ∈ st'.live := by
  cases does with
  | @keep _ n p m ran =>
    rcases inv.malloc placed n with ⟨-, failed⟩ | ⟨xs, s, ys, m', rfl, -, -, fits, taken, inv', -⟩
    · cases failed.symm.trans ran
      exact ⟨ss, inv, fun s member _ => .refl member, fun p member _ => member⟩
    · cases taken.symm.trans ran
      refine ⟨_, inv', fun s member _ => stays_carve fits member, fun p member _ => ?_⟩
      simp [HeapState.allocated, member]
  | @scratch _ n p m m₁ m₂ ran filled freed =>
    by_cases null : p = 0
    · -- nothing was allocated, so there is nothing to fill or to free
      subst p
      rcases inv.malloc placed n with ⟨-, failed⟩ | ⟨xs, s, ys, m', rfl, -, -, -, taken, -⟩
      · cases failed.symm.trans ran
        cases freed
        obtain rfl : m₁ = st.mem := funext fun x => filled x (.inl rfl)
        exact ⟨ss, inv, fun s member _ => .refl member, fun p member _ => member⟩
      · cases taken.symm.trans ran
    · obtain ⟨m', freed', inv'⟩ := inv.free_malloc placed ran null
        fun x outside => filled x (.inr outside)
      cases freed'.symm.trans freed
      exact ⟨ss, inv', fun s member _ => .refl member, fun p member _ => member⟩
  | @release _ p m member ran =>
    obtain ⟨ss', inv', stays⟩ := inv.free_stays placed member ran
    refine ⟨ss', inv', fun s inside kept => stays s inside (kept p rfl), fun q live other => ?_⟩
    have different : q ≠ p := fun same => other (congrArg Irq.release same.symm)
    exact (List.mem_erase_of_ne different).mpr live
  | write member above below =>
    exact ⟨ss, inv.write _ member above below, fun s member _ => .refl member,
      fun p member _ => member⟩

/-! ### Calls that are interrupted in the open -/

def good (g : Globals) (st : HeapState) : Prop := ∃ ss, HeapInv g st ss

/-- What holds wherever an interrupt may arrive. -/
def watch (g : Globals) (c : Call) (tr : History MemOp MemOp.Answer) (st : HeapState) : Prop :=
  ∀ irq, Open g st.mem tr c irq → good g st

/-- A cursor of the scan is null or a block of the list. -/
def Cursor (ss : List Seg) (block : Nat) : Prop := block = 0 ∨ ∃ s ∈ ss, s.addr = block

/-- What a scan knows of the list. A block that it has seen free may have been taken since, but then it
is too small. -/
def Phase.Knows (size : Nat) (ss : List Seg) : Phase → Prop
  | .searching b => Cursor ss b
  | .examining b => ∃ s ∈ ss, s.addr = b ∧ (s.free = true ∨ s.size < size)
  | .committed => True

/-- Handlers that come while they may find a good heap and leave one. -/
theorem malloc_moves (placed : Placed g) {tr : History MemOp MemOp.Answer} (inv : HeapInv g st ss)
    (knows : (phase g (roundSize n) tr).Knows (roundSize n) ss)
    (moved : ReflTransGen ((masked g).busyEnv (.malloc n) tr) st st') :
    (∃ ss', HeapInv g st' ss' ∧ (phase g (roundSize n) tr).Knows (roundSize n) ss') ∧
      watch g (.malloc n) tr st' := by
  suffices kept : ∃ ss', HeapInv g st' ss' ∧ (phase g (roundSize n) tr).Knows (roundSize n) ss' by
    obtain ⟨ss', inv', knows'⟩ := kept
    exact ⟨⟨ss', inv', knows'⟩, fun _ _ => ⟨ss', inv'⟩⟩
  induction moved with
  | refl => exact ⟨ss, inv, knows⟩
  | tail _ step ih =>
    obtain ⟨ts, inv', knows'⟩ := ih
    obtain ⟨irq, opened, -, does⟩ := step
    obtain ⟨ss', inv'', stays, -⟩ := inv'.does placed does
    refine ⟨ss', inv'', ?_⟩
    simp only [Open] at opened
    cases here : phase g (roundSize n) tr with
    | searching b =>
      rw [here] at knows' opened
      rcases knows' with null | ⟨s, member, rfl⟩
      · exact .inl null
      · obtain ⟨s', member', addr, -⟩ := stays s member opened
        exact .inr ⟨s', member', addr⟩
    | examining b =>
      rw [here] at knows' opened
      obtain ⟨s, member, rfl, -⟩ := knows'
      obtain ⟨small, kept⟩ := opened
      rw [(inv'.fields member).2] at small
      -- it was too small when the handler came, and grows only while it is free
      obtain ⟨s', member', addr, free | smaller⟩ := stays s member kept
      · exact ⟨s', member', addr, .inl free⟩
      · exact ⟨s', member', addr, .inr (by omega)⟩
    | committed => trivial

/-- The weakest precondition of `p` as part of call `c`. -/
abbrev Survives (g : Globals) (c : Call) (tr : History MemOp MemOp.Answer) {α : Type}
    (p : MemProgram α) (st : HeapState)
    (post : History MemOp MemOp.Answer → α → HeapState → Prop) : Prop :=
  p.Robust heapHandler ((masked g).busyEnv c) (watch g c) tr st post

theorem survives_getField {α : Type} {c : Call} {tr : History MemOp MemOp.Answer} {f : Field}
    {b : Nat} {k : Nat → MemProgram α} {post : History MemOp MemOp.Answer → α → HeapState → Prop} :
    Survives g c tr (getField f b >>= k) st post ↔
      ∀ t, ReflTransGen ((masked g).busyEnv c tr) st t → watch g c tr t ∧
        Survives g c (⟨.load f.width (b + f.offset), field t.mem b f⟩ :: tr)
          (k (field t.mem b f)) t post := by
  constructor
  · intro survives t moved
    obtain ⟨watched, rest⟩ := survives t moved
    exact ⟨watched, rest _ rfl⟩
  · intro survives t moved
    obtain ⟨watched, rest⟩ := survives t moved
    refine ⟨watched, fun r answer => ?_⟩
    cases answer
    exact rest

/-- The scan, one block further. -/
theorem mallocLoop_succ {block : Nat} (notNull : block ≠ 0) (size fuel : Nat) :
    mallocLoop size (fuel + 1) block = getField .free block >>= fun free =>
      if free = 0 then getField .next block >>= mallocLoop size fuel
      else getField .size block >>= fun blockSize =>
        if size ≤ blockSize then takeBlock block size
        else getField .next block >>= mallocLoop size fuel := by
  rw [mallocLoop, if_neg notNull, freeAndFits, bind_assoc]
  congr 1
  funext free
  by_cases unset : free = 0
  · simp [unset]
  · simp only [if_neg unset, bind_assoc]
    congr 1
    funext blockSize
    by_cases fits : size ≤ blockSize <;> simp [fits]

theorem HeapInv.next_cursor (inv : HeapInv g st ss) {s : Seg} (member : s ∈ ss) :
    Cursor ss (field st.mem s.addr .next) := by
  obtain ⟨xs, ys, rfl⟩ := List.append_of_mem member
  rw [inv.represents.header.next]
  cases ys with
  | nil => exact .inl rfl
  | cons y ys => exact .inr ⟨y, by simp, rfl⟩

theorem phase_committed {size : Nat} {tr : History MemOp MemOp.Answer}
    (committed : phase g size tr = .committed) (more : History MemOp MemOp.Answer) :
    phase g size (more ++ tr) = .committed := by
  induction more with
  | nil => exact committed
  | cons e more ih =>
    rw [List.cons_append, phase, ih]
    rfl

/-- What `malloc` is to leave behind. -/
abbrev Returned (g : Globals) (_ : History MemOp MemOp.Answer) (p : Nat) (st : HeapState) : Prop :=
  good g (st.allocated p st.mem)

/-- `malloc` that has found its block runs alone. -/
theorem survives_takeBlock (placed : Placed g) (inv : HeapInv g st ss) (member : s ∈ ss)
    (free : s.free = true) (fits : roundSize n ≤ s.size) {tr : History MemOp MemOp.Answer}
    (committed : phase g (roundSize n) tr = .committed) :
    Survives g (.malloc n) tr (takeBlock s.addr (roundSize n)) st (Returned g) := by
  have closed (more : History MemOp MemOp.Answer) (t : HeapState) (irq : Irq) :
      ¬Open g t.mem (more ++ tr) (.malloc n) irq := by
    simp only [Open, phase_committed committed more, not_false_eq_true]
  refine Program.robust_of_run (fun more t t' step => ?_)
    (fun more t irq opened => (closed more t irq opened).elim) fun p t ran _ => ?_
  · obtain ⟨irq, opened, -⟩ := step
    exact closed more t irq opened
  obtain ⟨xs, ys, rfl⟩ := List.append_of_mem member
  obtain ⟨m, alone, inv', -⟩ := inv.take placed free (roundSize_dvd n) fits
  rw [run_heapHandler, alone] at ran
  cases ran
  exact ⟨_, inv'⟩

/-- The step of the scan to the next block, behind which `rest` is what is left of it. -/
theorem survives_next (placed : Placed g) {rest : Nat → MemProgram Nat} {block : Nat}
    {tr : History MemOp MemOp.Answer} (inv : HeapInv g st ss) (member : s ∈ ss) (addr : s.addr = block)
    (searching : phase g (roundSize n) tr = .searching block)
    (next : ∀ {tr' t ts b}, HeapInv g t ts → Cursor ts b → phase g (roundSize n) tr' = .searching b →
      Survives g (.malloc n) tr' (rest b) t (Returned g)) :
    Survives g (.malloc n) tr (getField .next block >>= rest) st (Returned g) := by
  refine survives_getField.mpr fun t moved => ?_
  have knows : (phase g (roundSize n) tr).Knows (roundSize n) ss := by
    rw [searching]
    exact .inr ⟨s, member, addr⟩
  obtain ⟨⟨ts, inv', knows'⟩, watched⟩ := malloc_moves placed inv knows moved
  rw [searching] at knows'
  have notNull : block ≠ 0 := by
    have bounds := inv.represents.tiles.bounds member
    have placedLow := placed.notNull
    omega
  obtain ⟨u, memberU, addrU⟩ := knows'.resolve_left notNull
  refine ⟨watched, next inv' ?_ ?_⟩
  · rw [← addrU]
    exact inv'.next_cursor memberU
  · rw [phase, searching]
    rfl

theorem survives_mallocLoop (placed : Placed g) (fuel : Nat) {tr : History MemOp MemOp.Answer}
    {block : Nat} (inv : HeapInv g st ss) (cursor : Cursor ss block)
    (searching : phase g (roundSize n) tr = .searching block) :
    Survives g (.malloc n) tr (mallocLoop (roundSize n) fuel block) st (Returned g) := by
  induction fuel generalizing tr st ss block with
  | zero => trivial
  | succ fuel ih =>
    -- the scan has come to the end of the list
    by_cases null : block = 0
    · rw [mallocLoop, if_pos null]
      exact ⟨ss, inv⟩
    rw [mallocLoop_succ null]
    refine survives_getField.mpr fun t moved => ?_
    have knows : (phase g (roundSize n) tr).Knows (roundSize n) ss := by
      rw [searching]
      exact cursor
    obtain ⟨⟨ts, inv₁, knows₁⟩, watched⟩ := malloc_moves placed inv knows moved
    rw [searching] at knows₁
    obtain ⟨u, memberU, addrU⟩ := knows₁.resolve_left null
    obtain ⟨flag, -⟩ := inv₁.fields memberU
    rw [addrU] at flag
    refine ⟨watched, ?_⟩
    cases free : u.free with
    | false =>
      rw [flag, free]
      refine survives_next placed inv₁ memberU addrU ?_ ih
      rw [phase, searching]
      rfl
    | true =>
      rw [flag, free]
      -- a set flag: the next load reads the size of the same block
      have examining : phase g (roundSize n)
          (⟨.load Field.free.width (block + Field.free.offset), (true.toNat : Nat)⟩ :: tr) =
          .examining block := by
        rw [phase, searching]
        rfl
      refine survives_getField.mpr fun t' moved' => ?_
      obtain ⟨⟨ts', inv₂, knows₂⟩, watched'⟩ := malloc_moves placed inv₁
        (by rw [examining]; exact ⟨u, memberU, addrU, .inl free⟩) moved'
      rw [examining] at knows₂
      obtain ⟨u', memberU', addrU', freeOrSmall⟩ := knows₂
      obtain ⟨-, size⟩ := inv₂.fields memberU'
      rw [addrU'] at size
      refine ⟨watched', ?_⟩
      by_cases fits : roundSize n ≤ u'.size
      · have free' : u'.free = true := freeOrSmall.resolve_right (Nat.not_lt.mpr fits)
        rw [size, if_pos fits, ← addrU']
        apply survives_takeBlock placed inv₂ memberU' free' fits
        rw [addrU', phase, examining]
        exact if_neg (Nat.not_lt.mpr fits)
      · rw [size, if_neg fits]
        refine survives_next placed inv₂ memberU' addrU' ?_ ih
        rw [phase, examining]
        exact if_pos (Nat.not_le.mp fits)

/-- Handlers leave the block alone that a call is about to free. -/
theorem free_moves (placed : Placed g) {p : Nat} (inv : HeapInv g st ss) (live : p ∈ st.live)
    (moved : ReflTransGen ((masked g).busyEnv (.free p) []) st st') :
    ∃ ss', HeapInv g st' ss' ∧ p ∈ st'.live := by
  induction moved with
  | refl => exact ⟨ss, inv, live⟩
  | tail _ step ih =>
    obtain ⟨ts, inv', live'⟩ := ih
    obtain ⟨irq, -, spares, does⟩ := step
    obtain ⟨ss', inv'', -, kept⟩ := inv'.does placed does
    exact ⟨ss', inv'', kept p live' spares⟩

/-- Once `free` has written, it runs alone; before, it has done nothing. -/
theorem survives_free (placed : Placed g) (inv : HeapInv g st ss) {p : Nat}
    (allowed : p = 0 ∨ p ∈ st.live) :
    Survives g (.free p) [] (free p) st fun _ _ t => good g (t.freed p t.mem) := by
  by_cases null : p = 0
  · subst p
    have dead : 0 ∉ st.live := by
      intro member
      obtain ⟨s, -, -, addr⟩ := inv.mem_live.mp member
      omega
    refine ⟨ss, inv.represents, inv.coalesced, ?_⟩
    rw [HeapState.freed, List.erase_of_not_mem dead]
    exact inv.live
  have code : free p = Program.op (.store Field.free.width (sub64 p sizeofBlock + Field.free.offset) 1)
      fun _ => mergeRight loopBound (sub64 p sizeofBlock) >>= fun _ =>
        mergeLeft loopBound (sub64 p sizeofBlock) := by
    rw [free, if_neg null]
    rfl
  rw [code]
  intro t moved
  obtain ⟨ts, inv', live⟩ := free_moves placed inv (allowed.resolve_left null) moved
  refine ⟨fun _ _ => ⟨ts, inv'⟩, fun r answer => ?_⟩
  -- the first write is in the history from here on
  have closed (e : Event MemOp MemOp.Answer) (more : History MemOp MemOp.Answer) (u : HeapState)
      (irq : Irq) : ¬Open g u.mem (more ++ [e]) (.free p) irq := by
    simp [Open]
  refine Program.robust_of_run (fun more u u' step => ?_)
    (fun more u irq opened => (closed _ more u irq opened).elim) fun a u ran _ => ?_
  · obtain ⟨irq, opened, -⟩ := step
    exact closed _ more u irq opened
  obtain ⟨xs, s, ys, m, ss', -, -, -, alone, inv'', -⟩ := inv'.free placed live
  -- what is left of the call does what the whole call does from the state it wrote to
  have whole : (free p).run heapHandler t = some (a, u) := by
    rw [code, Program.run_op, answer, Option.bind_some]
    exact ran
  rw [run_heapHandler, alone] at whole
  simp only [Option.map_some, Option.some.injEq, Prod.mk.injEq, true_and] at whole
  subst whole
  exact ⟨ss', inv''⟩

/-! ### Every run -/

theorem masked_keeps (placed : Placed g) {x} (initial : good g st)
    (reached : (masked g).Reachable st x) : (masked g).Keeps (watch g) (good g) x := by
  refine Session.invariant (fun c s t holds entered => ?_) (fun s t holds rested => ?_) initial
    reached
  · obtain ⟨ss, inv⟩ := holds
    -- only a scan has something to keep in mind; `free` starts with a live block
    cases c with
    | malloc n =>
      cases entered
      refine survives_mallocLoop placed loopBound inv ?_ rfl
      rw [inv.represents.head placed]
      cases ss with
      | nil => exact .inl rfl
      | cons s ss => exact .inr ⟨s, by simp, rfl⟩
    | free p =>
      obtain ⟨allowed, rfl⟩ := entered
      exact survives_free placed inv allowed
  · obtain ⟨ss, inv⟩ := holds
    obtain ⟨irq, does⟩ := rested
    obtain ⟨ss', inv', -⟩ := inv.does placed does
    exact ⟨ss', inv'⟩

/-- When no handler does anything to the heap inside the windows, the heap is well formed between the
calls of every run and wherever a handler may arrive. -/
theorem masked_wellFormed (region : Region size addr) (start : Reachable size addr g st) {x}
    (reached : (masked g).Reachable st x) :
    (∀ s, x = .idle s → ∃ bs, WellFormed g s bs) ∧
    (∀ c tr o k s irq, x = .busy c tr (.op o k) s → Open g s.mem tr c irq → ∃ bs, WellFormed g s bs) := by
  obtain ⟨rfl, ss, inv⟩ := reachable_inv region start
  have placed := placed_heapInit region
  have keeps := masked_keeps placed ⟨ss, inv⟩ reached
  constructor
  · rintro s rfl
    obtain ⟨ss', inv'⟩ : good _ s := keeps
    exact ⟨_, inv'.wellFormed placed⟩
  · rintro c tr o k s irq rfl opened
    obtain ⟨ss', inv'⟩ := keeps.watched irq opened
    exact ⟨_, inv'.wellFormed placed⟩

/-- A handler lets a vector grow while a `malloc` is about to read the first block: it allocates the new
block and frees the old one, which the interrupted call then takes. -/
theorem masked_wellFormed_reserve :
    ∃ st : HeapState, (masked ⟨256, 256, 4352⟩).Reachable freshHeap (.idle st) ∧ st.live = [288, 336] ∧
      ∃ bs, WellFormed ⟨256, 256, 4352⟩ st bs := by
  have all : (((malloc ⟨256, 256, 4352⟩ 16).run memHandler freshHeap.mem).bind fun old =>
      ((malloc ⟨256, 256, 4352⟩ 32).run memHandler old.2).bind fun new =>
      ((free 288).run memHandler new.2).bind fun freed =>
      ((malloc ⟨256, 256, 4352⟩ 16).run memHandler freed.2).map fun taken =>
        (old.1, new.1, field new.2 256 .prev, field new.2 256 .next, taken.1)) =
      some (288, 336, 0, 304, 288) := by
    decide +kernel
  obtain ⟨⟨p, m⟩, old, all⟩ := Option.bind_eq_some_iff.mp all
  obtain ⟨⟨q, m₁⟩, new, all⟩ := Option.bind_eq_some_iff.mp all
  obtain ⟨⟨⟨⟩, m₂⟩, freed, all⟩ := Option.bind_eq_some_iff.mp all
  obtain ⟨⟨r, m₃⟩, taken, all⟩ := Option.map_eq_some_iff.mp all
  simp only [Prod.mk.injEq] at all
  obtain ⟨rfl, rfl, prev, next, rfl⟩ := all
  let kept := freshHeap.allocated 288 m
  let grown := kept.allocated 336 m₁
  let smaller := grown.freed 288 m₂
  have entered : (masked ⟨256, 256, 4352⟩).Step (.idle kept)
      (.busy (.malloc 16) [] (malloc ⟨256, 256, 4352⟩ 16) kept) := .call (c := Call.malloc 16) rfl
  have code : malloc ⟨256, 256, 4352⟩ 16 = Program.perform (.load 1 264) >>= fun free : Nat =>
      if free = 0 then getField .next 256 >>= mallocLoop (roundSize 16) (2 ^ 64 - 1)
      else getField .size 256 >>= fun blockSize =>
        if roundSize 16 ≤ blockSize then takeBlock 256 (roundSize 16)
        else getField .next 256 >>= mallocLoop (roundSize 16) (2 ^ 64 - 1) := by
    rw [malloc, show loopBound = 2 ^ 64 - 1 + 1 from rfl, mallocLoop_succ (by decide)]
    rfl
  have allocates : (masked ⟨256, 256, 4352⟩).busyEnv (.malloc 16) [] kept grown :=
    ⟨.keep 32, (by intro p release; cases release), trivial, .keep new⟩
  have frees : (masked ⟨256, 256, 4352⟩).busyEnv (.malloc 16) [] grown smaller := by
    refine ⟨.release 288, ?_, trivial, .release (by simp [grown, kept, HeapState.allocated]) freed⟩
    rintro p ⟨⟩ (⟨-, front, -⟩ | ⟨here, -⟩)
    · exact front prev
    · rw [show (288 - sizeofBlock : Nat) = 256 from rfl, show grown.mem = m₁ from rfl, next] at here
      cases here
  have rest : (malloc ⟨256, 256, 4352⟩ 16).run (masked ⟨256, 256, 4352⟩).handler smaller =
      some (288, ⟨m₃, smaller.live⟩) := by
    have lifted := run_heapHandler (malloc ⟨256, 256, 4352⟩ 16) smaller
    rw [show smaller.mem = m₂ from rfl, taken] at lifted
    exact lifted
  obtain ⟨tr, steps⟩ :=
    Session.steps_of_run (M := masked ⟨256, 256, 4352⟩) (c := Call.malloc 16) rest []
  rw [code] at entered steps
  have reached : (masked ⟨256, 256, 4352⟩).Reachable freshHeap
      (.idle ((HeapState.mk m₃ smaller.live).allocated 288 m₃)) :=
    (ReflTransGen.single (.rest ⟨.keep 16, .keep old⟩)).tail entered
      |>.tail (Session.step_interrupt allocates) |>.tail (Session.step_interrupt frees)
      |>.trans steps |>.tail .ret
  exact ⟨_, reached, rfl, (masked_wellFormed region_freshHeap reachable_freshHeap reached).1 _ rfl⟩

/-! ### A handler inside the window -/

/-- The run in which a handler allocates behind the first load of a `malloc`. -/
theorem preempted {w a w' a' p q : Nat} {k : Nat → MemProgram Nat} {k' : Nat → MemProgram Nat}
    {m m' : Memory} (code : malloc g n = .op (.load w a) k)
    (next : k (st.mem.load w a) = .op (.load w' a') k')
    (handler : (malloc g n).run memHandler st.mem = some (q, m))
    (resumed : (k (st.mem.load w a)).run memHandler m = some (p, m')) :
    (preemptive g).Reachable st (.idle ((HeapState.mk m' (st.allocated q m).live).allocated p m')) := by
  have called : (preemptive g).Step (.idle st) (.busy (.malloc n) [] (malloc g n) st) :=
    .call (c := Call.malloc n) rfl
  have answer : (preemptive g).handler (.load w a) st = some (st.mem.load w a, st) := rfl
  have read : (preemptive g).Step (.busy (.malloc n) [] (.op (.load w a) k) st)
      (.busy (.malloc n) [⟨.load w a, (st.mem.load w a : Nat)⟩] (k (st.mem.load w a)) st) :=
    .op answer
  -- between the two loads the handler runs to its end
  have interrupted : (preemptive g).Step
      (.busy (.malloc n) [⟨.load w a, (st.mem.load w a : Nat)⟩] (.op (.load w' a') k') st)
      (.busy (.malloc n) [⟨.load w a, (st.mem.load w a : Nat)⟩] (.op (.load w' a') k')
        (st.allocated q m)) :=
    .interrupt ⟨.keep n, trivial, trivial, .keep handler⟩
  have alone : (k (st.mem.load w a)).run (preemptive g).handler (st.allocated q m) =
      some (p, ⟨m', (st.allocated q m).live⟩) := by
    have lifted := run_heapHandler (k (st.mem.load w a)) (st.allocated q m)
    rw [show (st.allocated q m).mem = m from rfl, resumed] at lifted
    exact lifted
  obtain ⟨tr, steps⟩ := Session.steps_of_run (M := preemptive g) (c := Call.malloc n) alone
    [⟨.load w a, (st.mem.load w a : Nat)⟩]
  rw [code] at called
  rw [← next] at interrupted
  exact ((ReflTransGen.single called).tail read).tail interrupted |>.trans steps |>.tail .ret

/-- What is left of `malloc(16)` on the fresh heap once it has seen the free flag. -/
private def afterFlag : MemProgram Nat :=
  getField .size 256 >>= fun blockSize =>
    if roundSize 16 ≤ blockSize then takeBlock 256 (roundSize 16)
    else getField .next 256 >>= mallocLoop (roundSize 16) (2 ^ 64 - 1)

/-- A handler that allocates between the two reads of an interrupted `malloc(16)` gets the
block that the interrupted call then returns as well. -/
theorem preemptive_same_pointer :
    ∃ st, (preemptive ⟨256, 256, 4352⟩).Reachable freshHeap (.idle st) ∧ st.live = [288, 288] := by
  have both : (((malloc ⟨256, 256, 4352⟩ 16).run memHandler freshHeap.mem).bind fun r =>
      (afterFlag.run memHandler r.2).map fun r' => (r.1, r'.1)) = some (288, 288) := by
    decide +kernel
  obtain ⟨⟨p, m⟩, handler, rest⟩ := Option.bind_eq_some_iff.mp both
  obtain ⟨⟨p', m'⟩, resumed, same⟩ := Option.map_eq_some_iff.mp rest
  obtain ⟨rfl, rfl⟩ : p = 288 ∧ p' = 288 := by simpa using same
  have flag : freshHeap.mem.load 1 264 = 1 := by decide +kernel
  have code : malloc ⟨256, 256, 4352⟩ 16 = Program.op (.load 1 264) fun free : Nat =>
      if free = 0 then getField .next 256 >>= mallocLoop (roundSize 16) (2 ^ 64 - 1)
      else afterFlag := by
    rw [malloc, show loopBound = 2 ^ 64 - 1 + 1 from rfl, mallocLoop_succ (by decide)]
    rfl
  have reached := preempted code (by rw [flag]; rfl) handler (by rw [flag]; exact resumed)
  exact ⟨_, reached, rfl⟩

/-- A run that interrupts a call anywhere can leave one block with two owners. -/
theorem preemptive_not_wellFormed :
    ¬∀ size addr g st s, Region size addr → Reachable size addr g st →
      (preemptive g).Reachable st (.idle s) → ∃ bs, WellFormed g s bs := by
  intro claimed
  obtain ⟨s, reached, live⟩ := preemptive_same_pointer
  obtain ⟨bs, wellFormed⟩ :=
    claimed 4096 256 _ freshHeap s region_freshHeap reachable_freshHeap reached
  have distinct := wellFormed.distinct
  rw [live] at distinct
  simp at distinct

end KopalniaOS.Heap
