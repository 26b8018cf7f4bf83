import KopalniaOS.Heap.Canonical
import KopalniaOS.Heap.UsableSize

/-!
# Aligned and boundary-limited allocation

`malloc_align` and `malloc_boundry` ask `malloc` for enough bytes to move the address inside
the block, and leave the address of the block in the word in front of what they return.
-/
namespace KopalniaOS.Heap

open Library

variable {g : Globals} {st : HeapState} {ss : List Seg} {size addr n k j : Nat}

/-! ### Windows of a power of two -/

/-- The start of the window of `2 ^ j` addresses that `x` is in. -/
def windowStart (j x : Nat) : Nat := x / 2 ^ j * 2 ^ j

theorem dvd_windowStart (j x : Nat) : 2 ^ j ∣ windowStart j x := Nat.dvd_mul_left (2 ^ j) _

theorem windowStart_le (j x : Nat) : windowStart j x ≤ x := Nat.div_mul_le_self x (2 ^ j)

theorem lt_windowStart_add (j x : Nat) : x < windowStart j x + 2 ^ j :=
  Nat.lt_div_mul_add (Nat.two_pow_pos j)

/-- The only multiple in reach is the start of the window. -/
theorem windowStart_eq {a x : Nat} (multiple : 2 ^ j ∣ a) (le : a ≤ x) (lt : x < a + 2 ^ j) :
    windowStart j x = a := by
  obtain ⟨q, rfl⟩ := multiple
  have quotient : x / 2 ^ j = q := by
    rw [Nat.div_eq_iff (Nat.two_pow_pos j), Nat.mul_comm q]
    omega
  rw [windowStart, quotient, Nat.mul_comm]

theorem windowStart_of_dvd {a : Nat} (multiple : 2 ^ j ∣ a) : windowStart j a = a :=
  windowStart_eq multiple (Nat.le_refl a) (Nat.lt_add_of_pos_right (Nat.two_pow_pos j))

/-- Two addresses with the same start are in the same window. -/
theorem div_eq_of_windowStart_eq {x y : Nat} (same : windowStart j x = windowStart j y) :
    x / 2 ^ j = y / 2 ^ j :=
  Nat.eq_of_mul_eq_mul_right (Nat.two_pow_pos j) same

/-! ### The checks of `malloc_boundry` -/

theorem notPowerOfTwo_two_pow (bits : j < 64) : notPowerOfTwo (2 ^ j) = false := by
  have pos := Nat.two_pow_pos j
  have word : 2 ^ j < 2 ^ 64 := Nat.pow_lt_pow_right (by decide) bits
  have zero : 2 ^ j &&& (2 ^ j - 1) = 0 :=
    (Nat.and_sub_one_eq_zero_iff_isPowerOfTwo (Nat.ne_of_gt pos)).mpr ⟨j, rfl⟩
  simp [notPowerOfTwo, sub64_of_le word pos, zero]

/-- What passes the test is zero or a power of two. -/
theorem of_notPowerOfTwo {boundry : Nat} (word : boundry < 2 ^ 64)
    (passed : notPowerOfTwo boundry = false) : boundry = 0 ∨ ∃ j < 64, boundry = 2 ^ j := by
  by_cases zero : boundry = 0
  · exact .inl zero
  · have pos : 1 ≤ boundry := Nat.pos_of_ne_zero zero
    have bits : boundry &&& (boundry - 1) = 0 := by
      simpa [notPowerOfTwo, zero, sub64_of_le word pos] using passed
    obtain ⟨j, rfl⟩ := (Nat.and_sub_one_eq_zero_iff_isPowerOfTwo zero).mp bits
    exact .inr ⟨j, (Nat.pow_lt_pow_iff_right (by decide)).mp word, rfl⟩

theorem boundryCheck_zero (aligned n : Nat) : boundryCheck aligned n 0 = some aligned := if_pos rfl

/-- The check on words, with the masks as windows. -/
theorem boundryCheck_two_pow (bits : j < 64) {aligned : Nat} (word : aligned < 2 ^ 64) :
    boundryCheck aligned n (2 ^ j) =
      if windowStart j aligned = windowStart j (sub64 (u64 (aligned + n)) 1) then some aligned
      else
        let next := windowStart j (u64 (aligned + 2 ^ j))
        if next = windowStart j (sub64 (u64 (next + n)) 1) then some next else none := by
  have pos := Nat.two_pow_pos j
  have mask : sub64 (2 ^ j) 1 = 2 ^ j - 1 :=
    sub64_of_le (Nat.pow_lt_pow_right (by decide) bits) pos
  have round {x : Nat} (small : x < 2 ^ 64) : x &&& not64 (2 ^ j - 1) = windowStart j x :=
    and_not64_two_pow_sub_one small (Nat.le_of_lt bits)
  unfold boundryCheck
  simp only [if_neg (Nat.ne_of_gt pos), mask, round word, round (u64_lt _), round (sub64_lt _ _)]
  have next := windowStart_le j (u64 (aligned + 2 ^ j))
  rw [round (Nat.lt_of_le_of_lt next (u64_lt _)), windowStart_of_dvd (dvd_windowStart j _), ite_not]

/-- Away from the end of the word the check moves an aligned address to an aligned one with its
bytes in one window, and only gives up when they are more than a window. -/
theorem boundryCheck_fits (bits : j < 64) {aligned : Nat} (multiple : 2 ^ k ∣ aligned)
    (pos : 1 ≤ n) (small : aligned + 2 ^ j + n ≤ 2 ^ 64) :
    (n ≤ 2 ^ j → ∃ p, boundryCheck aligned n (2 ^ j) = some p) ∧
    ∀ p, boundryCheck aligned n (2 ^ j) = some p → 2 ^ k ∣ p ∧ aligned ≤ p ∧
      p ≤ aligned + 2 ^ j ∧ p / 2 ^ j = (p + n - 1) / 2 ^ j := by
  have window := Nat.two_pow_pos j
  have last {a : Nat} (below : a + n ≤ 2 ^ 64) (above : 0 < a + n) :
      sub64 (u64 (a + n)) 1 = a + n - 1 := by
    unfold sub64 u64
    omega
  rw [boundryCheck_two_pow bits (by omega), last (by omega) (by omega)]
  by_cases same : windowStart j aligned = windowStart j (aligned + n - 1)
  · rw [if_pos same]
    refine ⟨fun _ => ⟨aligned, rfl⟩, ?_⟩
    rintro _ ⟨⟩
    exact ⟨multiple, Nat.le_refl _, Nat.le_add_right _ _, div_eq_of_windowStart_eq same⟩
  · -- the address moves on to the start of the next window
    rw [if_neg same, u64_of_lt (by omega)]
    have below := windowStart_le j (aligned + 2 ^ j)
    have above := lt_windowStart_add j (aligned + 2 ^ j)
    have whole := dvd_windowStart j (aligned + 2 ^ j)
    generalize windowStart j (aligned + 2 ^ j) = next at below above whole
    dsimp only
    rw [last (by omega) (by omega)]
    refine ⟨fun fits => ⟨next, if_pos ?_⟩, fun p found => ?_⟩
    · exact (windowStart_eq whole (by omega) (by omega)).symm
    · obtain ⟨inside, rfl⟩ : next = windowStart j (next + n - 1) ∧ next = p := by
        simpa [Option.ite_none_right_eq_some] using found
      have fits := lt_windowStart_add j (next + n - 1)
      refine ⟨?_, by omega, below, div_eq_of_windowStart_eq ?_⟩
      · -- an alignment beyond the window would have kept the bytes in the first window
        rcases Nat.le_total k j with le | le
        · exact Nat.dvd_trans (Nat.pow_dvd_pow 2 le) whole
        · refine absurd ?_ same
          have start := Nat.dvd_trans (Nat.pow_dvd_pow 2 le) multiple
          rw [windowStart_of_dvd start]
          exact (windowStart_eq start (by omega) (by omega)).symm
      · rw [windowStart_of_dvd whole]
        exact inside

/-- The same for every boundary that passes the test. -/
theorem boundryCheck_moves {aligned boundry : Nat} (window : boundry = 0 ∨ ∃ j, boundry = 2 ^ j)
    (multiple : 2 ^ k ∣ aligned) (pos : 1 ≤ n) (small : aligned + boundry + n ≤ 2 ^ 64) :
    (boundry = 0 ∨ n ≤ boundry → ∃ p, boundryCheck aligned n boundry = some p) ∧
    ∀ p, boundryCheck aligned n boundry = some p → 2 ^ k ∣ p ∧ aligned ≤ p ∧
      p ≤ aligned + boundry ∧ (boundry ≠ 0 → p / boundry = (p + n - 1) / boundry) := by
  rcases window with rfl | ⟨j, rfl⟩
  · rw [boundryCheck_zero]
    refine ⟨fun _ => ⟨_, rfl⟩, fun p found => ?_⟩
    obtain rfl := Option.some.inj found
    exact ⟨multiple, Nat.le_refl _, Nat.le_refl _, fun nonzero => (nonzero rfl).elim⟩
  · have bits : j < 64 :=
      (Nat.pow_lt_pow_iff_right (by decide : 1 < 2)).mp (by omega : 2 ^ j < 2 ^ 64)
    obtain ⟨fits, moved⟩ := boundryCheck_fits bits multiple pos small
    refine ⟨fun enough => fits (enough.resolve_left (Nat.ne_of_gt (Nat.two_pow_pos j))),
      fun p found => ?_⟩
    obtain ⟨multiple, above, below, inside⟩ := moved p found
    exact ⟨multiple, above, below, fun _ => inside⟩

/-! ### `malloc_boundry` in terms of `malloc` -/

/-- The alignment that is used. -/
def alignment (align : Nat) : Nat := if align = 0 then 1 else align

/-- Both checks in front of the allocation pass. -/
def Accepted (n align boundry : Nat) : Prop :=
  tooLarge n align boundry = false ∧ notPowerOfTwo boundry = false

theorem run_mallocBoundry_rejected {align boundry : Nat} (rejected : ¬Accepted n align boundry) :
    (mallocBoundry g n align boundry).run memHandler st.mem = some (0, st.mem) := by
  unfold mallocBoundry
  cases large : tooLarge n align boundry with
  | true => rfl
  | false =>
    cases odd : notPowerOfTwo boundry with
    | true => rfl
    | false => exact (rejected ⟨large, odd⟩).elim

/-- The rest of the call, once `malloc` gave `raw`. -/
theorem run_mallocBoundry {align boundry raw : Nat} {m : Memory} (accepted : Accepted n align boundry)
    (ran : (malloc g (boundryTotal n (alignment align) boundry)).run memHandler st.mem =
      some (raw, m)) :
    (mallocBoundry g n align boundry).run memHandler st.mem =
      if raw = 0 then some (0, m)
      else
        match boundryCheck (alignUp (u64 (raw + 8)) (alignment align)) n boundry with
        | none => ((free raw).run memHandler m).map fun r => (0, r.2)
        | some aligned =>
          if u64 (raw + boundryTotal n (alignment align) boundry) < u64 (aligned + n) then
            ((free raw).run memHandler m).map fun r => (0, r.2)
          else some (aligned, m.store 8 (sub64 aligned 8) raw) := by
  obtain ⟨large, odd⟩ := accepted
  -- both ways to give up free the block and return null
  have freed : (free raw >>= fun _ => pure 0).run memHandler m =
      ((free raw).run memHandler m).map fun r => ((0 : Nat), r.2) := by
    rw [Program.run_bind]
    cases (free raw).run memHandler m <;> rfl
  unfold mallocBoundry
  rw [large, odd]
  simp only [Bool.false_eq_true, if_false]
  rw [Program.run_bind]
  change ((malloc g (boundryTotal n (alignment align) boundry)).run memHandler st.mem).bind _ = _
  rw [ran, Option.bind_some]
  change Program.run memHandler (if raw = 0 then pure 0 else
    match boundryCheck (alignUp (u64 (raw + 8)) (alignment align)) n boundry with
    | none => free raw >>= fun _ => pure 0
    | some aligned =>
      if u64 (raw + boundryTotal n (alignment align) boundry) < u64 (aligned + n) then
        free raw >>= fun _ => pure 0
      else storeBytes 8 (sub64 aligned 8) raw >>= fun _ => pure aligned) m = _
  split
  · rfl
  · split
    · exact freed
    · split
      · exact freed
      · rfl

/-! ### What the caller gets -/

/-- One byte more of `m` in front of what is left of `m'`. -/
theorem update_front (m m' : Memory) (b : Nat) :
    Function.update (fun x => if x < b then m x else m' x) b (m b) =
      fun x => if x < b + 1 then m x else m' x := by
  funext x
  by_cases here : x = b
  · rw [here, Function.update_self, if_pos (Nat.lt_succ_self b)]
  · rw [Function.update_of_ne here]
    by_cases earlier : x < b
    · rw [if_pos earlier, if_pos (Nat.lt_succ_of_lt earlier)]
    · rw [if_neg earlier, if_neg (by omega)]

/-- Whatever is written into the payload of a live block, a client could have written. -/
theorem Reachable.fill (region : Region size addr) (reached : Reachable size addr g st) {p : Nat}
    {m : Memory} (member : p ∈ st.live)
    (same : ∀ x, x < p ∨ p + field st.mem (p - sizeofBlock) .size ≤ x → m x = st.mem x) :
    Reachable size addr g ⟨m, st.live⟩ := by
  obtain ⟨rfl, ss, inv⟩ := reachable_inv region reached
  obtain ⟨s, -, -, rfl⟩ := inv.mem_live.mp member
  rw [sizeofBlock, Nat.add_sub_cancel] at same
  -- the bytes are written one after the other
  have filled (i : Nat) (inside : i ≤ field st.mem s.addr .size) : Reachable size addr
      ⟨addr, addr, addr + size⟩
      ⟨fun x => if x < s.addr + 32 + i then m x else st.mem x, st.live⟩ := by
    induction i with
    | zero =>
      have before : (fun x => if x < s.addr + 32 + 0 then m x else st.mem x) = st.mem := by
        funext x
        split
        · exact same x (.inl (by omega))
        · rfl
      rw [before]
      exact reached
    | succ i ih =>
      have next := ih (by omega)
      -- the size of the block is in front of the payload, so it stays
      have header : field (fun x => if x < s.addr + 32 + i then m x else st.mem x)
          (s.addr + 32 - sizeofBlock) .size = field st.mem s.addr .size := by
        rw [sizeofBlock, Nat.add_sub_cancel]
        refine field_congr _ fun x lower upper => ?_
        rw [if_pos (by omega)]
        exact same x (.inl (by omega))
      have written := next.step (.write (x := s.addr + 32 + i) (v := m (s.addr + 32 + i)) member
        (by omega) (by rw [header]; omega))
      rwa [update_front] at written
  have all : (fun x => if x < s.addr + 32 + field st.mem s.addr .size then m x else st.mem x) = m := by
    funext x
    split
    · rfl
    · exact (same x (.inr (by omega))).symm
  exact all ▸ filled _ (Nat.le_refl _)

/-- `n` aligned bytes at `p` in the payload of the live block at `raw`, behind the word that leads
`free_align` and `free_boundry` to that block and to no other. -/
structure Granted (size addr : Nat) (g : Globals) (st : HeapState) (n align p raw : Nat)
    (m : Memory) : Prop where
  reached : Reachable size addr g (st.allocated raw m)
  live : raw ∈ (st.allocated raw m).live
  multiple : align ∣ p
  above : raw + sizeofAlignHeader ≤ p
  below : p + n ≤ raw + field m (raw - sizeofBlock) .size
  header : m.load 8 (p - sizeofAlignHeader) = raw
  released : ∀ st', Reachable size addr g st' → raw ∈ st'.live →
    st'.mem.load 8 (p - sizeofAlignHeader) = raw → ∃ m',
      (freeAlign p).run memHandler st'.mem = some ((), m') ∧
      (freeBoundry p).run memHandler st'.mem = some ((), m') ∧
      Step g st' (st'.freed raw m') ∧
      ∀ b, b ∈ liveBlocks (st'.freed raw m') ↔ b ∈ liveBlocks st' ∧ b.1 + sizeofBlock ≠ raw

/-- Both functions free what the word in front of the pointer says. -/
theorem run_release {p raw : Nat} {m : Memory} (notNull : 8 ≤ p) (word : p < 2 ^ 64)
    (header : m.load 8 (p - 8) = raw) :
    (freeAlign p).run memHandler m = (free raw).run memHandler m ∧
      (freeBoundry p).run memHandler m = (free raw).run memHandler m := by
  have address : sub64 p sizeofAlignHeader = p - 8 := sub64_of_le word notNull
  have loaded : (loadBytes 8 (p - 8)).run memHandler m = some (raw, m) := by
    rw [← header]
    rfl
  have released : (loadBytes 8 (p - 8) >>= free).run memHandler m = (free raw).run memHandler m := by
    rw [Program.run_bind, loaded, Option.bind_some]
  unfold freeAlign freeBoundry
  rw [if_neg (by omega), address]
  exact ⟨released, released⟩

/-- Freeing a live pointer takes its block from the live ones. -/
theorem liveBlocks_freed (region : Region size addr) (reached : Reachable size addr g st) (raw : Nat)
    (member : raw ∈ st.live) : ∃ m, (free raw).run memHandler st.mem = some ((), m) ∧
      Step g st (st.freed raw m) ∧
      ∀ b, b ∈ liveBlocks (st.freed raw m) ↔ b ∈ liveBlocks st ∧ b.1 + sizeofBlock ≠ raw := by
  obtain ⟨rfl, ss, inv⟩ := reachable_inv region reached
  obtain ⟨m, ss', ran, inv', kept⟩ := inv.free_used (placed_heapInit region) member
  refine ⟨m, ran, .free (.inr member) ran, fun b => ?_⟩
  rw [inv'.mem_liveBlocks, kept _ rfl, ← inv.mem_liveBlocks]

/-- Every address behind the first word of a block that `malloc` gave can be returned. -/
theorem granted_of_malloc (region : Region size addr) (reached : Reachable size addr g st)
    {total raw : Nat} {m : Memory} (small : total ≤ 2 ^ 64 - 16)
    (ran : (malloc g total).run memHandler st.mem = some (raw, m)) (notNull : raw ≠ 0) :
    raw + total < 2 ^ 64 ∧ ∀ p n align, align ∣ p → raw + 8 ≤ p → p + n ≤ raw + total →
      Granted size addr g st n align p raw (m.store 8 (p - 8) raw) := by
  have after := reached.step (.malloc ran)
  obtain ⟨rfl, ss, inv⟩ := reachable_inv region reached
  rcases inv.malloc_given (placed_heapInit region) total with ⟨-, failed⟩ |
    ⟨s, m', given, -, taken, sized, low, -, -, -, bound⟩
  · cases failed.symm.trans ran
    exact (notNull rfl).elim
  cases taken.symm.trans ran
  have enough := le_roundSize small
  have live (m : Memory) : s.addr + 32 ∈ (st.allocated (s.addr + 32) m).live := by
    simp [HeapState.allocated]
  have states (m m' : Memory) : (⟨m', (st.allocated (s.addr + 32) m).live⟩ : HeapState) =
      st.allocated (s.addr + 32) m' := rfl
  refine ⟨by omega, fun p n align multiple above below => ?_⟩
  have untouched (x : Nat) (outside : x < s.addr + 32 ∨ s.addr + 32 + given ≤ x) :
      m.store 8 (p - 8) (s.addr + 32) x = m x :=
    Memory.store_outside _ _ _ _ _ (by omega)
  have header : field (m.store 8 (p - 8) (s.addr + 32)) s.addr .size = given := by
    rw [← sized]
    exact field_congr _ fun x _ upper => untouched x (.inl (by omega))
  refine ⟨?_, live _, multiple, above, ?_, ?_, fun st' reached' live' word => ?_⟩
  · -- the word in front of the pointer is part of the payload
    have filled := after.fill region (live m) (m := m.store 8 (p - 8) (s.addr + 32)) fun x outside => by
      rw [sizeofBlock, Nat.add_sub_cancel] at outside
      have same : (st.allocated (s.addr + 32) m).mem = m := rfl
      rw [same, sized] at outside
      exact untouched x outside
    rw [states] at filled
    exact filled
  · rw [sizeofBlock, Nat.add_sub_cancel, header]
    omega
  · exact Memory.load_store_same m (by omega)
  · obtain ⟨m', freed, step, kept⟩ := liveBlocks_freed region reached' _ live'
    obtain ⟨align, boundry⟩ := run_release (by omega) (by omega) word
    exact ⟨m', align.trans freed, boundry.trans freed, step, kept⟩

/-! ### Aligned and boundary-limited blocks -/

theorem run_malloc_total (region : Region size addr) (reached : Reachable size addr g st) (n : Nat) :
    ∃ p m, (malloc g n).run memHandler st.mem = some (p, m) ∧ (p = 0 → m = st.mem) := by
  obtain ⟨rfl, ss, inv⟩ := reachable_inv region reached
  rcases inv.malloc (placed_heapInit region) n with ⟨-, ran⟩ | ⟨xs, s, ys, m, -, -, -, -, ran, -⟩
  · exact ⟨0, st.mem, ran, fun _ => rfl⟩
  · exact ⟨_, m, ran, fun null => absurd null (by omega)⟩

theorem alignUp_bounds {base : Nat} (notNull : 0 < base) (small : base + 2 ^ k ≤ 2 ^ 64) :
    2 ^ k ∣ alignUp base (2 ^ k) ∧ base ≤ alignUp base (2 ^ k) ∧
      alignUp base (2 ^ k) < base + 2 ^ k := by
  have pos := Nat.two_pow_pos k
  have bits : k < 64 := (Nat.pow_lt_pow_iff_right (by decide : 1 < 2)).mp (by omega : 2 ^ k < 2 ^ 64)
  rw [alignUp_two_pow (by omega) notNull bits, if_pos small]
  obtain ⟨above, below, -⟩ := roundUp_bounds pos notNull
  exact ⟨Nat.dvd_mul_left _ _, above, below⟩

/-- Zero means no alignment. -/
theorem alignment_eq {align : Nat} (power : align = 0 ∨ ∃ k, align = 2 ^ k) :
    ∃ k, alignment align = 2 ^ k ∧ 2 ^ k ≤ align + 1 := by
  rcases power with rfl | ⟨k, rfl⟩
  · exact ⟨0, rfl, Nat.le_refl 1⟩
  · exact ⟨k, if_neg (Nat.ne_of_gt (Nat.two_pow_pos k)), Nat.le_succ _⟩

theorem mallocAlign_granted (region : Region size addr) (reached : Reachable size addr g st)
    {align : Nat} (power : alignment align = 2 ^ k) (small : n + 2 ^ k + 8 ≤ 2 ^ 64 - 16) :
    ∃ p m, (mallocAlign g n align).run memHandler st.mem = some (p, m) ∧
      (p ≠ 0 → ∃ raw, Granted size addr g st n (alignment align) p raw m) := by
  have same : mallocAlign g n align = mallocAlign g n (2 ^ k) := by
    unfold mallocAlign
    change alignment align = 2 ^ k at power
    rw [if_neg (Nat.ne_of_gt (Nat.two_pow_pos k)),
      show (if align = 0 then 1 else align) = 2 ^ k from power]
  rw [same, power]
  obtain ⟨raw, m, ran, -⟩ := run_malloc_total region reached (alignedTotal n (2 ^ k))
  have answer := run_mallocAlign (Nat.ne_of_gt (Nat.two_pow_pos k)) ran
  -- without a block the answer is null, of which nothing is claimed
  by_cases null : raw = 0
  · rw [if_pos null] at answer
    exact ⟨0, m, answer, fun notNull => (notNull rfl).elim⟩
  rw [if_neg null] at answer
  have total : alignedTotal n (2 ^ k) = n + 2 ^ k + 8 := alignedTotal_of_le (by omega)
  rw [total] at ran
  obtain ⟨bound, granted⟩ := granted_of_malloc region reached small ran null
  have base : u64 (raw + 8) = raw + 8 := u64_of_lt (by omega)
  obtain ⟨multiple, above, below⟩ := @alignUp_bounds k (raw + 8) (by omega) (by omega)
  rw [base, sub64_of_le (by omega) (by omega)] at answer
  exact ⟨_, _, answer, fun _ => ⟨raw, granted _ n _ multiple above (by omega)⟩⟩

theorem mallocBoundry_granted (region : Region size addr) (reached : Reachable size addr g st)
    {align boundry : Nat} (power : alignment align = 2 ^ k)
    (window : boundry = 0 ∨ ∃ j, boundry = 2 ^ j) (pos : 1 ≤ n)
    (small : n + 2 ^ k + boundry + 8 ≤ 2 ^ 64 - 16) (accepted : Accepted n align boundry) :
    ∃ p m, (mallocBoundry g n align boundry).run memHandler st.mem = some (p, m) ∧
      (p ≠ 0 → ∃ raw, Granted size addr g st n (alignment align) p raw m ∧
        (boundry ≠ 0 → p / boundry = (p + n - 1) / boundry)) ∧
      (boundry = 0 ∨ n ≤ boundry → p = 0 → ∃ m',
        (malloc g (n + alignment align + boundry + 8)).run memHandler st.mem = some (0, m')) := by
  have total : boundryTotal n (alignment align) boundry = n + 2 ^ k + boundry + 8 := by
    have first : u64 (n + 2 ^ k) = n + 2 ^ k := u64_of_lt (by omega)
    have second : u64 (n + 2 ^ k + boundry) = n + 2 ^ k + boundry := u64_of_lt (by omega)
    rw [boundryTotal, power, first, second, sizeofAlignHeader, u64_of_lt (by omega)]
  obtain ⟨raw, m, ran, -⟩ := run_malloc_total region reached (n + 2 ^ k + boundry + 8)
  have answer := run_mallocBoundry accepted (by rw [total]; exact ran)
  rw [total, power] at answer
  rw [power]
  by_cases null : raw = 0
  · rw [if_pos null] at answer
    exact ⟨0, m, answer, fun notNull => (notNull rfl).elim, fun _ _ => ⟨m, null ▸ ran⟩⟩
  rw [if_neg null] at answer
  obtain ⟨bound, granted⟩ := granted_of_malloc region reached small ran null
  have base : u64 (raw + 8) = raw + 8 := u64_of_lt (by omega)
  obtain ⟨multiple, above, below⟩ := @alignUp_bounds k (raw + 8) (by omega) (by omega)
  rw [base] at answer
  obtain ⟨fits, moved⟩ := boundryCheck_moves window multiple pos (by omega)
  cases found : boundryCheck (alignUp (raw + 8) (2 ^ k)) n boundry with
  | none =>
    -- the block is given back, and that can only be for bytes that no window holds
    rw [found] at answer
    obtain ⟨m', freed, -⟩ := liveBlocks_freed region (reached.step (.malloc ran)) raw
      (by simp [HeapState.allocated, null])
    have freed' : (free raw).run memHandler m = some ((), m') := freed
    rw [freed'] at answer
    refine ⟨0, m', answer, fun notNull => (notNull rfl).elim, fun enough => ?_⟩
    obtain ⟨p, given⟩ := fits enough
    cases found.symm.trans given
  | some p =>
    rw [found] at answer
    obtain ⟨multiple, after, before, inside⟩ := moved p found
    have room : u64 (raw + (n + 2 ^ k + boundry + 8)) = raw + (n + 2 ^ k + boundry + 8) :=
      u64_of_lt bound
    have last : u64 (p + n) = p + n := u64_of_lt (by omega)
    dsimp only at answer
    rw [room, last, if_neg (by omega), sub64_of_le (by omega) (by omega)] at answer
    exact ⟨p, _, answer, fun _ => ⟨raw, granted p n _ multiple (by omega) (by omega), inside⟩,
      fun _ null => absurd null (by omega)⟩

/-- For every reachable heap: what the two functions return is aligned, lies in one live block
behind the word that names it, and does not cross a boundary; and bytes that fit between two
boundaries are only refused when `malloc` refuses. -/
theorem aligned_allocation (region : Region size addr) (reached : Reachable size addr g st)
    {align boundry : Nat} (power : align = 0 ∨ ∃ k, align = 2 ^ k)
    (window : boundry = 0 ∨ ∃ j, boundry = 2 ^ j) (pos : 1 ≤ n)
    (small : n + align + boundry + 24 < 2 ^ 64) :
    (∃ p m, (mallocAlign g n align).run memHandler st.mem = some (p, m) ∧
      (p ≠ 0 → ∃ raw, Granted size addr g st n (alignment align) p raw m)) ∧
    ∃ p m, (mallocBoundry g n align boundry).run memHandler st.mem = some (p, m) ∧
      (p ≠ 0 → ∃ raw, Granted size addr g st n (alignment align) p raw m ∧
        (boundry ≠ 0 → p / boundry = (p + n - 1) / boundry)) ∧
      (boundry = 0 ∨ n ≤ boundry → p = 0 → ∃ m',
        (malloc g (n + alignment align + boundry + 8)).run memHandler st.mem = some (0, m')) := by
  obtain ⟨k, alignment, le⟩ := alignment_eq power
  have accepted : Accepted n align boundry := by
    constructor
    · -- the limit is computed on words, and here nothing wraps
      have limit : sub64 (sub64 (sub64 (not64 0) align) boundry) sizeofAlignHeader =
          2 ^ 64 - 1 - align - boundry - 8 := by
        have all : not64 0 = 2 ^ 64 - 1 := rfl
        rw [all, sizeofAlignHeader, sub64_of_le (a := 2 ^ 64 - 1) (by omega) (by omega),
          sub64_of_le (a := 2 ^ 64 - 1 - align) (by omega) (by omega),
          sub64_of_le (by omega) (by omega)]
      rw [tooLarge, limit, decide_eq_false_iff_not]
      omega
    · rcases window with rfl | ⟨j, rfl⟩
      · rfl
      · exact notPowerOfTwo_two_pow
          ((Nat.pow_lt_pow_iff_right (by decide : 1 < 2)).mp (by omega : 2 ^ j < 2 ^ 64))
  exact ⟨mallocAlign_granted region reached alignment (by omega),
    mallocBoundry_granted region reached alignment window pos (by omega) accepted⟩

/-- 100 bytes on a fresh heap, aligned to 64 and within 256. -/
theorem aligned_allocation_fresh :
    (∃ p m, (mallocAlign ⟨256, 256, 4352⟩ 100 64).run memHandler freshHeap.mem = some (p, m) ∧
      (p ≠ 0 → ∃ raw, Granted 4096 256 ⟨256, 256, 4352⟩ freshHeap 100 (alignment 64) p raw m)) ∧
    ∃ p m, (mallocBoundry ⟨256, 256, 4352⟩ 100 64 256).run memHandler freshHeap.mem = some (p, m) ∧
      (p ≠ 0 → ∃ raw, Granted 4096 256 ⟨256, 256, 4352⟩ freshHeap 100 (alignment 64) p raw m ∧
        (256 ≠ 0 → p / 256 = (p + 100 - 1) / 256)) ∧
      (256 = 0 ∨ 100 ≤ 256 → p = 0 → ∃ m',
        (malloc ⟨256, 256, 4352⟩ (100 + alignment 64 + 256 + 8)).run memHandler freshHeap.mem =
          some (0, m')) :=
  aligned_allocation region_freshHeap reachable_freshHeap (.inr ⟨6, rfl⟩) (.inr ⟨8, rfl⟩) (by decide)
    (by decide)

end KopalniaOS.Heap
