import KopalniaOS.Xhci.EventDelivery

/-!
# `dequeue_events` on any ring memory

The loop has no counter. A slot that was taken carried the driver's cycle state, and that state
flips where the ring wraps, so after one lap the slot that was taken first no longer matches.
Nothing is assumed here about how the cycle bits came into the memory.
-/
namespace KopalniaOS.Xhci

open Library

/-- `length` slots from the one of TRB number `first` on. -/
def slotsFrom (n first length : Nat) : List Nat := (List.range' first length).map (· % n)

theorem length_slotsFrom (n first length : Nat) : (slotsFrom n first length).length = length := by
  simp [slotsFrom]

theorem slotsFrom_lt {n first length : Nat} (pos : 0 < n) :
    ∀ slot ∈ slotsFrom n first length, slot < n := by
  intro slot taken
  obtain ⟨count, -, rfl⟩ := List.mem_map.mp taken
  exact Nat.mod_lt count pos

/-- No slot comes twice within a lap. -/
theorem nodup_slotsFrom {n first length : Nat} (lap : length ≤ n) :
    (slotsFrom n first length).Nodup := by
  unfold slotsFrom
  rw [List.Nodup, List.pairwise_map]
  apply List.Pairwise.imp_of_mem _ (List.pairwise_lt_range' 1)
  intro s t before after less
  have low := List.mem_range'_1.mp before
  have high := List.mem_range'_1.mp after
  exact slot_ne less (by omega)

/-- Every ring with its pointer inside is where some number of TRBs leaves it. -/
theorem EventRing.exists_placed (ring : EventRing) (inside : ring.dequeuePtr < ring.segmentTrbCount) :
    ∃ count, ring = placed ring.segmentTrbCount ring.physicalBase count := by
  obtain ⟨n, base, ptr, bit⟩ := ring
  have inside : ptr < n := inside
  have pos : 0 < n := Nat.lt_of_le_of_lt (Nat.zero_le _) inside
  cases bit with
  | true => exact ⟨ptr, by simp [placed, Nat.mod_eq_of_lt inside, lapBit_of_lt inside]⟩
  | false =>
    -- on the second lap the cycle state is clear
    refine ⟨ptr + n, ?_⟩
    simp [placed, Nat.mod_eq_of_lt inside, lapBit_of_lt inside, lapBit_add n ptr pos]

section Drain

variable {n : Nat}

/-- The slots of `taken` TRBs from number `first` on carried the cycle state of the driver. -/
def Matched (n : Nat) (trbs : Nat → Trb) (first taken : Nat) : Prop :=
  ∀ i < taken, (trbs ((first + i) % n)).cycleBit = lapBit n (first + i)

theorem Matched.succ {trbs : Nat → Trb} {first taken : Nat} (matched : Matched n trbs first taken)
    (own : (trbs ((first + taken) % n)).cycleBit = lapBit n (first + taken)) :
    Matched n trbs first (taken + 1) := by
  intro i below
  by_cases last : i = taken
  · rw [last]
    exact own
  · exact matched i (by omega)

/-- After a whole lap the next slot does not match: it is the one that was taken first. -/
theorem Matched.lap {trbs : Nat → Trb} {first : Nat} (pos : 0 < n) (matched : Matched n trbs first n) :
    (trbs ((first + n) % n)).cycleBit ≠ lapBit n (first + n) := by
  have oldest : (trbs (first % n)).cycleBit = lapBit n first := matched 0 pos
  rw [Nat.add_mod_right, lapBit_add n first pos, oldest]
  simp

/-- The loop, `taken` TRBs after its start: `left` more are taken, a lap in all at most. -/
theorem run_drain_placed (pos : 0 < n) (base first bound : Nat) :
    ∀ taken s, taken ≤ n → n < taken + bound → Matched n s.trbs first taken →
      ∃ left t, taken + left ≤ n ∧
        ((EventRing.placed n base (first + taken)).drain bound).run eventHandler s =
          some (EventRing.placed n base (first + (taken + left)), t) ∧
        t.batch = s.batch ++ slotsFrom n (first + taken) left ∧ t.trbs = s.trbs ∧
        (t.trbs ((first + (taken + left)) % n)).cycleBit ≠ lapBit n (first + (taken + left)) := by
  induction bound with
  | zero =>
    intro taken s lap enough
    omega
  | succ bound ih =>
    intro taken s lap enough matched
    rw [EventRing.drain, EventRing.hasUnprocessedEvents, Program.run_bind, Program.run_bind, loadTrb,
      Program.run_perform]
    by_cases own : (s.trbs ((first + taken) % n)).cycleBit = lapBit n (first + taken)
    -- a full lap would meet its own entries again, which have the other bit
    · have less : taken < n := by
        apply Nat.lt_of_le_of_ne lap
        rintro rfl
        exact matched.lap pos own
      obtain ⟨left, t, within, ran, batch, trbs, stop⟩ :=
        ih (taken + 1) (s.taken ((first + taken) % n)) less (by omega) (matched.succ own)
      have total : taken + (left + 1) = taken + 1 + left := by omega
      refine ⟨left + 1, t, by omega, ?_, ?_, trbs, ?_⟩
      · have same : (s.trbs (EventRing.placed n base (first + taken)).dequeuePtr).cycleBit =
            (EventRing.placed n base (first + taken)).rcsBit := own
        have dequeued : (EventRing.placed n base (first + taken)).dequeueTrb.run eventHandler s =
            some ((some ((first + taken) % n), EventRing.placed n base (first + taken + 1)), s) := by
          rw [EventRing.dequeueTrb_placed pos, Program.run_bind, loadTrb, Program.run_perform,
            eventHandler, Option.bind_some, if_neg (not_not.mpr own), Program.pure_eq,
            Program.run_ret]
        simp only [eventHandler, Option.bind_some, Program.pure_eq, Program.run_ret, same,
          beq_self_eq_true, if_true, Program.run_bind, dequeued, pushBack, Program.run_perform]
        rw [total]
        exact ran
      · rw [batch, slotsFrom, slotsFrom, List.range'_succ, List.map_cons, EventChannel.taken,
          List.append_assoc]
        rfl
      · rw [total]
        exact stop
    -- the first entry of the controller ends the loop
    · have foreign : (s.trbs (EventRing.placed n base (first + taken)).dequeuePtr).cycleBit ≠
          (EventRing.placed n base (first + taken)).rcsBit := own
      refine ⟨0, s, lap, ?_, ?_, rfl, own⟩
      · simp only [eventHandler, Option.bind_some, Program.pure_eq, Program.run_ret,
          beq_eq_false_iff_ne.mpr foreign, Bool.false_eq_true, if_false, Nat.add_zero]
      · simp [slotsFrom]

end Drain

/-- On any memory a call takes each slot once at most, returns, and leaves no event behind that
carries the driver's cycle state. -/
theorem dequeueEvents_terminates (ring : EventRing) (s : EventChannel) (bound : Nat)
    (inside : ring.dequeuePtr < ring.segmentTrbCount) (enough : ring.segmentTrbCount < bound) :
    ∃ slots ring' t, (ring.dequeueEvents bound).run eventHandler s = some (ring', t) ∧
      t.batch = s.batch ++ slots ∧ slots.length ≤ ring.segmentTrbCount ∧ slots.Nodup ∧
      (∀ slot ∈ slots, slot < ring.segmentTrbCount) ∧
      ring'.segmentTrbCount = ring.segmentTrbCount ∧ ring'.dequeuePtr < ring.segmentTrbCount ∧
      t.trbs = s.trbs ∧ ring'.hasUnprocessedEvents.run eventHandler t = some (false, t) := by
  have pos : 0 < ring.segmentTrbCount := Nat.lt_of_le_of_lt (Nat.zero_le _) inside
  obtain ⟨first, place⟩ := ring.exists_placed inside
  generalize ring.segmentTrbCount = n at *
  generalize ring.physicalBase = base at *
  subst place
  obtain ⟨left, t, lap, ran, batch, trbs, stop⟩ := run_drain_placed pos base first bound 0 s
    (Nat.zero_le n) (by omega) (fun i below => (Nat.not_lt_zero i below).elim)
  rw [Nat.zero_add] at lap ran stop
  rw [Nat.add_zero] at ran batch
  -- the writes of ERDP that follow touch neither the vector nor the memory of the ring
  obtain ⟨u, whole, batch', trbs'⟩ : ∃ u,
      ((EventRing.placed n base first).dequeueEvents bound).run eventHandler s =
        some (EventRing.placed n base (first + left), u) ∧ u.batch = t.batch ∧ u.trbs = t.trbs := by
    rw [EventRing.dequeueEvents, Program.run_bind, ran, Option.bind_some]
    exact ⟨_, rfl, rfl, rfl⟩
  refine ⟨slotsFrom n first left, EventRing.placed n base (first + left), u, whole,
    batch'.trans batch, ?_, nodup_slotsFrom lap, slotsFrom_lt pos, rfl, Nat.mod_lt _ pos,
    trbs'.trans trbs, ?_⟩
  · rw [length_slotsFrom]
    exact lap
  · have foreign : (u.trbs (EventRing.placed n base (first + left)).dequeuePtr).cycleBit ≠
        (EventRing.placed n base (first + left)).rcsBit := by
      rw [trbs']
      exact stop
    simp only [EventRing.hasUnprocessedEvents, loadTrb, Program.run_bind, Program.run_perform,
      eventHandler, Option.bind_some, Program.pure_eq, Program.run_ret,
      beq_eq_false_iff_ne.mpr foreign]

/-- A ring of four whose first and last slots match the cycle state that their lap gives them. -/
def garbage : EventChannel :=
  { smallEvents with
    trbs := fun index => { Trb.zero with cycleBit := index == 3 } }

theorem dequeueEvents_terminates_garbage :
    ∃ slots ring' t, ((⟨4, 4096, 3, true⟩ : EventRing).dequeueEvents 5).run eventHandler garbage =
        some (ring', t) ∧
      t.batch = garbage.batch ++ slots ∧ slots.length ≤ 4 ∧ slots.Nodup ∧
      (∀ slot ∈ slots, slot < 4) ∧ ring'.segmentTrbCount = 4 ∧ ring'.dequeuePtr < 4 ∧
      t.trbs = garbage.trbs ∧ ring'.hasUnprocessedEvents.run eventHandler t = some (false, t) :=
  dequeueEvents_terminates ⟨4, 4096, 3, true⟩ garbage 5 (by decide) (by decide)

end KopalniaOS.Xhci
