import KopalniaOS.Rtl8139.Send

/-!
# Frames in flight

What the device fetches is the frame that was sent as long as no frame is sent into a slot that
the device owns. With four slots and no check, a fifth frame may be.
-/
namespace KopalniaOS.Rtl8139

open Library Network

/-- No owned slot was written, and the device has read every frame as it was passed to `send`. -/
def Faithful (s : TxState) : Prop :=
  s.clobbered = [] ∧ ∀ transfer ∈ s.transmitted, transfer.fetched = transfer.data

/-- The buffer of an owned slot has the frame, of which a part was fetched. -/
structure InFlight (s : TxState) (slot : Nat) (transfer : Transfer) : Prop where
  inside : slot < 4
  tsad : s.tsad slot = s.address slot
  buffer : frameOf (s.buffers slot) transfer.length = transfer.data
  fetched : transfer.fetched = transfer.data.take transfer.fetched.length

structure Sound (s : TxState) : Prop where
  inside : s.txSlot < 4
  faithful : Faithful s
  flight : ∀ slot transfer, s.owned slot = some transfer → InFlight s slot transfer

variable {s t : TxState}

theorem InFlight.length {slot : Nat} {transfer : Transfer} (flight : InFlight s slot transfer) :
    transfer.data.length = transfer.length := by
  rw [← flight.buffer, length_frameOf]

/-- A transfer depends on its own slot only. -/
theorem InFlight.of_eq {slot : Nat} {transfer : Transfer} (flight : InFlight s slot transfer)
    (address : t.address slot = s.address slot) (tsad : t.tsad slot = s.tsad slot)
    (buffer : t.buffers slot = s.buffers slot) : InFlight t slot transfer :=
  ⟨flight.inside, tsad.trans (flight.tsad.trans address.symm), buffer ▸ flight.buffer, flight.fetched⟩

theorem Sound.withSlot (sound : Sound s) {slot : Nat} (inside : slot < 4) :
    Sound { s with txSlot := slot } :=
  ⟨inside, sound.faithful, fun slot' transfer owned =>
    (sound.flight slot' transfer owned).of_eq rfl rfl rfl⟩

/-- The device fetches what is next in the frame. -/
theorem InFlight.next {slot : Nat} {transfer : Transfer} (flight : InFlight s slot transfer)
    (more : transfer.fetched.length < transfer.length) :
    transfer.fetched ++ [s.buffers slot transfer.fetched.length] =
      transfer.data.take (transfer.fetched.length + 1) := by
  have inside : transfer.fetched.length < transfer.data.length := by
    rwa [flight.length]
  have byte : transfer.data[transfer.fetched.length] = s.buffers slot transfer.fetched.length := by
    simp [← flight.buffer, frameOf]
  rw [List.take_succ_eq_append_getElem inside, ← flight.fetched, byte]

/-- The device changes nothing that the driver uses, and takes no slot. -/
theorem NicStep.keeps (step : NicStep s t) : t.address = s.address ∧ t.buffers = s.buffers ∧
    t.tsad = s.tsad ∧ t.sending = s.sending ∧
      ∀ slot, s.owned slot = none → t.owned slot = none := by
  cases step with
  | fetch slot transfer byte owned more reads =>
    refine ⟨rfl, rfl, rfl, rfl, fun slot' free => ?_⟩
    have other : slot' ≠ slot := by
      rintro rfl
      rw [free] at owned
      cases owned
    simp [other, free]
  | release slot transfer owned complete =>
    refine ⟨rfl, rfl, rfl, rfl, fun slot' free => ?_⟩
    by_cases same : slot' = slot
    · simp [same]
    · simp [same, free]

/-- What it reads is right. -/
theorem Sound.nicStep (sound : Sound s) (step : NicStep s t) : Sound t := by
  cases step with
  | fetch slot transfer byte owned more reads =>
    have flight := sound.flight slot transfer owned
    refine ⟨sound.inside, sound.faithful, fun slot' transfer' owned' => ?_⟩
    by_cases same : slot' = slot
    · subst same
      simp only [Function.update_self, Option.some.injEq] at owned'
      subst owned'
      refine ⟨flight.inside, flight.tsad, flight.buffer, ?_⟩
      -- TSAD has the address of this slot, so the byte comes from its own buffer
      dsimp only
      rw [reads slot' flight.inside flight.tsad, List.length_append, List.length_singleton]
      exact flight.next more
    · exact (sound.flight slot' transfer' (by simpa [same] using owned')).of_eq rfl rfl rfl
  | release slot transfer owned complete =>
    have flight := sound.flight slot transfer owned
    refine ⟨sound.inside, ⟨sound.faithful.1, fun transfer' member => ?_⟩,
      fun slot' transfer' owned' => ?_⟩
    · rcases List.mem_append.mp member with before | here
      · exact sound.faithful.2 transfer' before
      · rw [List.mem_singleton.mp here, flight.fetched, complete, ← flight.length, List.take_length]
    · by_cases same : slot' = slot
      · subst same
        simp at owned'
      · exact (sound.flight slot' transfer' (by simpa [same] using owned')).of_eq rfl rfl rfl

/-! ### One call -/

/-- Within a call, until the device is told: the slot is free and its buffer has the first bytes
of the frame. -/
structure Filling (slot address : Nat) (data : Memory) (length count : Nat) (s : TxState) : Prop
    extends Sound s where
  place : s.address slot = address
  free : s.owned slot = none
  sending : s.sending = frameOf data length
  filled : ∀ i < count, s.buffers slot i = data i

variable {slot address length count : Nat} {data : Memory}

theorem Filling.nicStep (filling : Filling slot address data length count s) (step : NicStep s t) :
    Filling slot address data length count t := by
  obtain ⟨place, buffers, -, sending, free⟩ := step.keeps
  exact ⟨filling.toSound.nicStep step, place ▸ filling.place, free slot filling.free,
    sending.trans filling.sending, buffers ▸ filling.filled⟩

/-- A slot that is free is not touched. -/
theorem touch_of_free (free : s.owned slot = none) : s.touch slot = s := by
  rw [TxState.touch, free]
  rfl

/-- Only transfers of other slots are under way. -/
theorem Filling.other (filling : Filling slot address data length count s) {slot' : Nat} {transfer : Transfer}
    (owned : s.owned slot' = some transfer) : slot' ≠ slot := by
  rintro rfl
  rw [filling.free] at owned
  cases owned

theorem Filling.store (filling : Filling slot address data length count s) (w : Nat) :
    Filling slot address data length (count + w) { s with
      buffers := Function.update s.buffers slot
        ((s.buffers slot).store w count (data.load w count)) } := by
  refine ⟨⟨filling.inside, filling.faithful, fun slot' transfer owned => ?_⟩, filling.place,
    filling.free, filling.sending, fun i inside => ?_⟩
  · exact (filling.flight slot' transfer owned).of_eq rfl rfl
      (Function.update_of_ne (filling.other owned) _ _)
  · dsimp only
    rw [Function.update_self]
    rcases Nat.lt_or_ge i count with before | here
    · rw [Memory.store_outside _ _ _ _ _ (.inl before)]
      exact filling.filled i before
    · obtain ⟨k, rfl⟩ := Nat.exists_eq_add_of_le here
      exact Memory.store_load _ _ _ _ _ (by omega)

theorem Filling.named (filling : Filling slot address data length count s) :
    Filling slot address data length count { s with
      tsad := Function.update s.tsad slot address } := by
  refine ⟨⟨filling.inside, filling.faithful, fun slot' transfer owned => ?_⟩, filling.place,
    filling.free, filling.sending, filling.filled⟩
  exact (filling.flight slot' transfer owned).of_eq rfl
    (Function.update_of_ne (filling.other owned) _ _) rfl

/-- Nothing is watched but the bookkeeping. -/
abbrev Robust {α : Type} (tr : History TxOp TxOp.Answer) (p : TxProgram α) (s : TxState)
    (post : History TxOp TxOp.Answer → α → TxState → Prop) : Prop :=
  p.Robust txHandler (fun _ => NicStep) (fun _ => Faithful) tr s post

theorem robust_store {α : Type} {tr : History TxOp TxOp.Answer} {f : Unit → TxProgram α}
    {post : History TxOp TxOp.Answer → α → TxState → Prop}
    (filling : Filling slot address data length count s) (w : Nat)
    (next : ∀ tr t, Filling slot address data length (count + w) t → Robust tr (f ()) t post) :
    Robust tr (perform (.store slot w count (data.load w count)) >>= f) s post := by
  refine Program.robust_perform_bind (P := Filling slot address data length count) filling
    (fun _ _ holds step => holds.nicStep step) (fun _ holds => holds.faithful) ?_
  rintro t holds r answer
  cases answer
  rw [touch_of_free holds.free]
  exact next _ _ (holds.store w)

theorem robust_copyBytes {tr : History TxOp TxOp.Answer} (left : Nat) (ahead : length = count + left)
    (filling : Filling slot address data length count s) :
    Robust tr (copyBytes slot data length count) s fun _ _ t =>
      Filling slot address data length length t := by
  induction left generalizing tr count s with
  | zero =>
    obtain rfl : length = count := ahead
    rw [copyBytes, if_neg (by omega)]
    exact filling
  | succ left ih =>
    rw [copyBytes, if_pos (by omega)]
    exact robust_store filling 1 fun _ _ filled => ih (by omega) filled

theorem robust_copyWords {tr : History TxOp TxOp.Answer} (left : Nat) (enough : length - count ≤ left)
    (inside : count ≤ length) (filling : Filling slot address data length count s) :
    Robust tr (copyWords slot data length count) s fun _ i t =>
      i ≤ length ∧ Filling slot address data length i t := by
  induction left generalizing tr count s with
  | zero =>
    rw [copyWords, if_neg (by omega)]
    exact ⟨inside, filling⟩
  | succ left ih =>
    rw [copyWords]
    split
    · exact robust_store filling 8 fun _ _ filled => ih (by omega) (by omega) filled
    · exact ⟨inside, filling⟩

theorem robust_copyFrame {tr : History TxOp TxOp.Answer}
    (filling : Filling slot address data length 0 s) :
    Robust tr (copyFrame slot data length) s fun _ _ t =>
      Filling slot address data length length t := by
  rw [copyFrame, Robust, Program.robust_bind]
  refine (robust_copyWords length (Nat.sub_le length 0) (Nat.zero_le length) filling).mono ?_
  rintro tr' i t ⟨inside, filled⟩
  exact robust_copyBytes (length - i) (by omega) filled

/-- The device takes the slot, with a whole frame in it. -/
theorem Filling.start (filling : Filling slot address data length length s) (inside : slot < 4)
    (tsad : s.tsad slot = address) :
    Sound { s with owned := Function.update s.owned slot (some ⟨s.sending, length, []⟩) } := by
  refine ⟨filling.inside, filling.faithful, fun slot' transfer owned => ?_⟩
  by_cases same : slot' = slot
  · subst same
    simp only [Function.update_self, Option.some.injEq] at owned
    subst owned
    refine ⟨inside, tsad.trans filling.place.symm, ?_, rfl⟩
    dsimp only
    rw [filling.sending]
    exact List.map_congr_left fun i inside => filling.filled i (List.mem_range.mp inside)
  · exact (filling.flight slot' transfer (by simpa [same] using owned)).of_eq rfl rfl rfl

theorem robust_send {slot : Nat} (inside : slot < 4) (data : Memory) {length : Nat} (sound : Sound s)
    (sending : s.sending = frameOf data length) (free : length ≤ 1500 → s.owned slot = none) :
    Robust [] (send s.hhdmOffset s.txBuffers slot data length) s fun _ a t =>
      Sound { t with txSlot := a.2 } := by
  rw [send]
  split
  · refine Program.robust_perform_bind (P := Sound) sound
      (fun _ _ holds step => holds.nicStep step) (fun _ holds => holds.faithful) ?_
    rintro t holds r answer
    cases answer
    exact holds.withSlot inside
  · rename_i fits
    have filling : Filling slot (s.address slot) data length 0 s :=
      ⟨sound, rfl, free (by omega), sending, fun i none => (Nat.not_lt_zero i none).elim⟩
    -- the frame is copied before the device is told anything
    rw [Robust, Program.robust_bind]
    refine (robust_copyFrame filling).mono fun tr' _ t filled => ?_
    have stable (t t' : TxState) (holds : Filling slot (s.address slot) data length length t)
        (step : NicStep t t') := holds.nicStep step
    refine Program.robust_perform_bind (P := Filling slot (s.address slot) data length length) filled
      stable (fun _ holds => holds.faithful) ?_
    rintro t holds r answer
    cases answer
    rw [touch_of_free holds.free]
    -- the address is known to the device, and the slot is still free
    refine Program.robust_perform_bind
      (P := fun t => Filling slot (s.address slot) data length length t ∧
        t.tsad slot = s.address slot)
      ⟨holds.named, Function.update_self ..⟩ ?_ (fun _ holds => holds.1.faithful) ?_
    · rintro t t' ⟨holds, tsad⟩ step
      exact ⟨holds.nicStep step, by rw [step.keeps.2.2.1, tsad]⟩
    rintro t ⟨holds, tsad⟩ r answer
    cases answer
    rw [touch_of_free holds.free, show (0x1FFF : Nat) = 2 ^ 13 - 1 from rfl,
      Nat.and_two_pow_sub_one_eq_mod, Nat.mod_eq_of_lt (by omega)]
    exact (holds.start inside tsad).withSlot (Nat.mod_lt _ (by decide))

/-! ### All calls -/

theorem transmitter_keeps {hhdmOffset txBase : Nat} {buffers : Nat → Memory} {x}
    (reached : (transmitter True).Reachable (configured hhdmOffset txBase buffers) x) :
    (transmitter True).Keeps (fun _ _ => Faithful) Sound x := by
  refine Session.invariant ?_ (fun _ _ sound step => sound.nicStep step) ?_ reached
  · rintro c s t sound ⟨rfl, careful⟩
    refine robust_send (s := { s with sending := frameOf c.data c.length }) sound.inside c.data
      ⟨sound.inside, sound.faithful, fun slot transfer owned => ?_⟩ rfl fun fits => careful trivial fits
    exact (sound.flight slot transfer owned).of_eq rfl rfl rfl
  · exact ⟨Nat.succ_pos 3, ⟨rfl, fun _ none => by cases none⟩, fun _ _ none => by cases none⟩

/-! ### Calls alone -/

/-- The first bytes of the frame are in the buffer. -/
def TxState.copied (s : TxState) (slot : Nat) (data : Memory) (count : Nat) : TxState :=
  { s with buffers := Function.update s.buffers slot ((s.buffers slot).copyFrom data 0 0 count) }

/-- The device owns the slot with the frame. -/
def TxState.started (s : TxState) (slot : Nat) (data : Memory) (length : Nat) : TxState :=
  { s.copied slot data length with
    tsad := Function.update s.tsad slot (s.address slot)
    owned := Function.update s.owned slot (some ⟨s.sending, length, []⟩) }

theorem run_store_bind {α : Type} (slot : Nat) (data : Memory) (count : Nat) (s : TxState)
    (f : Unit → TxProgram α) (w : Nat) (k : List Nat) :
    ∃ k', (s.owned slot = none → k' = k) ∧
      (perform (.store slot w count (data.load w count)) >>= f).run txHandler
          { s.copied slot data count with clobbered := k } =
        (f ()).run txHandler { s.copied slot data (count + w) with clobbered := k' } := by
  have stored : ((s.buffers slot).copyFrom data 0 0 count).store w count (data.load w count) =
      (s.buffers slot).copyFrom data 0 0 (count + w) := by
    have append := Memory.copyFrom_append (s.buffers slot) data 0 0 count w
    rwa [Nat.zero_add, ← Memory.store_load_eq] at append
  refine ⟨if (s.owned slot).isSome = true then slot :: k else k, fun free => by simp [free], ?_⟩
  rw [perform, Program.run_bind, Program.run_perform, txHandler, Option.bind_some]
  -- only the list of clobbered slots depends on whether the device owns this one
  cases owned : s.owned slot <;> simp [TxState.touch, TxState.copied, stored, owned]

theorem run_copyBytes (slot : Nat) (data : Memory) (count : Nat) (s : TxState) (left : Nat)
    (ahead : length = count + left) (k : List Nat) :
    ∃ k', (s.owned slot = none → k' = k) ∧
      (copyBytes slot data length count).run txHandler
          { s.copied slot data count with clobbered := k } =
        some ((), { s.copied slot data length with clobbered := k' }) := by
  induction left generalizing count k with
  | zero =>
    obtain rfl : length = count := ahead
    rw [copyBytes, if_neg (by omega)]
    exact ⟨k, fun _ => rfl, rfl⟩
  | succ left ih =>
    rw [copyBytes, if_pos (by omega)]
    obtain ⟨k₁, kept, step⟩ := run_store_bind slot data count s
      (fun _ => copyBytes slot data length (count + 1)) 1 k
    obtain ⟨k₂, kept', rest⟩ := ih (count + 1) (by omega) k₁
    exact ⟨k₂, fun free => (kept' free).trans (kept free), step.trans rest⟩

theorem run_copyWords (slot : Nat) (data : Memory) (count : Nat) (s : TxState) (left : Nat)
    (enough : length - count ≤ left) (inside : count ≤ length) (k : List Nat) :
    ∃ k', (s.owned slot = none → k' = k) ∧ ∃ i ≤ length,
      (copyWords slot data length count).run txHandler
          { s.copied slot data count with clobbered := k } =
        some (i, { s.copied slot data i with clobbered := k' }) := by
  induction left generalizing count k with
  | zero =>
    rw [copyWords, if_neg (by omega)]
    exact ⟨k, fun _ => rfl, count, inside, rfl⟩
  | succ left ih =>
    rw [copyWords]
    -- words as long as more is left; each of them may hit a slot that the device owns
    split
    · obtain ⟨k₁, kept, step⟩ := run_store_bind slot data count s
        (fun _ => copyWords slot data length (count + 8)) 8 k
      obtain ⟨k₂, kept', i, below, rest⟩ := ih (count + 8) (by omega) (by omega) k₁
      exact ⟨k₂, fun free => (kept' free).trans (kept free), i, below, step.trans rest⟩
    · exact ⟨k, fun _ => rfl, count, inside, rfl⟩

/-- A slot is used whoever owns it; that only shows among the clobbered ones. -/
theorem run_send_of_le (slot : Nat) (data : Memory) (s : TxState) (fits : length ≤ 1500) :
    ∃ k, (s.owned slot = none → k = s.clobbered) ∧
      (send s.hhdmOffset s.txBuffers slot data length).run txHandler s =
        some ((true, (slot + 1) % 4), { s.started slot data length with clobbered := k }) := by
  have start : { s.copied slot data 0 with clobbered := s.clobbered } = s := by
    simp [TxState.copied]
  obtain ⟨k₁, kept₁, i, inside, words⟩ := run_copyWords slot data 0 s length
    (Nat.sub_le length 0) (Nat.zero_le length) s.clobbered
  rw [start] at words
  obtain ⟨k₂, kept₂, bytes⟩ := run_copyBytes slot data i s (length - i)
    (by omega : length = i + (length - i)) k₁
  have code : send s.hhdmOffset s.txBuffers slot data length =
      copyFrame slot data length >>= fun _ => perform (.writeTsad slot (s.address slot)) >>= fun _ =>
        perform (.writeTsd slot length) >>= fun _ => pure (true, (slot + 1) % 4) := by
    rw [send, if_neg (by omega), show (0x1FFF : Nat) = 2 ^ 13 - 1 from rfl,
      Nat.and_two_pow_sub_one_eq_mod, Nat.mod_eq_of_lt (by omega)]
    rfl
  have copied : (copyFrame slot data length).run txHandler s =
      some ((), { s.copied slot data length with clobbered := k₂ }) := by
    rw [copyFrame, Program.run_bind, words, Option.bind_some, bytes]
  rw [code, Program.run_bind, copied, Option.bind_some]
  -- the device may still own the slot from four frames ago
  cases owned : s.owned slot with
  | none =>
    refine ⟨k₂, fun _ => (kept₂ owned).trans (kept₁ owned), ?_⟩
    simp [perform, txHandler, TxState.touch, owned, TxState.started, TxState.copied]
  | some transfer =>
    refine ⟨slot :: slot :: k₂, nofun, ?_⟩
    simp [perform, txHandler, TxState.touch, owned, TxState.started, TxState.copied]

theorem run_send (free : s.owned slot = none) (fits : length ≤ 1500) :
    (send s.hhdmOffset s.txBuffers slot data length).run txHandler s =
      some ((true, (slot + 1) % 4), s.started slot data length) := by
  obtain ⟨k, kept, ran⟩ := run_send_of_le slot data s fits
  rw [ran, kept free]
  rfl

/-- After a call into a slot that is free. -/
def TxState.sent (s : TxState) (c : SendCall) : TxState :=
  { ({ s with sending := frameOf c.data c.length } : TxState).started s.txSlot c.data c.length with
    txSlot := (s.txSlot + 1) % 4 }

theorem steps_send (careful : Prop) (c : SendCall) (free : s.owned s.txSlot = none)
    (fits : c.length ≤ 1500) :
    Relation.ReflTransGen (transmitter careful).Step (.idle s) (.idle (s.sent c)) :=
  Session.steps_call (M := transmitter careful) (c := c) ⟨rfl, fun _ _ => free⟩
    (run_send (s := { s with sending := frameOf c.data c.length }) free fits)

/-- Left alone, the device fetches what is missing of a frame. -/
theorem steps_fetch (careful : Prop) {slot : Nat} {transfer : Transfer}
    (owned : s.owned slot = some transfer)
    (apart : ∀ k < 4, s.tsad slot = s.address k → k = slot) (left : Nat)
    (short : transfer.length = transfer.fetched.length + left) :
    ∃ fetched, fetched.length = transfer.length ∧
      Relation.ReflTransGen (transmitter careful).Step (.idle s) (.idle { s with
        owned := Function.update s.owned slot (some { transfer with fetched }) }) := by
  induction left generalizing s transfer with
  | zero =>
    refine ⟨transfer.fetched, short.symm, ?_⟩
    rw [← owned, Function.update_eq_self]
  | succ left ih =>
    have step := NicStep.fetch (s := s) slot transfer (s.buffers slot transfer.fetched.length) owned
      (by omega) fun k small same => by rw [apart k small same]
    obtain ⟨fetched, length, rest⟩ := ih (s := { s with
      owned := Function.update s.owned slot (some { transfer with
        fetched := transfer.fetched ++ [s.buffers slot transfer.fetched.length] }) })
      (Function.update_self ..) apart (by
        dsimp only
        rw [List.length_append, List.length_singleton]
        omega)
    dsimp only at rest
    rw [Function.update_idem] at rest
    exact ⟨fetched, length, .head (.rest step) rest⟩

/-! ### Runs -/

/-- If every frame is sent into a slot that was given back, no buffer is written too early and every
frame leaves as it was passed to `send`, however the device proceeds. -/
theorem frames_leave_intact {hhdmOffset txBase : Nat} {buffers : Nat → Memory} {x}
    (reached : (transmitter True).Reachable (configured hhdmOffset txBase buffers) x) :
    (transmitter True).Everywhere Faithful x :=
  (transmitter_keeps reached).everywhere (fun _ sound => sound.faithful) fun _ _ _ holds => holds

/-- A frame of 42 bytes, as ARP has them. -/
def someFrame (byte : UInt8) : SendCall := ⟨fun _ => byte, 42, by decide⟩

/-- The buffers are at the physical address 0x1000. -/
def freshNic : TxState := configured 0xffff800000000000 0xffff800000001000 fun _ _ => 0

/-- The device has fetched nothing of four frames. -/
def fourSent : TxState :=
  (((freshNic.sent (someFrame 1)).sent (someFrame 2)).sent (someFrame 3)).sent (someFrame 4)

theorem reaches_fourSent (careful : Prop) :
    (transmitter careful).Reachable freshNic (.idle fourSent) := by
  have first := steps_send (s := freshNic) careful (someFrame 1) rfl (by decide)
  have second := steps_send (s := freshNic.sent (someFrame 1)) careful (someFrame 2) rfl (by decide)
  have third := steps_send (s := (freshNic.sent (someFrame 1)).sent (someFrame 2)) careful
    (someFrame 3) rfl (by decide)
  exact ((first.trans second).trans third).trans
    (steps_send careful (someFrame 4) rfl (by decide))

/-- When the first of four frames is done, a fifth takes its slot. -/
theorem frames_leave_intact_fifth : ∃ s,
    s.transmitted.map Transfer.data = [frameOf (someFrame 1).data 42] ∧
      (s.owned 0).map Transfer.data = some (frameOf (someFrame 5).data 42) ∧ Faithful s := by
  have owned : fourSent.owned 0 = some ⟨frameOf (someFrame 1).data 42, 42, []⟩ := rfl
  obtain ⟨fetched, length, read⟩ := steps_fetch True owned (by decide) 42 rfl
  have released := ((reaches_fourSent True).trans read).tail
    (.rest (.release 0 ⟨_, 42, fetched⟩ rfl length))
  have sent := released.trans (steps_send True (someFrame 5) rfl (by decide))
  exact ⟨_, rfl, rfl, frames_leave_intact sent⟩

/-- The fifth frame goes into the buffer of the first. -/
theorem fifth_frame_clobbers :
    ¬∀ x, (transmitter False).Reachable freshNic x → (transmitter False).Everywhere Faithful x := by
  intro faithful
  obtain ⟨rest, code⟩ : ∃ rest, send fourSent.hhdmOffset fourSent.txBuffers 0 (someFrame 5).data 42 =
      perform (.store 0 8 0 ((someFrame 5).data.load 8 0)) >>= fun _ =>
        perform (.store 0 8 8 ((someFrame 5).data.load 8 8)) >>= rest := by
    rw [send, if_neg (by decide), copyFrame, copyWords, if_pos (by decide), copyWords,
      if_pos (by decide)]
    exact ⟨_, rfl⟩
  have enter : (transmitter False).enter (someFrame 5) fourSent
      { fourSent with sending := frameOf (someFrame 5).data 42 } := ⟨rfl, False.elim⟩
  have entered : (transmitter False).Step (.idle fourSent)
      (.busy (someFrame 5) []
        (send fourSent.hhdmOffset fourSent.txBuffers 0 (someFrame 5).data 42) _) := .call enter
  -- the fifth frame goes to the slot of the first, which is still being sent
  rw [code] at entered
  have written := ((reaches_fourSent False).tail entered).tail (Session.step_perform [] rfl)
  have clean := (faithful _ written).1
  cases clean

end KopalniaOS.Rtl8139
