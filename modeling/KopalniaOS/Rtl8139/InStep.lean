import KopalniaOS.Rtl8139.Reception

/-!
# Every run of the receiver

As long as no packet overruns, every packet is passed on once and in order, whenever packets
arrive and however often the handler is called. A call that is left alone returns, and nothing is
unread then.
-/
namespace KopalniaOS.Rtl8139

open Library Network Relation

variable {s t : RxState} {pos : Nat} {older : List Arrival} {pending : List Packet}

/-! ### Calls that nothing interrupts -/

/-- Only the device adds to what has arrived. -/
theorem keeps_arrived (o : RxOp) (s : RxState) (r : o.Answer × RxState)
    (answer : rxHandlerOps o s = some r) : r.2.arrived = s.arrived := by
  cases o with
  | net packet o =>
    obtain ⟨_, _, rfl⟩ := Option.map_eq_some_iff.mp answer
    rfl
  | _ =>
    cases answer
    rfl

theorem run_issue_bind {α : Type} {o : RxOp} {f : o.Answer → RxProgram α} {r : o.Answer × RxState}
    (answer : rxHandlerOps o s = some r) :
    (issue o >>= f).run rxHandlerOps s = (f r.1).run rxHandlerOps r.2 := by
  rw [issue, Program.run_bind, Program.run_perform, answer, Option.bind_some]

theorem run_seq {α β : Type} {p : RxProgram β} {f : β → RxProgram α} {b : β}
    (ran : p.run rxHandlerOps s = some (b, t)) :
    (p >>= f).run rxHandlerOps s = (f b).run rxHandlerOps t := by
  rw [Program.run_bind, ran, Option.bind_some]

theorem run_logIf (status bit : Nat) (text : String) :
    (logIf status bit text).run rxHandlerOps s = some ((), s) := by
  rw [logIf]
  split <;> rfl

theorem run_inRing {α : Type} (packet : Nat) (p : NetProgram α) (s : RxState) :
    (inRing packet p).run rxHandlerOps s =
      (p.run netHandler (s.view packet)).map fun r => (r.1, s.withView packet r.2) := by
  refine Program.run_interp netHandler (fun s => s.view packet) (fun s t => s.withView packet t)
    (fun s => withView_view s packet) ?_ ?_ ?_ p s
  · intro s t
    simp [RxState.view, RxState.withView]
  · intro s t u
    simp only [RxState.withView, Function.update_self]
    congr
    funext x
    split <;> rfl
  · exact fun o s => Program.run_perform rxHandlerOps (.net packet o) s

/-- The state behind a packet, when `receive_ethernet` ends in this one. -/
def RxState.behind (s : RxState) (length : Nat) (n : NetState) : RxState :=
  let offset := (s.rxOffset + length + 4 + 3) / 4 * 4 % 2 ^ 16 % 8192
  let capr := (((offset : Int) - 16) % 2 ^ 16).toNat
  { s.withView (s.rxOffset + 4) n with
    rxOffset := offset
    capr := capr
    unread := s.unread - ((capr + 16) % 8192 + 8192 - s.readOffset) % 8192
    passed := s.passed ++ [(List.range length).map fun i => s.mem (s.rxOffset + 4 + i)]
    handling := false }

theorem run_handlePacket {n : NetState} (status length : Nat)
    (ran : (receiveEthernet ipv4 length).run netHandler (s.view (s.rxOffset + 4)) = some ((), n)) :
    (handlePacket status length).run rxHandlerOps s = some ((), s.behind length n) := by
  let handed : RxState := { s with
    passed := s.passed ++ [(List.range length).map fun i => s.mem (s.rxOffset + 4 + i)]
    handling := true }
  have body : (inRing (s.rxOffset + 4) (receiveEthernet ipv4 length)).run rxHandlerOps handed =
      some ((), handed.withView (s.rxOffset + 4) n) := by
    rw [run_inRing, show handed.view (s.rxOffset + 4) = s.view (s.rxOffset + 4) from rfl, ran]
    rfl
  rw [handlePacket, run_seq (run_logIf ..), run_seq (run_logIf ..), run_seq (run_logIf ..),
    run_seq (run_logIf ..), run_issue_bind rfl, run_issue_bind rfl]
  exact (run_seq body).trans rfl

/-- There is no loop in it that could run for ever. -/
theorem handlePacket_returns (status length : Nat) (s : RxState) :
    ∃ t, (handlePacket status length).run rxHandlerOps s = some ((), t) := by
  obtain ⟨n, ran, -⟩ := run_receiveEthernet (s.view (s.rxOffset + 4)) ipv4 length
  exact ⟨_, run_handlePacket status length ran⟩

/-- Each turn takes one of the unread packets. -/
theorem rxLoop_returns {turns : Nat} (head : Head pos older pending s)
    (enough : pending.length < turns) : ∃ t, (rxLoop turns).run rxHandlerOps s = some ((), t) := by
  induction turns generalizing s pos older pending with
  | zero => cases enough
  | succ turns ih =>
    rw [rxLoop, run_issue_bind rfl]
    have unread := head.unread
    cases pending with
    | nil =>
      rw [if_pos (by simp [RxState.cmd, unread])]
      exact ⟨s, rfl⟩
    | cons first rest =>
      have room := first.room_bounds
      have waiting : s.unread ≠ 0 := by
        rw [unread, span_cons]
        omega
      rw [if_neg (by simp [RxState.cmd, waiting]), run_issue_bind rfl, run_issue_bind rfl,
        run_issue_bind rfl]
      dsimp only
      rw [head.rxOffset, head.stored.1.status, head.stored.1.length, if_neg first.rok,
        Program.run_bind]
      obtain ⟨t, ran⟩ := handlePacket_returns first.status first.length s
      have found : Found pos older first s := ⟨rest, head⟩
      have robust : RxRobust [] (handlePacket first.status first.length) s _ :=
        robust_handlePacket found first.status
      obtain ⟨_, pending', head'⟩ := robust.alone ran
      -- one packet less is unread, as none has arrived
      have arrived : t.arrived = s.arrived := Program.run_keeps keeps_arrived ran
      have fewer : pending'.length < turns := by
        have count := congrArg List.length arrived
        rw [head.arrived, head'.arrived] at count
        simp only [List.length_append, length_arrivals, List.length_cons, List.length_nil] at count
        rw [List.length_cons] at enough
        omega
      rw [ran, Option.bind_some]
      exact ih head' fewer

theorem rxHandler_returns {turns : Nat} (head : Head pos older pending s)
    (enough : s.arrived.length - s.passed.length < turns) :
    ∃ t, (rxHandler turns).run rxHandlerOps s = some ((), t) := by
  obtain ⟨acknowledged, head'⟩ := AtHead.acknowledge ⟨pending, head⟩ (s.isr &&& (2 ^ 16 - 1 - s.isr))
  rw [rxHandler, run_issue_bind rfl, run_issue_bind rfl]
  refine rxLoop_returns head' ?_
  have count := congrArg List.length head'.arrived
  have passed := congrArg List.length head.passed
  simp only [List.length_append, length_arrivals, contents, List.length_map] at count passed
  omega

/-! ### All runs -/

theorem listening_head (mem : Memory) (net : NetState) : Head 0 [] [] (listening mem net) where
  aligned := rfl
  readOffset := by simp [RxState.readOffset, listening]
  unread := rfl
  fits := Nat.zero_le 8192
  writeOffset := rfl
  arrived := rfl
  harmless := by simp
  stored := trivial
  rxOffset := rfl
  capr := rfl
  handling := rfl
  passed := rfl

theorem keeps_atHead {mem : Memory} {net : NetState} {x}
    (reached : (receiver True).Reachable (listening mem net) x) :
    (receiver True).Keeps (fun _ _ => InStep) (fun s => ∃ pos older, AtHead pos older s) x := by
  refine Session.invariant ?_ ?_ ⟨0, [], [], listening_head mem net⟩ reached
  · rintro turns s _ ⟨pos, older, atHead⟩ rfl
    refine (robust_rxHandler turns atHead).mono fun _ _ t drained => ?_
    obtain ⟨pos', older', head⟩ := drained
    exact ⟨pos', older', [], head⟩
  · rintro s t ⟨pos, older, atHead⟩ step
    exact ⟨pos, older, atHead.arrive step⟩

/-- Driver and device are in step, however packets and calls alternate. When a call returns,
everything was passed on, and a call returns if packets stop arriving. -/
theorem receiver_in_step {mem : Memory} {net : NetState} {x}
    (reached : (receiver True).Reachable (listening mem net) x) :
    (receiver True).Everywhere InStep x ∧
      ∀ s, x = .idle s → ∀ turns,
        RxRobust [] (rxHandler turns) s (fun _ _ t => t.passed = contents t.arrived) ∧
        (s.arrived.length - s.passed.length < turns →
          ∃ t, (rxHandler turns).run rxHandlerOps s = some ((), t) ∧ t.passed = contents s.arrived) := by
  have keeps := keeps_atHead reached
  refine ⟨keeps.everywhere ?_ fun _ _ _ inStep => inStep, ?_⟩
  · rintro s ⟨pos, older, atHead⟩
    exact atHead.inStep
  -- between the calls the next one passes on all that has arrived
  · rintro s rfl turns
    obtain ⟨pos, older, pending, head⟩ := keeps
    have robust : RxRobust [] (rxHandler turns) s _ := robust_rxHandler turns ⟨pending, head⟩
    refine ⟨robust.mono fun _ _ t drained => drained.passed, fun enough => ?_⟩
    obtain ⟨t, ran⟩ := rxHandler_returns head enough
    obtain ⟨_, drained⟩ := robust.alone ran
    have arrived : t.arrived = s.arrived := Program.run_keeps keeps_arrived ran
    exact ⟨t, ran, by rw [drained.passed, arrived]⟩

/-! ### A harmless packet -/

def noNetwork : NetState where
  mem _ _ := 0
  sent := []

/-- A packet of 60 bytes that nobody answers. -/
def quiet : Packet where
  status := 1
  bytes := List.replicate 60 0
  status_lt := by decide
  rok := by decide
  short := by decide

def quietWaits : RxState := (listening (fun _ => 0) noNetwork).arrive quiet

theorem receiver_in_step_quiet :
    (receiver True).Reachable (listening (fun _ => 0) noNetwork) (.idle quietWaits) ∧
      InStep quietWaits ∧
      ∃ t, (rxHandler 2).run rxHandlerOps quietWaits = some ((), t) ∧ t.passed = [quiet.bytes] := by
  have harmless : ¬quiet.Overruns := fun overruns => absurd overruns.1 (by decide)
  have arrives : Arrive True (listening (fun _ => 0) noNetwork) quietWaits :=
    .packet quiet (by decide) fun _ => harmless
  have reached : (receiver True).Reachable (listening (fun _ => 0) noNetwork) (.idle quietWaits) :=
    .single (.rest arrives)
  obtain ⟨inStep, calls⟩ := receiver_in_step reached
  exact ⟨reached, inStep, (calls quietWaits rfl 2).2 (by decide)⟩

/-! ### A packet that overruns -/

/-- An ICMP packet to 10.0.0.2 whose IP header is to have 60 bytes, so that the type of the ICMP
header lies behind the 64 bytes of the packet. -/
def overrunning : Packet where
  status := 1
  bytes := (List.range 64).map fun
    | 12 => 0x08
    | 14 => 0x4F
    | 23 => 1
    | 30 => 10
    | 33 => 2
    | _ => 0
  status_lt := by decide
  rok := by decide
  short := by decide

/-- The byte at its offset 6 is the one that is taken for the type. -/
def overrun : Packet where
  status := 1
  bytes := (List.range 64).map fun
    | 6 => 8
    | _ => 0
  status_lt := by decide
  rok := by decide
  short := by decide

def bothWait : RxState :=
  ((listening (fun _ => 0) noNetwork).arrive overrunning).arrive overrun

/-- The interrupt was acknowledged. -/
def acknowledged : RxState := { bothWait with isr := 0 }

/-- A turn of the loop that finds a packet. -/
theorem all_turn {P : RxOp → RxState → Prop} {turns length : Nat} {n : NetState}
    (all : (rxLoop (turns + 1)).All rxHandlerOps P s) (waiting : s.unread ≠ 0)
    (status : s.mem.load 2 s.rxOffset = 1) (len : s.mem.load 2 (s.rxOffset + 2) = length)
    (ran : (receiveEthernet ipv4 length).run netHandler (s.view (s.rxOffset + 4)) = some ((), n)) :
    (rxLoop turns).All rxHandlerOps P (s.behind length n) := by
  rw [rxLoop] at all
  have all := ((Program.all_perform_bind ..).mp all).2 _ rfl
  rw [if_neg (by simp [RxState.cmd, waiting])] at all
  have all := ((Program.all_perform_bind ..).mp all).2 _ rfl
  have all := ((Program.all_perform_bind ..).mp all).2 _ rfl
  have all := ((Program.all_perform_bind ..).mp all).2 _ rfl
  dsimp only at all
  rw [status, len, if_neg (show ¬1 &&& 1 = 0 by decide)] at all
  exact ((Program.all_bind ..).mp all).2 _ _ (run_handlePacket 1 length ran)

/-- The handler passes on the second packet with a byte that the first one has changed. -/
theorem overrun_out_of_step :
    ¬∀ x, (receiver False).Reachable (listening (fun _ => 0) noNetwork) x →
      (receiver False).Everywhere InStep x := by
  intro claimed
  have waiting : (receiver False).Reachable (listening (fun _ => 0) noNetwork) (.idle bothWait) :=
    .tail (.single (.rest (.packet overrunning (by decide) False.elim)))
      (.rest (.packet overrun (by decide) False.elim))
  have all : (rxHandler 3).All rxHandlerOps (fun _ => InStep) bothWait :=
    Session.all_of_everywhere fun x steps =>
      claimed x ((waiting.tail (.call (c := 3) rfl)).trans steps)
  rw [rxHandler] at all
  have all := ((Program.all_perform_bind ..).mp all).2 _ rfl
  have all : (rxLoop 3).All rxHandlerOps (fun _ => InStep) acknowledged :=
    ((Program.all_perform_bind ..).mp all).2 _ rfl
  -- the first packet: its type is read from the second one, and changed there
  have own : ((acknowledged.view 4).mem .received).load 4 30 = bswap32 ipv4 := by decide
  obtain ⟨n, ran, type, options⟩ := run_receiveEthernet_echo (acknowledged.view 4)
    (show 42 ≤ 64 by decide) (by decide) own (by decide) (by decide)
  have all : (rxLoop 2).All rxHandlerOps (fun _ => InStep) (acknowledged.behind 64 n) :=
    all_turn all (by decide) rfl rfl ran
  have changed : (acknowledged.behind 64 n).mem 78 = 0 := type
  have kept (x : Nat) (low : 68 ≤ x) (high : x < 78) :
      (acknowledged.behind 64 n).mem x = acknowledged.mem x := by
    obtain ⟨i, rfl⟩ := Nat.exists_eq_add_of_le low
    have same : n.mem .received (64 + i) = (acknowledged.view 4).mem .received (64 + i) :=
      options (64 + i) (by omega) (show 64 + i < 74 by omega)
    change (if 4 ≤ 68 + i then n.mem .received (68 + i - 4) else acknowledged.mem (68 + i)) = _
    rw [if_pos (by omega), show 68 + i - 4 = 64 + i by omega, same, view_received,
      show 4 + (64 + i) = 68 + i by omega]
  have status : (acknowledged.behind 64 n).mem.load 2 68 = 1 :=
    Memory.load_congr 2 68 fun x low high => kept x low (by omega)
  have length : (acknowledged.behind 64 n).mem.load 2 70 = 64 :=
    Memory.load_congr 2 70 fun x low high => kept x (by omega) (by omega)
  -- the second packet, which is no longer what has arrived
  obtain ⟨n', ran', -⟩ := run_receiveEthernet ((acknowledged.behind 64 n).view 72) ipv4 64
  have unread : (acknowledged.behind 64 n).unread ≠ 0 := show 68 ≠ 0 by decide
  have all := all_turn all unread status length ran'
  have inStep := ((Program.all_perform_bind ..).mp all).1
  have byte : (acknowledged.behind 64 n).mem 78 = 8 :=
    congrArg (fun passed => (passed.getD 1 []).getD 6 0) inStep.passed
  rw [changed] at byte
  cases byte

end KopalniaOS.Rtl8139
