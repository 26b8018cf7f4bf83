import KopalniaOS.Rtl8139.Receive

/-!
# Packets in the ring

Positions are counted without the wrap; the packet at a position starts at the position modulo
8192. As long as all of them fit into the ring, packets do not overlap, even where the last one
reaches beyond the end.
-/
namespace KopalniaOS.Rtl8139

open Library Network

/-- The packet is stored at this offset. -/
structure Intact (m : Memory) (offset : Nat) (p : Packet) : Prop where
  status : m.load 2 offset = p.status
  length : m.load 2 (offset + 2) = p.length
  bytes : ∀ i < p.length, m (offset + 4 + i) = p.memory i

/-- The packets are stored one behind the other from this position on. -/
def Stored (m : Memory) : Nat → List Packet → Prop
  | _, [] => True
  | pos, p :: rest => Intact m (pos % 8192) p ∧ Stored m (pos + p.room) rest

/-- What the packets take up. -/
def span (packets : List Packet) : Nat := (packets.map Packet.room).sum

/-- The packets with their offsets. -/
def arrivals : Nat → List Packet → List Arrival
  | _, [] => []
  | pos, p :: rest => ⟨pos % 8192, p⟩ :: arrivals (pos + p.room) rest

variable {m m' : Memory} {p : Packet} {packets : List Packet} {pos offset : Nat}

@[simp] theorem span_nil : span [] = 0 := rfl

@[simp] theorem span_cons : span (p :: packets) = p.room + span packets := by
  simp [span]

@[simp] theorem span_append (xs ys : List Packet) : span (xs ++ ys) = span xs + span ys := by
  simp [span]

theorem Packet.room_bounds (p : Packet) :
    p.length + 4 ≤ p.room ∧ p.room ≤ 1520 ∧ p.room % 4 = 0 := by
  have short : p.length ≤ 1516 := p.short
  unfold Packet.room
  omega

theorem Packet.length_lt (p : Packet) : p.length < 256 ^ 2 := by
  have short : p.length ≤ 1516 := p.short
  omega

/-- A packet depends on what it takes up only. -/
theorem Intact.congr (intact : Intact m offset p)
    (same : ∀ i < p.room, m' (offset + i) = m (offset + i)) : Intact m' offset p := by
  have room := p.room_bounds
  have agree (x : Nat) (low : offset ≤ x) (high : x < offset + p.room) : m' x = m x := by
    obtain ⟨i, rfl⟩ := Nat.exists_eq_add_of_le low
    exact same i (by omega)
  constructor
  · rw [← intact.status]
    exact Memory.load_congr 2 offset fun x low high => agree x low (by omega)
  · rw [← intact.length]
    exact Memory.load_congr 2 _ fun x low high => agree x (by omega) (by omega)
  · intro i inside
    rw [agree _ (by omega) (by omega)]
    exact intact.bytes i inside

theorem Stored.congr (stored : Stored m pos packets)
    (same : ∀ q i, pos ≤ q → q + i < pos + span packets → m' (q % 8192 + i) = m (q % 8192 + i)) :
    Stored m' pos packets := by
  induction packets generalizing pos with
  | nil => trivial
  | cons p rest ih =>
    rw [span_cons] at same
    exact ⟨stored.1.congr fun i inside => same pos i (Nat.le_refl pos) (by omega),
      ih stored.2 fun q i later inside => same q i (by omega) (by omega)⟩

theorem stored_append (xs : List Packet) (p : Packet) :
    Stored m pos (xs ++ [p]) ↔ Stored m pos xs ∧ Intact m ((pos + span xs) % 8192) p := by
  induction xs generalizing pos with
  | nil => simp [Stored]
  | cons x xs ih =>
    simp only [List.cons_append, Stored, ih, span_cons, and_assoc, Nat.add_assoc]

theorem arrivals_append (xs : List Packet) (p : Packet) :
    arrivals pos (xs ++ [p]) = arrivals pos xs ++ [⟨(pos + span xs) % 8192, p⟩] := by
  induction xs generalizing pos with
  | nil => simp [arrivals]
  | cons x xs ih => simp [arrivals, ih, Nat.add_assoc]

theorem length_arrivals (packets : List Packet) : (arrivals pos packets).length = packets.length := by
  induction packets generalizing pos with
  | nil => rfl
  | cons p rest ih => simp [arrivals, ih]

/-! ### The device stores a packet -/

variable {s : RxState}

theorem intact_arrive (s : RxState) (p : Packet) : Intact (s.arrive p).mem s.writeOffset p := by
  constructor
  · rw [RxState.arrive, Memory.load_copyFrom_disjoint _ _ (by omega),
      Memory.load_store_disjoint _ (by omega), Memory.load_store_same _ p.status_lt]
  · rw [RxState.arrive, Memory.load_copyFrom_disjoint _ _ (by omega),
      Memory.load_store_same _ p.length_lt]
  · intro i inside
    have copied := Memory.copyFrom_inside
      ((s.mem.store 2 s.writeOffset p.status).store 2 (s.writeOffset + 2) p.length) p.memory
      (a := s.writeOffset + 4) (b := 0) inside
    rwa [Nat.zero_add] at copied

/-- It does not reach what is in the ring already. -/
theorem mem_arrive (position : s.writeOffset = (pos + span packets) % 8192)
    (fits : span packets + p.room ≤ 8192) {q i : Nat} (later : pos ≤ q)
    (inside : q + i < pos + span packets) :
    (s.arrive p).mem (q % 8192 + i) = s.mem (q % 8192 + i) := by
  have room := p.room_bounds
  dsimp only [RxState.arrive]
  rw [Memory.copyFrom_outside _ _ (by omega),
    Memory.store_outside _ _ _ _ _ (by omega), Memory.store_outside _ _ _ _ _ (by omega)]

theorem Stored.arrive (stored : Stored s.mem pos packets)
    (position : s.writeOffset = (pos + span packets) % 8192) (fits : span packets + p.room ≤ 8192) :
    Stored (s.arrive p).mem pos (packets ++ [p]) := by
  rw [stored_append, ← position]
  exact ⟨stored.congr fun q i later inside => mem_arrive position fits later inside, intact_arrive s p⟩

/-- Writes that stay in the room of a packet do not reach those behind it. -/
theorem Stored.behind (stored : Stored m (pos + p.room) packets)
    (fits : p.room + span packets ≤ 8192)
    (same : ∀ x, x < pos % 8192 ∨ pos % 8192 + p.room ≤ x → m' x = m x) :
    Stored m' (pos + p.room) packets :=
  stored.congr fun q i later inside => same _ (by omega)

end KopalniaOS.Rtl8139
