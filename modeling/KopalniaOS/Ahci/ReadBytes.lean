import KopalniaOS.Ahci.Device

/-!
# What `read_bytes` writes

One sector fits into the local array exactly if it has 512 bytes, which is the smallest size. Then the
caller gets the first bytes of the disk, and nothing else is written.
-/
namespace KopalniaOS.Ahci

open Library

/-- What is written lies in the local array or in the bytes that were asked for. -/
def WritesInside (disk : Disk) (count : Int) (o : ByteOp) (_ : ByteState) : Prop :=
  match o with
  | .load .. => True
  | .store .temp offset _ => 0 ≤ offset ∧ offset < 512
  | .store .buffer offset _ => 0 ≤ offset ∧ offset < count
  | .read _ => disk.size ≤ 512

/-- The first `n` bytes that were asked for are there. -/
def Delivered (disk : Disk) (start : Nat) (count : Int) (n : Nat) (s : ByteState) : Prop :=
  ∀ k : Nat, k < n → (k : Int) < count →
    s .buffer k = disk.sector (u64 (start + k / disk.size)) (k % disk.size)

variable {disk : Disk} {count off : Int} {size i : Nat} {s : ByteState}

/-! ### `memmove` -/

/-- `s` with some bytes of `temp` at `off` in the buffer, those whose index satisfies `P`. -/
def ByteState.moved (s : ByteState) (off : Int) (P : Int → Prop) [DecidablePred P] : ByteState :=
  Function.update s .buffer fun x => if P (x - off) then s .temp (x - off) else s .buffer x

@[simp] theorem moved_temp (s : ByteState) (off : Int) (P : Int → Prop) [DecidablePred P] :
    s.moved off P .temp = s .temp :=
  Function.update_of_ne (by decide) _ _

@[simp] theorem moved_buffer (s : ByteState) (off : Int) (P : Int → Prop) [DecidablePred P] :
    s.moved off P .buffer = fun x => if P (x - off) then s .temp (x - off) else s .buffer x :=
  Function.update_self ..

theorem moved_step {P Q : Int → Prop} [DecidablePred P] [DecidablePred Q] (i : Int)
    (more : ∀ j, Q j ↔ P j ∨ j = i) :
    Function.update (s.moved off P) .buffer
      (Function.update (s.moved off P .buffer) (off + i) (s.moved off P .temp i)) = s.moved off Q := by
  rw [moved_temp, moved_buffer, ByteState.moved, ByteState.moved, Function.update_idem]
  congr 1
  funext x
  -- the step moves the byte at `i`, and the others are as before
  by_cases here : x = off + i
  · subst here
    have index : off + i - off = i := by omega
    rw [Function.update_self, index, if_pos ((more i).mpr (.inr rfl))]
  · rw [Function.update_of_ne here]
    have other : x - off ≠ i := by omega
    have same : Q (x - off) ↔ P (x - off) := by
      rw [more]
      exact or_iff_left other
    by_cases old : P (x - off)
    · rw [if_pos old, if_pos (same.mpr old)]
    · rw [if_neg old, if_neg (mt same.mp old)]

/-- One turn of either loop. -/
theorem turn_ensures {P Q : Int → Prop} [DecidablePred P] [DecidablePred Q] {i : Int}
    {next : ByteProgram Unit} {post : Unit → ByteState → Prop} (low : 0 ≤ off + i)
    (high : off + i < count) (more : ∀ j, Q j ↔ P j ∨ j = i)
    (rest : next.Ensures (byteHandler disk) (WritesInside disk count) (s.moved off Q) post) :
    (byteStep (.load .temp i) >>= fun byte => byteStep (.store .buffer (off + i) byte) >>= fun _ =>
      next).Ensures (byteHandler disk) (WritesInside disk count) (s.moved off P) post := by
  have loaded : byteHandler disk (.load .temp i) (s.moved off P) =
      some (s.moved off P .temp i, s.moved off P) := rfl
  have stored : byteHandler disk (.store .buffer (off + i) (s.moved off P .temp i)) (s.moved off P) =
      some ((), s.moved off Q) := congrArg (fun t => some ((), t)) (moved_step i more)
  exact Program.ensures_perform loaded trivial (Program.ensures_perform stored ⟨low, high⟩ rest)

theorem memmoveUp_ensures (low : 0 ≤ off) (high : off + size ≤ count) (left : Nat)
    (ahead : size = i + left) :
    (memmoveUp .buffer off .temp size i).Ensures (byteHandler disk) (WritesInside disk count)
      (s.moved off fun j => 0 ≤ j ∧ j < i) fun _ t => t = s.moved off fun j => 0 ≤ j ∧ j < size := by
  induction left generalizing i with
  | zero =>
    obtain rfl : size = i := ahead
    rw [memmoveUp, if_neg (by omega)]
    rfl
  | succ left ih =>
    rw [memmoveUp, if_pos (by omega)]
    exact turn_ensures (by omega) (by omega) (fun j => by omega) (ih (by omega))

theorem memmoveDown_ensures (low : 0 ≤ off) (high : off + size ≤ count) (inside : i ≤ size) :
    (memmoveDown .buffer off .temp i).Ensures (byteHandler disk) (WritesInside disk count)
      (s.moved off fun j => i ≤ j ∧ j < size) fun _ t => t = s.moved off fun j => 0 ≤ j ∧ j < size := by
  induction i with
  | zero => rfl
  | succ i ih => exact turn_ensures (by omega) (by omega) (fun j => by omega) (ih (by omega))

theorem moved_none (s : ByteState) (off : Int) {P : Int → Prop} [DecidablePred P] (none : ∀ j, ¬P j) :
    s.moved off P = s := by
  unfold ByteState.moved
  rw [funext fun x => if_neg (none (x - off)), Function.update_eq_self]

/-- In either direction the bytes of the local array are copied, and nothing else is written. -/
theorem memmove_ensures (lower : Bool) (low : 0 ≤ off) (high : off + size ≤ count) (s : ByteState) :
    (memmove lower .buffer off .temp size).Ensures (byteHandler disk) (WritesInside disk count) s
      fun _ t => t = s.moved off fun j => 0 ≤ j ∧ j < size := by
  rw [memmove]
  cases lower with
  | true =>
    have up := @memmoveUp_ensures disk count off size 0 s low high size (by omega)
    rwa [moved_none s off fun j => by omega] at up
  | false =>
    have down := @memmoveDown_ensures disk count off size size s low high (Nat.le_refl size)
    rwa [moved_none s off fun j => by omega] at down

/-! ### The loop -/

/-- The state once a sector is in the local array. -/
def ByteState.fetched (s : ByteState) (disk : Disk) (sector : Nat) : ByteState :=
  Function.update s .temp fun i =>
    if 0 ≤ i ∧ i < disk.size then disk.sector sector i.toNat else s .temp i

@[simp] theorem fetched_temp (s : ByteState) (sector : Nat) {r : Nat} (inside : r < disk.size) :
    s.fetched disk sector .temp r = disk.sector sector r := by
  unfold ByteState.fetched
  rw [Function.update_self, if_pos (by omega), Int.toNat_natCast]

@[simp] theorem fetched_buffer (s : ByteState) (sector : Nat) :
    s.fetched disk sector .buffer = s .buffer :=
  Function.update_of_ne (by decide) _ _

/-- One sector more in the buffer, or what was asked for of it. -/
theorem Delivered.next {start j m : Nat} (small : disk.size = 512)
    (delivered : Delivered disk start count (512 * j) s)
    (covers : ∀ r : Nat, r < 512 → 512 * j + r < count → r < m) :
    Delivered disk start count (512 * (j + 1))
      ((s.fetched disk (u64 (start + j))).moved (512 * j) fun i => 0 ≤ i ∧ i < m) := by
  intro k below inside
  rw [moved_buffer]
  dsimp only
  -- bytes of earlier sectors are kept, the others come from the sector in the local array
  rcases Nat.lt_or_ge k (512 * j) with before | here
  · rw [if_neg (by omega), fetched_buffer]
    exact delivered k before inside
  · obtain ⟨r, rfl⟩ := Nat.exists_eq_add_of_le here
    have index : ((512 * j + r : Nat) : Int) - 512 * j = r := by omega
    have sector : (512 * j + r) / 512 = j := by omega
    have byte : (512 * j + r) % 512 = r := by omega
    have fits := covers r (by omega) (by omega)
    rw [index, if_pos (by omega), fetched_temp s _ (by omega), small, sector, byte]

theorem toI32_512 : toI32 512 = 512 := rfl

theorem readBytesLoop_ensures (lower : Bool) (start : Nat) (small : disk.size = 512)
    (readable : ∀ sector, disk.readable sector = true) (fuel j : Nat)
    (enough : (count - 512 * j).toNat < fuel) (s : ByteState)
    (delivered : Delivered disk start count (512 * j) s) :
    (readBytesLoop lower 512 count fuel (count - 512 * j) (u64 (start + j))).Ensures
      (byteHandler disk) (WritesInside disk count) s
      fun a t => a = true ∧ ∀ k : Nat, (k : Int) < count →
        t .buffer k = disk.sector (u64 (start + k / disk.size)) (k % disk.size) := by
  -- the fuel never runs out, since each turn takes 512 from what is left
  induction fuel generalizing j s with
  | zero => omega
  | succ fuel ih =>
    rw [readBytesLoop]
    by_cases more : 0 < count - 512 * j
    · have answer : byteHandler disk (.read (u64 (start + j))) s =
          some (true, s.fetched disk (u64 (start + j))) := by
        rw [byteHandler, readable]
        rfl
      rw [if_pos more]
      refine Program.ensures_perform answer (Nat.le_of_eq small) ?_
      dsimp only
      rw [if_neg (by decide : ¬true = false)]
      -- the piece of this turn is a sector or what is left of the count
      generalize piece : (if (count - 512 * j).toNat < 512 then (count - 512 * j).toNat else 512) = m
      have bound : m ≤ 512 ∧ 512 * j + m ≤ count ∧
          ∀ r : Nat, r < 512 → 512 * j + r < count → r < m := by
        refine ⟨?_, ?_, fun r below inside => ?_⟩ <;> split at piece <;> omega
      have offset : count - (count - 512 * j) = 512 * j := by omega
      have next : count - 512 * j - toI32 512 = count - 512 * (j + 1 : Nat) := by
        rw [toI32_512]
        omega
      have sector : u64 (u64 (start + j) + 1) = u64 (start + (j + 1)) := by
        unfold u64
        omega
      rw [offset, next, sector]
      refine Program.ensures_bind (memmove_ensures lower (by omega) bound.2.1 _) ?_
      rintro - t rfl
      exact ih (j + 1) (by omega) _ (delivered.next small bound.2.2)
    · rw [if_neg more]
      exact ⟨rfl, fun k inside => delivered k (by omega) inside⟩

/-- Of the sizes that a device can have, the smallest is the one whose sectors fit. -/
theorem readBytes_exact (response : Nat → UInt16) (disk : Disk) (lower : Bool) {start : Nat}
    {count : Int} (size : disk.size = sectorSize response) (large : 512 ≤ sectorSize response)
    (word : start < 2 ^ 64) (pos : 0 ≤ count)
    (readable : ∀ sector, disk.readable sector = true) (s : ByteState) :
    ((readBytes lower (sectorSize response) start count).All (byteHandler disk)
        (WritesInside disk count) s ∧
      ∃ t, (readBytes lower (sectorSize response) start count).run (byteHandler disk) s =
          some (true, t) ∧
        ∀ k : Nat, (k : Int) < count →
          t .buffer k = disk.sector (u64 (start + k / disk.size)) (k % disk.size)) ↔
      count = 0 ∨ sectorSize response = 512 := by
  have loop : readBytes lower (sectorSize response) start count =
      readBytesLoop lower (sectorSize response) count (count.toNat + 1) count start :=
    if_neg (by omega)
  rw [loop]
  constructor
  · rintro ⟨all, -⟩
    rw [or_iff_not_imp_left]
    intro some
    -- the first thing is to read a sector
    rw [readBytesLoop, if_pos (by omega)] at all
    have fits : disk.size ≤ 512 := ((Program.all_perform_bind _ _ _).mp all).1
    omega
  · rintro (rfl | small)
    · rw [readBytesLoop, if_neg (by decide)]
      exact ⟨Program.all_ret _ _, s, rfl, fun k inside => by omega⟩
    · have none : Delivered disk start count (512 * 0) s := fun k below => (Nat.not_lt_zero k below).elim
      have ensures := readBytesLoop_ensures lower start (size.trans small) readable (count.toNat + 1) 0
        (by omega) s none
      have first : count - 512 * (0 : Nat) = count := by omega
      have sector : u64 (start + 0) = start := u64_of_lt word
      rw [first, sector] at ensures
      obtain ⟨a, t, ran, rfl, delivered⟩ := ensures.returns
      rw [small]
      exact ⟨ensures.all, t, ran, delivered⟩

/-- The words of a response without large sectors. -/
def smallSectors : Nat → UInt16 := fun _ => 0

/-- The words of a response that states sectors of 2048 words. -/
def largeSectors : Nat → UInt16
  | 106 => 0x1000
  | 117 => 2048
  | _ => 0

/-- A disk that can be read everywhere. -/
def blankDisk (size : Nat) : Disk where
  sector _ _ := 0
  readable _ := true
  size := size

theorem readBytes_exact_small :
    (sectorSize smallSectors = 512 ∧ ∀ sector, (blankDisk 512).readable sector = true) ∧
    ∃ t, (readBytes true (sectorSize smallSectors) 7 600).run (byteHandler (blankDisk 512))
        (fun _ _ => 1) = some (true, t) ∧
      ∀ k : Nat, (k : Int) < 600 → t .buffer k = 0 := by
  have size : sectorSize smallSectors = 512 := rfl
  have readable (sector : Nat) : (blankDisk 512).readable sector = true := rfl
  exact ⟨⟨size, readable⟩, ((readBytes_exact smallSectors (blankDisk 512) true size.symm
    (Nat.le_of_eq size.symm) (by decide : 7 < 2 ^ 64) (by decide) readable fun _ _ => 1).mpr (.inr size)).2⟩

/-- One sector of 4096 bytes does not fit into the local array. -/
theorem readBytes_overflows : ¬((readBytes true (sectorSize largeSectors) 0 1).All
      (byteHandler (blankDisk 4096)) (WritesInside (blankDisk 4096) 1) fun _ _ => 0) := by
  intro all
  obtain ⟨rest, first⟩ : ∃ rest, readBytes true (sectorSize largeSectors) 0 1 =
      byteStep (.read 0) >>= rest := ⟨_, rfl⟩
  rw [first] at all
  have fits : (blankDisk 4096).size ≤ 512 := ((Program.all_perform_bind _ _ _).mp all).1
  exact absurd fits (by decide)

end KopalniaOS.Ahci
