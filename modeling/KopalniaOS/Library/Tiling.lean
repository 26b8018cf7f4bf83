import Mathlib.Algebra.GroupWithZero.Nat
import Mathlib.Data.List.Chain

/-!
# Segments that tile an interval

A segment is a header of fixed size `hdr` followed by `size` bytes, marked free or
used. A list of segments that tiles an interval, without two free neighbours, is
determined by its used segments. Splitting a free segment and joining two
neighbours are the two ways such a list changes.
-/
namespace KopalniaOS.Library

structure Seg where
  addr : Nat
  size : Nat
  free : Bool
deriving DecidableEq, Repr

variable {hdr : Nat}

/-- `ss` covers `[lo, hi)` without gap or overlap, in address order. -/
def Tiles (hdr : Nat) : Nat → Nat → List Seg → Prop
  | lo, hi, [] => lo = hi
  | lo, hi, s :: ss => s.addr = lo ∧ Tiles hdr (lo + hdr + s.size) hi ss

/-- No two neighbours are both free. -/
def Coalesced (ss : List Seg) : Prop :=
  ss.IsChain fun s t => ¬(s.free = true ∧ t.free = true)

def used (ss : List Seg) : List Seg := ss.filter fun s => !s.free

@[simp] theorem mem_used {ss : List Seg} {s : Seg} : s ∈ used ss ↔ s ∈ ss ∧ s.free = false := by
  simp [used]

@[simp] theorem used_append (xs ys : List Seg) : used (xs ++ ys) = used xs ++ used ys :=
  List.filter_append xs ys

/-- A used segment is not a free one. -/
theorem Seg.ne_of_free {s t : Seg} (unfree : t.free = false) (free : s.free = true) : t ≠ s := by
  rintro rfl
  rw [free] at unfree
  cases unfree

/-- The other segments stay when one is replaced. -/
theorem mem_replaced {xs ys : List Seg} {s t : Seg} (inside : t ∈ xs ++ s :: ys) (other : t ≠ s)
    (cs : List Seg) : t ∈ xs ++ cs ++ ys := by
  rcases List.mem_append.mp inside with before | here
  · simp [before]
  · rcases List.mem_cons.mp here with same | after
    · exact (other same).elim
    · simp [after]

theorem tiles_append {lo hi : Nat} (xs ys : List Seg) :
    Tiles hdr lo hi (xs ++ ys) ↔ ∃ mid, Tiles hdr lo mid xs ∧ Tiles hdr mid hi ys := by
  induction xs generalizing lo with
  | nil => simp [Tiles]
  | cons x xs ih =>
    simp only [List.cons_append, Tiles, ih]
    constructor
    · rintro ⟨here, mid, left, right⟩
      exact ⟨mid, ⟨here, left⟩, right⟩
    · rintro ⟨mid, ⟨here, left⟩, right⟩
      exact ⟨here, mid, left, right⟩

theorem Tiles.le {lo hi : Nat} {ss : List Seg} (tiles : Tiles hdr lo hi ss) : lo ≤ hi := by
  induction ss generalizing lo with
  | nil => exact Nat.le_of_eq tiles
  | cons s ss ih =>
    have := ih tiles.2
    omega

theorem Tiles.bounds {lo hi : Nat} {ss : List Seg} (tiles : Tiles hdr lo hi ss) {s : Seg}
    (member : s ∈ ss) : lo ≤ s.addr ∧ s.addr + hdr + s.size ≤ hi := by
  induction ss generalizing lo with
  | nil => cases member
  | cons t ts ih =>
    obtain ⟨here, rest⟩ := tiles
    rcases List.mem_cons.mp member with rfl | later
    · have := rest.le
      omega
    · have := ih rest later
      omega

/-- A segment in front of another one ends before the other one starts. -/
theorem Tiles.apart {lo hi : Nat} {xs ys : List Seg} (tiles : Tiles hdr lo hi (xs ++ ys)) {s t : Seg}
    (left : s ∈ xs) (right : t ∈ ys) : s.addr + hdr + s.size ≤ t.addr := by
  obtain ⟨mid, before, after⟩ := (tiles_append xs ys).mp tiles
  have := before.bounds left
  have := after.bounds right
  omega

/-- Two segments of a tiling are the same or disjoint, headers included. -/
theorem Tiles.separate {lo hi : Nat} {ss : List Seg} (tiles : Tiles hdr lo hi ss) {s t : Seg}
    (first : s ∈ ss) (second : t ∈ ss) :
    s = t ∨ s.addr + hdr + s.size ≤ t.addr ∨ t.addr + hdr + t.size ≤ s.addr := by
  obtain ⟨xs, ys, rfl⟩ := List.append_of_mem first
  rcases List.mem_append.mp second with before | after
  · exact .inr (.inr (tiles.apart before List.mem_cons_self))
  · rcases List.mem_cons.mp after with same | later
    · exact .inl same.symm
    · rw [List.append_cons] at tiles
      exact .inr (.inl (tiles.apart (List.mem_append_right xs List.mem_cons_self) later))

theorem Tiles.eq_of_addr {lo hi : Nat} {ss : List Seg} (tiles : Tiles hdr lo hi ss)
    (headed : 0 < hdr) {s t : Seg} (first : s ∈ ss) (second : t ∈ ss) (same : s.addr = t.addr) :
    s = t := by
  rcases tiles.separate first second with equal | apart | apart
  · exact equal
  · omega
  · omega

theorem Tiles.total {lo hi : Nat} {ss : List Seg} (tiles : Tiles hdr lo hi ss) :
    lo + (ss.map Seg.size).sum + hdr * ss.length = hi := by
  induction ss generalizing lo with
  | nil => simpa [Tiles] using tiles
  | cons s ss ih =>
    have := ih tiles.2
    simp only [List.map_cons, List.sum_cons, List.length_cons, Nat.mul_add]
    omega

theorem Tiles.length_le {lo hi : Nat} {ss : List Seg} (tiles : Tiles hdr lo hi ss)
    (headed : 0 < hdr) : ss.length ≤ hi - lo := by
  have total := tiles.total
  have : ss.length ≤ hdr * ss.length := Nat.le_mul_of_pos_left _ headed
  omega

/-- Addresses keep the alignment that the start, the header and all sizes have. -/
theorem Tiles.addr_dvd {k lo hi : Nat} {ss : List Seg} (tiles : Tiles hdr lo hi ss) (start : k ∣ lo)
    (header : k ∣ hdr) (sizes : ∀ s ∈ ss, k ∣ s.size) {s : Seg} (member : s ∈ ss) : k ∣ s.addr := by
  induction ss generalizing lo with
  | nil => cases member
  | cons t ts ih =>
    rcases List.mem_cons.mp member with rfl | later
    · exact tiles.1 ▸ start
    · have size := sizes t List.mem_cons_self
      exact ih tiles.2 (Nat.dvd_add (Nat.dvd_add start header) size)
        (fun u member => sizes u (List.mem_cons_of_mem t member)) later

/-- Without free neighbours, an interval that no used segment reaches into lies in one free
segment. -/
theorem Tiles.gap {lo hi a b : Nat} {ss : List Seg} (tiles : Tiles hdr lo hi ss)
    (coalesced : Coalesced ss) (headed : 0 < hdr) (start : lo ≤ a) (stop : b ≤ hi) (some : a < b)
    (unused : ∀ s ∈ ss, s.free = false → ∀ x, a ≤ x → x < b →
      ¬(s.addr ≤ x ∧ x < s.addr + hdr + s.size)) :
    ∃ s ∈ ss, s.free = true ∧ s.addr ≤ a ∧ b ≤ s.addr + hdr + s.size := by
  induction ss generalizing lo with
  | nil =>
    have empty : lo = hi := tiles
    omega
  | cons s ss ih =>
    obtain ⟨here, rest⟩ := tiles
    by_cases later : s.addr + hdr + s.size ≤ a
    · obtain ⟨t, member, found⟩ := ih rest coalesced.tail (by omega) fun t member =>
        unused t (List.mem_cons_of_mem s member)
      exact ⟨t, List.mem_cons_of_mem s member, found⟩
    have free : s.free = true := by
      rw [← Bool.not_eq_false]
      intro unfree
      exact unused s List.mem_cons_self unfree a (Nat.le_refl a) some ⟨by omega, by omega⟩
    refine ⟨s, List.mem_cons_self, free, by omega, ?_⟩
    by_contra beyond
    -- the interval goes on into the next segment, which is used
    cases ss with
    | nil =>
      have last : lo + hdr + s.size = hi := rest
      omega
    | cons t ts =>
      have next := rest.1
      have unfree : t.free = false := by
        rw [← Bool.not_eq_true]
        intro both
        exact (List.isChain_cons_cons.mp coalesced).1 ⟨free, both⟩
      exact unused t (List.mem_cons_of_mem s List.mem_cons_self) unfree t.addr (by omega) (by omega)
        ⟨Nat.le_refl _, by omega⟩

/-! ### Joining a segment with its neighbours -/

/-- `ss` is `xs`, a free segment and `ys`, where free segments next to that one are part of it. -/
def Joined (xs ys ss : List Seg) : Prop :=
  ∃ xs' s ys', ss = xs' ++ s :: ys' ∧ s.free = true ∧ (xs' <+: xs ∧ used xs' = used xs) ∧
    ys' <:+ ys ∧ used ys' = used ys

theorem Joined.used_eq {xs ys ss : List Seg} (joined : Joined xs ys ss) :
    used ss = used xs ++ used ys := by
  obtain ⟨xs', s, ys', rfl, free, ⟨-, left⟩, -, right⟩ := joined
  rw [used_append, left, ← right]
  simp [used, free]

theorem free_of_used_eq_nil {ss : List Seg} (none : used ss = []) {s : Seg} (member : s ∈ ss) :
    s.free = true := by
  by_contra unfree
  have picked : s ∈ used ss := mem_used.mpr ⟨member, by simpa using unfree⟩
  rw [none] at picked
  cases picked

/-- Of free segments next to each other there is at most one. -/
theorem Coalesced.eq_nil_or_singleton {ss : List Seg} (coalesced : Coalesced ss)
    (none : used ss = []) : ss = [] ∨ ∃ s, ss = [s] ∧ s.free = true := by
  rcases ss with _ | ⟨s, _ | ⟨t, ss⟩⟩
  · exact .inl rfl
  · exact .inr ⟨s, rfl, free_of_used_eq_nil none (by simp)⟩
  · have both : s.free = true ∧ t.free = true :=
      ⟨free_of_used_eq_nil none (by simp), free_of_used_eq_nil none (by simp)⟩
    exact ((List.isChain_cons_cons.mp coalesced).1 both).elim

/-- What is in front of a segment says where it starts. -/
theorem Tiles.addr_eq {lo hi hi' : Nat} {xs ys ys' : List Seg} {s t : Seg}
    (tiles : Tiles hdr lo hi (xs ++ s :: ys)) (tiles' : Tiles hdr lo hi' (xs ++ t :: ys')) :
    s.addr = t.addr := by
  induction xs generalizing lo with
  | nil => exact tiles.1.trans tiles'.1.symm
  | cons x xs ih => exact ih tiles.2 tiles'.2

/-- A segment stays where it is unless it becomes part of the one in front of it. That happens to the
segment that is joined, if a free one is in front of it, and to a free one behind it. -/
theorem Joined.stays {lo hi : Nat} {xs ys ss : List Seg} {s t : Seg} (joined : Joined xs ys ss)
    (tiles : Tiles hdr lo hi (xs ++ s :: ys)) (tiles' : Tiles hdr lo hi ss)
    (coalesced : Coalesced (xs ++ s :: ys)) (member : t ∈ xs ++ s :: ys)
    (front : t = s → ∀ p, xs.getLast? = some p → p.free = false)
    (behind : ys.head? = some t → t.free = false) :
    ∃ t' ∈ ss, t'.addr = t.addr ∧ (t'.free = true ∨ t' = t) := by
  obtain ⟨xs', u, ys', rfl, free, ⟨⟨left, rfl⟩, usedLeft⟩, ⟨right, rfl⟩, usedRight⟩ := joined
  obtain ⟨chainFront, chainBehind, -⟩ := List.isChain_append.mp coalesced
  obtain ⟨-, chainLeft, -⟩ := List.isChain_append.mp chainFront
  obtain ⟨chainRight, -, -⟩ := List.isChain_append.mp chainBehind.tail
  have inside : u ∈ xs' ++ u :: ys' := by simp
  rcases List.mem_append.mp member with before | here
  · rcases List.mem_append.mp before with kept | taken
    · exact ⟨t, by simp [kept], rfl, .inr rfl⟩
    · -- the free one in front has grown
      rcases Coalesced.eq_nil_or_singleton chainLeft (by simpa using usedLeft) with rfl | ⟨p, rfl, -⟩
      · cases taken
      · obtain rfl := List.mem_singleton.mp taken
        rw [List.append_assoc] at tiles
        exact ⟨u, inside, tiles'.addr_eq tiles, .inl free⟩
  rcases List.mem_cons.mp here with rfl | after
  · rcases Coalesced.eq_nil_or_singleton chainLeft (by simpa using usedLeft) with rfl | ⟨p, rfl, both⟩
    · rw [List.append_nil] at tiles
      exact ⟨u, inside, tiles'.addr_eq tiles, .inl free⟩
    · have unfree := front rfl p (by simp)
      rw [both] at unfree
      cases unfree
  · rcases List.mem_append.mp after with taken | kept
    · rcases Coalesced.eq_nil_or_singleton chainRight (by simpa using usedRight) with
        rfl | ⟨p, rfl, both⟩
      · cases taken
      · obtain rfl := List.mem_singleton.mp taken
        have unfree := behind rfl
        rw [both] at unfree
        cases unfree
    · exact ⟨t, by simp [kept], rfl, .inr rfl⟩

/-! ### Uniqueness -/

/-- A free head cannot be shorter than a free head of another tiling that has the
same used segments: what follows it would be used, and inside the other head. -/
private theorem free_head_le {hi : Nat} {x y : Seg} {xs ys : List Seg}
    (tilesX : Tiles hdr x.addr hi (x :: xs)) (tilesY : Tiles hdr x.addr hi (y :: ys))
    (coalesced : Coalesced (x :: xs)) (freeX : x.free = true)
    (freeY : y.free = true) (included : ∀ s, s.free = false → s ∈ x :: xs → s ∈ y :: ys) :
    y.size ≤ x.size := by
  by_contra longer
  obtain ⟨-, restX⟩ := tilesX
  obtain ⟨-, restY⟩ := tilesY
  have endY := restY.le
  cases xs with
  | nil =>
    simp only [Tiles] at restX
    omega
  | cons z zs =>
    have usedZ : z.free = false := by
      have := (List.isChain_cons_cons.mp coalesced).1
      cases free : z.free with
      | false => rfl
      | true => exact (this ⟨freeX, free⟩).elim
    have addrZ : z.addr = x.addr + hdr + x.size := restX.1
    -- `z` starts right behind `x`; among the other segments it cannot start inside `y`
    rcases List.mem_cons.mp (included z usedZ (by simp)) with same | later
    · rw [same, freeY] at usedZ
      cases usedZ
    · have := (restY.bounds later).1
      omega

/-- A coalesced tiling is determined by its used segments. -/
theorem tiles_unique {lo hi : Nat} {xs ys : List Seg} (tilesX : Tiles hdr lo hi xs)
    (tilesY : Tiles hdr lo hi ys) (headed : 0 < hdr) (coalescedX : Coalesced xs)
    (coalescedY : Coalesced ys) (same : ∀ s, s.free = false → (s ∈ xs ↔ s ∈ ys)) : xs = ys := by
  induction xs generalizing lo ys with
  | nil =>
    cases ys with
    | nil => rfl
    | cons y ys =>
      have := tilesY.2.le
      simp only [Tiles] at tilesX
      omega
  | cons x xs ih =>
    cases ys with
    | nil =>
      have := tilesX.2.le
      simp only [Tiles] at tilesY
      omega
    | cons y ys =>
      have addrX := tilesX.1
      have addrY := tilesY.1
      subst lo
      have heads : x = y := by
        cases freeX : x.free with
        | false =>
          -- a used segment at the start of the interval can only be the head
          rcases List.mem_cons.mp ((same x freeX).mp (by simp)) with equal | later
          · exact equal
          · have := (tilesY.2.bounds later).1
            omega
        | true =>
          cases freeY : y.free with
          | false =>
            rcases List.mem_cons.mp ((same y freeY).mpr (by simp)) with equal | later
            · exact equal.symm
            · have := (tilesX.2.bounds later).1
              omega
          | true =>
            -- both heads are free, so neither is shorter than the other
            have le := free_head_le tilesX tilesY coalescedX freeX freeY
              fun s unfree => (same s unfree).mp
            have ge := free_head_le (addrY ▸ tilesY) (addrY ▸ tilesX) coalescedY freeY freeX
              fun s unfree => (same s unfree).mpr
            cases x
            cases y
            simp only [Seg.mk.injEq] at *
            exact ⟨addrY.symm, Nat.le_antisymm ge le, freeX.trans freeY.symm⟩
      subst y
      congr 1
      -- the tails share their used segments, since all of them lie behind the head
      refine ih tilesX.2 tilesY.2 coalescedX.tail coalescedY.tail fun s unfree => ?_
      have shared := same s unfree
      simp only [List.mem_cons] at shared
      constructor
      · intro member
        rcases shared.mp (.inr member) with rfl | later
        · have := (tilesX.2.bounds member).1
          omega
        · exact later
      · intro member
        rcases shared.mpr (.inr member) with rfl | later
        · have := (tilesY.2.bounds member).1
          omega
        · exact later

/-! ### Splitting a free segment -/

/-- Use the first `n` bytes of `s`, and give the rest back as a free segment when it
is at least `slack` bytes behind its own header. -/
def carve (hdr slack n : Nat) (s : Seg) : List Seg :=
  if n + hdr + slack ≤ s.size then
    [⟨s.addr, n, false⟩, ⟨s.addr + hdr + n, s.size - n - hdr, true⟩]
  else [⟨s.addr, s.size, false⟩]

theorem tiles_carve {slack n lo hi : Nat} {s : Seg} {xs ys : List Seg}
    (tiles : Tiles hdr lo hi (xs ++ s :: ys)) :
    Tiles hdr lo hi (xs ++ carve hdr slack n s ++ ys) := by
  rw [List.append_assoc]
  obtain ⟨mid, before, here, after⟩ := (tiles_append xs (s :: ys)).mp tiles
  refine (tiles_append xs _).mpr ⟨mid, before, ?_⟩
  unfold carve
  split
  · refine ⟨here, by simp [here], ?_⟩
    have : mid + hdr + n + hdr + (s.size - n - hdr) = mid + hdr + s.size := by omega
    simpa [this] using after
  · exact ⟨here, after⟩

theorem coalesced_carve {slack n : Nat} {s : Seg} {xs ys : List Seg} (free : s.free = true)
    (coalesced : Coalesced (xs ++ s :: ys)) : Coalesced (xs ++ carve hdr slack n s ++ ys) := by
  obtain ⟨before, tail, between⟩ := List.isChain_append.mp coalesced
  obtain ⟨next, after⟩ := List.isChain_cons.mp tail
  rw [List.append_assoc]
  refine List.isChain_append.mpr ⟨before, ?_, ?_⟩
  · unfold carve
    split
    · -- the free rest stands in front of what `s`, which was free, stood in front of
      refine List.isChain_cons.mpr ⟨by simp, List.isChain_cons.mpr ⟨fun t head both => ?_, after⟩⟩
      exact next t head ⟨free, both.2⟩
    · exact List.isChain_cons.mpr ⟨by simp, after⟩
  · -- what is in front now meets a used segment
    intro t last u head
    unfold carve at head
    split at head <;> (simp at head; subst head; simp)

/-- Carving turns `s` into one used segment, at most a header and the slack longer
than asked for. -/
theorem used_carve {slack n : Nat} {s : Seg} (headed : 0 < hdr) (fits : n ≤ s.size) :
    ∃ given, used (carve hdr slack n s) = [⟨s.addr, given, false⟩] ∧
      n ≤ given ∧ given < n + hdr + slack ∧ given ≤ s.size := by
  unfold carve
  split
  · exact ⟨n, by simp [used], Nat.le_refl n, by omega, fits⟩
  · exact ⟨s.size, by simp [used], fits, by omega, Nat.le_refl _⟩

/-- A split leaves the rest of `s` behind a header of its own. -/
theorem carve_rest {slack n : Nat} {s : Seg} (room : n + hdr + slack ≤ s.size) :
    (⟨s.addr + hdr + n, s.size - n - hdr, true⟩ : Seg) ∈ carve hdr slack n s := by
  rw [carve, if_pos room]
  exact List.mem_cons_of_mem _ List.mem_cons_self

/-! ### Joining two neighbours -/

def join (hdr : Nat) (s t : Seg) : Seg := { s with size := s.size + hdr + t.size }

theorem tiles_join {lo hi : Nat} {s t : Seg} {xs ys : List Seg}
    (tiles : Tiles hdr lo hi (xs ++ s :: t :: ys)) : Tiles hdr lo hi (xs ++ join hdr s t :: ys) := by
  obtain ⟨mid, before, here, -, after⟩ := (tiles_append xs _).mp tiles
  refine (tiles_append xs _).mpr ⟨mid, before, here, ?_⟩
  have : mid + hdr + (s.size + hdr + t.size) = mid + hdr + s.size + hdr + t.size := by omega
  simpa [join, this] using after

end KopalniaOS.Library
