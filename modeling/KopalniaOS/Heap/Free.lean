import KopalniaOS.Heap.Malloc

/-!
# What `free` does to a represented list

Both merge loops join the block with a free neighbour and go on with the result, which
stays free. When they stop, neither neighbour is free.
-/
namespace KopalniaOS.Heap

open Library

variable {g : Globals} {m : Memory} {xs ys : List Seg} {s t : Seg}

/-! ### Joining two free neighbours -/

/-- Memory after one round of a merge loop: the second block is unlinked and its bytes
go to the first. -/
def joinMem (m : Memory) (block size next : Nat) : Memory :=
  relink (put (put m block .size size) block .next next) next block

theorem Represents.second (rep : Represents g m (xs ++ s :: t :: ys)) :
    Header m t s.addr (firstAddr 0 ys) := by
  have linked := ((linked_append xs (s :: t :: ys)).mp rep.linked).2
  exact linked.2.1

/-- Two free neighbours become one free block. -/
theorem represents_join (placed : Placed g) (rep : Represents g m (xs ++ s :: t :: ys)) :
    let m' := joinMem m s.addr (s.size + 32 + t.size) (firstAddr 0 ys)
    Represents g m' (xs ++ join 32 s t :: ys) ∧ Untouched (xs ++ s :: t :: ys) m m' := by
  intro m'
  have member : s ∈ xs ++ s :: t :: ys := by simp
  obtain ⟨notNull, bound⟩ := rep.bounds placed member
  have rep' : Represents g m ((xs ++ [s]) ++ t :: ys) := by simpa using rep
  have between := rep.right (List.mem_cons_self : t ∈ t :: ys)
  obtain ⟨-, boundT⟩ := rep.bounds placed (s := t) (by simp)
  obtain ⟨next, nextBound⟩ := rep'.next placed
  have linked : Linked m 0 0 (xs ++ [s, t] ++ ys) := by simpa using rep.linked
  -- Two fields are written to the first header and one to the header behind the second block, which
  -- starts past the whole first one.
  have header : Header m' (join 32 s t) (lastAddr 0 xs) (firstAddr 0 ys) := by
    have old := rep.header
    have apart : firstAddr 0 ys = 0 ∨ s.addr + 32 ≤ firstAddr 0 ys := by omega
    constructor
    · simp (disch := first | decide | omega) only [m', joinMem, join, field_relink_far,
        field_put_field, field_put_word]
    · simp (disch := first | decide | omega) only [m', joinMem, join, field_relink_far,
        field_put_field, old.free]
    · simp (disch := first | decide | omega) only [m', joinMem, join, field_relink_far,
        field_put_word]
    · simp (disch := first | decide | omega) only [m', joinMem, join, field_relink_far,
        field_put_field, old.prev]
  refine ⟨⟨?_, tiles_join rep.tiles, fun u inside => ?_⟩, ?_⟩
  -- Behind the joined block one `prev` is relinked to it, and in front of it nothing changes, so the
  -- three parts splice into one list.
  · have after : Linked m' s.addr 0 ys := by
      refine rep'.relinked placed (by omega) (put (put m s.addr .size (s.size + 32 + t.size))
        s.addr .next (firstAddr 0 ys)) (fun u after f => ?_) fun u after f => rfl
      have behind := rep'.right after
      simp (disch := omega) only [field_put_far]
    have before (u : Seg) (before : u ∈ xs) (f : Field) : field m' u.addr f = field m u.addr f := by
      have apart := rep.left before
      simp (disch := omega) only [m', joinMem, field_put_far, field_relink_far]
    have spliced : Linked m' 0 0 (xs ++ [join 32 s t] ++ ys) :=
      linked.splice rfl before ⟨header, trivial⟩ after
    simpa using spliced
  · have sizeS := rep.sizes s member
    have sizeT := rep.sizes t (by simp)
    rcases List.mem_append.mp inside with before | here
    · exact rep.sizes u (by simp [before])
    · rcases List.mem_cons.mp here with rfl | after
      · simp only [join]
        omega
      · exact rep.sizes u (by simp [after])
  · have written := (Untouched.refl (xs ++ s :: t :: ys) m).putHeader member .size
      (s.size + 32 + t.size)
    exact (written.putHeader member .next _).relink (fun u after => by simp [after]) s.addr

/-- The bytes a joined block owns were owned before. -/
theorem owns_join (rep : Represents g m (xs ++ s :: t :: ys)) (freeS : s.free = true)
    (freeT : t.free = true) (u : Seg) (member : u ∈ xs ++ join 32 s t :: ys) (x : Nat)
    (owns : Owns u x) : ∃ v ∈ xs ++ s :: t :: ys, Owns v x := by
  rcases List.mem_append.mp member with before | here
  · exact ⟨u, by simp [before], owns⟩
  rcases List.mem_cons.mp here with rfl | after
  · have between : t.addr = s.addr + 32 + s.size := by
      obtain ⟨mid, -, here, next, -⟩ := (tiles_append xs (s :: t :: ys)).mp rep.tiles
      omega
    -- the byte was in `s`, or in the header or the bytes of `t`
    by_cases first : x < s.addr + 32 + s.size
    · refine ⟨s, by simp, owns.1, ?_⟩
      simpa [freeS] using first
    · refine ⟨t, by simp, by omega, ?_⟩
      have below := owns.2
      simp only [join, freeS, freeT, if_true] at below ⊢
      omega
  · exact ⟨u, by simp [after], owns⟩

/-! ### The merge loops -/

theorem run_neighbourFree_next (placed : Placed g) (rep : Represents g m (xs ++ s :: ys)) :
    (neighbourFree .next s.addr).run memHandler m =
      some ((ys.head?.map Seg.free).getD false, m) := by
  have header := rep.header
  unfold neighbourFree
  cases ys with
  | nil => simp [header.next, firstAddr]
  | cons t ys =>
    have notNull := (rep.bounds placed (s := t) (by simp)).1
    have notZero : t.addr ≠ 0 := by omega
    cases free : t.free <;> simp [header.next, firstAddr, notZero, rep.second.free, free]

theorem run_neighbourFree_prev (placed : Placed g) (rep : Represents g m (xs ++ s :: ys)) :
    (neighbourFree .prev s.addr).run memHandler m =
      some ((xs.getLast?.map Seg.free).getD false, m) := by
  have header := rep.header
  unfold neighbourFree
  -- the block in front is the last of `xs`
  rcases List.eq_nil_or_concat xs with rfl | ⟨xs, p, rfl⟩
  · simp [header.prev, lastAddr]
  · have rep' : Represents g m (xs ++ p :: s :: ys) := by simpa using rep
    have notNull := (rep.bounds placed (s := p) (by simp)).1
    have notZero : p.addr ≠ 0 := by omega
    cases free : p.free <;> simp [header.prev, lastAddr, notZero, rep'.header.free, free]

/-- What a run of a merge loop did: it owns no more than before, and wrote only there. -/
structure Merged (g : Globals) (m : Memory) (old : List Seg) (m' : Memory) (new : List Seg) :
    Prop where
  represents : Represents g m' new
  untouched : Untouched old m m'
  owned : ∀ u ∈ new, ∀ x, Owns u x → ∃ v ∈ old, Owns v x

theorem Merged.refl {ss : List Seg} (rep : Represents g m ss) : Merged g m ss m ss :=
  ⟨rep, .refl ss m, fun u member _ owns => ⟨u, member, owns⟩⟩

theorem Merged.trans {m₁ m₂ : Memory} {ss ss₁ ss₂ : List Seg} (first : Merged g m ss m₁ ss₁)
    (second : Merged g m₁ ss₁ m₂ ss₂) : Merged g m ss m₂ ss₂ :=
  ⟨second.represents, first.untouched.trans second.untouched first.owned,
    fun u member x owns =>
      let ⟨v, member, owns⟩ := second.owned u member x owns
      first.owned v member x owns⟩

theorem merged_join (placed : Placed g) (rep : Represents g m (xs ++ s :: t :: ys))
    (freeS : s.free = true) (freeT : t.free = true) :
    Merged g m (xs ++ s :: t :: ys) (joinMem m s.addr (s.size + 32 + t.size) (firstAddr 0 ys))
      (xs ++ join 32 s t :: ys) :=
  ⟨(represents_join placed rep).1, (represents_join placed rep).2, owns_join rep freeS freeT⟩

/-- The new size of a joined block, as both loops compute it. -/
theorem joined_size (placed : Placed g) (rep : Represents g m (xs ++ s :: t :: ys)) :
    u64 (s.size + u64 (t.size + sizeofBlock)) = s.size + 32 + t.size := by
  have between := rep.right (List.mem_cons_self : t ∈ t :: ys)
  obtain ⟨-, bound⟩ := rep.bounds placed (s := t) (by simp)
  have inner : u64 (t.size + 32) = t.size + 32 := u64_of_lt (by omega)
  rw [sizeofBlock, inner, u64_of_lt (by omega)]
  omega

/-- One round of the right loop. -/
theorem run_mergeRight_round (placed : Placed g) (fuel : Nat)
    (rep : Represents g m (xs ++ s :: t :: ys)) (freeT : t.free = true) :
    (mergeRight (fuel + 1) s.addr).run memHandler m =
      (mergeRight fuel s.addr).run memHandler
        (joinMem m s.addr (s.size + 32 + t.size) (firstAddr 0 ys)) := by
  have header := rep.header
  have second := rep.second
  have between := rep.right (List.mem_cons_self : t ∈ t :: ys)
  have rep' : Represents g m ((xs ++ [s]) ++ t :: ys) := by simpa using rep
  obtain ⟨-, nextBound⟩ := rep'.next placed
  have tested := run_neighbourFree_next placed rep
  have size := joined_size placed rep
  have next : field m s.addr .next = t.addr := header.next
  -- the fields that are read after a write are not those that were written
  have afterNext (v : Nat) : field (put m s.addr .size v) t.addr .next = firstAddr 0 ys := by
    rw [field_put_far m v (by omega), second.next]
  have written (m₁ : Memory) :
      field (put m₁ s.addr .next (firstAddr 0 ys)) s.addr .next = firstAddr 0 ys :=
    field_put_word m₁ s.addr rfl nextBound
  rw [mergeRight, Program.run_bind, tested, Option.bind_some]
  simp only [List.head?_cons, Option.map_some, Option.getD_some, freeT, if_true, Program.run_bind,
    run_getField, run_setField, run_relinkNext, Option.bind_some, next, header.size, second.size,
    size, afterNext, written, joinMem]

/-- One round of the left loop. -/
theorem run_mergeLeft_round (placed : Placed g) (fuel : Nat)
    (rep : Represents g m (xs ++ s :: t :: ys)) (freeS : s.free = true) :
    (mergeLeft (fuel + 1) t.addr).run memHandler m =
      (mergeLeft fuel s.addr).run memHandler
        (joinMem m s.addr (s.size + 32 + t.size) (firstAddr 0 ys)) := by
  have header := rep.header
  have second := rep.second
  have between := rep.right (List.mem_cons_self : t ∈ t :: ys)
  have rep' : Represents g m ((xs ++ [s]) ++ t :: ys) := by simpa using rep
  obtain ⟨next, nextBound⟩ := rep'.next placed
  have tested := run_neighbourFree_prev placed rep'
  have size := joined_size placed rep
  -- the loop reads the links of `t` again after each write to the block in front of it
  have far (m₁ : Memory) (f f' : Field) (v : Nat) :
      field (put m₁ s.addr f v) t.addr f' = field m₁ t.addr f' :=
    field_put_far m₁ v (by omega)
  have prev (m₁ : Memory) :
      field (relink m₁ (firstAddr 0 ys) s.addr) t.addr .prev = field m₁ t.addr .prev :=
    field_relink_far m₁ s.addr (by omega)
  rw [mergeLeft, Program.run_bind, tested, Option.bind_some]
  simp only [List.getLast?_concat, Option.map_some, Option.getD_some, freeS, if_true,
    Program.run_bind, run_getField, run_setField, Option.bind_some, header.size, second.size,
    second.next, second.prev, size, far, joinMem]
  by_cases last : firstAddr 0 ys = 0
  · simp [relink, last, far, second.prev]
  · have relinked (m₁ : Memory) : relink m₁ (firstAddr 0 ys) s.addr =
        put m₁ (firstAddr 0 ys) .prev s.addr := if_neg last
    simp only [relinked] at prev
    simp [relinked, last, far, prev, second.next, second.prev]

theorem run_mergeRight (placed : Placed g) (fuel : Nat) (rep : Represents g m (xs ++ s :: ys))
    (free : s.free = true) (enough : ys.length < fuel) :
    ∃ s' ys' m', (mergeRight fuel s.addr).run memHandler m = some ((), m') ∧
      Merged g m (xs ++ s :: ys) m' (xs ++ s' :: ys') ∧ s'.addr = s.addr ∧ s'.free = true ∧
      ys' <:+ ys ∧ used ys' = used ys ∧ ∀ t, ys'.head? = some t → t.free = false := by
  induction ys generalizing s m fuel with
  | nil =>
    obtain ⟨fuel, rfl⟩ : ∃ k, fuel = k + 1 := ⟨fuel - 1, by omega⟩
    have tested := run_neighbourFree_next placed rep
    exact ⟨s, [], m, by simp [mergeRight, tested], .refl rep, rfl, free, List.suffix_rfl, rfl, by simp⟩
  | cons t ys ih =>
    obtain ⟨fuel, rfl⟩ : ∃ k, fuel = k + 1 := ⟨fuel - 1, by omega⟩
    have tested := run_neighbourFree_next placed rep
    cases freeT : t.free with
    | false =>
      exact ⟨s, t :: ys, m, by simp [mergeRight, tested, freeT], .refl rep, rfl, free, List.suffix_rfl, rfl,
        by simp [freeT]⟩
    | true =>
      -- the joined block is free again, and the rest of the list is shorter
      have joined := merged_join placed rep free freeT
      obtain ⟨s', ys', m', ran, merged, addr, free', suffix, kept, stop⟩ :=
        ih (s := join 32 s t) fuel joined.represents free (by simpa using enough)
      refine ⟨s', ys', m', ?_, joined.trans merged, addr, free',
        suffix.trans (List.suffix_cons t ys), ?_, stop⟩
      · rw [run_mergeRight_round placed fuel rep freeT]
        exact ran
      · rw [kept]
        simp [used, freeT]

theorem run_mergeLeft (placed : Placed g) (fuel : Nat) (rep : Represents g m (xs ++ s :: ys))
    (free : s.free = true) (enough : xs.length < fuel) :
    ∃ xs' s' m', (mergeLeft fuel s.addr).run memHandler m = some ((), m') ∧
      Merged g m (xs ++ s :: ys) m' (xs' ++ s' :: ys) ∧ s'.free = true ∧
      xs' <+: xs ∧ used xs' = used xs ∧ ∀ t, xs'.getLast? = some t → t.free = false := by
  induction xs using List.reverseRecOn generalizing s m fuel with
  | nil =>
    obtain ⟨fuel, rfl⟩ : ∃ k, fuel = k + 1 := ⟨fuel - 1, by omega⟩
    have tested := run_neighbourFree_prev placed rep
    exact ⟨[], s, m, by simp [mergeLeft, tested], .refl rep, free, List.prefix_rfl, rfl, by simp⟩
  | append_singleton xs p ih =>
    obtain ⟨fuel, rfl⟩ : ∃ k, fuel = k + 1 := ⟨fuel - 1, by omega⟩
    have tested := run_neighbourFree_prev placed rep
    cases freeP : p.free with
    | false =>
      exact ⟨xs ++ [p], s, m, by simp [mergeLeft, tested, freeP], .refl rep, free,
        List.prefix_rfl, rfl, by simp [freeP]⟩
    | true =>
      rw [← List.append_cons] at rep ⊢
      -- the joined block is free again, and the front of the list is shorter
      have joined := merged_join placed rep freeP free
      obtain ⟨xs', s', m', ran, merged, free', before, kept, stop⟩ :=
        ih (s := join 32 p s) fuel joined.represents freeP (by simpa using enough)
      refine ⟨xs', s', m', ?_, joined.trans merged, free',
        before.trans (List.prefix_append xs [p]), ?_, stop⟩
      · rw [run_mergeLeft_round placed fuel rep freeP]
        exact ran
      · rw [kept]
        simp [used, freeP]

/-! ### `free` -/

/-- `free` of a used block makes it free and joins it with its free neighbours. -/
theorem run_free (placed : Placed g) (rep : Represents g m (xs ++ s :: ys))
    (coalesced : Coalesced (xs ++ s :: ys)) :
    ∃ m' ss', (Heap.free (s.addr + 32)).run memHandler m = some ((), m') ∧
      Represents g m' ss' ∧ Coalesced ss' ∧ Joined xs ys ss' ∧
      Untouched (xs ++ { s with free := true } :: ys) m m' := by
  obtain ⟨notNull, bound⟩ := rep.bounds placed (s := s) (by simp)
  have header : sub64 (s.addr + 32) sizeofBlock = s.addr := by
    rw [sub64_of_le (by omega) (Nat.le_add_left _ _)]
    exact Nat.add_sub_cancel _ _
  -- marking may leave free neighbours; the loops end when there are none
  have marked := rep.mark true
  have short := marked.length_lt placed
  simp only [List.length_append, List.length_cons] at short
  obtain ⟨s₁, ys', m₁, ranRight, right, addr, free₁, suffix, keptRight, stopRight⟩ :=
    run_mergeRight placed loopBound marked rfl (by omega)
  obtain ⟨xs', s₂, m₂, ranLeft, left, free₂, before, keptLeft, stopLeft⟩ :=
    run_mergeLeft placed loopBound right.represents free₁ (by omega)
  have merged := right.trans left
  refine ⟨m₂, xs' ++ s₂ :: ys', ?_, merged.represents, ?_, ?_, ?_⟩
  · rw [addr] at ranLeft
    have notNull' : s.addr + 32 ≠ 0 := by omega
    simp only [Heap.free, if_neg notNull', header, Program.run_bind, run_setField,
      Option.bind_some]
    simp only [Bool.toNat_true] at ranRight
    simp [ranRight, ranLeft]
  · obtain ⟨left, rest, -⟩ := List.isChain_append.mp coalesced
    have leftKept := List.IsChain.prefix left before
    -- the result is free, but neither neighbour is
    refine List.isChain_append.mpr ⟨leftKept, List.isChain_cons.mpr
      ⟨fun t head both => ?_, rest.tail.suffix suffix⟩, fun t last u _ both => ?_⟩
    · rw [stopRight t head] at both
      cases both.2
    · rw [stopLeft t last] at both
      cases both.1
  · exact ⟨xs', s₂, ys', rfl, free₂, ⟨before, keptLeft⟩, suffix, keptRight⟩
  · have marking : Untouched (xs ++ { s with free := true } :: ys) m (put m s.addr .free 1) :=
      (Untouched.refl _ m).putHeader (s := { s with free := true }) (by simp) .free 1
    exact marking.trans merged.untouched fun u member x owns => ⟨u, member, owns⟩

end KopalniaOS.Heap
