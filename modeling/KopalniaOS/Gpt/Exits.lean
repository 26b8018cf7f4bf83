import KopalniaOS.Gpt.Bounds

/-!
# The parts of `init` between its exits

Whatever a disk says, checking and visiting neither takes nor gives back a buffer. So what these
operations keep, on whatever state, the parts of `init` keep.
-/
namespace KopalniaOS.Gpt

open Library

/-- Operations that neither take nor give back a buffer. -/
def Working : GptOp → Prop
  | .load .. | .store .. | .pushBack .. | .log .. => True
  | _ => False

section Operations

variable {α : Type} {Q : GptOp → Prop} (f : Unit → GptProgram α)

@[simp] theorem always_load (b : Buffer) (width offset : Nat) (f : Nat → GptProgram α) :
    (load b width offset >>= f).Always Q ↔ Q (.load b width offset) ∧ ∀ v, (f v).Always Q := Iff.rfl

@[simp] theorem always_store (b : Buffer) (width offset value : Nat) :
    (store b width offset value >>= f).Always Q ↔ Q (.store b width offset value) ∧ (f ()).Always Q :=
  and_congr Iff.rfl ⟨fun all => all (), fun next _ => next⟩

@[simp] theorem always_log (entry : LogEntry) :
    (log entry >>= f).Always Q ↔ Q (.log entry) ∧ (f ()).Always Q :=
  and_congr Iff.rfl ⟨fun all => all (), fun next _ => next⟩

@[simp] theorem always_pushBack (b : Buffer) (offset : Nat) :
    (pushBack b offset).Always Q ↔ Q (.pushBack b offset) :=
  ⟨And.left, fun here => ⟨here, fun _ => trivial⟩⟩

end Operations

theorem always_memcmp (b : Buffer) (offset : Nat) (bytes : List Nat) :
    (memcmp b offset bytes).Always Working := by
  induction bytes generalizing offset with
  | nil => trivial
  | cons byte rest ih =>
    rw [memcmp, always_load]
    refine ⟨trivial, fun found => ?_⟩
    split
    · trivial
    · exact ih (offset + 1)

theorem always_crc32Loop (b : Buffer) (len i n : Nat) (left : len - i ≤ n) (crc : BitVec 32) :
    (crc32Loop b len i crc).Always Working := by
  induction n generalizing i crc with
  | zero =>
    rw [crc32Loop, if_neg (by omega)]
    trivial
  | succ n ih =>
    rw [crc32Loop]
    split
    · rw [always_load]
      exact ⟨trivial, fun byte => ih (i + 1) (by omega) _⟩
    · trivial

theorem always_crc32 (b : Buffer) (len : Nat) : (crc32 b len).Always Working :=
  (always_crc32Loop b len 0 len (Nat.sub_le len 0) _).bind fun _ => trivial

theorem always_validateGpt : validateGpt.Always Working := by
  refine (always_memcmp _ _ _).bind fun signed => ?_
  split
  · simp [Working]
  · rw [always_load]
    refine ⟨trivial, fun copied => ?_⟩
    rw [always_store, always_store, always_load]
    refine ⟨trivial, trivial, trivial, fun size => (always_crc32 _ _).bind fun crc => ?_⟩
    rw [always_load]
    refine ⟨trivial, fun checksum => ?_⟩
    split
    · simp [Working]
    · rw [always_load]
      refine ⟨trivial, fun lba => ?_⟩
      split <;> simp [Working]

theorem always_validateGptPartitionEntries : validateGptPartitionEntries.Always Working := by
  rw [validateGptPartitionEntries, always_load]
  refine ⟨trivial, fun size => ?_⟩
  rw [always_load]
  refine ⟨trivial, fun count => (always_crc32 _ _).bind fun crc => ?_⟩
  rw [always_load]
  refine ⟨trivial, fun checksum => ?_⟩
  split <;> simp [Working]

theorem always_copyName (entry left j : Nat) : (copyName entry left j).Always Working := by
  induction left generalizing j with
  | zero => trivial
  | succ left ih =>
    rw [copyName, always_load]
    refine ⟨trivial, fun wc => ?_⟩
    split
    · trivial
    · rw [always_store]
      exact ⟨trivial, ih (j + 1)⟩

theorem always_visitEntry (sectorSize entry i : Nat) :
    (visitEntry sectorSize entry i).Always Working := by
  refine (always_memcmp _ _ _).bind fun unused => ?_
  split
  · trivial
  rw [always_load]
  refine ⟨trivial, fun lba => ?_⟩
  split
  · trivial
  rw [always_load]
  refine ⟨trivial, fun name => ?_⟩
  split
  · trivial
  rw [always_store]
  refine ⟨trivial, (always_copyName entry 36 0).bind fun _ => ?_⟩
  simp [Working]

/-- The loop over the entries; the number of entries that it reads is an `u32`, so it ends. -/
theorem visitEntries_meets {S : Type} {h : Handler GptOp GptOp.Answer S} {c : Contract GptOp S}
    {I : S → Prop}
    (keeps : ∀ o s, Working o → I s → c.assume o s →
      c.guarantee o s ∧ (h o s = none → c.mayHang) ∧ ∀ r, h o s = some r → I r.2)
    (counts : ∀ s r, h (.load .header 4 80) s = some r → (r.1 : Nat) < 2 ^ 32)
    (sectorSize left i : Nat) (small : i < 2 ^ 32) (enough : 2 ^ 32 ≤ i + left) {s : S}
    (before : I s) : (visitEntries sectorSize left i).Meets h c s fun _ t => I t := by
  -- the index has 32 bits and the count is read on every turn, so at most `2 ^ 32` turns are left
  induction left generalizing i s with
  | zero => omega
  | succ left ih =>
    rw [visitEntries, load, Program.meets_perform_bind]
    intro assumed
    obtain ⟨guaranteed, returns, after⟩ := keeps (.load .header 4 80) s trivial before assumed
    refine ⟨guaranteed, returns, fun count counted => ?_⟩
    have counting : I count.2 := after count counted
    have bound := counts s count counted
    split
    case isTrue more =>
      rw [load, Program.meets_perform_bind]
      intro assumed
      obtain ⟨guaranteed, returns, after⟩ := keeps (.load .header 4 84) _ trivial counting assumed
      refine ⟨guaranteed, returns, fun size sized => ?_⟩
      rw [Program.meets_bind]
      have next : i + 1 < 2 ^ 32 := Nat.lt_of_le_of_lt more bound
      have visits := (always_visitEntry sectorSize (i * size.1 % 2 ^ 32) i).meets keeps
        (after size sized)
      exact visits.mono fun _ t visited => ih (i + 1) next (by omega) visited
    case isFalse => exact counting

end KopalniaOS.Gpt
