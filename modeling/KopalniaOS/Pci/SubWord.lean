import KopalniaOS.Pci.Space

/-!
# Narrow writes

A narrow write reaches its target. The other bytes of the double word are written back, which is
harmless for plain storage and clears what is set in the Status register.
-/
namespace KopalniaOS.Pci

open Library

variable {ι : Type} {dev : PciDevice} {s t : PciState ι} {c : Space} {o i : Offset}

/-- A write to the bytes of `target`, when they are plain, is read back, and every other byte of the
device and all other devices stay as they are. -/
structure Targeted {w : Nat} (dev : PciDevice) (s : PciState ι) (write : PciProgram ι Unit)
    (read : PciProgram ι (BitVec w)) (target : Offset → Prop) (value : BitVec w) : Prop where
  readBack : (∀ i, target i → ¬IsStatus i) →
    ((write >>= fun _ => read).run pciHandler s).map Prod.fst = some value
  frame : ∀ t, write.run pciHandler s = some ((), t) →
    (∀ i, ¬target i → t.space dev.number i = s.space dev.number i) ∧
      ∀ f, f ≠ dev.number → t.space f = s.space f

/-- No bit is set in a byte of the Status register that shares the double word with the target. -/
def Harmless (c : Space) (o : Offset) (target : Offset → Prop) : Prop :=
  ∀ i, IsStatus i → i &&& 0xFC = o &&& 0xFC → ¬target i → c i = 0

/-- The bits of the Status register that are set stay set. -/
def KeepsStatus (dev : PciDevice) (s : PciState ι) (p : PciProgram ι Unit) : Prop :=
  ∀ t, p.run pciHandler s = some ((), t) →
    ∀ i, IsStatus i → t.space dev.number i = s.space dev.number i

/-! ### Bytes that are written back -/

@[simp] theorem store_plain (plain : ¬IsStatus i) (c : Space) (b : BitVec 8) : c.store i b = b :=
  if_neg plain

theorem store_status (status : IsStatus i) (c : Space) : c.store i (c i) = 0 := by
  rw [Space.store, if_pos status, BitVec.and_not_self]

theorem store_back_iff (c : Space) (i : Offset) : c.store i (c i) = c i ↔ (IsStatus i → c i = 0) := by
  by_cases status : IsStatus i
  · rw [store_status status]
    exact ⟨fun clear _ => clear.symm, fun clear => (clear status).symm⟩
  · simp [status]

/-- What a narrow write does to the bytes that are not its target. -/
def Space.writeBack (c : Space) (o : Offset) : Space := fun i =>
  if i &&& 0xFC = o &&& 0xFC then c.store i (c i) else c i

theorem writeBack_eq_iff (c : Space) (o i : Offset) :
    c.writeBack o i = c i ↔ (i &&& 0xFC = o &&& 0xFC → IsStatus i → c i = 0) := by
  unfold Space.writeBack
  by_cases same : i &&& 0xFC = o &&& 0xFC
  · rw [if_pos same, store_back_iff]
    exact ⟨fun clear _ => clear, fun clear => clear same⟩
  · rw [if_neg same]
    exact iff_of_true rfl fun equal => absurd equal same

theorem write8_of_ne (c : Space) (v : BitVec 8) (other : i ≠ o) :
    c.write8 o v i = c.writeBack o i :=
  if_neg other

theorem write16_of_ne (c : Space) (v : BitVec 16) (lower : i ≠ o &&& 0xFE)
    (upper : i ≠ (o &&& 0xFE) + 1) : c.write16 o v i = c.writeBack o i := by
  rw [Space.write16, if_neg lower, if_neg upper]
  rfl

theorem half_write16 (c : Space) (v : BitVec 16) (lower : ¬IsStatus (o &&& 0xFE))
    (upper : ¬IsStatus ((o &&& 0xFE) + 1)) : (c.write16 o v).half o = v := by
  have apart : (o &&& 0xFE) + 1 ≠ o &&& 0xFE := by
    revert o
    decide +kernel
  have join : v.extractLsb' 8 8 ++ v.extractLsb' 0 8 = v.extractLsb' 0 (8 + 8) :=
    BitVec.extractLsb'_append_extractLsb'_eq_extractLsb' rfl
  unfold Space.half Space.write16
  rw [if_neg apart, if_pos rfl, if_pos rfl, store_plain lower, store_plain upper, join]
  exact BitVec.extractLsb'_eq_self

/-! ### The accesses -/

/-- What a write that is one access leaves alone, when its target is read back. -/
theorem targeted_iff {w : Nat} {write : PciProgram ι Unit} {read : PciProgram ι (BitVec w)}
    {target : Offset → Prop} {value : BitVec w} {after : Space}
    (wrote : write.run pciHandler s = some ((), s.accessed dev o after))
    (others : ∀ i, ¬target i → after i = (s.space dev.number).writeBack o i)
    (reads : (∀ i, target i → ¬IsStatus i) →
      (read.run pciHandler (s.accessed dev o after)).map Prod.fst = some value) :
    Targeted dev s write read target value ↔ Harmless (s.space dev.number) o target := by
  constructor
  · intro targeted i status same outside
    -- a byte that is written back keeps its content only if no bit of Status is set in it
    have kept := (targeted.frame _ wrote).1 i outside
    rw [accessed_space, others i outside, writeBack_eq_iff] at kept
    exact kept same status
  · intro harmless
    refine ⟨fun plain => ?_, fun t ran => ?_⟩
    · rw [Program.run_bind, wrote]
      exact reads plain
    · rw [wrote] at ran
      cases ran
      refine ⟨fun i outside => ?_, fun f other => Function.update_of_ne other ..⟩
      rw [accessed_space, others i outside, writeBack_eq_iff]
      exact fun same status => harmless i status same outside

theorem targeted8_iff (dev : PciDevice) (s : PciState ι) (o : Offset) (v : BitVec 8) :
    Targeted dev s (pciWrite8 dev o v) (pciRead8 dev o) (fun i => i = o) v ↔
      Harmless (s.space dev.number) o fun i => i = o := by
  refine targeted_iff (run_pciWrite8 dev o v) (fun i other => write8_of_ne _ v other) ?_
  intro plain
  rw [run_pciRead8, accessed_space, Option.map_some, Space.write8, if_pos rfl,
    store_plain (plain o rfl)]

theorem half_of_even (even : o &&& 1 = 0) : o &&& 0xFE = o := by
  revert o
  decide +kernel

theorem targeted16_iff (dev : PciDevice) (s : PciState ι) (v : BitVec 16) (even : o &&& 1 = 0) :
    Targeted dev s (pciWrite16 dev o v) (pciRead16 dev o) (fun i => i = o ∨ i = o + 1) v ↔
      Harmless (s.space dev.number) o fun i => i = o ∨ i = o + 1 := by
  have place := half_of_even even
  refine targeted_iff (run_pciWrite16 dev o v) (fun i outside => ?_) fun plain => ?_
  · rw [not_or] at outside
    exact write16_of_ne _ v (place.symm ▸ outside.1) (place.symm ▸ outside.2)
  · rw [run_pciRead16, accessed_space, Option.map_some,
      half_write16 _ v (place.symm ▸ plain o (.inl rfl)) (place.symm ▸ plain (o + 1) (.inr rfl))]

/-! ### The Command register -/

/-- The Status register is in the double word of the Command register and not part of it. -/
theorem status_beside_command (status : IsStatus i) :
    i &&& 0xFC = 4 &&& 0xFC ∧ i ≠ 4 &&& 0xFE ∧ i ≠ (4 &&& 0xFE) + 1 := by
  rcases status with rfl | rfl <;> decide

theorem write16_command_status (c : Space) (v : BitVec 16) (status : IsStatus i) :
    c.write16 0x04 v i = 0 := by
  obtain ⟨same, lower, upper⟩ := status_beside_command status
  rw [write16_of_ne c v lower upper, Space.writeBack, if_pos same, store_status status]

theorem run_updateCommand (dev : PciDevice) (s : PciState ι) (bits : BitVec 16) :
    (updateCommand dev bits).run pciHandler s = some ((), s.accessed dev 0x04
      ((s.space dev.number).write16 0x04 ((s.space dev.number).half 0x04 ||| bits))) := by
  rw [updateCommand, Program.run_bind, run_pciRead16, Option.bind_some, run_pciWrite16,
    accessed_space, accessed_accessed]

theorem keepsStatus_updateCommand_iff (dev : PciDevice) (s : PciState ι) (bits : BitVec 16) :
    KeepsStatus dev s (updateCommand dev bits) ↔ ∀ i, IsStatus i → s.space dev.number i = 0 := by
  unfold KeepsStatus
  rw [run_updateCommand]
  constructor
  · intro keeps i status
    have kept := keeps _ rfl i status
    rw [accessed_space, write16_command_status _ _ status] at kept
    exact kept.symm
  · intro clear t ran i status
    cases ran
    rw [accessed_space, write16_command_status _ _ status, clear i status]

/-- For every device and every content of configuration space. -/
theorem narrow_writes_iff (dev : PciDevice) (s : PciState ι) :
    (∀ (o : Offset) (v : BitVec 16), o &&& 1 = 0 →
      (Targeted dev s (pciWrite16 dev o v) (pciRead16 dev o) (fun i => i = o ∨ i = o + 1) v ↔
        Harmless (s.space dev.number) o fun i => i = o ∨ i = o + 1)) ∧
    (∀ (o : Offset) (v : BitVec 8),
      (Targeted dev s (pciWrite8 dev o v) (pciRead8 dev o) (fun i => i = o) v ↔
        Harmless (s.space dev.number) o fun i => i = o)) ∧
    (KeepsStatus dev s (disableIntx dev) ↔ ∀ i, IsStatus i → s.space dev.number i = 0) ∧
    (KeepsStatus dev s (enableBusMaster dev) ↔ ∀ i, IsStatus i → s.space dev.number i = 0) :=
  ⟨fun _ v even => targeted16_iff dev s v even, targeted8_iff dev s,
    keepsStatus_updateCommand_iff dev s _, keepsStatus_updateCommand_iff dev s _⟩

/-- Every device has signalled a target abort. -/
def targetAbort : PciState Unit where
  configAddress := 0
  space _ i := if i = 7 then 0x08 else 0
  msr _ := 0
  table := ⟨fun _ _ => none, fun _ => 0, []⟩

/-- A write to the Command register clears it. -/
theorem status_cleared :
    ¬∀ (dev : PciDevice) (s : PciState Unit) (o : Offset) (v : BitVec 16), o &&& 1 = 0 →
      Targeted dev s (pciWrite16 dev o v) (pciRead16 dev o) (fun i => i = o ∨ i = o + 1) v := by
  intro all
  have harmless := (targeted16_iff ⟨0, 0, 0⟩ targetAbort 7 (by decide)).mp
    (all ⟨0, 0, 0⟩ targetAbort 4 7 (by decide))
  exact absurd (harmless 7 (.inr rfl) (by decide) (by decide)) (by decide)

end KopalniaOS.Pci
