import KopalniaOS.Pci.Model
import KopalniaOS.Library.BitField

/-!
# What an access does to configuration space

A read leaves everything but the address port alone, and a narrow write is a write of the bytes of
the double word: its own with the value, the others with what they held.
-/
namespace KopalniaOS.Pci

open Library

variable {ι : Type} {dev : PciDevice} {s : PciState ι} {c : Space} {o i : Offset}

/-! ### Offsets -/

theorem toNat_dword (o : Offset) : (o &&& 0xFC).toNat = o.toNat / 4 * 4 := by
  revert o
  decide +kernel

theorem toNat_half (o : Offset) : (o &&& 0xFE).toNat = o.toNat / 2 * 2 := by
  revert o
  decide +kernel

theorem toNat_within (o : Offset) : (o &&& 3).toNat = o.toNat % 4 := by
  revert o
  decide +kernel

theorem toNat_halfWithin (o : Offset) : (o &&& 2).toNat = o.toNat % 4 / 2 * 2 := by
  revert o
  decide +kernel

theorem toNat_succ_half (o : Offset) : ((o &&& 0xFE) + 1).toNat = o.toNat / 2 * 2 + 1 := by
  revert o
  decide +kernel

theorem dword_dword (o : Offset) : o &&& 0xFC &&& 0xFC = o &&& 0xFC := by
  rw [BitVec.and_assoc, BitVec.and_self]

/-- Both bytes of a half word are in the double word. -/
theorem dword_half (o : Offset) : o &&& 0xFE &&& 0xFC = o &&& 0xFC := by
  revert o
  decide +kernel

theorem dword_succ_half (o : Offset) : (o &&& 0xFE) + 1 &&& 0xFC = o &&& 0xFC := by
  revert o
  decide +kernel

/-- A byte of the double word is at its offset. -/
theorem dword_add_within (o : Offset) : (o &&& 0xFC) + (o &&& 3) = o := by
  revert o
  decide +kernel

theorem dword_add_halfWithin (o : Offset) : (o &&& 0xFC) + (o &&& 2) = o &&& 0xFE := by
  revert o
  decide +kernel

/-! ### Addresses -/

/-- The number of the function. -/
def PciDevice.number (dev : PciDevice) : BitVec 16 := functionOf (configAddress dev 0)

theorem functionOf_configAddress (dev : PciDevice) (offset : Offset) :
    functionOf (configAddress dev offset) = dev.number := by
  unfold PciDevice.number
  ext i inside
  simp [functionOf, configAddress]

theorem registerOf_configAddress (dev : PciDevice) (offset : Offset) :
    registerOf (configAddress dev offset) = offset &&& 0xFC := by
  ext i inside
  simp [registerOf, configAddress]

theorem msb_configAddress (dev : PciDevice) (offset : Offset) :
    (configAddress dev offset).msb = true := by
  have enabled : (1#32 <<< 31).msb = true := by decide
  simp only [configAddress, BitVec.msb_or, enabled, Bool.true_or]

theorem configAddress_dword (dev : PciDevice) (offset : Offset) :
    configAddress dev (offset &&& 0xFC) = configAddress dev offset := by
  unfold configAddress
  rw [dword_dword]

/-! ### Double words -/

/-- The state with another content for the function, and the address of `offset` in the port. -/
def PciState.accessed (s : PciState ι) (dev : PciDevice) (offset : Offset) (c : Space) : PciState ι :=
  { s with
    configAddress := Pci.configAddress dev offset
    space := Function.update s.space dev.number c }

@[simp] theorem accessed_space (s : PciState ι) (dev : PciDevice) (offset : Offset) (c : Space) :
    (s.accessed dev offset c).space dev.number = c :=
  Function.update_self ..

@[simp] theorem accessed_accessed (s : PciState ι) (dev : PciDevice) (offset offset' : Offset)
    (c c' : Space) :
    (s.accessed dev offset c).accessed dev offset' c' = s.accessed dev offset' c' := by
  unfold PciState.accessed
  rw [Function.update_idem]

theorem run_pciRead32 (dev : PciDevice) (o : Offset) : (pciRead32 dev o).run pciHandler s =
    some ((s.space dev.number).read32 (o &&& 0xFC), s.accessed dev o (s.space dev.number)) := by
  have latched : (pciRead32 dev o).run pciHandler s =
      some ({ s with configAddress := configAddress dev o }.inl 0xCFC,
        { s with configAddress := configAddress dev o }) := rfl
  rw [latched, PciState.inl, if_pos ⟨rfl, msb_configAddress dev o⟩, functionOf_configAddress,
    registerOf_configAddress, PciState.accessed, Function.update_eq_self]

theorem run_pciWrite32 (dev : PciDevice) (o : Offset) (v : BitVec 32) :
    (pciWrite32 dev o v).run pciHandler s =
      some ((), s.accessed dev o ((s.space dev.number).write32 (o &&& 0xFC) v)) := by
  have latched : (pciWrite32 dev o v).run pciHandler s =
      some ((), { s with configAddress := configAddress dev o }.outl 0xCFC v) := rfl
  rw [latched, PciState.outl, if_neg (by decide), if_pos ⟨rfl, msb_configAddress dev o⟩,
    functionOf_configAddress, registerOf_configAddress, PciState.accessed]

/-! ### The bytes of a double word -/

theorem byteOf_read32 (c : Space) (d : Offset) {k : Nat} (inside : k < 4) :
    byteOf (c.read32 d) k = c (d + BitVec.ofNat 8 k) := by
  unfold byteOf Space.read32
  obtain rfl | rfl | rfl | rfl : k = 0 ∨ k = 1 ∨ k = 2 ∨ k = 3 := by omega
  · rw [BitVec.extractLsb'_append_eq_right]
    exact congrArg c (BitVec.add_zero d).symm
  · rw [BitVec.extractLsb'_append_eq_of_le (by decide)]
    exact BitVec.extractLsb'_append_eq_right
  · rw [BitVec.extractLsb'_append_eq_of_le (by decide),
      BitVec.extractLsb'_append_eq_of_le (by decide)]
    exact BitVec.extractLsb'_append_eq_right
  · rw [BitVec.extractLsb'_append_eq_of_le (by decide),
      BitVec.extractLsb'_append_eq_of_le (by decide),
      BitVec.extractLsb'_append_eq_of_le (by decide)]
    exact BitVec.extractLsb'_eq_self

/-- Reading a double word and taking out a byte. -/
theorem shift_and_byte (v : BitVec 32) (k : Nat) :
    ((v >>> (k * 8)) &&& 0xFF).setWidth 8 = byteOf v k := by
  refine BitVec.eq_of_getLsbD_eq fun i small => ?_
  have mask : (0xFF : BitVec 32).getLsbD i = true := by
    have all : ∀ i < 8, (0xFF : BitVec 32).getLsbD i = true := by decide
    exact all i small
  simp only [byteOf, BitVec.getLsbD_setWidth, BitVec.getLsbD_and, BitVec.getLsbD_ushiftRight,
    BitVec.getLsbD_extractLsb', small, mask, decide_true, Bool.true_and, Bool.and_true, Nat.mul_comm]

theorem shift_and_half (v : BitVec 32) (k : Nat) :
    ((v >>> (k * 8)) &&& 0xFFFF).setWidth 16 = byteOf v (k + 1) ++ byteOf v k := by
  have join : byteOf v (k + 1) ++ byteOf v k = v.extractLsb' (8 * k) (8 + 8) :=
    BitVec.extractLsb'_append_extractLsb'_eq_extractLsb' (Nat.mul_succ 8 k)
  rw [join]
  refine BitVec.eq_of_getLsbD_eq fun i small => ?_
  have mask : (0xFFFF : BitVec 32).getLsbD i = true := by
    have all : ∀ i < 16, (0xFFFF : BitVec 32).getLsbD i = true := by decide
    exact all i small
  simp only [BitVec.getLsbD_setWidth, BitVec.getLsbD_and, BitVec.getLsbD_ushiftRight,
    BitVec.getLsbD_extractLsb', small, mask, decide_true, Bool.true_and, Bool.and_true,
    Nat.mul_comm]

/-! ### Narrow reads -/

/-- The half word at an offset; the lowest bit of the offset is not looked at. -/
def Space.half (c : Space) (o : Offset) : BitVec 16 := c ((o &&& 0xFE) + 1) ++ c (o &&& 0xFE)

theorem run_pciRead8 (dev : PciDevice) (o : Offset) : (pciRead8 dev o).run pciHandler s =
    some (s.space dev.number o, s.accessed dev o (s.space dev.number)) := by
  have inside : (o &&& 3).toNat < 4 := by
    rw [toNat_within]
    exact Nat.mod_lt _ (by decide)
  rw [pciRead8, Program.run_bind, run_pciRead32, Option.bind_some, shift_and_byte,
    byteOf_read32 _ _ inside, BitVec.ofNat_toNat, BitVec.setWidth_eq, dword_add_within]
  rfl

theorem run_pciRead16 (dev : PciDevice) (o : Offset) : (pciRead16 dev o).run pciHandler s =
    some ((s.space dev.number).half o, s.accessed dev o (s.space dev.number)) := by
  have within := toNat_halfWithin o
  have low : BitVec.ofNat 8 (o &&& 2).toNat = o &&& 2 := by
    rw [BitVec.ofNat_toNat, BitVec.setWidth_eq]
  have high : BitVec.ofNat 8 ((o &&& 2).toNat + 1) = (o &&& 2) + 1 := by
    rw [BitVec.ofNat_add, low]
    rfl
  rw [pciRead16, Program.run_bind, run_pciRead32, Option.bind_some, shift_and_half,
    byteOf_read32 _ _ (by omega), byteOf_read32 _ _ (by omega), low, high, ← BitVec.add_assoc,
    dword_add_halfWithin]
  rfl

/-! ### Narrow writes -/

/-- The effect of `pci_write8` and `pci_write16`: the bytes next to the target are written back. -/
def Space.write8 (c : Space) (o : Offset) (v : BitVec 8) : Space := fun i =>
  if i = o then c.store i v
  else if i &&& 0xFC = o &&& 0xFC then c.store i (c i)
  else c i

def Space.write16 (c : Space) (o : Offset) (v : BitVec 16) : Space := fun i =>
  if i = o &&& 0xFE then c.store i (v.extractLsb' 0 8)
  else if i = (o &&& 0xFE) + 1 then c.store i (v.extractLsb' 8 8)
  else if i &&& 0xFC = o &&& 0xFC then c.store i (c i)
  else c i

/-- The double word with one field replaced. -/
theorem replace_byte (v : BitVec 32) (start : Nat) (value : BitVec 8) :
    v &&& ~~~(0xFF#32 <<< start) ||| value.setWidth 32 <<< start =
      (BitField.mk start 8).set v value.toNat := by
  have ones : 0xFF#32 = (BitVec.allOnes 8).setWidth 32 := by decide
  simp only [BitField.set, BitField.mask, ones, BitVec.ofNat_toNat, BitVec.setWidth_eq]

theorem replace_half (v : BitVec 32) (start : Nat) (value : BitVec 16) :
    v &&& ~~~(0xFFFF#32 <<< start) ||| value.setWidth 32 <<< start =
      (BitField.mk start 16).set v value.toNat := by
  have ones : 0xFFFF#32 = (BitVec.allOnes 16).setWidth 32 := by decide
  simp only [BitField.set, BitField.mask, ones, BitVec.ofNat_toNat, BitVec.setWidth_eq]

/-- The bytes of the field are those of its value. -/
theorem byteOf_set_inside {w start k : Nat} (v : BitVec 32) (value : BitVec w) (low : start ≤ k)
    (high : 8 * (k - start) + 8 ≤ w) (fits : start * 8 + w ≤ 32) :
    byteOf ((BitField.mk (start * 8) w).set v value.toNat) k =
      value.extractLsb' (8 * (k - start)) 8 := by
  have part := BitField.get_set_of_within (f := ⟨start * 8, w⟩) (g := ⟨8 * k, 8⟩)
    (by dsimp only; omega) (by dsimp only; omega) fits v value.toNat
  have place : 8 * k - start * 8 = 8 * (k - start) := by omega
  dsimp only at part
  rw [place, BitVec.ofNat_toNat, BitVec.setWidth_eq] at part
  exact part

theorem byteOf_set_outside {w start k : Nat} (v : BitVec 32) (value : BitVec w)
    (apart : k < start ∨ start * 8 + w ≤ 8 * k) :
    byteOf ((BitField.mk (start * 8) w).set v value.toNat) k = byteOf v k :=
  BitField.get_set_of_disjoint (f := ⟨start * 8, w⟩) (g := ⟨8 * k, 8⟩) (by dsimp only; omega) v _

/-- The byte that a double word has at the offset of `i`. -/
theorem byteOf_read32_within (c : Space) (same : i &&& 0xFC = o &&& 0xFC) :
    byteOf (c.read32 (o &&& 0xFC)) (i &&& 3).toNat = c i := by
  have inside : (i &&& 3).toNat < 4 := by
    rw [toNat_within]
    exact Nat.mod_lt _ (by decide)
  rw [byteOf_read32 _ _ inside, BitVec.ofNat_toNat, BitVec.setWidth_eq, ← same, dword_add_within]

theorem write32_replace_byte (c : Space) (o : Offset) (v : BitVec 8) :
    c.write32 (o &&& 0xFC) ((BitField.mk ((o &&& 3).toNat * 8) 8).set (c.read32 (o &&& 0xFC)) v.toNat) =
      c.write8 o v := by
  funext i
  unfold Space.write32 Space.write8
  have here := toNat_within i
  have there := toNat_within o
  by_cases same : i &&& 0xFC = o &&& 0xFC
  · rw [if_pos same, if_pos same]
    have dword := congrArg BitVec.toNat same
    rw [toNat_dword, toNat_dword] at dword
    by_cases target : i = o
    · subst target
      rw [if_pos rfl, byteOf_set_inside _ v (Nat.le_refl _) (by omega) (by omega), Nat.sub_self]
      exact congrArg (c.store i) BitVec.extractLsb'_eq_self
    · have apart : i.toNat ≠ o.toNat := fun equal => target (BitVec.eq_of_toNat_eq equal)
      rw [if_neg target, byteOf_set_outside _ v (by omega), byteOf_read32_within c same]
  · have other : i ≠ o := fun equal => same (congrArg (· &&& 0xFC) equal)
    rw [if_neg same, if_neg other, if_neg same]

/-- The two bytes of a half word lie next to each other in the double word. -/
theorem write32_replace_half (c : Space) (o : Offset) (v : BitVec 16) :
    c.write32 (o &&& 0xFC)
      ((BitField.mk ((o &&& 2).toNat * 8) 16).set (c.read32 (o &&& 0xFC)) v.toNat) =
      c.write16 o v := by
  funext i
  unfold Space.write32 Space.write16
  have here := toNat_within i
  have there := toNat_halfWithin o
  have low := toNat_half o
  have high := toNat_succ_half o
  by_cases same : i &&& 0xFC = o &&& 0xFC
  · rw [if_pos same, if_pos same]
    have dword := congrArg BitVec.toNat same
    rw [toNat_dword, toNat_dword] at dword
    by_cases lower : i = o &&& 0xFE
    · rw [← lower] at low
      have place : (i &&& 3).toNat = (o &&& 2).toNat := by omega
      rw [if_pos lower, byteOf_set_inside _ v (Nat.le_of_eq place.symm) (by omega) (by omega), place,
        Nat.sub_self]
    · rw [if_neg lower]
      by_cases upper : i = (o &&& 0xFE) + 1
      · rw [← upper] at high
        have place : (i &&& 3).toNat = (o &&& 2).toNat + 1 := by omega
        rw [if_pos upper, byteOf_set_inside _ v (by omega) (by omega) (by omega), place,
          Nat.add_sub_cancel_left]
      · have notLower : i.toNat ≠ (o &&& 0xFE).toNat := fun equal =>
          lower (BitVec.eq_of_toNat_eq equal)
        have notUpper : i.toNat ≠ ((o &&& 0xFE) + 1).toNat := fun equal =>
          upper (BitVec.eq_of_toNat_eq equal)
        rw [if_neg upper, byteOf_set_outside _ v (by omega), byteOf_read32_within c same]
  · -- both bytes of the target are in the double word, and `i` is not
    have notLower : i ≠ o &&& 0xFE := by
      rintro rfl
      exact same (dword_half o)
    have notUpper : i ≠ (o &&& 0xFE) + 1 := by
      rintro rfl
      exact same (dword_succ_half o)
    rw [if_neg same, if_neg notLower, if_neg notUpper, if_neg same]

theorem run_pciWrite8 (dev : PciDevice) (o : Offset) (v : BitVec 8) :
    (pciWrite8 dev o v).run pciHandler s =
      some ((), s.accessed dev o ((s.space dev.number).write8 o v)) := by
  rw [pciWrite8, Program.run_bind, run_pciRead32, Option.bind_some]
  dsimp only
  rw [run_pciWrite32, accessed_space, accessed_accessed, replace_byte, dword_dword,
    write32_replace_byte]
  simp only [PciState.accessed, configAddress_dword]

theorem run_pciWrite16 (dev : PciDevice) (o : Offset) (v : BitVec 16) :
    (pciWrite16 dev o v).run pciHandler s =
      some ((), s.accessed dev o ((s.space dev.number).write16 o v)) := by
  rw [pciWrite16, Program.run_bind, run_pciRead32, Option.bind_some]
  dsimp only
  rw [run_pciWrite32, accessed_space, accessed_accessed, replace_half, dword_dword,
    write32_replace_half]
  simp only [PciState.accessed, configAddress_dword]

end KopalniaOS.Pci
