import KopalniaOS.Pci.SubWord
import KopalniaOS.Hpet.Timers

/-!
# Message signalled interrupts

`install_interrupt` enables the messages of a device whether or not its handler was installed. What
the device sends then depends on the row of the line, and on where the capability lies.
-/
namespace KopalniaOS.Pci

open Library
open Hpet (HandlerTable installHandler Registered)

variable {ι : Type} {dev : PciDevice} {s t : PciState ι} {c : Space} {o i m p : Offset} {n : Nat}
  {handler : Option ι} {irq : BitVec 8}

/-! ### The capability -/

/-- The list that starts at `p` reaches its first MSI capability after `n` others, at `m`. -/
inductive MsiCapability (c : Space) : Nat → Offset → Offset → Prop where
  | here {p : Offset} : p ≠ 0 → c p = 0x05 → MsiCapability c 0 p p
  | next {p m : Offset} {n : Nat} : p ≠ 0 → c p ≠ 0x05 → MsiCapability c n (c (p + 1)) m →
      MsiCapability c (n + 1) p m

theorem MsiCapability.ne_zero (found : MsiCapability c n p m) : m ≠ 0 := by
  induction found with
  | here there _ => exact there
  | next _ _ _ ih => exact ih

/-- What `get_msi_offset` follows, on the content. -/
def findMsi (c : Space) : (safety : Nat) → Offset → Offset
  | 0, _ => 0
  | safety + 1, p =>
    if p = 0 then 0
    else if c p = 0x05 then p
    else findMsi c safety (c (p + 1))

theorem MsiCapability.findMsi (found : MsiCapability c n p m) (safety : Nat) :
    findMsi c safety p = if n < safety then m else 0 := by
  induction found generalizing safety with
  | @here p there id =>
    cases safety with
    | zero => rfl
    | succ safety => rw [Pci.findMsi, if_neg there, if_pos id, if_pos (Nat.succ_pos _)]
  | @next p n m there id _ ih =>
    cases safety with
    | zero => rfl
    | succ safety =>
      rw [Pci.findMsi, if_neg there, if_neg id, ih]
      simp only [Nat.add_lt_add_iff_right]

theorem msiCapability_of_findMsi {safety : Nat} (found : findMsi c safety p ≠ 0) :
    ∃ n < safety, MsiCapability c n p (findMsi c safety p) := by
  induction safety generalizing p with
  | zero => exact absurd rfl found
  | succ safety ih =>
    rw [findMsi] at found ⊢
    -- the list ends here, or this entry is the capability, or the loop goes on behind it
    by_cases stop : p = 0
    · rw [if_pos stop] at found
      exact absurd rfl found
    · rw [if_neg stop] at found ⊢
      by_cases id : c p = 0x05
      · rw [if_pos id]
        exact ⟨0, Nat.succ_pos _, .here stop id⟩
      · rw [if_neg id] at found ⊢
        obtain ⟨n, below, rest⟩ := ih found
        exact ⟨n + 1, Nat.succ_lt_succ below, .next stop id rest⟩

theorem run_followCapabilities (dev : PciDevice) (safety : Nat) (p o : Offset) :
    ∃ o', (followCapabilities dev safety p).run pciHandler (s.accessed dev o c) =
      some (findMsi c safety p, s.accessed dev o' c) := by
  induction safety generalizing p o with
  | zero => exact ⟨o, rfl⟩
  | succ safety ih =>
    rw [followCapabilities, findMsi]
    by_cases stop : p = 0
    · rw [if_pos stop, if_pos stop]
      exact ⟨o, rfl⟩
    · rw [if_neg stop, if_neg stop, Program.run_bind, run_pciRead8, Option.bind_some,
        Program.run_bind, run_pciRead8, Option.bind_some]
      -- reading leaves the content and moves only what the address port holds
      simp only [accessed_space, accessed_accessed]
      by_cases id : c p = 0x05
      · rw [if_pos id, if_pos id]
        exact ⟨_, rfl⟩
      · rw [if_neg id, if_neg id]
        exact ih _ _

theorem run_getMsiOffset (dev : PciDevice) (s : PciState ι) :
    ∃ o, (getMsiOffset dev).run pciHandler s =
      some (findMsi (s.space dev.number) 32 (s.space dev.number 0x34),
        s.accessed dev o (s.space dev.number)) := by
  rw [getMsiOffset, Program.run_bind, run_pciRead8, Option.bind_some]
  exact run_followCapabilities dev 32 _ _

/-! ### The fields of the capability -/

/-- The MSI enable bit of the Message Control. -/
def Enabled (c : Space) (m : Offset) : Prop := (c.half (m + 2)).getLsbD 0 = true

/-- The bit of the Message Control that tells that addresses have 64 bits. -/
def wide (c : Space) (m : Offset) : Bool := (c.half (m + 2)).getLsbD 7

/-- Where the Message Data is. -/
def dataOffset (m : Offset) (wide : Bool) : Offset := if wide = true then m + 0x0C else m + 0x08

/-- The low eight bits of the Message Data. -/
def messageVector (c : Space) (m : Offset) : BitVec 8 := (c.half (dataOffset m (wide c m))).setWidth 8

theorem messageVector_eq (c : Space) (m : Offset) :
    messageVector c m = c (dataOffset m (wide c m) &&& 0xFE) := by
  unfold messageVector Space.half
  rw [BitVec.setWidth_append, dif_pos (Nat.le_refl 8), BitVec.setWidth_eq]

/-- The data is not in the double word of the control. -/
theorem dataOffset_apart (m : Offset) (wide : Bool) :
    dataOffset m wide &&& 0xFE &&& 0xFC ≠ m + 2 &&& 0xFC := by
  cases wide with
  | false =>
    unfold dataOffset
    rw [if_neg (by decide)]
    revert m
    decide +kernel
  | true =>
    unfold dataOffset
    rw [if_pos rfl]
    revert m
    decide +kernel

/-! ### What `install_interrupt` writes -/

/-- The Message Control while it is off, for one vector. -/
def singleVector (control : BitVec 16) : BitVec 16 := control &&& ~~~1#16 &&& ~~~(0b111#16 <<< 4)

theorem singleVector_wide (control : BitVec 16) :
    (singleVector control).getLsbD 7 = control.getLsbD 7 := by
  have first : (~~~1#16).getLsbD 7 = true := by decide
  have second : (~~~(0b111#16 <<< 4)).getLsbD 7 = true := by decide
  rw [singleVector, BitVec.getLsbD_and, BitVec.getLsbD_and, first, second, Bool.and_true,
    Bool.and_true]

/-- The last three writes to configuration space. -/
def Space.enable (c : Space) (m : Offset) (control : BitVec 16) (vector : BitVec 8) : Space :=
  let c := c.write16 (dataOffset m (control.getLsbD 7)) (vector.setWidth 16)
  let c := c.write16 0x04 (c.half 0x04 ||| 1#16 <<< 10)
  c.write16 (m + 2) (control ||| 1#16)

theorem run_writeMessage (dev : PciDevice) (m : Offset) (control data : BitVec 16) :
    ∃ c : Space, (writeMessage dev m control data).run pciHandler s =
      some ((), s.accessed dev (dataOffset m (control.getLsbD 7))
        (c.write16 (dataOffset m (control.getLsbD 7)) data)) := by
  have msr : (perform (.rdmsr 0x1B)).run pciHandler s = some (s.msr 0x1B, s) := rfl
  have bit : control &&& 1#16 <<< 7 ≠ 0 ↔ control.getLsbD 7 = true := and_bit_ne_zero (by decide)
  rw [writeMessage, Program.run_bind, msr, Option.bind_some, Program.run_bind, run_pciWrite32,
    Option.bind_some]
  unfold dataOffset
  -- bit 7 says whether the address has 64 bits, and so where the data is
  by_cases addresses : control.getLsbD 7 = true
  · rw [if_pos (bit.mpr addresses), if_pos addresses, Program.run_bind, run_pciWrite32,
      Option.bind_some, run_pciWrite16, accessed_accessed, accessed_accessed]
    exact ⟨_, rfl⟩
  · rw [if_neg (fun set => addresses (bit.mp set)), if_neg addresses, run_pciWrite16,
      accessed_accessed]
    exact ⟨_, rfl⟩

/-- The state with another table. -/
def PciState.withTable (s : PciState ι) (table : HandlerTable ι) : PciState ι := { s with table }

/-- What follows the message: the handler is installed, and the messages are enabled all the same. -/
theorem run_enable (dev : PciDevice) (handler : Option ι) (irq : BitVec 8) (m : Offset)
    (control : BitVec 16) :
    (do
      disableIntx dev
      perform (.installHandler handler irq.toNat)
      pciWrite16 dev (m + 0x02) (control ||| 1#16)
      perform (.info "[ PCI ] Installed MSI interrupt") : PciProgram ι Unit).run pciHandler s =
      some ((), (s.withTable (installHandler handler irq.toNat s.table)).accessed dev (m + 2)
        (((s.space dev.number).write16 0x04 ((s.space dev.number).half 0x04 ||| 1#16 <<< 10)).write16
          (m + 2) (control ||| 1#16))) := by
  have install (s : PciState ι) : (perform (.installHandler handler irq.toNat)).run pciHandler s =
      some ((), s.withTable (installHandler handler irq.toNat s.table)) := rfl
  have info (s : PciState ι) (text : String) : (perform (.info text)).run pciHandler s =
      some ((), s) := rfl
  rw [Program.run_bind, disableIntx, run_updateCommand, Option.bind_some, Program.run_bind, install,
    Option.bind_some, Program.run_bind, run_pciWrite16, Option.bind_some, info]
  simp only [PciState.withTable, PciState.accessed, Function.update_self, Function.update_idem]

theorem run_installMsi (dev : PciDevice) (handler : Option ι) (irq : BitVec 8) (m : Offset) :
    ∃ c : Space, (installMsi dev handler irq m).run pciHandler s =
      some ((), (s.withTable (installHandler handler irq.toNat s.table)).accessed dev (m + 2)
        (Space.enable c m (singleVector ((s.space dev.number).half (m + 2))) (irq + 32))) := by
  rw [installMsi, Program.run_bind, run_pciRead16, Option.bind_some, Program.run_bind,
    run_pciWrite16, Option.bind_some, Program.run_bind]
  simp only [accessed_accessed]
  obtain ⟨c, wrote⟩ := run_writeMessage (s := s.accessed dev (m + 2)
    (((s.accessed dev (m + 2) (s.space dev.number)).space dev.number).write16 (m + 2)
      ((s.space dev.number).half (m + 2) &&& ~~~1#16))) dev m
    (singleVector ((s.space dev.number).half (m + 2))) ((irq + 32).setWidth 16)
  refine ⟨c, ?_⟩
  -- clearing the enable bit and the number of messages leaves what is written at the end
  have same : (s.space dev.number).half (m + 2) &&& ~~~1#16 &&& ~~~(0b111#16 <<< 4) =
      singleVector ((s.space dev.number).half (m + 2)) := rfl
  rw [same, wrote, Option.bind_some, run_enable]
  simp only [PciState.withTable, PciState.accessed, Function.update_self, Function.update_idem,
    Space.enable]

/-! ### What the device is left with -/

theorem not_status_half (plain : o &&& 0xFE ≠ 6) :
    ¬IsStatus (o &&& 0xFE) ∧ ¬IsStatus ((o &&& 0xFE) + 1) := by
  revert o
  decide +kernel

theorem half_getLsbD_zero (c : Space) (o : Offset) :
    (c.half o).getLsbD 0 = (c (o &&& 0xFE)).getLsbD 0 := by
  unfold Space.half
  rw [BitVec.getLsbD_append, if_pos (by decide)]

/-- In plain storage the control is what was written last. -/
theorem half_enable (c : Space) (control : BitVec 16) (vector : BitVec 8)
    (plain : m + 2 &&& 0xFE ≠ 6) :
    (c.enable m control vector).half (m + 2) = control ||| 1#16 :=
  half_write16 _ _ (not_status_half plain).1 (not_status_half plain).2

/-- In the Status register the bit cannot be set. -/
theorem not_enabled_enable (c : Space) (control : BitVec 16) (vector : BitVec 8)
    (status : m + 2 &&& 0xFE = 6) : ¬Enabled (c.enable m control vector) m := by
  have clear : (c.enable m control vector) (m + 2 &&& 0xFE) = 0 := by
    unfold Space.enable
    rw [Space.write16, if_pos rfl, Space.store, if_pos (.inl status),
      write16_command_status _ _ (.inl status)]
    exact BitVec.zero_and
  rw [Enabled, half_getLsbD_zero, clear]
  decide

/-- The low byte of the Command register survives, and so does what is not near it. -/
theorem write16_command_plain (c : Space) (plain : o &&& 0xFE ≠ 6) :
    c.write16 0x04 (c.half 0x04 ||| 1#16 <<< 10) (o &&& 0xFE) = c (o &&& 0xFE) := by
  by_cases command : o &&& 0xFE = 4
  · have low : (c.half 0x04 ||| 1#16 <<< 10).extractLsb' 0 8 = c 4 := by
      have none : (1#16 <<< 10).extractLsb' 0 8 = 0#8 := by decide
      have half : (c.half 0x04).extractLsb' 0 8 = c 4 := BitVec.extractLsb'_append_eq_right
      rw [BitVec.extractLsb'_or, none, half, BitVec.or_zero]
    rw [command, Space.write16, if_pos (by decide), low, store_plain (by decide)]
  · have apart : o &&& 0xFE &&& 0xFC ≠ 4 &&& 0xFC ∧ o &&& 0xFE ≠ 4 &&& 0xFE ∧
        o &&& 0xFE ≠ (4 &&& 0xFE) + 1 := by
      revert o
      decide +kernel
    rw [write16_of_ne _ _ apart.2.1 apart.2.2, Space.writeBack, if_neg apart.1]

/-- The data is not touched by the last write, which is in another double word. -/
theorem enable_data (c : Space) (m : Offset) (control : BitVec 16) (vector : BitVec 8) :
    (c.enable m control vector) (dataOffset m (control.getLsbD 7) &&& 0xFE) =
      if dataOffset m (control.getLsbD 7) &&& 0xFE = 6 then 0 else vector := by
  have apart := dataOffset_apart m (control.getLsbD 7)
  unfold Space.enable
  generalize dataOffset m (control.getLsbD 7) = d at apart ⊢
  -- the last write is to another double word, so it does not even write the data back
  have lower : d &&& 0xFE ≠ m + 2 &&& 0xFE := by
    intro equal
    apply apart
    rw [equal, dword_half]
  have upper : d &&& 0xFE ≠ (m + 2 &&& 0xFE) + 1 := by
    intro equal
    apply apart
    rw [equal, dword_succ_half]
  rw [write16_of_ne _ _ lower upper, Space.writeBack, if_neg apart]
  by_cases status : d &&& 0xFE = 6
  · rw [if_pos status, write16_command_status _ _ (.inl status)]
  · have byte : ((vector.setWidth 16).extractLsb' 0 8) = vector := by
      rw [BitVec.extractLsb'_setWidth_of_le (by decide), BitVec.extractLsb'_eq_self]
    rw [if_neg status, write16_command_plain _ status, Space.write16, if_pos rfl, byte,
      store_plain (not_status_half status).1]

/-! ### The row of the vector -/

/-- The handler is called for the vector once it has been installed for the line. -/
def Delivered (handler : Option ι) (vector line : Nat) (t : HandlerTable ι) : Prop :=
  ∃ h, handler = some h ∧ 32 ≤ vector ∧
    (Registered h vector t ∨ vector = line + 32 ∧ line < 24 ∧ t.count vector < 4)

/-- The handler is in the row of the vector. -/
def Handled (handler : Option ι) (vector : Nat) (t : HandlerTable ι) : Prop :=
  ∃ h, handler = some h ∧ 32 ≤ vector ∧ Registered h vector t

theorem handled_installHandler (handler : Option ι) (vector line : Nat) (t : HandlerTable ι) :
    Handled handler vector (installHandler handler line t) ↔ Delivered handler vector line t := by
  refine exists_congr fun h => and_congr_right fun present => and_congr_right fun _ => ?_
  subst present
  by_cases row : vector = line + 32
  · subst row
    rw [Hpet.registered_installHandler]
    exact or_congr_right ⟨fun room => ⟨rfl, room⟩, fun room => room.2⟩
  · obtain ⟨handlers, count⟩ := Hpet.installHandler_other (some h) t row
    rw [Hpet.registered_congr handlers count]
    exact ⟨.inl, fun either => either.resolve_right fun here => row here.1⟩

/-- If the messages of the device are enabled, its handler is in the row of the vector that they
carry. The capability is where it was before the call. -/
def MsiHandled (dev : PciDevice) (handler : Option ι) (s t : PciState ι) : Prop :=
  ∀ n m, MsiCapability (s.space dev.number) n (s.space dev.number 0x34) m →
    Enabled (t.space dev.number) m →
      Handled handler (messageVector (t.space dev.number) m).toNat t.table

/-- What makes the handler be there, by the content of the space and the table before: the loop gives
up after 32 capabilities, and leaves the device as it is. -/
def MsiSafe (dev : PciDevice) (handler : Option ι) (irq : BitVec 8) (s : PciState ι) : Prop :=
  let c := s.space dev.number
  ∀ n m, MsiCapability c n (c 0x34) m →
    if n < 32 then
      m + 2 &&& 0xFE = 6 ∨
        dataOffset m (wide c m) &&& 0xFE ≠ 6 ∧ Delivered handler (irq + 32).toNat irq.toNat s.table
    else Enabled c m → Delivered handler (messageVector c m).toNat (c 0x3C).toNat s.table

/-- The content that `install_interrupt` leaves when it has found the capability. -/
theorem handled_enable_iff (handler : Option ι) (m : Offset) (c : Space) (control : BitVec 16)
    (vector : BitVec 8) (t : HandlerTable ι) :
    (Enabled (c.enable m control vector) m →
        Handled handler (messageVector (c.enable m control vector) m).toNat t) ↔
      m + 2 &&& 0xFE = 6 ∨
        dataOffset m (control.getLsbD 7) &&& 0xFE ≠ 6 ∧ Handled handler vector.toNat t := by
  by_cases status : m + 2 &&& 0xFE = 6
  · refine iff_of_true (fun enabled => ?_) (.inl status)
    exact absurd enabled (not_enabled_enable c control vector status)
  · have half := half_enable c control vector status
    have enabled : Enabled (c.enable m control vector) m := by
      rw [Enabled, half, BitVec.getLsbD_or]
      exact Bool.or_true _
    have same : wide (c.enable m control vector) m = control.getLsbD 7 := by
      rw [wide, half, BitVec.getLsbD_or]
      exact Bool.or_false _
    rw [messageVector_eq, same, enable_data]
    by_cases data : dataOffset m (control.getLsbD 7) &&& 0xFE = 6
    · -- the data is cleared with the Status register, and no line has vector 0
      rw [if_pos data]
      refine iff_of_false (fun handled => ?_) ?_
      · obtain ⟨h, -, device, -⟩ := handled enabled
        exact absurd device (by decide)
      · rintro (control | ⟨other, -⟩)
        · exact status control
        · exact other data
    · rw [if_neg data]
      constructor
      · intro handled
        exact .inr ⟨data, handled enabled⟩
      · rintro (control | ⟨-, handled⟩)
        · exact absurd control status
        · exact fun _ => handled

/-! ### The whole call -/

/-- A capability that the loop finds. -/
theorem run_installInterrupt_msi (handler : Option ι) (irq : BitVec 8)
    (found : MsiCapability (s.space dev.number) n (s.space dev.number 0x34) m) (near : n < 32) :
    ∃ c : Space, (installInterrupt dev handler irq).run pciHandler s =
      some ((), (s.withTable (installHandler handler irq.toNat s.table)).accessed dev (m + 2)
        (c.enable m (singleVector ((s.space dev.number).half (m + 2))) (irq + 32))) := by
  obtain ⟨o, located⟩ := run_getMsiOffset dev s
  rw [found.findMsi 32, if_pos near] at located
  obtain ⟨c, installed⟩ :=
    run_installMsi (s := s.accessed dev o (s.space dev.number)) dev handler irq m
  refine ⟨c, ?_⟩
  rw [installInterrupt, Program.run_bind, located, Option.bind_some]
  dsimp only
  rw [if_pos found.ne_zero, installed, accessed_space]
  simp only [PciState.withTable, PciState.accessed, Function.update_idem]

/-- Without one the line is that of the Interrupt Line register. -/
theorem run_installInterrupt_intx (dev : PciDevice) (handler : Option ι) (irq : BitVec 8)
    (nothing : findMsi (s.space dev.number) 32 (s.space dev.number 0x34) = 0) :
    (installInterrupt dev handler irq).run pciHandler s = some ((),
      (s.withTable (installHandler handler (s.space dev.number 0x3C).toNat s.table)).accessed dev 0x3C
        (s.space dev.number)) := by
  obtain ⟨o, located⟩ := run_getMsiOffset dev s
  have install (s : PciState ι) (irq : Nat) :
      (do
        perform (.installHandler handler irq)
        perform (.info "[ PCI ] Installed INTX interrupt") : PciProgram ι Unit).run pciHandler s =
      some ((), s.withTable (installHandler handler irq s.table)) := rfl
  rw [nothing] at located
  rw [installInterrupt, Program.run_bind, located, Option.bind_some]
  dsimp only
  rw [if_neg (by decide), Program.run_bind, run_pciRead8, Option.bind_some, install]
  simp only [PciState.withTable, PciState.accessed, Function.update_self, Function.update_idem]

/-- A list has no other first capability. -/
theorem MsiCapability.unique {n' : Nat} {m' : Offset} (found : MsiCapability c n p m)
    (other : MsiCapability c n' p m') : n' = n ∧ m' = m := by
  induction found generalizing n' m' with
  | here _ id =>
    cases other with
    | here => exact ⟨rfl, rfl⟩
    | next _ differs _ => exact absurd id differs
  | next _ differs _ ih =>
    cases other with
    | here _ id => exact absurd id differs
    | next _ _ rest =>
      obtain ⟨rfl, rfl⟩ := ih rest
      exact ⟨rfl, rfl⟩

theorem install_msi_iff (dev : PciDevice) (handler : Option ι) (irq : BitVec 8)
    (found : MsiCapability (s.space dev.number) n (s.space dev.number 0x34) m)
    (near : n < 32) :
    (∀ t, (installInterrupt dev handler irq).run pciHandler s = some ((), t) →
        MsiHandled dev handler s t) ↔ MsiSafe dev handler irq s := by
  obtain ⟨c, ran⟩ := run_installInterrupt_msi handler irq found near
  -- the row after the call by the row before, and the vector that the device is left with
  have delivered := handled_installHandler handler (irq + 32).toNat irq.toNat s.table
  have after := handled_enable_iff handler m c
    (singleVector ((s.space dev.number).half (m + 2))) (irq + 32)
    (installHandler handler irq.toNat s.table)
  rw [singleVector_wide, delivered] at after
  constructor
  · intro safe n' m' other
    obtain ⟨rfl, rfl⟩ := found.unique other
    have handled := safe _ ran n' m' other
    rw [accessed_space] at handled
    rw [if_pos near]
    exact after.mp handled
  · intro safe t ran' n' m' other
    rw [ran] at ran'
    cases ran'
    -- there is one first capability, the one that was found
    obtain ⟨rfl, rfl⟩ := found.unique other
    have condition := safe n' m' other
    rw [if_pos near] at condition
    rw [accessed_space]
    exact after.mpr condition

/-- When the loop finds nothing, nothing is written to the device. -/
theorem install_intx_iff (dev : PciDevice) (handler : Option ι) (irq : BitVec 8)
    (nothing : findMsi (s.space dev.number) 32 (s.space dev.number 0x34) = 0) :
    (∀ t, (installInterrupt dev handler irq).run pciHandler s = some ((), t) →
        MsiHandled dev handler s t) ↔ MsiSafe dev handler irq s := by
  have ran := run_installInterrupt_intx dev handler irq nothing
  -- the loop gives up after 32 entries, so a capability that it has missed is further away
  have far : ∀ n m, MsiCapability (s.space dev.number) n (s.space dev.number 0x34) m → ¬n < 32 := by
    intro n m capability near
    rw [capability.findMsi, if_pos near] at nothing
    exact capability.ne_zero nothing
  constructor
  · intro safe n m capability
    rw [if_neg (far n m capability)]
    intro enabled
    have handled := safe _ ran n m capability
    rw [accessed_space] at handled
    exact (handled_installHandler ..).mp (handled enabled)
  · intro safe t ran' n m capability enabled
    rw [ran] at ran'
    cases ran'
    rw [accessed_space] at enabled ⊢
    have delivered := safe n m capability
    rw [if_neg (far n m capability)] at delivered
    exact (handled_installHandler ..).mpr (delivered enabled)

/-- For every device, content, table, handler and line: the messages that the device sends after
`install_interrupt` reach its handler exactly if the condition on the content and the table holds. -/
theorem install_interrupt_iff (dev : PciDevice) (s : PciState ι) (handler : Option ι)
    (irq : BitVec 8) :
    (∀ t, (installInterrupt dev handler irq).run pciHandler s = some ((), t) →
        MsiHandled dev handler s t) ↔ MsiSafe dev handler irq s := by
  by_cases nothing : findMsi (s.space dev.number) 32 (s.space dev.number 0x34) = 0
  · exact install_intx_iff dev handler irq nothing
  · obtain ⟨n, near, found⟩ := msiCapability_of_findMsi nothing
    exact install_msi_iff dev handler irq found near

/-- A device whose only capability, at `0x50`, is MSI. -/
def msiDevice : PciState Unit where
  configAddress := 0
  space _ i := if i = 0x34 then 0x50 else if i = 0x50 then 0x05 else 0
  msr _ := 0xFEE00000
  table := ⟨fun _ _ => none, fun _ => 0, []⟩

/-- Line 255, which the caller gets by default, has vector 31 and is refused. -/
theorem default_line_not_handled :
    ¬∀ (dev : PciDevice) (s t : PciState Unit) (irq : BitVec 8),
      (installInterrupt dev (some ()) irq).run pciHandler s = some ((), t) →
        MsiHandled dev (some ()) s t := by
  intro all
  have found : MsiCapability (msiDevice.space 0) 0 0x50 0x50 := .here (by decide) (by decide)
  have safe := (install_msi_iff ⟨0, 0, 0⟩ (some ()) 255 found (by decide)).mp
    fun t => all ⟨0, 0, 0⟩ msiDevice t 255
  have condition := safe 0 0x50 found
  rw [if_pos (by decide)] at condition
  rcases condition with status | ⟨-, h, -, device, -⟩
  · exact absurd status (by decide)
  · exact absurd device (by decide)

end KopalniaOS.Pci
