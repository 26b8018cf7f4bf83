import KopalniaOS.Pci.Enumeration
import KopalniaOS.Pci.Msi

/-!
# Attaching to the disk controller

`ahci::init` looks for its controller, installs its interrupt and takes the address of the registers.
It does not ask whether a controller was found.
-/
namespace KopalniaOS.Ahci

open Library Pci
open Hpet (installHandler)

variable {ι : Type}

/-- The first lines of `ahci::init`; what is returned is the address in `hba`. -/
def attach (handler : ι) : PciProgram ι (BitVec 32) := do
  let device ← findClassWithSub 0x01 0x06
  installInterrupt device.address (some handler) 11
  pure (device.bar.getD 5 0 &&& 0xFFFFFFF0)

/-- A controller: mass storage, with a serial interface. -/
def Controller (c : Spaces) (bus dev fn : Nat) : Prop :=
  c.Wanted (fun c d => decide (c d.number 0x0B = 0x01 ∧ c d.number 0x0A = 0x06)) bus dev fn

/-- Installing an interrupt touches no other function, and the handler is asked for once. -/
theorem run_installInterrupt (dev : PciDevice) (handler : ι) (irq : BitVec 8) (s : PciState ι) :
    ∃ t line, (installInterrupt dev (some handler) irq).run pciHandler s = some ((), t) ∧
      (∀ n ≠ dev.number, t.space n = s.space n) ∧ t.table = installHandler (some handler) line s.table := by
  by_cases nothing : findMsi (s.space dev.number) 32 (s.space dev.number 0x34) = 0
  · refine ⟨_, _, run_installInterrupt_intx dev (some handler) irq nothing, fun n other => ?_, rfl⟩
    exact Function.update_of_ne other ..
  · obtain ⟨n, near, found⟩ := msiCapability_of_findMsi nothing
    obtain ⟨c, ran⟩ := run_installInterrupt_msi (some handler) irq found near
    refine ⟨_, _, ran, fun n other => ?_, rfl⟩
    exact Function.update_of_ne other ..

/-- The function that `init` works on and the address it takes. -/
inductive AttachesTo (c : Spaces) (d : PciDevice) (hba : BitVec 32) : Prop
  | controller (bus dev fn : Nat) (first : First (Controller c) bus dev fn) (is : d = .of bus dev fn)
      (base : hba = (c.bars d).getD 5 0 &&& 0xFFFFFFF0)
  | hostBridge (missing : Nowhere (Controller c)) (is : d = ⟨0, 0, 0⟩) (base : hba = 0)

/-- On every machine `init` gets through these lines. It works on the first controller; without one it
installs the interrupt of function zero of the machine, and takes the registers to be at address
zero. Other functions are not touched. -/
theorem attach_touches (handler : ι) (s : PciState ι) :
    ∃ d hba t line, (attach handler).run pciHandler s = some (hba, t) ∧ AttachesTo s.space d hba ∧
      (∀ n ≠ d.number, t.space n = s.space n) ∧
      t.table = installHandler (some handler) line s.table := by
  obtain ⟨r, a, found, finds⟩ := findClassWithSub_searches 0x01 0x06 s
  obtain ⟨t, line, installed, others, table⟩ :=
    run_installInterrupt r.address handler 11 { s with configAddress := a }
  refine ⟨r.address, r.bar.getD 5 0 &&& 0xFFFFFFF0, t, line, ?_, ?_, others, table⟩
  · rw [attach, Program.run_bind, found, Option.bind_some, Program.run_bind, installed]
    rfl
  · rcases finds.record with ⟨bus, dev, fn, first, rfl⟩ | ⟨missing, rfl⟩
    · exact .controller bus dev fn first rfl rfl
    · exact .hostBridge missing rfl (by decide)

end KopalniaOS.Ahci
