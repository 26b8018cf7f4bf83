import KopalniaOS.UserSpace.Model

/-!
# Leaving the kernel

Four blocks of `enter_user_space` program one register each, and the last one makes up a return from a
system call that has never been made.
-/
namespace KopalniaOS.UserSpace

open Library

variable {k : Kernel} {c : Cpu}

/-! ### Programming -/

/-- A state that differs in the registers for system calls and in the general ones. -/
structure Writes (c c' : Cpu) (i : BitVec 32) (v : BitVec 64) : Prop where
  msr : c'.msr = Function.update c.msr i v
  memory : c'.memory = c.memory

/-- The general registers and the selectors that user code starts with. -/
structure Starts (k : Kernel) (c c' : Cpu) : Prop where
  rip : c'.rip = k.userSpaceMain
  rsp : c'.rsp = (k.userStackTop &&& ~~~0xF) - 8
  rflags : c'.rflags = 0x202
  data : ∀ s, s ≠ .cs → s ≠ .ss → c'.segments s = 0x2B
  memory : c'.memory = c.memory

theorem selector_mov16 (v : BitVec 64) : ((v &&& ~~~0xFFFF) ||| 0x2B).setWidth 16 = (0x2B : BitVec 16) := by
  have cleared : (v &&& ~~~0xFFFF).setWidth 16 = 0 := by
    refine BitVec.eq_of_getLsbD_eq fun i inside => ?_
    have mask : ∀ i < 16, (0xFFFF : BitVec 64).getLsbD i = true := by decide
    have long : i < 64 := by omega
    simp only [BitVec.getLsbD_setWidth, BitVec.getLsbD_and, BitVec.getLsbD_not, mask i inside, long,
      decide_true, Bool.not_true, Bool.and_false]
    simp
  rw [BitVec.setWidth_or, cleared]
  decide

/-- The four data segments are loaded with one value. -/
theorem run_loadUserSegments (rest : List Instr) (c : Cpu) :
    ∃ c' v, c.run (loadUserSegments ++ rest) = c'.run rest ∧
      c' = { c with
        regs := Function.update c.regs .rax v
        segments := fun
          | .cs => c.segments .cs
          | .ss => c.segments .ss
          | _ => 0x2B } := by
  rw [loadUserSegments, List.cons_append, Cpu.run_mov16, List.cons_append, Cpu.run_movSegment,
    List.cons_append, Cpu.run_movSegment, List.cons_append, Cpu.run_movSegment, List.cons_append,
    Cpu.run_movSegment, List.nil_append]
  refine ⟨_, c.regs .rax &&& ~~~0xFFFF ||| 0x2B, rfl, ?_⟩
  have constant : (0x2B : BitVec 16).setWidth 64 = 0x2B := by decide
  simp only [Cpu.regs_setSegment, Cpu.regs_setReg_self, constant, selector_mov16]
  unfold Cpu.setSegment Cpu.setReg
  congr 1
  funext s
  cases s <;> simp

end KopalniaOS.UserSpace
