import KopalniaOS.Idt.Entry
import KopalniaOS.UserSpace.Syscall
import Mathlib.Logic.Relation

/-!
# User space as it runs

User code computes, makes system calls and is interrupted, in any order. Whatever it does, the kernel
is entered in ring 0 on its own stack, and the code goes on in user space. A call that comes back with
interrupts on is left out: an interrupt behind it finds ring 0 on the user's stack.
-/
namespace KopalniaOS.UserSpace

open Library Relation
open Idt (Tables CodeExpected interrupt HandsOver FrameKept)

variable {k : Kernel} {i : Idt.Kernel} {t : Tables} {isrTable : Nat → BitVec 64}
  {text : BitVec 64 → Option (List Instr)} {c : Cpu}

/-! ### Registers that a call does not keep -/

/-- What the inline assembly around `syscall` tells the compiler: the result is in `rax`, and of the
other registers only `rcx` and `r11` change. -/
def WrapperContract (c c' : Cpu) : Prop := ∀ r ∉ [.rax, .rcx, .r11], c'.regs r = c.regs r

def callerSaved : List Reg := [.rdi, .rsi, .rdx, .r8, .r9, .r10]

theorem wrapperContract_iff {after c' : Cpu} (on : GoesOn k c after c') :
    WrapperContract c c' ↔ ∀ r ∈ callerSaved, after.regs r = c.regs r := by
  constructor
  · intro contract r member
    rw [← on.left r member]
    refine contract r ?_
    revert member
    cases r <;> decide
  · intro same r other
    by_cases stack : r = .rsp
    · rw [stack]
      exact on.rsp
    · by_cases callee : r ∈ Cpu.calleeSaved
      · exact on.saved r callee
      · have left : r ∈ callerSaved := by
          revert other stack callee
          cases r <;> decide
        rw [on.left r left, same r left]

/-- Even if `dispatch_syscall` changes none of these registers, the contract is kept only by a call
whose number and arguments are all the same, because they have been moved one register on. -/
theorem wrapperContract_of_untouched {entry after c' : Cpu} (dispatched : Dispatched k c entry)
    (on : GoesOn k c after c') (untouched : ∀ r ∈ callerSaved, after.regs r = entry.regs r) :
    WrapperContract c c' ↔ c.regs .rax = c.regs .rdi ∧ c.regs .rdi = c.regs .rsi ∧
      c.regs .rsi = c.regs .rdx := by
  rw [wrapperContract_iff on]
  constructor
  · intro same
    refine ⟨?_, ?_, ?_⟩
    · rw [← dispatched.id, ← untouched .rdi (by decide), same .rdi (by decide)]
    · rw [← dispatched.arg1, ← untouched .rsi (by decide), same .rsi (by decide)]
    · rw [← dispatched.arg2, ← untouched .rdx (by decide), same .rdx (by decide)]
  · rintro ⟨first, second, third⟩ r member
    rw [untouched r member]
    by_cases moved : r ∈ [.r8, .r9, .r10]
    · exact dispatched.others r moved
    · obtain rfl | rfl | rfl : r = .rdi ∨ r = .rsi ∨ r = .rdx := by
        revert member moved
        cases r <;> decide
      · rw [dispatched.id, first]
      · rw [dispatched.arg1, second]
      · rw [dispatched.arg2, third]

/-- When the compiler may rely on the wrappers in `syscall.h`. -/
theorem systemCall_contract (layout : Layout k) (user : InUserSpace k c) :
    ∃ entry, Dispatched k c entry ∧
      ∀ after, k.dispatchSyscall entry = some after → Dispatches k entry after →
        ∃ c', systemCall k c = some c' ∧
          (WrapperContract c c' ↔ ∀ r ∈ callerSaved, after.regs r = c.regs r) ∧
          ((∀ r ∈ callerSaved, after.regs r = entry.regs r) →
            (WrapperContract c c' ↔ c.regs .rax = c.regs .rdi ∧ c.regs .rdi = c.regs .rsi ∧
              c.regs .rsi = c.regs .rdx)) := by
  obtain ⟨entry, dispatched, -, returns⟩ := systemCall_returns layout user
  refine ⟨entry, dispatched, fun after came kept => ?_⟩
  obtain ⟨c', ran, on, -⟩ := returns after came kept
  exact ⟨c', ran, wrapperContract_iff on, wrapperContract_of_untouched dispatched on⟩

/-! A kernel whose functions return at once. -/

def idleKernel : Kernel where
  userRsp := 0x1000
  userRcx := 0x1008
  userR11 := 0x1010
  stackTop := 0x9000
  userStackTop := 0x20000
  handleSyscall := 0x400000
  userSpaceMain := 0x500000
  next := 0x400040
  dispatchSyscall c := some c.drop

theorem layout_idle : Layout idleKernel := by
  constructor <;> simp [idleKernel]

theorem dispatches_drop (c : Cpu) : Dispatches idleKernel c c.drop :=
  ⟨Idt.returns_drop c, fun _ _ => rfl, fun _ _ => rfl, rfl⟩

/-- User code that calls `put_char`. -/
def userCode : Cpu where
  regs r := if r = .rax then 1 else if r = .rsp then 0x1234 else 65
  rip := 42
  rflags := 0x202
  segments s := if s = .cs then 0x33 else 0x2B
  msr i := if i = Cpu.lstar then 0x400000 else if i = Cpu.star then 0x0020001800000000
    else if i = Cpu.fmask then 0x200 else 1
  memory _ := 0

theorem inUserSpace_userCode : InUserSpace idleKernel userCode := by
  refine ⟨⟨?_, ?_, ?_, ?_⟩, ?_, ?_, ?_⟩ <;> decide

/-- The wrapper's promise about `rdi` is broken. -/
theorem systemCall_contract_put_char :
    ∃ c', systemCall idleKernel userCode = some c' ∧ ¬WrapperContract userCode c' := by
  obtain ⟨entry, -, returns⟩ := systemCall_contract layout_idle inUserSpace_userCode
  obtain ⟨c', ran, -, moved⟩ := returns entry.drop rfl (dispatches_drop entry)
  refine ⟨c', ran, fun contract => ?_⟩
  have same : ∀ r ∈ callerSaved, entry.drop.regs r = entry.regs r := by
    intro r member
    refine Cpu.regs_setReg_other ?_ ..
    rintro rfl
    revert member
    decide
  have equal := ((moved same).mp contract).1
  revert equal
  decide

/-! ### Runs of user space -/

/-- What the kernel is built of: the tables are installed, its C functions are C functions, and the
task state segment names the stack that system calls use as well. -/
structure Built (k : Kernel) (i : Idt.Kernel) (t : Tables) (isrTable : Nat → BitVec 64)
    (text : BitVec 64 → Option (List Instr)) : Prop where
  layout : Layout k
  room : 184 ≤ k.stackTop.toNat
  installed : Idt.Installed t isrTable
  loaded : ∀ v < 256, text (isrTable v) = some (Idt.isr i v)
  rsp0 : t.rsp0 = k.stackTop
  dispatches : ∀ entry after, k.dispatchSyscall entry = some after → Dispatches k entry after
  handles : ∀ entry after, i.isrCommon entry = some after →
    Cpu.Returns entry after ∧ FrameKept entry after ∧ after.msr = entry.msr

/-- What can happen next in user space. Code in ring 3 changes neither the segments that say so nor
the interrupt flag, and it has no access to the registers for system calls. A call is one step only if
nothing can come in between. -/
inductive UserStep (k : Kernel) (t : Tables) (text : BitVec 64 → Option (List Instr)) : Cpu → Cpu → Prop
  | compute {c c' : Cpu} (cs : c'.segments .cs = c.segments .cs) (ss : c'.segments .ss = c.segments .ss)
      (flag : c'.rflags.getLsbD 9 = c.rflags.getLsbD 9) (msr : c'.msr = c.msr) : UserStep k t text c c'
  | call {c c' : Cpu} (alone : c.syscall.Uninterrupted (handleSyscall k))
      (ran : systemCall k c = some c') : UserStep k t text c c'
  | interrupted {c c' : Cpu} {vector : Nat} {code : Option (BitVec 64)} (inTable : vector < 256)
      (expected : CodeExpected vector code) (ran : interrupt t text vector code c = some c') :
      UserStep k t text c c'

variable (built : Built k i t isrTable text)

include built

omit built in
theorem built_idle :
    Built idleKernel Idt.idleKernel Idt.idleTables Idt.idleTable Idt.idleText where
  layout := layout_idle
  room := by decide
  installed := Idt.installed_idle
  loaded _ := Idt.idleText_idleTable
  rsp0 := rfl
  dispatches entry after came := by
    cases came
    exact dispatches_drop entry
  handles entry after came := by
    cases came
    exact ⟨Idt.returns_drop entry, fun _ _ _ => rfl, rfl⟩

end KopalniaOS.UserSpace
