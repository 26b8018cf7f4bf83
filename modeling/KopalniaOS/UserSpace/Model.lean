import KopalniaOS.Library.Cpu
import KopalniaOS.Idt.Gates

/-!
# The way to user space and back

`enter_user_space` programs the registers that the instruction `syscall` looks at and leaves the
kernel; `handle_syscall` is where user code comes back in.
-/
namespace KopalniaOS.UserSpace

open Library

/-- The addresses that the linker assigns, and `dispatch_syscall`; `next` is the address after its
call. -/
structure Kernel where
  userRsp : BitVec 64
  userRcx : BitVec 64
  userR11 : BitVec 64
  stackTop : BitVec 64
  userStackTop : BitVec 64
  handleSyscall : BitVec 64
  userSpaceMain : BitVec 64
  next : BitVec 64
  dispatchSyscall : Cpu → Option Cpu

def loadUserSegments : List Instr :=
  [.mov16 .rax 0x2B,
    .movSegment .ds .rax,
    .movSegment .es .rax,
    .movSegment .fs .rax,
    .movSegment .gs .rax]

def setHandler (k : Kernel) : List Instr :=
  [.mov32 .rcx 0xC0000082,
    .movImm .rax k.handleSyscall,
    .mov .rdx .rax,
    .shr .rdx 32,
    .wrmsr]

def enableSyscall : List Instr :=
  [.mov32 .rcx 0xC0000080,
    .rdmsr,
    .or32 .rax 1,
    .wrmsr]

def setFmask : List Instr :=
  [.mov32 .rcx 0xC0000084,
    .xor32 .rdx .rdx,
    .mov32 .rax 0x200,
    .wrmsr]

def setStar : List Instr :=
  [.mov32 .rcx 0xC0000081,
    .xor32 .rax .rax,
    .mov32 .rdx 0x00200018,
    .wrmsr]

def prepareUserSpace (k : Kernel) : List Instr :=
  [.movImm .rcx k.userSpaceMain,
    .movImm .r11 0x202,
    .movImm .rax k.userStackTop,
    .mov .rsp .rax,
    .and .rsp (~~~0xF),
    .sub .rsp 8] ++
    loadUserSegments ++
    [.sysretq]

def enterUserSpace (k : Kernel) : List Instr :=
  setHandler k ++ (enableSyscall ++ (setFmask ++ (setStar ++ prepareUserSpace k)))

/-- The registers that `handle_syscall` pushes. -/
def savedRegs : List Reg := [.rbp, .rbx, .r12, .r13, .r14, .r15]

def restoredRegs : List Reg := [.r15, .r14, .r13, .r12, .rbx, .rbp]

/-- The parts of `handle_syscall` before and behind the call. -/
def saveUserState (k : Kernel) : List Instr :=
  [.store k.userRsp .rsp,
    .movImm .rsp k.stackTop,
    .store k.userRcx .rcx,
    .store k.userR11 .r11] ++
    savedRegs.map .push

def passArguments : List Instr :=
  [.mov .rcx .rdx,
    .mov .rdx .rsi,
    .mov .rsi .rdi,
    .mov .rdi .rax]

def restoreUserState (k : Kernel) : List Instr :=
  restoredRegs.map .pop ++
    ([.load .rcx k.userRcx,
      .load .r11 k.userR11,
      .push .rax] ++
    (loadUserSegments ++
    [.pop .rax,
      .load .rsp k.userRsp,
      .sysretq]))

def handleSyscall (k : Kernel) : List Instr :=
  saveUserState k ++ (passArguments ++ (.callFn k.next k.dispatchSyscall :: restoreUserState k))

/-- The instruction `syscall`, which has to be enabled, with the code at the address it goes to. -/
def systemCall (k : Kernel) (c : Cpu) : Option Cpu :=
  if (c.msr Cpu.efer).getLsbD 0 = true ∧ c.syscall.rip = k.handleSyscall then
    c.syscall.run (handleSyscall k)
  else none

/-- What `enter_user_space` has written into the registers for system calls. -/
structure Programmed (k : Kernel) (c : Cpu) : Prop where
  lstar : c.msr Cpu.lstar = k.handleSyscall
  star : (c.msr Cpu.star).extractLsb' 32 32 = 0x00200018
  fmask : c.msr Cpu.fmask = 0x200
  efer : (c.msr Cpu.efer).getLsbD 0 = true

/-- The state of a processor in user space. -/
structure InUserSpace (k : Kernel) (c : Cpu) : Prop where
  programmed : Programmed k c
  cs : c.segments .cs = 0x33
  ss : c.segments .ss = 0x2B
  interruptible : c.rflags.getLsbD 9 = true

end KopalniaOS.UserSpace
