import KopalniaOS.Idt.Gates

/-!
# The interrupt stubs

The processor saves a few registers and goes through a gate to one of 256 stubs; the stub saves the
others, calls `isr_common` with the address of what was saved, and puts everything back.
-/
namespace KopalniaOS.Idt

open Library

/-! ### Delivery -/

/-- What the processor looks at when an interrupt comes. -/
structure Tables where
  idt : Nat → IDTEntry
  gdt : List (BitVec 64)
  rsp0 : BitVec 64
  ist : Nat → BitVec 64

/-- The ring of the segment that a selector names. -/
def Tables.ring (t : Tables) (selector : BitVec 16) : BitVec 2 :=
  (descriptor t.gdt selector).ring

/-- The interrupted code is outside of the ring that handles the interrupt. -/
def Tables.outer (t : Tables) (e : IDTEntry) (c : Cpu) : Bool :=
  decide ((t.ring e.selector).toNat < c.level.toNat)

def Tables.stack (t : Tables) (e : IDTEntry) (c : Cpu) : BitVec 64 :=
  if e.ist &&& 7 ≠ 0 then t.ist ((e.ist &&& 7).toNat - 1)
  else if t.outer e c = true then t.rsp0 else c.rsp

/-- The interrupt flag is bit 9; an interrupt gate clears it, and every gate clears the flags that
tasks and single steps use. -/
def IDTEntry.clears (e : IDTEntry) : BitVec 64 :=
  if e.typeAttr &&& 0xF = 0xE then 0x34300 else 0x34100

/-- The state with the selectors, the flags and the stack of the handler. -/
def Tables.enter (t : Tables) (e : IDTEntry) (c : Cpu) : Cpu :=
  { c with
    regs := Function.update c.regs .rsp (t.stack e c &&& ~~~15)
    rip := e.offset
    rflags := c.rflags &&& ~~~e.clears
    segments := fun
      | .cs => e.selector
      | .ss => if t.outer e c = true then 0 else c.segments .ss
      | s => c.segments s }

/-- `code` is the error code that comes with some exceptions. -/
def Tables.deliver (t : Tables) (vector : Nat) (code : Option (BitVec 64)) (c : Cpu) : Cpu :=
  (t.enter (t.idt vector) c).pushAll ([(c.segments .ss).setWidth 64, c.rsp, c.rflags,
    (c.segments .cs).setWidth 64, c.rip] ++ code.toList)

/-! ### Stubs -/

def pushedRegs : List Reg :=
  [.rax, .rcx, .rdx, .rbx, .rbp, .rsi, .rdi, .r8, .r9, .r10, .r11, .r12, .r13, .r14, .r15]

def poppedRegs : List Reg :=
  [.r15, .r14, .r13, .r12, .r11, .r10, .r9, .r8, .rdi, .rsi, .rbp, .rbx, .rdx, .rcx, .rax]

def pushall : List Instr := pushedRegs.map .push

def popall : List Instr := poppedRegs.map .pop

/-- `isr_common`, and the address after its call. -/
structure Kernel where
  isrCommon : Cpu → Option Cpu
  next : BitVec 64

def isrCommonStub (k : Kernel) : List Instr :=
  pushall ++
    [.mov .rdi .rsp,
      .mov .rbp .rsp,
      .and .rsp (-16),
      .callFn k.next k.isrCommon,
      .mov .rsp .rbp] ++
    popall ++
    [.add .rsp 16,
      .iretq]

/-- The condition of the `%if`. -/
def hasErrorCode (i : Nat) : Bool := i == 8 || decide (10 ≤ i ∧ i ≤ 14) || i == 17 || i == 21

def isrErr (k : Kernel) (i : Nat) : List Instr := .pushImm (BitVec.ofNat 64 i) :: isrCommonStub k

def isrNoErr (k : Kernel) (i : Nat) : List Instr :=
  .pushImm 0 :: .pushImm (BitVec.ofNat 64 i) :: isrCommonStub k

def isr (k : Kernel) (i : Nat) : List Instr :=
  if i < 32 then if hasErrorCode i = true then isrErr k i else isrNoErr k i else isrNoErr k i

/-- The tables after `IDT_Install`. -/
structure Installed (t : Tables) (isrTable : Nat → BitVec 64) : Prop where
  idt : ∀ i < 256, t.idt i = setIDTEntry (isrTable i)
  gdt : ∃ tss, t.gdt = Idt.gdt tss

/-- The processor goes where the gate says, and runs the code there to its end. -/
def interrupt (t : Tables) (text : BitVec 64 → Option (List Instr)) (vector : Nat)
    (code : Option (BitVec 64)) (c : Cpu) : Option Cpu := do
  let entered := t.deliver vector code c
  let stub ← text entered.rip
  entered.run stub

/-! ### What is on the stack -/

/-- The fields of `ISR_Registers` in their order. -/
structure ISRRegisters where
  r15 : BitVec 64
  r14 : BitVec 64
  r13 : BitVec 64
  r12 : BitVec 64
  r11 : BitVec 64
  r10 : BitVec 64
  r9 : BitVec 64
  r8 : BitVec 64
  rdi : BitVec 64
  rsi : BitVec 64
  rbp : BitVec 64
  rbx : BitVec 64
  rdx : BitVec 64
  rcx : BitVec 64
  rax : BitVec 64
  intNo : BitVec 64
  errorCode : BitVec 64
  rip : BitVec 64
  cs : BitVec 64
  rflags : BitVec 64
  rsp : BitVec 64
  ss : BitVec 64
deriving DecidableEq, Repr

/-- The structure at an address. -/
def ISRRegisters.load (m : Memory) (a : Nat) : ISRRegisters :=
  let field i := m.word (a + 8 * i)
  ⟨field 0, field 1, field 2, field 3, field 4, field 5, field 6, field 7, field 8, field 9, field 10,
    field 11, field 12, field 13, field 14, field 15, field 16, field 17, field 18, field 19, field 20,
    field 21⟩

/-- The state of the interrupted code. -/
def ISRRegisters.of (vector : Nat) (code : Option (BitVec 64)) (c : Cpu) : ISRRegisters where
  r15 := c.regs .r15
  r14 := c.regs .r14
  r13 := c.regs .r13
  r12 := c.regs .r12
  r11 := c.regs .r11
  r10 := c.regs .r10
  r9 := c.regs .r9
  r8 := c.regs .r8
  rdi := c.regs .rdi
  rsi := c.regs .rsi
  rbp := c.regs .rbp
  rbx := c.regs .rbx
  rdx := c.regs .rdx
  rcx := c.regs .rcx
  rax := c.regs .rax
  intNo := BitVec.ofNat 64 vector
  errorCode := code.getD 0
  rip := c.rip
  cs := (c.segments .cs).setWidth 64
  rflags := c.rflags
  rsp := c.rsp
  ss := (c.segments .ss).setWidth 64

end KopalniaOS.Idt
