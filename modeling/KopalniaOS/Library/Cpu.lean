import KopalniaOS.Library.ByteMemory
import KopalniaOS.Library.Word
import Mathlib.Data.BitVec

/-!
# A part of the x86-64 instruction set

Straight-line code that saves registers on the stack, calls a function and puts the registers back.
The words on the stack are one list, the last one pushed first, so a push puts a word in front and
code that pops the registers it has pushed reads its own list.
-/
namespace KopalniaOS.Library

inductive Reg where
  | rax | rcx | rdx | rbx | rsp | rbp | rsi | rdi
  | r8 | r9 | r10 | r11 | r12 | r13 | r14 | r15
deriving DecidableEq, Repr

inductive Segment where
  | cs | ss | ds | es | fs | gs
deriving DecidableEq, Repr

/-- The state of a processor. The arithmetic flags that an instruction computes are left out. -/
structure Cpu where
  regs : Reg → BitVec 64
  rip : BitVec 64
  rflags : BitVec 64
  segments : Segment → BitVec 16
  msr : BitVec 32 → BitVec 64
  memory : Memory

/-- The double word at an address, and the row of double words from it on. -/
def Memory.word (m : Memory) (a : Nat) : BitVec 64 := BitVec.ofNat 64 (m.load 8 a)

def Memory.words (m : Memory) : (a n : Nat) → List (BitVec 64)
  | _, 0 => []
  | a, n + 1 => m.word a :: m.words (a + 8) n

namespace Cpu

def rsp (c : Cpu) : BitVec 64 := c.regs .rsp

def setReg (c : Cpu) (r : Reg) (v : BitVec 64) : Cpu := { c with regs := Function.update c.regs r v }

def setSegment (c : Cpu) (s : Segment) (v : BitVec 16) : Cpu :=
  { c with segments := Function.update c.segments s v }

/-- A double word written to memory. -/
def put (c : Cpu) (a v : BitVec 64) : Cpu := { c with memory := c.memory.store 8 a.toNat v.toNat }

@[simp] theorem regs_setReg_self (c : Cpu) (r : Reg) (v : BitVec 64) : (c.setReg r v).regs r = v := by
  simp [setReg]

@[simp] theorem regs_setReg_other {r s : Reg} (other : s ≠ r) (c : Cpu) (v : BitVec 64) :
    (c.setReg r v).regs s = c.regs s :=
  Function.update_of_ne other ..

theorem regs_rsp (c : Cpu) : c.regs .rsp = c.rsp := rfl

section

variable (c : Cpu) (r : Reg) (v : BitVec 64)

@[simp] theorem msr_setReg : (c.setReg r v).msr = c.msr := rfl
@[simp] theorem memory_setReg : (c.setReg r v).memory = c.memory := rfl
@[simp] theorem segments_setReg : (c.setReg r v).segments = c.segments := rfl

@[simp] theorem regs_setSegment (s : Segment) (w : BitVec 16) : (c.setSegment s w).regs = c.regs := rfl
@[simp] theorem msr_setSegment (s : Segment) (w : BitVec 16) : (c.setSegment s w).msr = c.msr := rfl
@[simp] theorem memory_setSegment (s : Segment) (w : BitVec 16) :
    (c.setSegment s w).memory = c.memory := rfl

@[simp] theorem regs_put (a : BitVec 64) : (c.put a v).regs = c.regs := rfl

end

def push (c : Cpu) (v : BitVec 64) : Cpu :=
  { c with
    regs := Function.update c.regs .rsp (c.rsp - 8)
    memory := c.memory.store 8 (c.rsp - 8).toNat v.toNat }

/-- The word on top of the stack, and the stack without it. -/
def top (c : Cpu) : BitVec 64 := c.memory.word c.rsp.toNat

def drop (c : Cpu) : Cpu := c.setReg .rsp (c.rsp + 8)

def pop (c : Cpu) (r : Reg) : Cpu := c.drop.setReg r c.top

/-- The privilege level that the code runs at. -/
def level (c : Cpu) : BitVec 16 := c.segments .cs &&& 3

end Cpu

/-! ### Instructions -/

/-- `callFn` is a call of a function that is not given by its instructions: it is entered with the
address after the call on the stack, and where it returns its state is that after its `ret`. -/
inductive Instr where
  | push (r : Reg)
  | pushImm (v : BitVec 64)
  | pop (r : Reg)
  | mov (d s : Reg)
  | movImm (r : Reg) (v : BitVec 64)
  | mov32 (r : Reg) (v : BitVec 32)
  | mov16 (r : Reg) (v : BitVec 16)
  | movSegment (d : Segment) (s : Reg)
  | load (r : Reg) (a : BitVec 64)
  | store (a : BitVec 64) (r : Reg)
  | and (r : Reg) (v : BitVec 64)
  | add (r : Reg) (v : BitVec 64)
  | sub (r : Reg) (v : BitVec 64)
  | or32 (r : Reg) (v : BitVec 32)
  | xor32 (d s : Reg)
  | shr (r : Reg) (n : Nat)
  | rdmsr
  | wrmsr
  | callFn (next : BitVec 64) (f : Cpu → Option Cpu)
  | iretq
  | sysretq

/-- The low half of a register; an instruction that writes it clears the other half. -/
def low32 (v : BitVec 64) : BitVec 32 := v.setWidth 32

namespace Cpu

/-- The selectors that `syscall` and `sysretq` load are in the upper half of `STAR`. -/
def star : BitVec 32 := 0xC0000081
def lstar : BitVec 32 := 0xC0000082
def fmask : BitVec 32 := 0xC0000084
def efer : BitVec 32 := 0xC0000080

def rdmsr (c : Cpu) : Cpu :=
  let v := c.msr (low32 (c.regs .rcx))
  (c.setReg .rdx (v >>> 32)).setReg .rax ((low32 v).setWidth 64)

def wrmsr (c : Cpu) : Cpu :=
  let v := low32 (c.regs .rdx) ++ low32 (c.regs .rax)
  { c with msr := Function.update c.msr (low32 (c.regs .rcx)) v }

def iretq (c : Cpu) : Cpu :=
  let word i := c.memory.word (c.rsp.toNat + 8 * i)
  { c with
    rip := word 0
    rflags := word 2
    segments := fun
      | .cs => (word 1).setWidth 16
      | .ss => (word 4).setWidth 16
      | s => c.segments s
    regs := Function.update c.regs .rsp (word 3) }

def sysretq (c : Cpu) : Cpu :=
  let base := (c.msr star).extractLsb' 48 16
  { c with
    rip := c.regs .rcx
    rflags := c.regs .r11 &&& 0x3C7FD7 ||| 2
    segments := fun
      | .cs => base + 16 ||| 3
      | .ss => base + 8 ||| 3
      | s => c.segments s }

/-- What the instruction `syscall` does; `rip` is that of the next instruction already. -/
def syscall (c : Cpu) : Cpu :=
  let base := (c.msr star).extractLsb' 32 16
  { c with
    regs := Function.update (Function.update c.regs .rcx c.rip) .r11 c.rflags
    rip := c.msr lstar
    rflags := c.rflags &&& ~~~c.msr fmask
    segments := fun
      | .cs => base &&& 0xFFFC
      | .ss => base + 8
      | s => c.segments s }

end Cpu

def Instr.step : Instr → Cpu → Option Cpu
  | .push r, c => some (c.push (c.regs r))
  | .pushImm v, c => some (c.push v)
  | .pop r, c => some (c.pop r)
  | .mov d s, c => some (c.setReg d (c.regs s))
  | .movImm r v, c => some (c.setReg r v)
  | .mov32 r v, c => some (c.setReg r (v.setWidth 64))
  | .mov16 r v, c => some (c.setReg r (c.regs r &&& ~~~0xFFFF ||| v.setWidth 64))
  | .movSegment d s, c => some (c.setSegment d ((c.regs s).setWidth 16))
  | .load r a, c => some (c.setReg r (c.memory.word a.toNat))
  | .store a r, c => some (c.put a (c.regs r))
  | .and r v, c => some (c.setReg r (c.regs r &&& v))
  | .add r v, c => some (c.setReg r (c.regs r + v))
  | .sub r v, c => some (c.setReg r (c.regs r - v))
  | .or32 r v, c => some (c.setReg r ((low32 (c.regs r) ||| v).setWidth 64))
  | .xor32 d s, c => some (c.setReg d ((low32 (c.regs d) ^^^ low32 (c.regs s)).setWidth 64))
  | .shr r n, c => some (c.setReg r (c.regs r >>> n))
  | .rdmsr, c => some c.rdmsr
  | .wrmsr, c => some c.wrmsr
  | .callFn next f, c => f (c.push next)
  | .iretq, c => some c.iretq
  | .sysretq, c => some c.sysretq

/-- An instruction that neither leaves the code nor takes the flags from somewhere. -/
def Instr.Straight : Instr → Prop
  | .callFn .. | .iretq | .sysretq => False
  | _ => True

/-- Code without jumps. -/
def Cpu.run (code : List Instr) (c : Cpu) : Option Cpu :=
  match code with
  | [] => some c
  | i :: rest => (i.step c).bind (Cpu.run rest)

namespace Cpu

variable {c : Cpu}

theorem run_append (p q : List Instr) (c : Cpu) : c.run (p ++ q) = (c.run p).bind (·.run q) := by
  induction p generalizing c with
  | nil => rfl
  | cons i rest ih =>
    simp only [List.cons_append, run, Option.bind_assoc]
    exact congrArg _ (funext ih)

/-! One instruction at a time. -/

variable (rest : List Instr) (c : Cpu)

@[simp] theorem run_nil : c.run [] = some c := by rw [run]

theorem run_step {i : Instr} {c c' : Cpu} (ok : i.step c = some c') : c.run (i :: rest) = c'.run rest := by
  rw [run, ok, Option.bind_some]

@[simp] theorem run_push (r : Reg) : c.run (.push r :: rest) = (c.push (c.regs r)).run rest :=
  run_step rest rfl

@[simp] theorem run_pushImm (v : BitVec 64) : c.run (.pushImm v :: rest) = (c.push v).run rest :=
  run_step rest rfl

@[simp] theorem run_pop (r : Reg) : c.run (.pop r :: rest) = (c.pop r).run rest := run_step rest rfl

@[simp] theorem run_mov (d s : Reg) :
    c.run (.mov d s :: rest) = (c.setReg d (c.regs s)).run rest :=
  run_step rest rfl

@[simp] theorem run_movImm (r : Reg) (v : BitVec 64) :
    c.run (.movImm r v :: rest) = (c.setReg r v).run rest :=
  run_step rest rfl

@[simp] theorem run_mov16 (r : Reg) (v : BitVec 16) :
    c.run (.mov16 r v :: rest) =
      (c.setReg r (c.regs r &&& ~~~0xFFFF ||| v.setWidth 64)).run rest :=
  run_step rest rfl

@[simp] theorem run_movSegment (d : Segment) (s : Reg) :
    c.run (.movSegment d s :: rest) = (c.setSegment d ((c.regs s).setWidth 16)).run rest :=
  run_step rest rfl

@[simp] theorem run_load (r : Reg) (a : BitVec 64) :
    c.run (.load r a :: rest) = (c.setReg r (c.memory.word a.toNat)).run rest :=
  run_step rest rfl

@[simp] theorem run_store (a : BitVec 64) (r : Reg) :
    c.run (.store a r :: rest) = (c.put a (c.regs r)).run rest :=
  run_step rest rfl

@[simp] theorem run_sysretq : c.run (.sysretq :: rest) = c.sysretq.run rest := run_step rest rfl

@[simp] theorem run_and (r : Reg) (v : BitVec 64) :
    c.run (.and r v :: rest) = (c.setReg r (c.regs r &&& v)).run rest :=
  run_step rest rfl

@[simp] theorem run_add (r : Reg) (v : BitVec 64) :
    c.run (.add r v :: rest) = (c.setReg r (c.regs r + v)).run rest :=
  run_step rest rfl

@[simp] theorem run_iretq : c.run (.iretq :: rest) = c.iretq.run rest := run_step rest rfl

@[simp] theorem run_callFn (next : BitVec 64) (f : Cpu → Option Cpu) :
    c.run (.callFn next f :: rest) = (f (c.push next)).bind (·.run rest) := by
  rw [run, Instr.step]

variable {rest} {c}

/-! ### The stack as a list of words -/

theorem length_words (m : Memory) (a n : Nat) : (m.words a n).length = n := by
  induction n generalizing a with
  | zero => rfl
  | succ n ih => rw [Memory.words, List.length_cons, ih]

theorem getD_words (m : Memory) (a : Nat) {n i : Nat} (inside : i < n) (v : BitVec 64) :
    (m.words a n).getD i v = m.word (a + 8 * i) := by
  induction n generalizing a i with
  | zero => cases inside
  | succ n ih =>
    cases i with
    | zero => rfl
    | succ i =>
      have place : a + 8 + 8 * i = a + 8 * (i + 1) := by omega
      rw [Memory.words, List.getD_cons_succ, ih (a + 8) (Nat.lt_of_succ_lt_succ inside), place]

theorem words_add (m : Memory) (a n k : Nat) :
    m.words a (n + k) = m.words a n ++ m.words (a + 8 * n) k := by
  induction n generalizing a with
  | zero => rw [Nat.zero_add, Memory.words, List.nil_append, Nat.mul_zero, Nat.add_zero]
  | succ n ih =>
    have place : a + 8 + 8 * n = a + 8 * (n + 1) := by omega
    rw [Nat.succ_add, Memory.words, Memory.words, List.cons_append, ih, place]

theorem words_congr {m m' : Memory} {a n : Nat} (same : ∀ x, a ≤ x → x < a + 8 * n → m' x = m x) :
    m'.words a n = m.words a n := by
  induction n generalizing a with
  | zero => rfl
  | succ n ih =>
    have head : m'.word a = m.word a :=
      congrArg (BitVec.ofNat 64) (Memory.load_congr 8 a fun x lower upper => same x lower (by omega))
    rw [Memory.words, Memory.words, head,
      ih fun x lower upper => same x (by omega) (by omega)]

theorem word_store (m : Memory) (a : Nat) (v : BitVec 64) : (m.store 8 a v.toNat).word a = v := by
  have fits : v.toNat < 256 ^ 8 := Nat.lt_of_lt_of_eq v.isLt (by decide)
  exact (congrArg (BitVec.ofNat 64) (Memory.load_store_same m fits)).trans <| by
    rw [BitVec.ofNat_toNat, BitVec.setWidth_eq]

/-- The words of a list pushed one after the other. -/
def pushAll (c : Cpu) (vs : List (BitVec 64)) : Cpu := vs.foldl push c

theorem pushAll_cons (c : Cpu) (v : BitVec 64) (vs : List (BitVec 64)) :
    c.pushAll (v :: vs) = (c.push v).pushAll vs := rfl

theorem pushAll_append (c : Cpu) (vs us : List (BitVec 64)) :
    c.pushAll (vs ++ us) = (c.pushAll vs).pushAll us :=
  List.foldl_append

theorem pushAll_push (c : Cpu) (vs : List (BitVec 64)) (v : BitVec 64) :
    (c.pushAll vs).push v = c.pushAll (vs ++ [v]) :=
  (pushAll_append c vs [v]).symm

@[simp] theorem rsp_push (c : Cpu) (v : BitVec 64) : (c.push v).rsp = c.rsp - 8 := by
  simp [push, rsp]

@[simp] theorem regs_push {r : Reg} (other : r ≠ .rsp) (v : BitVec 64) : (c.push v).regs r = c.regs r :=
  Function.update_of_ne other ..

theorem regs_pushAll {r : Reg} (other : r ≠ .rsp) (vs : List (BitVec 64)) :
    (c.pushAll vs).regs r = c.regs r := by
  induction vs generalizing c with
  | nil => rfl
  | cons v vs ih => rw [pushAll_cons, ih, regs_push other]

/-- Pushing changes the stack pointer and the memory only. -/
theorem pushAll_eq (c : Cpu) (vs : List (BitVec 64)) : c.pushAll vs =
    { c with
      regs := Function.update c.regs .rsp (c.pushAll vs).rsp
      memory := (c.pushAll vs).memory } := by
  induction vs generalizing c with
  | nil =>
    have same : Function.update c.regs .rsp c.rsp = c.regs := Function.update_eq_self ..
    rw [pushAll, List.foldl_nil, same]
  | cons v vs ih =>
    have regs : Function.update (c.push v).regs .rsp ((c.push v).pushAll vs).rsp =
        Function.update c.regs .rsp ((c.push v).pushAll vs).rsp :=
      Function.update_idem ..
    rw [pushAll_cons, ih (c.push v), regs]
    rfl

theorem toNat_sub_eight {v : BitVec 64} (room : 8 ≤ v.toNat) : (v - 8).toNat = v.toNat - 8 := by
  have size := v.isLt
  have eight : (8 : BitVec 64).toNat = 8 := rfl
  rw [BitVec.toNat_sub, eight]
  omega

theorem toNat_rsp_pushAll {vs : List (BitVec 64)} (room : 8 * vs.length ≤ c.rsp.toNat) :
    (c.pushAll vs).rsp.toNat = c.rsp.toNat - 8 * vs.length := by
  induction vs generalizing c with
  | nil => rfl
  | cons v vs ih =>
    rw [List.length_cons] at room
    have first : (c.push v).rsp.toNat = c.rsp.toNat - 8 := by
      rw [rsp_push, toNat_sub_eight (by omega)]
    rw [pushAll_cons, ih (by omega), first, List.length_cons]
    omega

/-- Pushing writes below the stack pointer, down to the last word pushed. -/
theorem pushAll_outside {vs : List (BitVec 64)} {x : Nat} (room : 8 * vs.length ≤ c.rsp.toNat)
    (outside : x < c.rsp.toNat - 8 * vs.length ∨ c.rsp.toNat ≤ x) :
    (c.pushAll vs).memory x = c.memory x := by
  induction vs generalizing c with
  | nil => rfl
  | cons v vs ih =>
    rw [List.length_cons] at room outside
    have first : (c.push v).rsp.toNat = c.rsp.toNat - 8 := by
      rw [rsp_push, toNat_sub_eight (by omega)]
    rw [pushAll_cons, ih (by omega) (by omega)]
    exact Memory.store_outside _ _ _ _ _ (by rw [← rsp_push c v]; omega)

/-- What was pushed is on top of the stack, the last word first. -/
theorem words_pushAll {vs : List (BitVec 64)} (room : 8 * vs.length ≤ c.rsp.toNat) (k : Nat) :
    (c.pushAll vs).memory.words (c.pushAll vs).rsp.toNat (vs.length + k) =
      vs.reverse ++ c.memory.words c.rsp.toNat k := by
  induction vs generalizing c k with
  | nil => rw [List.length_nil, Nat.zero_add]; rfl
  | cons v vs ih =>
    rw [List.length_cons] at room
    have low : (c.push v).rsp.toNat = c.rsp.toNat - 8 := by
      rw [rsp_push, toNat_sub_eight (by omega)]
    have count : vs.length + 1 + k = vs.length + (k + 1) := by omega
    have next : c.rsp.toNat - 8 + 8 = c.rsp.toNat := by omega
    have stored : (c.push v).memory = c.memory.store 8 (c.rsp.toNat - 8) v.toNat := by
      rw [← toNat_sub_eight (by omega)]
      rfl
    -- the word is below what was on the stack, and the rest goes below the word
    have above : (c.push v).memory.words c.rsp.toNat k = c.memory.words c.rsp.toNat k := by
      rw [stored]
      exact words_congr fun x lower _ => Memory.store_outside _ _ _ _ _ (by omega)
    have head : (c.push v).memory.word (c.rsp.toNat - 8) = v := by
      rw [stored, word_store]
    rw [pushAll_cons, List.length_cons, count, ih (by omega), Memory.words, low, next, head, above,
      List.reverse_cons, List.append_assoc, List.singleton_append]

/-- What `iretq` does with the five words on top. -/
theorem iretq_of_words {rip cs rflags rsp ss : BitVec 64}
    (words : c.memory.words c.rsp.toNat 5 = [rip, cs, rflags, rsp, ss]) :
    c.iretq =
      { c with
        rip, rflags
        segments := fun
          | .cs => cs.setWidth 16
          | .ss => ss.setWidth 16
          | s => c.segments s
        regs := Function.update c.regs .rsp rsp } := by
  simp only [Memory.words, List.cons.injEq, Nat.add_assoc] at words
  obtain ⟨rfl, rfl, rfl, rfl, rfl, -⟩ := words
  rfl

/-! ### The interrupt flag -/

/-- No interrupt is taken in front of one of these instructions. -/
def Uninterrupted (p : List Instr) (c : Cpu) : Prop :=
  ∀ n < p.length, ∀ c', c.run (p.take n) = some c' → c'.rflags.getLsbD 9 = false

/-! ### Saving and restoring registers -/

theorem run_pushes {rs : List Reg} (plain : .rsp ∉ rs) (c : Cpu) :
    c.run (rs.map .push) = some (c.pushAll (rs.map c.regs)) := by
  induction rs generalizing c with
  | nil => rfl
  | cons r rs ih =>
    have other : .rsp ∉ rs := fun member => plain (List.mem_cons_of_mem r member)
    have same : rs.map (c.push (c.regs r)).regs = rs.map c.regs :=
      List.map_congr_left fun s member => regs_push (fun eq => other (eq ▸ member)) _
    rw [List.map_cons, run_push, ih other, same]
    rfl

/-- The registers of a list taken from the stack one after the other. -/
def popAll (c : Cpu) (rs : List Reg) : Cpu := rs.foldl pop c

theorem popAll_cons (c : Cpu) (r : Reg) (rs : List Reg) :
    c.popAll (r :: rs) = (c.pop r).popAll rs := rfl

theorem run_pops (rs : List Reg) (c : Cpu) : c.run (rs.map .pop) = some (c.popAll rs) := by
  induction rs generalizing c with
  | nil => rfl
  | cons r rs ih =>
    rw [List.map_cons, run_pop, ih]
    rfl

theorem rsp_pop {r : Reg} (other : r ≠ .rsp) (c : Cpu) : (c.pop r).rsp = c.rsp + 8 := by
  have kept : (c.pop r).regs .rsp = c.drop.regs .rsp := Function.update_of_ne other.symm ..
  have moved : c.drop.regs .rsp = c.rsp + 8 := by simp [drop, setReg]
  exact kept.trans moved

theorem regs_pop_self (c : Cpu) (r : Reg) : (c.pop r).regs r = c.top := by
  simp [pop, setReg]

theorem regs_pop_other {r s : Reg} (other : s ≠ r) (plain : s ≠ .rsp) (c : Cpu) :
    (c.pop r).regs s = c.regs s := by
  have kept : (c.pop r).regs s = c.drop.regs s := Function.update_of_ne other ..
  exact kept.trans (Function.update_of_ne plain ..)

theorem regs_popAll_other {rs : List Reg} {s : Reg} (other : s ∉ rs) (plain : s ≠ .rsp) (c : Cpu) :
    (c.popAll rs).regs s = c.regs s := by
  induction rs generalizing c with
  | nil => rfl
  | cons r rs ih =>
    rw [List.mem_cons, not_or] at other
    rw [popAll_cons, ih other.2, regs_pop_other other.1 plain]

theorem rsp_popAll {rs : List Reg} (plain : .rsp ∉ rs) (c : Cpu) :
    (c.popAll rs).rsp = c.rsp + BitVec.ofNat 64 (8 * rs.length) := by
  induction rs generalizing c with
  | nil => exact (BitVec.add_zero _).symm
  | cons r rs ih =>
    rw [List.mem_cons, not_or] at plain
    have size : 8 * (rs.length + 1) = 8 + 8 * rs.length := by omega
    rw [popAll_cons, ih plain.2, rsp_pop (Ne.symm plain.1), List.length_cons, size, BitVec.ofNat_add,
      BitVec.add_assoc]
    rfl

/-- Popping changes registers only. -/
theorem popAll_eq (c : Cpu) (rs : List Reg) : c.popAll rs = { c with regs := (c.popAll rs).regs } := by
  induction rs generalizing c with
  | nil => rfl
  | cons r rs ih =>
    rw [popAll_cons, ih (c.pop r)]
    rfl

/-- The registers of the list have the words of the stack, the first one that on top. -/
theorem map_regs_popAll {rs : List Reg} (plain : .rsp ∉ rs) (distinct : rs.Nodup)
    (inside : c.rsp.toNat + 8 * rs.length < 2 ^ 64) :
    rs.map (c.popAll rs).regs = c.memory.words c.rsp.toNat rs.length := by
  induction rs generalizing c with
  | nil => rfl
  | cons r rs ih =>
    rw [List.mem_cons, not_or] at plain
    rw [List.nodup_cons] at distinct
    rw [List.length_cons] at inside
    have next : (c.pop r).rsp.toNat = c.rsp.toNat + 8 := by
      have eight : (8 : BitVec 64).toNat = 8 := rfl
      rw [rsp_pop (Ne.symm plain.1), BitVec.toNat_add, eight]
      omega
    -- the later pops do not touch the register
    have first : ((c.pop r).popAll rs).regs r = c.top := by
      rw [regs_popAll_other distinct.1 (Ne.symm plain.1), regs_pop_self]
    have rest := ih plain.2 distinct.2 (c := c.pop r) (by omega)
    rw [next] at rest
    rw [popAll_cons, List.map_cons, first, rest, List.length_cons]
    rfl

/-! ### Calls -/

/-- The registers that a C function leaves as they were. -/
def calleeSaved : List Reg := [.rbx, .rbp, .r12, .r13, .r14, .r15]

/-- What a C function owes to its caller; `before` has the return address on the stack. -/
structure Returns (before after : Cpu) : Prop where
  saved : ∀ r ∈ calleeSaved, after.regs r = before.regs r
  rsp : after.rsp = before.rsp + 8
  segments : after.segments = before.segments

/-- The stack pointer rounded down to sixteen bytes. -/
theorem toNat_align (v : BitVec 64) : (v &&& ~~~15).toNat = v.toNat / 16 * 16 := by
  have mask : (~~~15 : BitVec 64).toNat = not64 (2 ^ 4 - 1) := by decide
  rw [BitVec.toNat_and, mask, and_not64_two_pow_sub_one v.isLt (by decide)]
  rfl

theorem align_of_aligned {v : BitVec 64} (aligned : v.toNat % 16 = 0) : v &&& ~~~15 = v := by
  apply BitVec.eq_of_toNat_eq
  rw [toNat_align]
  omega

end Cpu

end KopalniaOS.Library
