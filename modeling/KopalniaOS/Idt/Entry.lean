import KopalniaOS.Idt.Stubs

/-!
# Interrupts do not disturb the code they interrupt

A stub puts twenty-two words on the stack, in the order of the fields of `ISR_Registers` from the
last to the first, and takes them off again. If `isr_common` does what a C function does, the code
goes on with the registers it had.
-/
namespace KopalniaOS.Idt

open Library

variable {t : Tables} {k : Kernel} {vector : Nat} {code : Option (BitVec 64)} {c : Cpu}

/-! ### Saving -/

/-- The exceptions for which the processor pushes an error code: double fault, invalid task state,
segment not present, stack fault, general protection, page fault, alignment check, control protection. -/
def errorCodeVectors : List Nat := [8, 10, 11, 12, 13, 14, 17, 21]

def CodeExpected (vector : Nat) (code : Option (BitVec 64)) : Prop :=
  code.isSome = true ↔ vector ∈ errorCodeVectors

/-- These are the vectors whose stub counts on one. -/
theorem mem_errorCodeVectors : vector ∈ errorCodeVectors ↔ vector < 32 ∧ hasErrorCode vector = true := by
  simp only [errorCodeVectors, hasErrorCode, List.mem_cons, List.not_mem_nil, or_false, Bool.or_eq_true,
    beq_iff_eq, decide_eq_true_eq]
  omega

/-- The words on the stack in the order they are pushed. -/
def trapWords (vector : Nat) (code : Option (BitVec 64)) (c : Cpu) : List (BitVec 64) :=
  [(c.segments .ss).setWidth 64, c.rsp, c.rflags, (c.segments .cs).setWidth 64, c.rip,
    code.getD 0, BitVec.ofNat 64 vector]

def frameWords (vector : Nat) (code : Option (BitVec 64)) (c : Cpu) : List (BitVec 64) :=
  trapWords vector code c ++ pushedRegs.map c.regs

theorem length_frameWords : (frameWords vector code c).length = 22 := rfl

/-- The state when the stub has saved everything. -/
def savedState (t : Tables) (vector : Nat) (code : Option (BitVec 64)) (c : Cpu) : Cpu :=
  (t.enter (t.idt vector) c).pushAll (frameWords vector code c)

/-- The stub behind what `pushall` is for. -/
def afterSaving (k : Kernel) : List Instr :=
  [.mov .rdi .rsp, .mov .rbp .rsp, .and .rsp (-16), .callFn k.next k.isrCommon, .mov .rsp .rbp] ++
    popall ++ [.add .rsp 16, .iretq]

theorem isrCommonStub_eq (k : Kernel) : isrCommonStub k = pushall ++ afterSaving k := by
  rw [isrCommonStub, afterSaving, List.append_assoc, List.append_assoc, List.append_assoc]

theorem run_pushall (c : Cpu) (vs : List (BitVec 64)) (e : Cpu) (same : ∀ r ≠ .rsp, e.regs r = c.regs r) :
    (e.pushAll vs).run pushall = some (e.pushAll (vs ++ pushedRegs.map c.regs)) := by
  have plain : .rsp ∉ pushedRegs := by decide
  have regs : pushedRegs.map (e.pushAll vs).regs = pushedRegs.map c.regs := by
    refine List.map_congr_left fun r member => ?_
    have other : r ≠ .rsp := fun eq => plain (eq ▸ member)
    rw [Cpu.regs_pushAll other, same r other]
  rw [pushall, Cpu.run_pushes plain, regs, Cpu.pushAll_append]

theorem regs_enter (t : Tables) (e : IDTEntry) (c : Cpu) (r : Reg) (other : r ≠ .rsp) :
    (t.enter e c).regs r = c.regs r :=
  Function.update_of_ne other ..

/-- Whatever the vector is, the same words are on the stack after `pushall`. -/
theorem run_isr (expected : CodeExpected vector code) :
    (t.deliver vector code c).run (isr k vector) =
      (savedState t vector code c).run (afterSaving k) := by
  have saves : ((t.enter (t.idt vector) c).pushAll (trapWords vector code c)).run (isrCommonStub k) =
      (savedState t vector code c).run (afterSaving k) := by
    rw [isrCommonStub_eq, Cpu.run_append, run_pushall c _ _ (regs_enter t _ c), Option.bind_some,
      savedState, frameWords]
  rw [CodeExpected, mem_errorCodeVectors] at expected
  unfold isr
  by_cases exception : vector < 32 ∧ hasErrorCode vector = true
  · rw [if_pos exception.1, if_pos exception.2]
    obtain ⟨value, rfl⟩ := Option.isSome_iff_exists.mp (expected.mpr exception)
    rw [isrErr, Cpu.run_pushImm, Tables.deliver, Cpu.pushAll_push]
    exact saves
  · obtain rfl : code = none := Option.not_isSome_iff_eq_none.mp fun pushed =>
      exception (expected.mp pushed)
    have none : (if vector < 32 then if hasErrorCode vector = true then isrErr k vector
        else isrNoErr k vector else isrNoErr k vector) = isrNoErr k vector := by
      split
      · rename_i low
        exact if_neg fun high => exception ⟨low, high⟩
      · rfl
    rw [none, isrNoErr, Cpu.run_pushImm, Cpu.run_pushImm, Tables.deliver, Cpu.pushAll_push,
      Cpu.pushAll_push]
    exact saves

/-! ### Calling -/

/-- The state in which `isr_common` is entered, when the stub has saved everything in `s`. -/
def called (k : Kernel) (s : Cpu) : Cpu :=
  (((s.setReg .rdi s.rsp).setReg .rbp s.rsp).setReg .rsp (s.rsp &&& -16)).push k.next

/-- The stub behind the call. -/
def restoring : List Instr := .mov .rsp .rbp :: (popall ++ [.add .rsp 16, .iretq])

theorem run_afterSaving (k : Kernel) (s : Cpu) :
    s.run (afterSaving k) = (k.isrCommon (called k s)).bind (·.run restoring) := by
  have rdi : (s.setReg .rdi s.rsp).rsp = s.rsp := Cpu.regs_setReg_other (by decide) ..
  have rbp : ((s.setReg .rdi s.rsp).setReg .rbp s.rsp).rsp = s.rsp :=
    (Cpu.regs_setReg_other (by decide) ..).trans rdi
  rw [afterSaving, List.append_assoc, List.cons_append, Cpu.run_mov, Cpu.regs_rsp, List.cons_append,
    Cpu.run_mov, Cpu.regs_rsp, rdi, List.cons_append, Cpu.run_and, Cpu.regs_rsp, rbp, List.cons_append,
    Cpu.run_callFn, List.cons_append, List.nil_append]
  rfl

/-- The stub has room below the stack pointer that the processor starts with. -/
def Room (t : Tables) (vector : Nat) (c : Cpu) : Prop :=
  8 * 23 ≤ (t.stack (t.idt vector) c &&& ~~~15).toNat

theorem rsp_enter (t : Tables) (e : IDTEntry) (c : Cpu) :
    (t.enter e c).rsp = t.stack e c &&& ~~~15 := by
  simp [Tables.enter, Cpu.rsp]

theorem toNat_rsp_savedState (room : Room t vector c) (code : Option (BitVec 64)) :
    (savedState t vector code c).rsp.toNat =
      (t.stack (t.idt vector) c &&& ~~~15).toNat - 8 * 22 := by
  have enough : 8 * (frameWords vector code c).length ≤ (t.enter (t.idt vector) c).rsp.toNat := by
    unfold Room at room
    rw [rsp_enter, length_frameWords]
    omega
  rw [savedState, Cpu.toNat_rsp_pushAll enough, rsp_enter, length_frameWords]

/-- What was saved has a multiple of sixteen bytes, and so the stub aligns nothing. -/
theorem savedState_aligned (room : Room t vector c) (code : Option (BitVec 64)) :
    (savedState t vector code c).rsp &&& -16 = (savedState t vector code c).rsp := by
  have mask : (-16 : BitVec 64) = ~~~15 := by decide
  rw [mask]
  refine Cpu.align_of_aligned ?_
  unfold Room at room
  rw [toNat_rsp_savedState room, Cpu.toNat_align]
  rw [Cpu.toNat_align] at room
  omega

theorem called_of_aligned (k : Kernel) {s : Cpu} (aligned : s.rsp &&& -16 = s.rsp) :
    called k s = ((s.setReg .rdi s.rsp).setReg .rbp s.rsp).push k.next := by
  have same : ((s.setReg .rdi s.rsp).setReg .rbp s.rsp).setReg .rsp s.rsp =
      (s.setReg .rdi s.rsp).setReg .rbp s.rsp := by
    unfold Cpu.setReg
    congr 1
    funext r
    by_cases here : r = .rsp
    · subst here
      simp [Cpu.rsp]
    · simp [here]
  rw [called, aligned, same]

/-- What `isr_common` finds at the address it gets. -/
theorem words_savedState (room : Room t vector c) (code : Option (BitVec 64)) :
    (savedState t vector code c).memory.words (savedState t vector code c).rsp.toNat 22 =
      (frameWords vector code c).reverse := by
  have enough : 8 * (frameWords vector code c).length ≤ (t.enter (t.idt vector) c).rsp.toNat := by
    unfold Room at room
    rw [rsp_enter, length_frameWords]
    omega
  have words := Cpu.words_pushAll enough 0
  rw [length_frameWords, Memory.words, List.append_nil] at words
  exact words

/-! ### Restoring -/

/-- The words that `popall` and `iretq` find. -/
theorem split_frameWords (vector : Nat) (code : Option (BitVec 64)) (c : Cpu) :
    (frameWords vector code c).reverse = poppedRegs.map c.regs ++
      ([BitVec.ofNat 64 vector, code.getD 0] ++
        [c.rip, (c.segments .cs).setWidth 64, c.rflags, c.rsp, (c.segments .ss).setWidth 64]) := by
  have order : pushedRegs.reverse = poppedRegs := by decide
  have trap : (trapWords vector code c).reverse = [BitVec.ofNat 64 vector, code.getD 0] ++
      [c.rip, (c.segments .cs).setWidth 64, c.rflags, c.rsp, (c.segments .ss).setWidth 64] := by
    rfl
  rw [frameWords, List.reverse_append, ← List.map_reverse, order, trap]

variable {r : Cpu} {a : BitVec 64}

/-- The registers of the interrupted code are back after `popall`. -/
theorem regs_popAll (rsp : r.rsp = a) (inside : a.toNat + 8 * 22 < 2 ^ 64)
    (words : r.memory.words a.toNat 22 = (frameWords vector code c).reverse) {s : Reg}
    (popped : s ∈ poppedRegs) : (r.popAll poppedRegs).regs s = c.regs s := by
  have below : r.rsp.toNat + 8 * poppedRegs.length < 2 ^ 64 := by
    have count : poppedRegs.length = 15 := rfl
    rw [rsp, count]
    omega
  have taken := Cpu.map_regs_popAll (by decide : .rsp ∉ poppedRegs) (by decide) below
  have count : (22 : Nat) = poppedRegs.length + 7 := rfl
  rw [rsp] at taken
  rw [count, Cpu.words_add, split_frameWords, ← taken] at words
  exact List.map_inj_left.mp (List.append_inj_left words (by simp)) s popped

/-- `iretq` finds what the processor has pushed. -/
theorem words_iretq (words : r.memory.words a.toNat 22 = (frameWords vector code c).reverse) :
    r.memory.words (a.toNat + 8 * 17) 5 =
      [c.rip, (c.segments .cs).setWidth 64, c.rflags, c.rsp, (c.segments .ss).setWidth 64] := by
  have count : (22 : Nat) = 17 + 5 := rfl
  have size : (r.memory.words a.toNat 17).length =
      (poppedRegs.map c.regs ++ [BitVec.ofNat 64 vector, code.getD 0]).length :=
    Cpu.length_words ..
  rw [count, Cpu.words_add, split_frameWords, ← List.append_assoc] at words
  exact List.append_inj_right words size

theorem mem_poppedRegs {s : Reg} (other : s ≠ .rsp) : s ∈ poppedRegs := by
  cases s <;> first | decide | exact absurd rfl other

/-- The stack pointer when `iretq` comes. -/
theorem toNat_rsp_removed (rsp : r.rsp = a) (inside : a.toNat + 8 * 22 < 2 ^ 64) :
    ((r.popAll poppedRegs).rsp + 16).toNat = a.toNat + 8 * 17 := by
  have count : poppedRegs.length = 15 := rfl
  have sixteen : (16 : BitVec 64).toNat = 16 := rfl
  rw [Cpu.rsp_popAll (by decide), rsp, count, BitVec.toNat_add, BitVec.toNat_add, BitVec.toNat_ofNat,
    sixteen]
  omega

theorem setWidth_selector (s : BitVec 16) : (s.setWidth 64).setWidth 16 = s := by
  rw [BitVec.setWidth_setWidth_of_le _ (by decide), BitVec.setWidth_eq]

/-- What the interrupted code goes on with, if `r` is the state in which `isr_common` returned. -/
def resumed (c r : Cpu) : Cpu :=
  { c with
    memory := r.memory
    msr := r.msr
    segments := fun
      | .cs => c.segments .cs
      | .ss => c.segments .ss
      | s => r.segments s }

theorem run_restoring (rbp : r.regs .rbp = a) (inside : a.toNat + 8 * 22 < 2 ^ 64)
    (words : r.memory.words a.toNat 22 = (frameWords vector code c).reverse) :
    r.run restoring = some (resumed c r) := by
  have moved : (r.setReg .rsp a).rsp = a := Cpu.regs_setReg_self ..
  have regs := fun s popped => regs_popAll (s := s) (r := r.setReg .rsp a) moved inside words popped
  have rest := words_iretq (r := r) words
  have place := toNat_rsp_removed (r := r.setReg .rsp a) moved inside
  have kept := Cpu.popAll_eq (r.setReg .rsp a) poppedRegs
  rw [restoring, Cpu.run_mov, rbp, Cpu.run_append, popall, Cpu.run_pops, Option.bind_some, Cpu.run_add,
    Cpu.regs_rsp, Cpu.run_iretq, Cpu.run_nil, Option.some_inj]
  generalize (r.setReg .rsp a).popAll poppedRegs = p at regs place kept
  rw [kept] at place ⊢
  let q := ({ r.setReg .rsp a with regs := p.regs }).setReg .rsp (p.rsp + 16)
  have top : q.rsp.toNat = a.toNat + 8 * 17 := by
    rw [Cpu.rsp, Cpu.regs_setReg_self]
    exact place
  have found : q.memory.words q.rsp.toNat 5 = _ := (congrArg (r.memory.words · 5) top).trans rest
  -- `popall` has put back the registers, and `iretq` puts back what the processor saved
  have back : Function.update q.regs .rsp c.rsp = c.regs := by
    funext s
    by_cases stack : s = .rsp
    · subst stack
      exact Function.update_self ..
    · rw [Function.update_of_ne stack]
      exact (Cpu.regs_setReg_other stack ..).trans (regs s (mem_poppedRegs stack))
  refine (Cpu.iretq_of_words found).trans ?_
  rw [back, setWidth_selector, setWidth_selector]
  rfl

/-! ### The whole stub -/

/-- The bytes of the stack that the stub uses: what it saves and the return address. -/
def stubStack (t : Tables) (vector : Nat) (c : Cpu) : Set Nat :=
  { x | (t.stack (t.idt vector) c &&& ~~~15).toNat - 8 * 23 ≤ x ∧
    x < (t.stack (t.idt vector) c &&& ~~~15).toNat }

theorem load_of_words {m : Memory} {p : Nat}
    (words : m.words p 22 = (frameWords vector code c).reverse) :
    ISRRegisters.load m p = ISRRegisters.of vector code c := by
  have field : ∀ i < 22, m.word (p + 8 * i) = (frameWords vector code c).reverse.getD i 0 := by
    intro i inside
    rw [← words, Cpu.getD_words m p inside]
  simp only [ISRRegisters.load, field, Nat.reduceLT]
  rfl

/-- What `isr_common` is entered with: the interrupted state in the fields of `ISR_Registers`, an
aligned stack, and nothing else touched. -/
structure HandsOver (t : Tables) (vector : Nat) (code : Option (BitVec 64)) (c entry : Cpu) : Prop where
  frame : ISRRegisters.load entry.memory (entry.regs .rdi).toNat = .of vector code c
  aligned : (entry.rsp.toNat + 8) % 16 = 0
  msr : entry.msr = c.msr
  memory : ∀ x ∉ stubStack t vector c, entry.memory x = c.memory x

/-- The pointer that `isr_common` gets is one to constants. -/
def FrameKept (entry after : Cpu) : Prop :=
  ∀ x, (entry.regs .rdi).toNat ≤ x → x < (entry.regs .rdi).toNat + 8 * 22 →
    after.memory x = entry.memory x

theorem rsp_called (room : Room t vector c) (k : Kernel) (code : Option (BitVec 64)) :
    (called k (savedState t vector code c)).rsp = (savedState t vector code c).rsp - 8 ∧
      (called k (savedState t vector code c)).regs .rdi = (savedState t vector code c).rsp ∧
      (called k (savedState t vector code c)).regs .rbp = (savedState t vector code c).rsp := by
  rw [called_of_aligned k (savedState_aligned room code)]
  generalize savedState t vector code c = s
  refine ⟨?_, ?_, ?_⟩
  · rw [Cpu.rsp_push]
    exact congrArg (· - 8) ((Cpu.regs_setReg_other (by decide) ..).trans
      (Cpu.regs_setReg_other (by decide) ..))
  · rw [Cpu.regs_push (by decide), Cpu.regs_setReg_other (by decide), Cpu.regs_setReg_self]
  · rw [Cpu.regs_push (by decide), Cpu.regs_setReg_self]

/-- The call writes its return address below what was saved. -/
theorem memory_called (room : Room t vector c) (k : Kernel) (code : Option (BitVec 64)) {x : Nat}
    (outside : x < (savedState t vector code c).rsp.toNat - 8 ∨
      (savedState t vector code c).rsp.toNat ≤ x) :
    (called k (savedState t vector code c)).memory x = (savedState t vector code c).memory x := by
  have low := toNat_rsp_savedState room code
  unfold Room at room
  rw [called_of_aligned k (savedState_aligned room code)]
  generalize savedState t vector code c = s at *
  have rsp : ((s.setReg .rdi s.rsp).setReg .rbp s.rsp).rsp = s.rsp :=
    (Cpu.regs_setReg_other (by decide) ..).trans (Cpu.regs_setReg_other (by decide) ..)
  have place : (s.rsp - 8).toNat = s.rsp.toNat - 8 := Cpu.toNat_sub_eight (by omega)
  rw [Cpu.push, rsp]
  exact Memory.store_outside _ _ _ _ _ (by omega)

theorem handsOver (room : Room t vector c) (k : Kernel) (code : Option (BitVec 64)) :
    HandsOver t vector code c (called k (savedState t vector code c)) := by
  obtain ⟨rsp, rdi, -⟩ := rsp_called room k code
  have low := toNat_rsp_savedState room code
  have words := words_savedState room code
  have aligned := Cpu.toNat_align (t.stack (t.idt vector) c)
  have enough := room
  unfold Room at enough
  constructor
  · rw [rdi]
    apply load_of_words
    rw [← words]
    exact Cpu.words_congr fun x lower _ => memory_called room k code (.inr lower)
  · rw [rsp, Cpu.toNat_sub_eight (by omega)]
    omega
  · rw [called, savedState, Cpu.pushAll_eq]
    rfl
  · intro x outside
    have apart : x < (t.stack (t.idt vector) c &&& ~~~15).toNat - 8 * 23 ∨
        (t.stack (t.idt vector) c &&& ~~~15).toNat ≤ x := by
      simp only [stubStack, Set.mem_ofPred_eq, not_and, Nat.not_lt] at outside
      omega
    rw [memory_called room k code (by omega)]
    refine Cpu.pushAll_outside ?_ ?_
    · rw [rsp_enter, length_frameWords]
      omega
    · rw [rsp_enter, length_frameWords]
      omega

theorem run_deliver (expected : CodeExpected vector code) :
    (t.deliver vector code c).run (isr k vector) =
      (k.isrCommon (called k (savedState t vector code c))).bind (·.run restoring) := by
  rw [run_isr expected, run_afterSaving]

/-- The state after the stub, if `isr_common` is a C function that leaves its argument alone. -/
theorem run_restoring_of_returns (room : Room t vector c) {after : Cpu}
    (returns : Cpu.Returns (called k (savedState t vector code c)) after)
    (kept : FrameKept (called k (savedState t vector code c)) after) :
    after.run restoring = some { c with memory := after.memory, msr := after.msr } := by
  obtain ⟨-, rdi, rbp⟩ := rsp_called room k code
  have low := toNat_rsp_savedState room code
  have size := (t.stack (t.idt vector) c &&& ~~~15).isLt
  have enough := room
  unfold Room at enough
  have base : after.regs .rbp = (savedState t vector code c).rsp := by
    rw [returns.saved .rbp (by decide), rbp]
  have words : after.memory.words (savedState t vector code c).rsp.toNat 22 =
      (frameWords vector code c).reverse := by
    rw [← words_savedState room code]
    refine Cpu.words_congr fun x lower upper => ?_
    rw [kept x (by rw [rdi]; exact lower) (by rw [rdi]; exact upper)]
    exact memory_called room k code (.inr lower)
  rw [run_restoring base (by omega) words, Option.some_inj]
  -- the selectors that `iretq` does not load were left alone
  have segments : after.segments = (t.enter (t.idt vector) c).segments := by
    rw [returns.segments, called, savedState, Cpu.pushAll_eq]
    rfl
  have same : (resumed c after).segments = c.segments := by
    funext s
    cases s <;> simp [resumed, segments, Tables.enter]
  exact congrArg (fun segments => { c with memory := after.memory, msr := after.msr, segments }) same

theorem run_interrupt {isrTable : Nat → BitVec 64} {text : BitVec 64 → Option (List Instr)}
    (installed : Installed t isrTable) (loaded : ∀ i < 256, text (isrTable i) = some (isr k i))
    (inTable : vector < 256) (expected : CodeExpected vector code) :
    interrupt t text vector code c =
      (k.isrCommon (called k (savedState t vector code c))).bind (·.run restoring) := by
  have target : (t.deliver vector code c).rip = isrTable vector := by
    rw [Tables.deliver, Cpu.pushAll_eq]
    exact (congrArg IDTEntry.offset (installed.idt vector inTable)).trans (offset_setIDTEntry _)
  rw [interrupt, target, loaded vector inTable]
  exact run_deliver expected

/-- Whatever is interrupted: `isr_common` gets the state of the interrupted code, and if it does what
a C function does, that code goes on with all its registers, flags and selectors as they were. -/
theorem interrupt_undisturbed {isrTable : Nat → BitVec 64} {text : BitVec 64 → Option (List Instr)}
    (installed : Installed t isrTable) (loaded : ∀ i < 256, text (isrTable i) = some (isr k i))
    (inTable : vector < 256) (expected : CodeExpected vector code) (room : Room t vector c) :
    ∃ entry, HandsOver t vector code c entry ∧
      interrupt t text vector code c = (k.isrCommon entry).bind (·.run restoring) ∧
      ∀ after, k.isrCommon entry = some after → Cpu.Returns entry after → FrameKept entry after →
        interrupt t text vector code c = some { c with memory := after.memory, msr := after.msr } := by
  have runs := run_interrupt (c := c) installed loaded inTable expected
  refine ⟨called k (savedState t vector code c), handsOver room k code, runs, ?_⟩
  intro after came returns kept
  rw [runs, came, Option.bind_some, run_restoring_of_returns room returns kept]

/-! A kernel whose `isr_common` returns at once. -/

def idleKernel : Kernel := ⟨fun c => some c.drop, 0x600000⟩

def idleTable (v : Nat) : BitVec 64 := BitVec.ofNat 64 (0x700000 + 16 * v)

def idleText (a : BitVec 64) : Option (List Instr) := some (isr idleKernel ((a.toNat - 0x700000) / 16))

def idleTables : Tables := ⟨fun v => setIDTEntry (idleTable v), gdt 0, 0x9000, fun _ => 0⟩

theorem idleText_idleTable {v : Nat} (inTable : v < 256) :
    idleText (idleTable v) = some (isr idleKernel v) := by
  have number : (idleTable v).toNat = 0x700000 + 16 * v := by
    rw [idleTable, BitVec.toNat_ofNat]
    omega
  have index : (0x700000 + 16 * v - 0x700000) / 16 = v := by omega
  rw [idleText, number, index]

theorem installed_idle : Installed idleTables idleTable := ⟨fun _ _ => rfl, 0, rfl⟩

theorem returns_drop (c : Cpu) : Cpu.Returns c c.drop := by
  refine ⟨fun r member => ?_, Cpu.regs_setReg_self .., rfl⟩
  refine Cpu.regs_setReg_other ?_ ..
  rintro rfl
  revert member
  decide

/-- User code at address 42, with its stack pointer at 4660. -/
def userCode : Cpu where
  regs r := if r = .rsp then 0x1234 else 7
  rip := 42
  rflags := 0x202
  segments s := if s = .cs then 0x33 else 0x2B
  msr _ := 0
  memory _ := 0

theorem interrupt_undisturbed_timer :
    (interrupt idleTables idleText 32 none userCode).map (fun r => (r.regs, r.rip, r.rflags)) =
      some (userCode.regs, 42, 0x202) := by
  have stack : idleTables.stack (idleTables.idt 32) userCode &&& ~~~15 = 0x9000 := by decide
  have room : Room idleTables 32 userCode := by
    rw [Room, stack]
    decide
  have expected : CodeExpected 32 none := by simp [CodeExpected, errorCodeVectors]
  obtain ⟨entry, -, -, resumes⟩ := interrupt_undisturbed (k := idleKernel) installed_idle
    (fun _ => idleText_idleTable) (by decide) expected room
  rw [resumes entry.drop rfl (returns_drop entry) fun _ _ _ => rfl]
  rfl

end KopalniaOS.Idt
