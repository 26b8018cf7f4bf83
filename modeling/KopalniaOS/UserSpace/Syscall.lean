import KopalniaOS.UserSpace.Enter

/-!
# What a system call keeps

`handle_syscall` keeps the user's stack pointer, return address and flags in three variables and the
registers that a C function keeps on the kernel stack. The other registers are those that
`dispatch_syscall` leaves behind.
-/
namespace KopalniaOS.UserSpace

open Library

variable {k : Kernel} {c : Cpu}

/-! ### The way in -/

/-- The variables and the kernel stack are different places, and the stack is aligned. -/
structure Layout (k : Kernel) : Prop where
  room : 56 ≤ k.stackTop.toNat
  aligned : k.stackTop.toNat % 16 = 0
  rcx : k.userRcx.toNat + 8 ≤ k.userRsp.toNat ∨ k.userRsp.toNat + 8 ≤ k.userRcx.toNat
  r11 : k.userR11.toNat + 8 ≤ k.userRsp.toNat ∨ k.userRsp.toNat + 8 ≤ k.userR11.toNat
  r11_rcx : k.userR11.toNat + 8 ≤ k.userRcx.toNat ∨ k.userRcx.toNat + 8 ≤ k.userR11.toNat
  offStack : ∀ a ∈ [k.userRsp, k.userRcx, k.userR11],
    a.toNat + 8 ≤ k.stackTop.toNat - 56 ∨ k.stackTop.toNat ≤ a.toNat

/-- The bytes of the variables. -/
def savedVariables (k : Kernel) : Set Nat :=
  { x | ∃ a ∈ [k.userRsp, k.userRcx, k.userR11], a.toNat ≤ x ∧ x < a.toNat + 8 }

/-- The bytes of the kernel stack down to the `n`th. -/
def kernelStack (k : Kernel) (n : Nat) : Set Nat :=
  { x | k.stackTop.toNat - n ≤ x ∧ x < k.stackTop.toNat }

/-- The state when the variables are written. -/
def atKernelStack (k : Kernel) (c : Cpu) : Cpu :=
  (((c.put k.userRsp c.rsp).setReg .rsp k.stackTop).put k.userRcx (c.regs .rcx)).put k.userR11
    (c.regs .r11)

theorem rsp_atKernelStack (k : Kernel) (c : Cpu) : (atKernelStack k c).rsp = k.stackTop := by
  simp [atKernelStack, Cpu.rsp]

theorem regs_atKernelStack (k : Kernel) (c : Cpu) {r : Reg} (other : r ≠ .rsp) :
    (atKernelStack k c).regs r = c.regs r :=
  Cpu.regs_setReg_other other ..

theorem memory_atKernelStack (k : Kernel) (c : Cpu) {x : Nat} (outside : x ∉ savedVariables k) :
    (atKernelStack k c).memory x = c.memory x := by
  have away : ∀ a ∈ [k.userRsp, k.userRcx, k.userR11], x < a.toNat ∨ a.toNat + 8 ≤ x := by
    intro a member
    by_contra inside
    exact outside ⟨a, member, by omega⟩
  simp only [atKernelStack, Cpu.put, Cpu.setReg]
  rw [Memory.store_outside _ _ _ _ _ (away k.userR11 (by simp)),
    Memory.store_outside _ _ _ _ _ (away k.userRcx (by simp)),
    Memory.store_outside _ _ _ _ _ (away k.userRsp (by simp))]

/-- What the variables hold. -/
theorem word_atKernelStack (layout : Layout k) (c : Cpu) :
    (atKernelStack k c).memory.word k.userRsp.toNat = c.rsp ∧
      (atKernelStack k c).memory.word k.userRcx.toNat = c.regs .rcx ∧
      (atKernelStack k c).memory.word k.userR11.toNat = c.regs .r11 := by
  have apart : ∀ {m : Memory} {a b : Nat} (v : BitVec 64), a + 8 ≤ b ∨ b + 8 ≤ a →
      (m.store 8 b v.toNat).word a = m.word a := fun v disjoint =>
    congrArg (BitVec.ofNat 64) (Memory.load_store_disjoint _ disjoint)
  have := layout.rcx
  have := layout.r11
  have := layout.r11_rcx
  simp only [atKernelStack, Cpu.put, Cpu.setReg]
  refine ⟨?_, ?_, ?_⟩
  · rw [apart _ (by omega), apart _ (by omega), Cpu.word_store]
  · rw [apart _ (by omega), Cpu.word_store]
  · rw [Cpu.word_store]

/-- The state when the registers are on the kernel stack. -/
def saved (k : Kernel) (c : Cpu) : Cpu := (atKernelStack k c).pushAll (savedRegs.map c.regs)

theorem run_saveUserState (k : Kernel) (c : Cpu) : c.run (saveUserState k) = some (saved k c) := by
  have regs : savedRegs.map (atKernelStack k c).regs = savedRegs.map c.regs :=
    List.map_congr_left fun r member => regs_atKernelStack k c fun eq => by
      rw [eq] at member
      revert member
      decide
  have rcx : ((c.put k.userRsp c.rsp).setReg .rsp k.stackTop).regs .rcx = c.regs .rcx := by simp
  have r11 : (((c.put k.userRsp c.rsp).setReg .rsp k.stackTop).put k.userRcx (c.regs .rcx)).regs .r11 =
      c.regs .r11 := by
    simp
  rw [saveUserState, List.cons_append, Cpu.run_store, Cpu.regs_rsp, List.cons_append, Cpu.run_movImm,
    List.cons_append, Cpu.run_store, rcx, List.cons_append, Cpu.run_store, r11, List.nil_append,
    Cpu.run_pushes (by decide), ← atKernelStack, regs, saved]

theorem rsp_saved (layout : Layout k) (c : Cpu) : (saved k c).rsp.toNat = k.stackTop.toNat - 48 := by
  have room := layout.room
  have count : (savedRegs.map c.regs).length = 6 := rfl
  rw [saved, Cpu.toNat_rsp_pushAll (by rw [rsp_atKernelStack, count]; omega), rsp_atKernelStack, count]

theorem regs_saved (k : Kernel) (c : Cpu) {r : Reg} (other : r ≠ .rsp) : (saved k c).regs r = c.regs r := by
  rw [saved, Cpu.regs_pushAll other, regs_atKernelStack k c other]

theorem words_saved (layout : Layout k) (c : Cpu) :
    (saved k c).memory.words (saved k c).rsp.toNat 6 = (savedRegs.map c.regs).reverse := by
  have room := layout.room
  have count : (savedRegs.map c.regs).length = 6 := rfl
  have enough : 8 * (savedRegs.map c.regs).length ≤ (atKernelStack k c).rsp.toNat := by
    rw [rsp_atKernelStack, count]
    omega
  have words := Cpu.words_pushAll enough 0
  rw [count, Memory.words, List.append_nil] at words
  exact words

theorem memory_saved (layout : Layout k) (c : Cpu) {x : Nat} (outside : x ∉ kernelStack k 48) :
    (saved k c).memory x = (atKernelStack k c).memory x := by
  have room := layout.room
  have count : (savedRegs.map c.regs).length = 6 := rfl
  simp only [kernelStack, Set.mem_ofPred_eq, not_and, Nat.not_lt] at outside
  refine Cpu.pushAll_outside ?_ ?_ <;> rw [rsp_atKernelStack, count] <;> omega

/-- The state in which `dispatch_syscall` is entered. -/
def entered (k : Kernel) (c : Cpu) : Cpu :=
  (((((saved k c).setReg .rcx (c.regs .rdx)).setReg .rdx (c.regs .rsi)).setReg .rsi
    (c.regs .rdi)).setReg .rdi (c.regs .rax)).push k.next

theorem run_passArguments (k : Kernel) (c : Cpu) (rest : List Instr) :
    (saved k c).run (passArguments ++ (.callFn k.next k.dispatchSyscall :: rest)) =
      (k.dispatchSyscall (entered k c)).bind (·.run rest) := by
  have rdx := regs_saved k c (r := .rdx) (by decide)
  have rsi := regs_saved k c (r := .rsi) (by decide)
  have rdi := regs_saved k c (r := .rdi) (by decide)
  have rax := regs_saved k c (r := .rax) (by decide)
  unfold entered
  generalize saved k c = s at *
  rw [passArguments, List.cons_append, Cpu.run_mov, rdx, List.cons_append, Cpu.run_mov,
    Cpu.regs_setReg_other (by decide), rsi, List.cons_append, Cpu.run_mov,
    Cpu.regs_setReg_other (by decide), Cpu.regs_setReg_other (by decide), rdi, List.cons_append,
    Cpu.run_mov, Cpu.regs_setReg_other (by decide), Cpu.regs_setReg_other (by decide),
    Cpu.regs_setReg_other (by decide), rax, List.nil_append, Cpu.run_callFn]

theorem rsp_entered (k : Kernel) (c : Cpu) : (entered k c).rsp = (saved k c).rsp - 8 := by
  rw [entered, Cpu.rsp_push]
  simp [Cpu.rsp]

theorem memory_entered (layout : Layout k) (c : Cpu) {x : Nat}
    (outside : x < k.stackTop.toNat - 56 ∨ k.stackTop.toNat - 48 ≤ x) :
    (entered k c).memory x = (saved k c).memory x := by
  have room := layout.room
  have low := rsp_saved layout c
  have place : ((saved k c).rsp - 8).toNat = (saved k c).rsp.toNat - 8 :=
    Cpu.toNat_sub_eight (by omega)
  have written : (entered k c).memory =
      (saved k c).memory.store 8 ((saved k c).rsp - 8).toNat k.next.toNat := by
    simp [entered, Cpu.push, Cpu.rsp]
  rw [written]
  exact Memory.store_outside _ _ _ _ _ (by omega)

/-! ### The way out -/

/-- What `dispatch_syscall` owes: it is a C function, and it writes neither the stack of its caller
nor the variables, which only the assembly code uses. -/
structure Dispatches (k : Kernel) (entry after : Cpu) : Prop extends Cpu.Returns entry after where
  stack : ∀ x ∈ kernelStack k 48, after.memory x = entry.memory x
  kept : ∀ x ∈ savedVariables k, after.memory x = entry.memory x
  msr : after.msr = entry.msr

theorem mem_restoredRegs {r : Reg} : r ∈ restoredRegs ↔ r ∈ Cpu.calleeSaved := by
  cases r <;> decide

/-- What `handle_syscall` finds when `dispatch_syscall` has returned. -/
structure Found (k : Kernel) (c r : Cpu) : Prop where
  rsp : r.rsp.toNat = k.stackTop.toNat - 48
  stack : r.memory.words r.rsp.toNat 6 = (savedRegs.map c.regs).reverse
  userRsp : r.memory.word k.userRsp.toNat = c.rsp
  userRcx : r.memory.word k.userRcx.toNat = c.regs .rcx
  userR11 : r.memory.word k.userR11.toNat = c.regs .r11

theorem found_of_dispatches (layout : Layout k) {after : Cpu}
    (dispatches : Dispatches k (entered k c) after) : Found k c after := by
  have room := layout.room
  have low := rsp_saved layout c
  have same : after.rsp = (saved k c).rsp := by
    rw [dispatches.rsp, rsp_entered]
    exact BitVec.sub_add_cancel ..
  obtain ⟨userRsp, userRcx, userR11⟩ := word_atKernelStack layout c
  -- the variables are neither on the stack nor written by the function
  have variable_kept : ∀ a ∈ [k.userRsp, k.userRcx, k.userR11],
      after.memory.word a.toNat = (atKernelStack k c).memory.word a.toNat := by
    intro a member
    have off := layout.offStack a member
    refine congrArg (BitVec.ofNat 64) (Memory.load_congr 8 _ fun x lower upper => ?_)
    rw [dispatches.kept x ⟨a, member, lower, upper⟩, memory_entered layout c (by omega),
      memory_saved layout c]
    simp only [kernelStack, Set.mem_ofPred_eq, not_and, Nat.not_lt]
    omega
  refine ⟨by rw [same, low], ?_, ?_, ?_, ?_⟩
  · rw [same, ← words_saved layout c]
    refine Cpu.words_congr fun x lower upper => ?_
    rw [dispatches.stack x ⟨by omega, by omega⟩, memory_entered layout c (.inr (by omega))]
  · rw [variable_kept _ (by simp), userRsp]
  · rw [variable_kept _ (by simp), userRcx]
  · rw [variable_kept _ (by simp), userR11]

/-- What user code goes on with: `c` is the state when it made the call, and `after` the one in which
`dispatch_syscall` returned. -/
structure GoesOn (k : Kernel) (c after c' : Cpu) : Prop where
  rip : c'.rip = c.rip
  rsp : c'.rsp = c.rsp
  rflags : c'.rflags = c.rflags &&& 0x3C7FD7 ||| 2
  saved : ∀ r ∈ Cpu.calleeSaved, c'.regs r = c.regs r
  result : c'.regs .rax = after.regs .rax
  rcx : c'.regs .rcx = c.rip
  r11 : c'.regs .r11 = c.rflags
  left : ∀ r ∈ [.rdi, .rsi, .rdx, .r8, .r9, .r10], c'.regs r = after.regs r
  cs : c'.segments .cs = 0x33
  ss : c'.segments .ss = 0x2B
  data : ∀ s, s ≠ .cs → s ≠ .ss → c'.segments s = 0x2B
  msr : c'.msr = after.msr
  memory : ∀ x ∉ kernelStack k 8, c'.memory x = after.memory x

/-- The registers after the pops. -/
theorem popAll_found {r : Cpu} (layout : Layout k) (found : Found k c r) :
    (∀ s ∈ Cpu.calleeSaved, (r.popAll restoredRegs).regs s = c.regs s) ∧
      (r.popAll restoredRegs).rsp = k.stackTop := by
  have room := layout.room
  have size := k.stackTop.isLt
  have low := found.rsp
  have count : restoredRegs.length = 6 := rfl
  have order : savedRegs.reverse = restoredRegs := by decide
  have taken := Cpu.map_regs_popAll (c := r) (by decide : .rsp ∉ restoredRegs) (by decide)
    (by rw [count]; omega)
  constructor
  · rw [count, found.stack, ← List.map_reverse, order] at taken
    exact fun s member => List.map_inj_left.mp taken s (mem_restoredRegs.mpr member)
  · apply BitVec.eq_of_toNat_eq
    rw [Cpu.rsp_popAll (by decide), count, BitVec.toNat_add, BitVec.toNat_ofNat]
    omega

/-- The registers are back except for `rsp` and `rax`, and the result of the call is on the stack while
the selectors are loaded. -/
structure Reloaded (k : Kernel) (c r b : Cpu) : Prop where
  rsp : b.regs .rsp = k.stackTop - 8
  rcx : b.regs .rcx = c.regs .rcx
  r11 : b.regs .r11 = c.regs .r11
  saved : ∀ s ∈ Cpu.calleeSaved, b.regs s = c.regs s
  left : ∀ s ∈ [.rdi, .rsi, .rdx, .r8, .r9, .r10], b.regs s = r.regs s
  memory : b.memory = r.memory.store 8 (k.stackTop.toNat - 8) (r.regs .rax).toNat
  msr : b.msr = r.msr

theorem run_reload {r : Cpu} (layout : Layout k) (found : Found k c r) (rest : List Instr) :
    ∃ b, r.run (restoredRegs.map .pop ++
        ([.load .rcx k.userRcx, .load .r11 k.userR11, .push .rax] ++ rest)) = b.run rest ∧
      Reloaded k c r b := by
  have room := layout.room
  obtain ⟨regs, top⟩ := popAll_found layout found
  have plain : ∀ s ∉ restoredRegs, s ≠ .rsp → (r.popAll restoredRegs).regs s = r.regs s :=
    fun s other stack => Cpu.regs_popAll_other other stack r
  have kept := Cpu.popAll_eq r restoredRegs
  rw [Cpu.run_append, Cpu.run_pops, Option.bind_some]
  generalize r.popAll restoredRegs = p at *
  have memory : p.memory = r.memory := by rw [kept]
  have msr : p.msr = r.msr := by rw [kept]
  rw [List.cons_append, Cpu.run_load, List.cons_append, Cpu.run_load, Cpu.memory_setReg, memory,
    found.userRcx, found.userR11, List.cons_append, Cpu.run_push, List.nil_append]
  generalize before : Cpu.push _ _ = b
  have place : (k.stackTop - 8).toNat = k.stackTop.toNat - 8 := Cpu.toNat_sub_eight (by omega)
  have rax : p.regs .rax = r.regs .rax := plain .rax (by decide) (by decide)
  have others : ∀ s ∉ [.rcx, .r11, .rsp], b.regs s = p.regs s := by
    intro s other
    simp only [List.mem_cons, List.not_mem_nil, or_false, not_or] at other
    rw [← before, Cpu.regs_push other.2.2, Cpu.regs_setReg_other other.2.1,
      Cpu.regs_setReg_other other.1]
  refine ⟨b, rfl, ?_⟩
  constructor
  · rw [← before, Cpu.regs_rsp, Cpu.rsp_push, ← top]
    simp [Cpu.rsp]
  · simp [← before]
  · simp [← before]
  · intro s member
    have other : s ∉ [.rcx, .r11, .rsp] := by
      revert member
      cases s <;> decide
    exact (others s other).trans (regs s member)
  · intro s member
    have other : s ∉ [.rcx, .r11, .rsp] ∧ s ≠ .rsp ∧ s ∉ restoredRegs := by
      revert member
      cases s <;> decide
    exact (others s other.1).trans (plain s other.2.2 other.2.1)
  · rw [← memory, ← place, ← top, ← rax, ← before]
    simp [Cpu.push, Cpu.rsp]
  · rw [← msr, ← before]
    rfl

theorem run_restoreUserState {u r : Cpu} (layout : Layout k) (found : Found k c r)
    (rip : c.regs .rcx = u.rip) (rflags : c.regs .r11 = u.rflags) (rsp : c.rsp = u.rsp)
    (callee : ∀ s ∈ Cpu.calleeSaved, c.regs s = u.regs s)
    (star : (r.msr Cpu.star).extractLsb' 48 16 = 0x20) :
    ∃ c', r.run (restoreUserState k) = some c' ∧ GoesOn k u r c' := by
  have room := layout.room
  obtain ⟨b, reload, reloaded⟩ := run_reload layout found
    (loadUserSegments ++ [.pop .rax, .load .rsp k.userRsp, .sysretq])
  obtain ⟨d, v, ran, eq⟩ := run_loadUserSegments [.pop .rax, .load .rsp k.userRsp, .sysretq] b
  have place : (k.stackTop - 8).toNat = k.stackTop.toNat - 8 := Cpu.toNat_sub_eight (by omega)
  -- `rax` is used for the selectors, and gets the result back from the stack
  have dRegs : ∀ s ≠ .rax, d.regs s = b.regs s := fun s other => by
    rw [eq]
    exact Function.update_of_ne other ..
  have dTop : d.top = r.regs .rax := by
    have dRsp : d.rsp = k.stackTop - 8 := (dRegs .rsp (by decide)).trans reloaded.rsp
    rw [Cpu.top, dRsp, place, eq]
    exact (congrArg (Memory.word · _) reloaded.memory).trans (Cpu.word_store ..)
  have dUser : (d.pop .rax).memory.word k.userRsp.toNat = c.rsp := by
    have off := layout.offStack k.userRsp (by simp)
    have same : (d.pop .rax).memory = b.memory := by rw [eq]; rfl
    rw [same, reloaded.memory, ← found.userRsp]
    exact congrArg (BitVec.ofNat 64) (Memory.load_store_disjoint _ (by omega))
  have last : ∀ s ≠ .rax, s ≠ .rsp → ((d.pop .rax).setReg .rsp c.rsp).regs s = b.regs s :=
    fun s result stack => by
      rw [Cpu.regs_setReg_other stack, Cpu.regs_pop_other result stack, dRegs s result]
  have msr : ((d.pop .rax).setReg .rsp c.rsp).msr = r.msr := by
    rw [← reloaded.msr, eq]
    rfl
  have rcx : ((d.pop .rax).setReg .rsp c.rsp).regs .rcx = u.rip :=
    (last .rcx (by decide) (by decide)).trans (reloaded.rcx.trans rip)
  have r11 : ((d.pop .rax).setReg .rsp c.rsp).regs .r11 = u.rflags :=
    (last .r11 (by decide) (by decide)).trans (reloaded.r11.trans rflags)
  rw [restoreUserState, reload, ran, Cpu.run_pop, Cpu.run_load, dUser, Cpu.run_sysretq, Cpu.run_nil]
  refine ⟨_, rfl, ?_⟩
  constructor
  · exact rcx
  · exact (Cpu.regs_setReg_self (d.pop .rax) .rsp c.rsp).trans rsp
  · rw [Cpu.sysretq, r11]
  · intro s member
    have other : s ≠ .rax ∧ s ≠ .rsp := by
      revert member
      cases s <;> decide
    exact (last s other.1 other.2).trans ((reloaded.saved s member).trans (callee s member))
  · rw [← dTop, ← Cpu.regs_pop_self d .rax]
    exact Cpu.regs_setReg_other (by decide : Reg.rax ≠ .rsp) (d.pop .rax) c.rsp
  · exact rcx
  · exact r11
  · intro s member
    have other : s ≠ .rax ∧ s ≠ .rsp := by
      revert member
      cases s <;> decide
    exact (last s other.1 other.2).trans (reloaded.left s member)
  · simp only [Cpu.sysretq, msr, star]
    decide
  · simp only [Cpu.sysretq, msr, star]
    decide
  · intro s code stack
    cases s <;> first | contradiction | (rw [eq]; rfl)
  · exact msr
  · intro x outside
    have same : ((d.pop .rax).setReg .rsp c.rsp).memory = b.memory := by rw [eq]; rfl
    simp only [kernelStack, Set.mem_ofPred_eq, not_and, Nat.not_lt] at outside
    refine (congrFun same x).trans ?_
    rw [reloaded.memory]
    exact Memory.store_outside _ _ _ _ _ (by omega)

/-! ### The whole call -/

/-- What `dispatch_syscall` is entered with: the number and three arguments, ring 0 with interrupts
off, an aligned stack, and no memory touched but the kernel's own. -/
structure Dispatched (k : Kernel) (c entry : Cpu) : Prop where
  id : entry.regs .rdi = c.regs .rax
  arg1 : entry.regs .rsi = c.regs .rdi
  arg2 : entry.regs .rdx = c.regs .rsi
  arg3 : entry.regs .rcx = c.regs .rdx
  others : ∀ r ∈ [.r8, .r9, .r10], entry.regs r = c.regs r
  cs : entry.segments .cs = 0x18
  ss : entry.segments .ss = 0x20
  masked : entry.rflags.getLsbD 9 = false
  aligned : (entry.rsp.toNat + 8) % 16 = 0
  memory : ∀ x ∉ kernelStack k 56, x ∉ savedVariables k → entry.memory x = c.memory x

theorem regs_syscall (c : Cpu) {r : Reg} (rcx : r ≠ .rcx) (r11 : r ≠ .r11) :
    c.syscall.regs r = c.regs r := by
  simp [Cpu.syscall, rcx, r11]

theorem entered_frame (k : Kernel) (c : Cpu) : (entered k c).segments = c.segments ∧
    (entered k c).rflags = c.rflags ∧ (entered k c).msr = c.msr := by
  rw [entered, saved, Cpu.pushAll_eq]
  exact ⟨rfl, rfl, rfl⟩

theorem star_halves {v : BitVec 64} (upper : v.extractLsb' 32 32 = 0x00200018) :
    v.extractLsb' 48 16 = 0x20 ∧ v.extractLsb' 32 16 = 0x18 := by
  constructor
  · have part : (v.extractLsb' 32 32).extractLsb' 16 16 = v.extractLsb' 48 16 := by
      refine BitVec.eq_of_getLsbD_eq fun i inside => ?_
      have small : 16 + i < 32 := by omega
      simp [BitVec.getLsbD_extractLsb', small, ← Nat.add_assoc]
    rw [← part, upper]
    decide
  · have part : (v.extractLsb' 32 32).extractLsb' 0 16 = v.extractLsb' 32 16 := by
      refine BitVec.eq_of_getLsbD_eq fun i inside => ?_
      have small : i < 32 := by omega
      simp [BitVec.getLsbD_extractLsb', small]
    rw [← part, upper]
    decide

theorem dispatched (layout : Layout k) (user : InUserSpace k c) :
    Dispatched k c (entered k c.syscall) := by
  have room := layout.room
  have low := rsp_saved layout c.syscall
  obtain ⟨-, base⟩ := star_halves user.programmed.star
  obtain ⟨segments, rflags, -⟩ := entered_frame k c.syscall
  constructor
  · rw [entered, Cpu.regs_push (by decide), Cpu.regs_setReg_self]
    exact regs_syscall c (by decide) (by decide)
  · rw [entered, Cpu.regs_push (by decide), Cpu.regs_setReg_other (by decide), Cpu.regs_setReg_self]
    exact regs_syscall c (by decide) (by decide)
  · rw [entered, Cpu.regs_push (by decide), Cpu.regs_setReg_other (by decide),
      Cpu.regs_setReg_other (by decide), Cpu.regs_setReg_self]
    exact regs_syscall c (by decide) (by decide)
  · rw [entered, Cpu.regs_push (by decide), Cpu.regs_setReg_other (by decide),
      Cpu.regs_setReg_other (by decide), Cpu.regs_setReg_other (by decide), Cpu.regs_setReg_self]
    exact regs_syscall c (by decide) (by decide)
  · intro r member
    have other : r ∉ [.rcx, .rdx, .rsi, .rdi, .rsp, .r11] := by
      revert member
      cases r <;> decide
    simp only [List.mem_cons, List.not_mem_nil, or_false, not_or] at other
    obtain ⟨rcx, rdx, rsi, rdi, rsp, r11⟩ := other
    rw [entered, Cpu.regs_push rsp, Cpu.regs_setReg_other rdi, Cpu.regs_setReg_other rsi,
      Cpu.regs_setReg_other rdx, Cpu.regs_setReg_other rcx, regs_saved k _ rsp, regs_syscall c rcx r11]
  · rw [segments, Cpu.syscall, base]
    exact (by decide : (0x18 &&& 0xFFFC : BitVec 16) = 0x18)
  · rw [segments, Cpu.syscall, base]
    exact (by decide : (0x18 + 8 : BitVec 16) = 0x20)
  · rw [rflags, Cpu.syscall, user.programmed.fmask]
    simp
  · rw [rsp_entered, Cpu.toNat_sub_eight (by omega), low]
    have := layout.aligned
    omega
  · intro x stack outside
    simp only [kernelStack, Set.mem_ofPred_eq, not_and, Nat.not_lt] at stack
    rw [memory_entered layout _ (by omega), memory_saved layout, memory_atKernelStack k _ outside]
    · rfl
    · simp only [kernelStack, Set.mem_ofPred_eq, not_and, Nat.not_lt]
      omega

theorem run_systemCall (user : InUserSpace k c) : systemCall k c =
    (k.dispatchSyscall (entered k c.syscall)).bind (·.run (restoreUserState k)) := by
  rw [systemCall, if_pos ⟨user.programmed.efer, user.programmed.lstar⟩, handleSyscall, Cpu.run_append,
    run_saveUserState, Option.bind_some, run_passArguments]

/-- If `dispatch_syscall` does what a C function does, user code goes on behind the instruction. -/
theorem run_dispatched (layout : Layout k) (user : InUserSpace k c) {after : Cpu}
    (came : k.dispatchSyscall (entered k c.syscall) = some after)
    (kept : Dispatches k (entered k c.syscall) after) :
    ∃ c', systemCall k c = some c' ∧ GoesOn k c after c' ∧ InUserSpace k c' := by
  have msr : after.msr = c.msr := by
    rw [kept.msr, (entered_frame k c.syscall).2.2]
    rfl
  have star : (after.msr Cpu.star).extractLsb' 48 16 = 0x20 := by
    rw [msr]
    exact (star_halves user.programmed.star).1
  obtain ⟨c', ran, on⟩ := run_restoreUserState (u := c) layout (found_of_dispatches layout kept)
    (by simp [Cpu.syscall]) (by simp [Cpu.syscall]) (regs_syscall c (by decide) (by decide))
    (fun s member => regs_syscall c (by rintro rfl; revert member; decide)
      (by rintro rfl; revert member; decide)) star
  have programmed := user.programmed
  refine ⟨c', by rw [run_systemCall user, came, Option.bind_some, ran], on, ⟨?_, ?_, ?_, ?_⟩, on.cs,
    on.ss, ?_⟩
  · rw [on.msr, msr, programmed.lstar]
  · rw [on.msr, msr, programmed.star]
  · rw [on.msr, msr, programmed.fmask]
  · rw [on.msr, msr, programmed.efer]
  · rw [on.rflags, BitVec.getLsbD_or, BitVec.getLsbD_and, user.interruptible]
    decide

/-- A system call from any state of user space reaches `dispatch_syscall` with its arguments, and comes
back from there. -/
theorem systemCall_returns (layout : Layout k) (user : InUserSpace k c) :
    ∃ entry, Dispatched k c entry ∧
      systemCall k c = (k.dispatchSyscall entry).bind (·.run (restoreUserState k)) ∧
      ∀ after, k.dispatchSyscall entry = some after → Dispatches k entry after →
        ∃ c', systemCall k c = some c' ∧ GoesOn k c after c' ∧ InUserSpace k c' :=
  ⟨entered k c.syscall, dispatched layout user, run_systemCall user, fun _ came kept =>
    run_dispatched layout user came kept⟩

/-! ### Interrupts during a call -/

end KopalniaOS.UserSpace
