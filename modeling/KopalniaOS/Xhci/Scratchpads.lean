import KopalniaOS.Heap.Client
import KopalniaOS.Paging.Model

/-!
# The memory that an xHCI controller asks for

The controller tells in its capability registers how many scratchpad buffers it needs.
`_parse_capability_registers` reads the number, and `_setup_dcbaa` allocates as many pages and puts
an array of their addresses into entry 0 of the device context base address array.
-/
namespace KopalniaOS.Xhci

open Library Heap Paging

/-! ### Capability registers -/

/-- `xhci_capability_registers`, as far as they are read. -/
structure CapabilityRegisters where
  caplength : UInt8
  hcsparams1 : UInt32
  hcsparams2 : UInt32
  hccparams1 : UInt32
  dboff : UInt32
  rtsoff : UInt32
deriving DecidableEq, Repr

namespace CapabilityRegisters

variable (regs : CapabilityRegisters)

def maxDeviceSlots : UInt32 := regs.hcsparams1 &&& 0xFF

def maxInterrupters : UInt32 := regs.hcsparams1 >>> 8 &&& 0x7FF

def maxPorts : UInt32 := regs.hcsparams1 >>> 24 &&& 0xFF

def ist : UInt32 := regs.hcsparams2 &&& 0xF

def erstMax : UInt32 := regs.hcsparams2 >>> 4 &&& 0xF

def maxScratchpadBufsHi : UInt32 := regs.hcsparams2 >>> 21 &&& 0x1F

def maxScratchpadBufsLo : UInt32 := regs.hcsparams2 >>> 27 &&& 0x1F

def maxScratchpadBuffers : UInt32 := regs.maxScratchpadBufsHi <<< 5 ||| regs.maxScratchpadBufsLo

def ac64 : UInt32 := regs.hccparams1 &&& 0x1

def bnc : UInt32 := regs.hccparams1 >>> 1 &&& 0x1

def csz : UInt32 := regs.hccparams1 >>> 2 &&& 0x1

def ppc : UInt32 := regs.hccparams1 >>> 3 &&& 0x1

def pind : UInt32 := regs.hccparams1 >>> 4 &&& 0x1

def lhrc : UInt32 := regs.hccparams1 >>> 5 &&& 0x1

def xecp : UInt32 := regs.hccparams1 >>> 16 &&& 0xFFFF

end CapabilityRegisters

/-- The fields of `xhci_driver` that come from the capability registers. -/
structure Capabilities where
  capabilityRegsLength : UInt8
  maxDeviceSlots : UInt8
  maxInterrupters : UInt8
  maxPorts : UInt8
  isochronousSchedulingThreshold : UInt8
  erstMax : UInt8
  maxScratchpadBuffers : UInt8
  m64bitAddressingCapability : Bool
  bandwidthNegotiationCapability : Bool
  m64byteContextSize : Bool
  portPowerControl : Bool
  portIndicators : Bool
  lightResetCapability : Bool
  extendedCapabilitiesOffset : UInt32
  opRegs : Nat
  runtimeRegs : Nat
  doorbellManager : Nat
deriving DecidableEq, Repr

/-! ### The code -/

inductive SetupOp where
  | heap (o : ClientOp)
  | writeDcbaap (value : Nat)
  | error (text : String)

abbrev SetupOp.Answer : SetupOp → Type
  | .heap o => o.Answer
  | _ => Unit

abbrev SetupProgram := Program SetupOp SetupOp.Answer

def onHeap (o : ClientOp) : SetupProgram o.Answer := Program.perform (SetupOp.heap o)

/-- What `log::error` is followed by does not end. -/
def fail (text : String) : SetupProgram Nat := do
  Program.perform (SetupOp.error text)
  -- `while (true);`
  Program.stuck

/-- The loop of `mem::memset` over the last `left` of the bytes. -/
def clearBytes (dst : Nat) : (left i : Nat) → SetupProgram Unit
  | 0, _ => pure ()
  | left + 1, i => do
    onHeap (.store 1 (dst + i) 0)
    clearBytes dst left (i + 1)

def allocXhciMemory (size alignment boundary : Nat) : SetupProgram Nat :=
  if size = 0 then fail "Attempted DMA allocation with size 0!\n"
  else if alignment = 0 then fail "Attempted DMA allocation with alignment 0!\n"
  else if boundary = 0 then fail "Attempted DMA allocation with boundary 0!\n"
  else do
    let memblock ← onHeap (.mallocBoundry size alignment boundary)
    if memblock = 0 then fail "======= MEMORY ALLOCATION FAILED =======\n"
    else do
      clearBytes memblock size 0
      pure memblock

/-- `new xhci_doorbell_manager(base)` -/
def newDoorbellManager (base : Nat) : SetupProgram Nat := do
  let manager ← onHeap (.malloc 8)
  onHeap (.store 8 manager base)
  pure manager

def parseCapabilityRegisters (xhciBase : Nat) (regs : CapabilityRegisters) :
    SetupProgram Capabilities := do
  let doorbellManager ← newDoorbellManager (u64 (xhciBase + regs.dboff.toNat))
  pure {
    capabilityRegsLength := regs.caplength
    maxDeviceSlots := regs.maxDeviceSlots.toUInt8
    maxInterrupters := regs.maxInterrupters.toUInt8
    maxPorts := regs.maxPorts.toUInt8
    isochronousSchedulingThreshold := regs.ist.toUInt8
    erstMax := regs.erstMax.toUInt8
    -- ten bits go into a `uint8_t`
    maxScratchpadBuffers := regs.maxScratchpadBuffers.toUInt8
    m64bitAddressingCapability := regs.ac64 != 0
    bandwidthNegotiationCapability := regs.bnc != 0
    m64byteContextSize := regs.csz != 0
    portPowerControl := regs.ppc != 0
    portIndicators := regs.pind != 0
    lightResetCapability := regs.lhrc != 0
    extendedCapabilitiesOffset := regs.xecp * 4
    opRegs := u64 (xhciBase + regs.caplength.toNat)
    runtimeRegs := u64 (xhciBase + regs.rtsoff.toNat)
    doorbellManager }

/-- The loop of `_setup_dcbaa` over the last `left` of the buffers. -/
def allocScratchpads (hhdm scratchpadArray : Nat) : (left i : Nat) → SetupProgram Unit
  | 0, _ => pure ()
  | left + 1, i => do
    let scratchpad ← allocXhciMemory 4096 4096 4096
    onHeap (.store 8 (scratchpadArray + 8 * i) (toPhysical hhdm scratchpad))
    allocScratchpads hhdm scratchpadArray left (i + 1)

/-- `m_dcbaa` and `m_dcbaa_virtual`. -/
structure Dcbaa where
  dcbaa : Nat
  dcbaaVirtual : Nat
deriving DecidableEq, Repr

def setupDcbaa (hhdm : Nat) (caps : Capabilities) : SetupProgram Dcbaa := do
  let dcbaa ← allocXhciMemory (8 * (caps.maxDeviceSlots.toNat + 1)) 64 4096
  let dcbaaVirtual ← onHeap (.malloc ((caps.maxDeviceSlots.toNat + 1) * 8))
  if 0 < caps.maxScratchpadBuffers.toNat then do
    let scratchpadArray ← allocXhciMemory (caps.maxScratchpadBuffers.toNat * 8) 64 4096
    allocScratchpads hhdm scratchpadArray caps.maxScratchpadBuffers.toNat 0
    onHeap (.store 8 dcbaa (toPhysical hhdm scratchpadArray))
    onHeap (.store 8 dcbaaVirtual (toPhysical hhdm scratchpadArray))
  else pure ()
  Program.perform (SetupOp.writeDcbaap (toPhysical hhdm dcbaa))
  pure ⟨dcbaa, dcbaaVirtual⟩

/-- `init_device` and `_configure_operational_register` make these calls in this order. -/
def setUpMemory (hhdm xhciBase : Nat) (regs : CapabilityRegisters) : SetupProgram Dcbaa := do
  let caps ← parseCapabilityRegisters xhciBase regs
  setupDcbaa hhdm caps

structure SetupState where
  heap : HeapState
  dcbaap : Nat
  errors : List String

def setupHandler (g : Globals) : Handler SetupOp SetupOp.Answer SetupState
  | .heap o, s => do
    let (r, heap) ← clientHandler g o s.heap
    some (r, { s with heap })
  | .writeDcbaap value, s => some ((), { s with dcbaap := value })
  | .error text, s => some ((), { s with errors := s.errors ++ [text] })

/-! ### What the controller is to get -/

/-- The number that the two fields of HCSPARAMS2 make up, the high five bits in bits 21 to 25 and the
low five in bits 27 to 31. -/
def advertised (regs : CapabilityRegisters) : Nat :=
  32 * (regs.hcsparams2.toNat / 2 ^ 21 % 32) + regs.hcsparams2.toNat / 2 ^ 27 % 32

theorem maxScratchpadBuffers_eq (regs : CapabilityRegisters) :
    regs.maxScratchpadBuffers.toNat = advertised regs := by
  have low (n : UInt32) : (n &&& 0x1F).toNat = n.toNat % 32 :=
    Nat.and_two_pow_sub_one_eq_mod n.toNat 5
  -- two fields of five bits; the high part of the number lies below the low one
  have hi : regs.maxScratchpadBufsHi.toNat = regs.hcsparams2.toNat / 2 ^ 21 % 32 := by
    rw [CapabilityRegisters.maxScratchpadBufsHi, low, UInt32.toNat_shiftRight]
    simp [Nat.shiftRight_eq_div_pow]
  have lo : regs.maxScratchpadBufsLo.toNat = regs.hcsparams2.toNat / 2 ^ 27 % 32 := by
    rw [CapabilityRegisters.maxScratchpadBufsLo, low, UInt32.toNat_shiftRight]
    simp [Nat.shiftRight_eq_div_pow]
  have small : regs.hcsparams2.toNat / 2 ^ 27 % 32 < 2 ^ 5 := Nat.mod_lt _ (by decide)
  rw [CapabilityRegisters.maxScratchpadBuffers, UInt32.toNat_or, UInt32.toNat_shiftLeft, hi, lo,
    advertised]
  -- the high part is shifted by five, which does not leave 32 bits
  have few : regs.hcsparams2.toNat / 2 ^ 21 % 32 < 32 := Nat.mod_lt _ (by decide)
  have shift : (regs.hcsparams2.toNat / 2 ^ 21 % 32) <<< (UInt32.toNat 5 % 32) % 2 ^ 32 =
      (regs.hcsparams2.toNat / 2 ^ 21 % 32) <<< 5 := by
    rw [Nat.shiftLeft_eq, Nat.shiftLeft_eq, Nat.mod_eq_of_lt]
    · rfl
    · change _ * 2 ^ 5 < _
      omega
  rw [shift, ← Nat.shiftLeft_add_eq_or_of_lt small, Nat.shiftLeft_eq, Nat.mul_comm]

/-- `n` bytes at `p` and `n'` bytes at `p'` do not meet. -/
def Apart (p n p' n' : Nat) : Prop := p + n ≤ p' ∨ p' + n' ≤ p

/-- A zeroed page in the block at `raw`, which is new. -/
structure Scratchpad (before after : HeapState) (page raw : Nat) : Prop where
  fresh : raw ∉ before.live
  held : Held after 4096 page raw
  aligned : 4096 ∣ page
  zeroed : ∀ k < 4096, after.mem (page + k) = 0

/-- The pages of `pads`, each in a block of its own, and their array, whose address is in entry 0. -/
structure Supplied (hhdm slots count : Nat) (before after : HeapState) (dcbaa array : Nat)
    (pads : List (Nat × Nat)) : Prop where
  entry : after.mem.load 8 dcbaa = toPhysical hhdm array
  aligned : 64 ∣ array
  room : ∃ raw ∉ before.live, Held after (8 * count) array raw
  length : pads.length = count
  listed : ∀ i pad, pads[i]? = some pad → after.mem.load 8 (array + 8 * i) = toPhysical hhdm pad.1
  each : ∀ pad ∈ pads, Scratchpad before after pad.1 pad.2
  own : (pads.map Prod.snd).Nodup
  disjoint : pads.Pairwise fun pad other => Apart pad.1 4096 other.1 4096
  outside : ∀ pad ∈ pads, Apart pad.1 4096 array (8 * count) ∧
    Apart pad.1 4096 dcbaa (8 * (slots + 1))

/-- The controller knows where the array of device contexts is, and finds in entry 0 what it needs. -/
def Delivered (hhdm slots count : Nat) (before after : SetupState) (r : Dcbaa) : Prop :=
  after.dcbaap = toPhysical hhdm r.dcbaa ∧
    if count = 0 then after.heap.mem.load 8 r.dcbaa = 0
    else ∃ array pads, Supplied hhdm slots count before.heap after.heap r.dcbaa array pads

variable {g : Globals} {st st' : HeapState} {s t : SetupState} {hhdm n p raw : Nat}

/-- There are no more pages than new blocks. -/
theorem Supplied.count_le {slots count dcbaa array : Nat} {pads : List (Nat × Nat)}
    (supplied : Supplied hhdm slots count st st' dcbaa array pads) {new : List Nat}
    (live : st'.live = new ++ st.live) : count ≤ new.length := by
  have among : pads.map Prod.snd ⊆ new := by
    intro raw member
    obtain ⟨pad, listed, rfl⟩ := List.mem_map.mp member
    have scratchpad := supplied.each pad listed
    have alive := scratchpad.held.live
    rw [live] at alive
    exact (List.mem_append.mp alive).resolve_right scratchpad.fresh
  have fewer := List.Nodup.length_le_of_subset supplied.own among
  rwa [List.length_map, supplied.length] at fewer

/-! ### Memory of the driver -/

/-- Zeroed memory in a new block. -/
structure Provided (g : Globals) (st : HeapState) (n p raw : Nat) (st' : HeapState) : Prop where
  sound : Sound g st'
  live : st'.live = raw :: st.live
  fresh : raw ∉ st.live
  held : Held st' n p raw
  zeroed : ∀ k < n, st'.mem (p + k) = 0
  kept : ∀ q ∈ st.live, Preserved st st' q

theorem Provided.load_zero (provided : Provided g st n p raw st') (room : 8 ≤ n) :
    st'.mem.load 8 p = 0 := by
  refine Memory.load_zero _ 8 p fun x lower upper => ?_
  obtain ⟨k, rfl⟩ := Nat.exists_eq_add_of_le lower
  exact provided.zeroed k (by omega)

/-- A block that is cleared from the pointer in it on. -/
theorem allocated_provided {total : Nat} {m : Memory} (given : Allocated g st total raw m)
    (held : Held (st.allocated raw m) n p raw) :
    Provided g st n p raw (st.allocated raw (m.copyFrom (fun _ => 0) p 0 n)) := by
  have above := held.above
  have below := held.below
  have same (x : Nat) (outside : x < raw ∨ raw + (st.allocated raw m).sizeOf raw ≤ x) :
      m.copyFrom (fun _ => 0) p 0 n x = m x := Memory.copyFrom_outside _ _ (by omega)
  have filled := given.fill same
  obtain ⟨-, size, -⟩ := given.sound.fill given.member same
  refine ⟨filled.sound, filled.live_eq, filled.fresh, ⟨filled.member, above, ?_, ?_⟩,
    fun k inside => ?_, filled.kept⟩
  · exact below.trans (Nat.le_of_eq (congrArg (raw + ·) size.symm))
  · have kept : (m.copyFrom (fun _ => 0) p 0 n).load 8 (p - 8) = m.load 8 (p - 8) :=
      Memory.load_copyFrom_disjoint _ _ (by omega)
    exact kept.trans held.header
  · change m.copyFrom (fun _ => 0) p 0 n (p + k) = 0
    rw [Memory.copyFrom_inside m _ inside]

theorem run_clearBytes (dst : Nat) (notNull : dst ≠ 0) (left i : Nat) :
    (clearBytes dst left i).run (setupHandler g) s = some ((),
      { s with heap := ⟨s.heap.mem.copyFrom (fun _ => 0) (dst + i) 0 left, s.heap.live⟩ }) := by
  induction left generalizing i s with
  | zero => simp [clearBytes]
  | succ left ih =>
    have zero : s.heap.mem.store 1 (dst + i) 0 = s.heap.mem.copyFrom (fun _ => 0) (dst + i) 0 1 :=
      Memory.store_load_eq s.heap.mem (fun _ => 0) 1 (dst + i) 0
    simp only [clearBytes, onHeap, Program.run_bind, Program.run_perform, setupHandler, clientHandler]
    rw [if_neg (by omega)]
    simp only [Option.bind_eq_bind, Option.bind_some, ih, zero]
    rw [Nat.add_comm left 1, ← Memory.copyFrom_append]
    rfl

/-- Which operations must succeed: those that allocate. -/
def Grants (g : Globals) : SetupOp → SetupState → Prop
  | .heap (.malloc n), s => (clientHandler g (.malloc n) s.heap).map Prod.fst ≠ some 0
  | .heap (.mallocBoundry n align boundry), s =>
    (clientHandler g (.mallocBoundry n align boundry) s.heap).map Prod.fst ≠ some 0
  | _, _ => True

instance (g : Globals) : (o : SetupOp) → (s : SetupState) → Decidable (Grants g o s)
  | .heap (.malloc _), _ => inferInstanceAs (Decidable (_ ≠ _))
  | .heap (.mallocBoundry ..), _ => inferInstanceAs (Decidable (_ ≠ _))
  | .heap (.load ..), _ | .heap (.store ..), _ | .heap (.free _), _ | .heap (.mallocAlign ..), _
  | .heap (.freeAlign _), _ | .writeDcbaap _, _ | .error _, _ => inferInstanceAs (Decidable True)

/-- If there is memory, a run returns in the postcondition. -/
abbrev Succeeds (g : Globals) {α : Type} (p : SetupProgram α) (s : SetupState)
    (post : α → SetupState → Prop) : Prop :=
  p.Meets (setupHandler g) ⟨Grants g, fun _ _ => True, False⟩ s post

section Rules

variable {α : Type} {post : α → SetupState → Prop}

theorem succeeds_of_run {β : Type} {p : SetupProgram β} {f : β → SetupProgram α} {a : β}
    (ran : p.run (setupHandler g) s = some (a, t)) (next : Succeeds g (f a) t post) :
    Succeeds g (p >>= f) s post := by
  refine (Program.meets_bind p f s post).mpr ((Program.meets_of_run ran).mono ?_)
  rintro _ _ ⟨rfl, rfl⟩
  exact next

theorem succeeds_onHeap {o : ClientOp} {f : o.Answer → SetupProgram α} {r : o.Answer × HeapState}
    (answer : clientHandler g o s.heap = some r)
    (next : Succeeds g (f r.1) { s with heap := r.2 } post) :
    Succeeds g (onHeap o >>= f) s post := by
  have ran : (onHeap o).run (setupHandler g) s = some (r.1, { s with heap := r.2 }) := by
    simp [onHeap, setupHandler, answer]
  exact succeeds_of_run ran next

theorem succeeds_malloc (sound : Sound g s.heap) (small : n ≤ 2 ^ 64 - 16)
    {f : Nat → SetupProgram α}
    (next : ∀ p m, Allocated g s.heap n p m →
      Succeeds g (f p) { s with heap := s.heap.allocated p m } post) :
    Succeeds g (onHeap (.malloc n) >>= f) s post := by
  intro granted
  rcases handle_malloc sound small with failed | ⟨p, m, ran, given⟩
  · exact (granted (by rw [failed]; rfl)).elim
  · exact succeeds_onHeap ran (next p m given) granted

variable {k j : Nat}

/-- The driver gets zeroed memory, aligned and within the boundary. -/
theorem succeeds_allocXhciMemory (sound : Sound g s.heap) (bits : j < 64) (pos : 1 ≤ n)
    (fits : n ≤ 2 ^ j) (small : n + 2 ^ k + 2 ^ j + 8 ≤ 2 ^ 64 - 16) {f : Nat → SetupProgram α}
    (next : ∀ p raw heap, Provided g s.heap n p raw heap → 2 ^ k ∣ p →
      Succeeds g (f p) { s with heap } post) :
    Succeeds g (allocXhciMemory n (2 ^ k) (2 ^ j) >>= f) s post := by
  rw [allocXhciMemory, if_neg (by omega), if_neg (Nat.two_pow_pos k).ne',
    if_neg (Nat.two_pow_pos j).ne', bind_assoc]
  -- it is a run in which the heap has granted everything, so this request too
  intro granted
  rcases handle_mallocBoundry (k := k) sound bits pos fits small with failed |
    ⟨p, raw, m, ran, given, held, multiple, -⟩
  · exact (granted (by rw [failed]; rfl)).elim
  · have above := held.above
    have cleared := run_clearBytes (g := g) (s := { s with heap := s.heap.allocated raw m }) p
      (by omega) n 0
    refine succeeds_onHeap ran ?_ granted
    have notNull : p ≠ 0 := by omega
    rw [if_neg notNull, bind_assoc]
    exact succeeds_of_run cleared (next p raw _ (allocated_provided given held) multiple)

end Rules

/-! ### The loop over the buffers -/

theorem Scratchpad.preserved {before after : HeapState} {page : Nat}
    (scratchpad : Scratchpad before st page raw) (kept : Preserved st after raw) :
    Scratchpad before after page raw := by
  have above := scratchpad.held.above
  have below := scratchpad.held.below
  refine ⟨scratchpad.fresh, scratchpad.held.preserved kept, scratchpad.aligned, fun k inside => ?_⟩
  rw [kept.bytes _ (by omega) (by omega)]
  exact scratchpad.zeroed k inside

/-- What the loop has done: the pages of `pads` are allocated, and they are the first entries of the
array of `count`, which is in the block at `block`. Nothing else has changed. -/
structure Filled (g : Globals) (hhdm count array block : Nat) (start st : HeapState)
    (pads : List (Nat × Nat)) : Prop where
  sound : Sound g st
  live : st.live = (pads.map Prod.snd).reverse ++ start.live
  room : Held st (8 * count) array block
  listed : ∀ i pad, pads[i]? = some pad → st.mem.load 8 (array + 8 * i) = toPhysical hhdm pad.1
  each : ∀ pad ∈ pads, Scratchpad start st pad.1 pad.2
  kept : ∀ q ∈ start.live, q ≠ block → Preserved start st q

section Loop

variable {count array block page : Nat} {start : HeapState} {pads : List (Nat × Nat)}

theorem filled_nil (sound : Sound g start) (room : Held start (8 * count) array block) :
    Filled g hhdm count array block start start [] :=
  ⟨sound, rfl, room, fun _ _ found => by simp at found, fun _ member => by simp at member,
    fun q member _ => .refl member⟩

theorem Filled.snoc (filled : Filled g hhdm count array block start st pads) (known : block ∈ start.live)
    (provided : Provided g st 4096 page raw st') (aligned : 4096 ∣ page) (more : pads.length < count) :
    Filled g hhdm count array block start
      ⟨st'.mem.store 8 (array + 8 * pads.length) (toPhysical hhdm page), st'.live⟩
      (pads ++ [(page, raw)]) := by
  have old : ∀ q ∈ start.live, q ∈ st.live := fun q member => by
    rw [filled.live]
    exact List.mem_append_right _ member
  have room := filled.room.preserved (provided.kept block filled.room.live)
  obtain ⟨sound, held, kept⟩ := provided.sound.store room (a := array + 8 * pads.length) (by omega)
    (by omega) (toPhysical hhdm page)
  have stays {q : Nat} (member : q ∈ st.live) (other : q ≠ block) :
      Preserved st ⟨st'.mem.store 8 (array + 8 * pads.length) (toPhysical hhdm page), st'.live⟩ q :=
    (provided.kept q member).trans (kept q (provided.kept q member).live other)
  refine ⟨sound, ?_, held, fun i pad found => ?_, fun pad member => ?_, fun q member other => ?_⟩
  · change st'.live = _
    rw [provided.live, filled.live]
    simp
  · change (st'.mem.store 8 (array + 8 * pads.length) (toPhysical hhdm page)).load 8 _ = _
    rw [List.getElem?_append] at found
    split at found
    case isTrue inside =>
      -- an entry below the new one
      rw [Memory.load_store_disjoint _ (by omega), ← filled.listed i pad found]
      exact filled.room.load (provided.kept block filled.room.live) (by omega) (by omega)
    case isFalse outside =>
      obtain ⟨zero, rfl⟩ : i - pads.length = 0 ∧ (page, raw) = pad := by
        simpa [List.getElem?_singleton] using found
      have last : i = pads.length := by omega
      rw [last]
      exact Memory.load_store_same _ (sub64_lt page hhdm)
  · have different {q : Nat} (fresh : q ∉ start.live) : q ≠ block := by
      rintro rfl
      exact fresh known
    rcases List.mem_append.mp member with before | new
    · -- the store into the array does not reach an older page, which is in another block
      have scratchpad := filled.each pad before
      exact scratchpad.preserved (stays scratchpad.held.live (different scratchpad.fresh))
    · obtain rfl : pad = (page, raw) := by simpa using new
      have fresh : raw ∉ start.live := fun member => provided.fresh (old raw member)
      have scratchpad : Scratchpad start st' page raw :=
        ⟨fresh, provided.held, aligned, provided.zeroed⟩
      exact scratchpad.preserved (kept raw provided.held.live (different fresh))
  · -- blocks that were live at the start of the loop
    exact (filled.kept q member other).trans (stays (old q member) other)

/-- The pages are in blocks of their own. -/
theorem Filled.own (filled : Filled g hhdm count array block start st pads) :
    (pads.map Prod.snd).Nodup := by
  have all := filled.sound.nodup
  rw [filled.live] at all
  exact (List.pairwise_reverse.mp (List.nodup_append.mp all).1).imp Ne.symm

/-- So they do not meet. -/
theorem pages_disjoint (sound : Sound g st) (own : (pads.map Prod.snd).Nodup)
    (each : ∀ pad ∈ pads, Scratchpad start st pad.1 pad.2) :
    pads.Pairwise fun pad other => Apart pad.1 4096 other.1 4096 := by
  refine (List.pairwise_map.mp own).imp_of_mem fun first second different => ?_
  exact sound.held_apart (each _ first).held (each _ second).held different

/-- The address of the array is stored into `dcbaa`, and into the block at `copy`. -/
theorem Filled.supplied (filled : Filled g hhdm count array block start st pads)
    (length : pads.length = count) (aligned : 64 ∣ array) (known : block ∈ start.live)
    {before : HeapState} (old : ∀ q ∈ before.live, q ∈ start.live) (new : block ∉ before.live)
    {dcbaa owner slots copy : Nat} (contexts : Held start (8 * (slots + 1)) dcbaa owner)
    (apart : owner ≠ block) (live : copy ∈ start.live) (apart' : copy ≠ block) (other : copy ≠ owner)
    (fits : 8 ≤ start.sizeOf copy) {m : Memory} (stored : (st.mem.store 8 dcbaa
      (toPhysical hhdm array)).store 8 copy (toPhysical hhdm array) = m) :
    Supplied hhdm slots count before ⟨m, st.live⟩ dcbaa array pads := by
  have contexts' := contexts.preserved (filled.kept owner contexts.live apart)
  obtain ⟨sound₁, contexts₁, kept₁⟩ := filled.sound.store contexts' (Nat.le_refl dcbaa) (by omega)
    (toPhysical hhdm array)
  have copied := filled.kept copy live apart'
  have copied₁ := kept₁ copy copied.live other
  obtain ⟨sound₂, -, kept₂⟩ := sound₁.fill copied₁.live (m := m) fun x outside => by
    rw [copied₁.size, copied.size] at outside
    rw [← stored]
    exact Memory.store_outside _ _ _ _ _ (by omega)
  -- the other blocks are those of the pages and of the array
  have kept {q : Nat} (member : q ∈ st.live) (first : q ≠ owner) (second : q ≠ copy) :=
    (kept₁ q member first).trans (kept₂ q member second)
  have same := kept filled.room.live apart.symm apart'.symm
  have room := filled.room.preserved same
  have contexts₂ := contexts₁.preserved (kept₂ owner contexts'.live other.symm)
  have unknown {q q' : Nat} (fresh : q ∉ start.live) (member : q' ∈ start.live) : q ≠ q' := by
    rintro rfl
    exact fresh member
  have each : ∀ pad ∈ pads, Scratchpad start ⟨m, st.live⟩ pad.1 pad.2 := fun pad member => by
    have scratchpad := filled.each pad member
    exact scratchpad.preserved (kept scratchpad.held.live (unknown scratchpad.fresh contexts.live)
      (unknown scratchpad.fresh live))
  refine ⟨?_, aligned, ⟨block, new, room⟩, length, fun i pad found => ?_, fun pad member => ?_,
    filled.own, pages_disjoint sound₂ filled.own each, fun pad member => ⟨?_, ?_⟩⟩
  · rw [contexts₁.load (kept₂ owner contexts'.live other.symm) (Nat.le_refl dcbaa) (by omega)]
    exact Memory.load_store_same _ (sub64_lt array hhdm)
  · have inside := (List.getElem?_eq_some_iff.mp found).1
    rw [← filled.listed i pad found]
    exact filled.room.load same (by omega) (by omega)
  · have scratchpad := each pad member
    exact ⟨fun known => scratchpad.fresh (old _ known), scratchpad.held, scratchpad.aligned,
      scratchpad.zeroed⟩
  · have scratchpad := each pad member
    exact sound₂.held_apart scratchpad.held room (unknown scratchpad.fresh known)
  · have scratchpad := each pad member
    exact sound₂.held_apart scratchpad.held contexts₂ (unknown scratchpad.fresh contexts.live)

theorem succeeds_allocScratchpads {α : Type} {post : α → SetupState → Prop} {left : Nat}
    {f : Unit → SetupProgram α} (filled : Filled g hhdm count array block start s.heap pads)
    (known : block ∈ start.live) (ahead : pads.length + left = count)
    (next : ∀ heap pads, Filled g hhdm count array block start heap pads → pads.length = count →
      Succeeds g (f ()) { s with heap } post) :
    Succeeds g (allocScratchpads hhdm array left pads.length >>= f) s post := by
  induction left generalizing s pads with
  | zero => exact next s.heap pads filled ahead
  | succ left ih =>
    rw [allocScratchpads, bind_assoc]
    refine succeeds_allocXhciMemory (k := 12) (j := 12) filled.sound (by decide) (by decide)
      (by decide) (by decide) fun page raw heap provided aligned => ?_
    rw [bind_assoc]
    -- the page is new, so the pages before keep their zeros and their places
    have grown := filled.snoc known provided aligned (by omega)
    have notNull : array + 8 * pads.length ≠ 0 := by
      have above := filled.room.above
      omega
    have stored : clientHandler g (.store 8 (array + 8 * pads.length) (toPhysical hhdm page)) heap =
        some ((), ⟨heap.mem.store 8 (array + 8 * pads.length) (toPhysical hhdm page), heap.live⟩) :=
      if_neg notNull
    refine succeeds_onHeap stored ?_
    have length : pads.length + 1 = (pads ++ [(page, raw)]).length := by simp
    rw [length]
    exact ih (s := { s with heap := ⟨_, heap.live⟩ }) grown (by simp; omega) next

end Loop

/-! ### Both functions -/

/-- The array with its pages, when there is memory for the contexts at `dcbaa` and for a copy. -/
theorem succeeds_scratchpadArray {α : Type} {post : α → SetupState → Prop} {f : Unit → SetupProgram α}
    {before : HeapState} {slots dcbaa owner copy : Nat} (sound : Sound g s.heap) (some : n ≠ 0)
    (few : n < 256) (old : ∀ q ∈ before.live, q ∈ s.heap.live)
    (contexts : Held s.heap (8 * (slots + 1)) dcbaa owner) (live : copy ∈ s.heap.live)
    (other : copy ≠ owner) (fits : 8 ≤ s.heap.sizeOf copy)
    (next : ∀ heap new array pads, heap.live = new ++ s.heap.live → new.length = n + 1 →
      Supplied hhdm slots n before heap dcbaa array pads → Succeeds g (f ()) { s with heap } post) :
    Succeeds g (allocXhciMemory (n * 8) 64 4096 >>= fun array =>
      allocScratchpads hhdm array n 0 >>= fun _ =>
      onHeap (.store 8 dcbaa (toPhysical hhdm array)) >>= fun _ =>
      onHeap (.store 8 copy (toPhysical hhdm array)) >>= f) s post := by
  refine succeeds_allocXhciMemory (k := 6) (j := 12) sound (by decide) (by omega) (by omega) (by omega)
    fun array block heap provided aligned => ?_
  have known := provided.held.live
  -- the array has a block of its own, apart from all that was live
  have apart (q : Nat) (member : q ∈ s.heap.live) : q ≠ block := by
    rintro rfl
    exact provided.fresh member
  have copied := provided.kept copy live
  have large : 8 ≤ heap.sizeOf copy := by
    rw [copied.size]
    exact fits
  have owned := contexts.preserved (provided.kept owner contexts.live)
  have empty : Filled g hhdm n array block heap heap [] :=
    filled_nil provided.sound (Nat.mul_comm n 8 ▸ provided.held)
  refine succeeds_allocScratchpads (s := { s with heap }) empty known (by simp)
    fun heap' pads filled length => ?_
  have notNull : dcbaa ≠ 0 := by
    have above := owned.above
    omega
  refine succeeds_onHeap (if_neg notNull) (succeeds_onHeap (if_neg (sound.notNull live)) ?_)
  refine next _ ((pads.map Prod.snd).reverse ++ [block]) array pads ?_ (by simp [length]) ?_
  · change heap'.live = _
    rw [filled.live, provided.live, List.append_assoc]
    rfl
  · refine filled.supplied length aligned known (fun q member => ?_) ?_ owned
      (apart owner contexts.live) copied.live (apart copy live) other large rfl
    · rw [provided.live]
      exact List.mem_cons_of_mem block (old q member)
    · exact fun member => provided.fresh (old block member)

theorem succeeds_setupDcbaa (sound : Sound g s.heap) (caps : Capabilities) :
    Succeeds g (setupDcbaa hhdm caps) s fun r t =>
      Delivered hhdm caps.maxDeviceSlots.toNat caps.maxScratchpadBuffers.toNat s t r ∧
        ∃ new, t.heap.live = new ++ s.heap.live ∧
          new.length ≤ caps.maxScratchpadBuffers.toNat + 3 := by
  have slots := caps.maxDeviceSlots.toNat_lt
  have few := caps.maxScratchpadBuffers.toNat_lt
  generalize count : caps.maxScratchpadBuffers.toNat = n at few ⊢
  rw [setupDcbaa, count]
  refine succeeds_allocXhciMemory (k := 6) (j := 12) sound (by decide) (by omega) (by omega) (by omega)
    fun dcbaa owner heap contexts _ => ?_
  refine succeeds_malloc contexts.sound (by omega) fun copy m given => ?_
  have contexts' := contexts.held.preserved (given.kept owner contexts.held.live)
  have live : (heap.allocated copy m).live = [copy, owner] ++ s.heap.live := by
    rw [given.live_eq, contexts.live]
    rfl
  by_cases none : n = 0
  · rw [if_neg (by omega)]
    -- entry 0 is as it was cleared
    refine succeeds_of_run (Program.run_perform ..) ⟨⟨rfl, ?_⟩, [copy, owner], live, by simp⟩
    rw [if_pos none, ← contexts.load_zero (by omega)]
    have inside : dcbaa + 8 ≤ dcbaa + 8 * (caps.maxDeviceSlots.toNat + 1) := by omega
    exact contexts.held.load (given.kept owner contexts.held.live) (Nat.le_refl dcbaa) inside
  · rw [if_pos (by omega)]
    have old (q : Nat) (member : q ∈ s.heap.live) : q ∈ (heap.allocated copy m).live :=
      live ▸ List.mem_append_right _ member
    have room : 8 ≤ (heap.allocated copy m).sizeOf copy := Nat.le_trans (by omega) given.room
    refine succeeds_scratchpadArray given.sound none few old contexts' given.member
      (given.other contexts.held.live).symm room fun heap' new array pads grown length supplied => ?_
    refine succeeds_of_run (Program.run_perform ..) ⟨⟨rfl, ?_⟩, new ++ [copy, owner], ?_, ?_⟩
    · rw [if_neg none]
      exact ⟨array, pads, supplied⟩
    · rw [List.append_assoc, ← live]
      exact grown
    · simp [length]

/-- What is new to a heap is new to one with fewer live blocks. -/
theorem Supplied.mono {slots count dcbaa array : Nat} {pads : List (Nat × Nat)} {before : HeapState}
    (supplied : Supplied hhdm slots count st st' dcbaa array pads)
    (old : ∀ q ∈ before.live, q ∈ st.live) :
    Supplied hhdm slots count before st' dcbaa array pads := by
  obtain ⟨block, new, held⟩ := supplied.room
  refine { supplied with room := ⟨block, fun known => new (old block known), held⟩, each := ?_ }
  intro pad member
  have scratchpad := supplied.each pad member
  exact { scratchpad with fresh := fun known => scratchpad.fresh (old _ known) }

/-- The number of buffers goes through a byte. -/
theorem succeeds_setUpMemory (sound : Sound g s.heap) (xhciBase : Nat) (regs : CapabilityRegisters) :
    Succeeds g (setUpMemory hhdm xhciBase regs) s fun r t =>
      Delivered hhdm regs.maxDeviceSlots.toNat (advertised regs % 256) s t r ∧
        ∃ new, t.heap.live = new ++ s.heap.live ∧ new.length ≤ advertised regs % 256 + 4 := by
  have slots : regs.maxDeviceSlots.toUInt8.toNat = regs.maxDeviceSlots.toNat := by
    have byte : regs.maxDeviceSlots.toNat = regs.hcsparams1.toNat % 256 :=
      Nat.and_two_pow_sub_one_eq_mod regs.hcsparams1.toNat 8
    rw [UInt32.toNat_toUInt8, byte]
    exact Nat.mod_mod ..
  have count : regs.maxScratchpadBuffers.toUInt8.toNat = advertised regs % 256 := by
    rw [UInt32.toNat_toUInt8, maxScratchpadBuffers_eq]
  simp only [setUpMemory, parseCapabilityRegisters, newDoorbellManager, bind_assoc, pure_bind]
  refine succeeds_malloc sound (by decide) fun manager m given => ?_
  refine succeeds_onHeap (if_neg given.notNull) ?_
  -- the doorbell manager has a new block too
  generalize u64 (xhciBase + regs.dboff.toNat) = base
  have stored : Allocated g s.heap 8 manager (m.store 8 manager base) :=
    given.fill fun x outside => Memory.store_outside m 8 manager base x (by
      have room := given.room
      omega)
  have old (q : Nat) (member : q ∈ s.heap.live) : q ∈ (s.heap.allocated manager m).live :=
    (given.kept q member).live
  refine (succeeds_setupDcbaa stored.sound _).mono fun r t done => ?_
  simp only [slots, count] at done
  obtain ⟨⟨told, delivered⟩, new, live, few⟩ := done
  refine ⟨⟨told, ?_⟩, new ++ [manager], ?_, by simpa using few⟩
  · split
    case isTrue none =>
      rw [if_pos none] at delivered
      exact delivered
    case isFalse some =>
      rw [if_neg some] at delivered
      obtain ⟨array, pads, supplied⟩ := delivered
      exact ⟨array, pads, supplied.mono old⟩
  · have first : (s.heap.allocated manager m).live = manager :: s.heap.live := given.live_eq
    rw [live, List.append_assoc]
    exact congrArg (new ++ ·) first

/-- A number that does not fit leaves more pages than new blocks. -/
theorem Delivered.fits {slots count : Nat} {r : Dcbaa} (delivered : Delivered hhdm slots count s t r)
    {new : List Nat} (live : t.heap.live = new ++ s.heap.live) (few : new.length ≤ count % 256 + 4) :
    count ≤ 255 := by
  by_contra large
  have some : count ≠ 0 := by omega
  obtain ⟨-, delivered⟩ := delivered
  rw [if_neg some] at delivered
  obtain ⟨array, pads, supplied⟩ := delivered
  have enough := supplied.count_le live
  omega

/-- The buffers that the controller gets are those that it asks for if and only if a byte can hold
their number. -/
theorem setUpMemory_delivers_iff {size addr : Nat} (region : Region size addr)
    (reached : Reachable size addr g s.heap) {xhciBase : Nat} {regs : CapabilityRegisters}
    (granted : (setUpMemory hhdm xhciBase regs).All (setupHandler g) (Grants g) s) :
    ∃ r t, (setUpMemory hhdm xhciBase regs).run (setupHandler g) s = some (r, t) ∧
      (Delivered hhdm regs.maxDeviceSlots.toNat (advertised regs) s t r ↔ advertised regs ≤ 255) := by
  obtain ⟨r, t, ran, delivered, new, live, few⟩ :=
    (succeeds_setUpMemory (sound_of_reachable region reached) xhciBase regs).returns granted not_false
  refine ⟨r, t, ran, fun claimed => claimed.fits live few, fun small => ?_⟩
  rwa [Nat.mod_eq_of_lt (by omega)] at delivered

/-! ### Two controllers -/

/-- Registers of a controller with one device slot. -/
def capabilityRegisters (hcsparams2 : UInt32) : CapabilityRegisters :=
  ⟨32, 1, hcsparams2, 0, 0x800, 0x600⟩

/-- A new heap of 32 KiB, enough for one scratchpad. -/
def setupStart : SetupState := ⟨⟨freshHeader (fun _ => 0) 4096 32736 0 0, []⟩, 0, []⟩

theorem region_setupStart : Region 32768 4096 :=
  ⟨by decide, by decide, by decide, by decide, by decide⟩

theorem reachable_setupStart : Reachable 32768 4096 ⟨4096, 4096, 36864⟩ setupStart.heap :=
  .init (run_heapInit region_setupStart fun _ => 0)

theorem setUpMemory_delivers_iff_one : ∃ r t,
    (setUpMemory 0 0xFEB00000 (capabilityRegisters 0x08000000)).run
        (setupHandler ⟨4096, 4096, 36864⟩) setupStart = some (r, t) ∧
      Delivered 0 1 1 setupStart t r := by
  have granted : (setUpMemory 0 0xFEB00000 (capabilityRegisters 0x08000000)).All
      (setupHandler ⟨4096, 4096, 36864⟩) (Grants ⟨4096, 4096, 36864⟩) setupStart :=
    Program.all_of_allB (by decide +kernel)
  obtain ⟨r, t, ran, delivered⟩ := setUpMemory_delivers_iff region_setupStart reachable_setupStart
    granted
  exact ⟨r, t, ran, delivered.mpr (by decide)⟩

/-- Of 256 buffers the controller gets none. -/
theorem setUpMemory_not_delivers : ¬∀ size addr g s hhdm xhciBase regs, Region size addr →
    Reachable size addr g (SetupState.heap s) →
    (setUpMemory hhdm xhciBase regs).All (setupHandler g) (Grants g) s →
    ∃ r t, (setUpMemory hhdm xhciBase regs).run (setupHandler g) s = some (r, t) ∧
      Delivered hhdm regs.maxDeviceSlots.toNat (advertised regs) s t r := by
  intro claimed
  have granted : (setUpMemory 0 0xFEB00000 (capabilityRegisters 0x01000000)).All
      (setupHandler ⟨4096, 4096, 36864⟩) (Grants ⟨4096, 4096, 36864⟩) setupStart :=
    Program.all_of_allB (by decide +kernel)
  obtain ⟨r, t, ran, delivered⟩ := claimed 32768 4096 _ _ _ _ _ region_setupStart
    reachable_setupStart granted
  have sound := sound_of_reachable region_setupStart reachable_setupStart
  obtain ⟨-, new, live, few⟩ := (succeeds_setUpMemory sound _ _).result granted ran
  have small := delivered.fits live few
  exact absurd small (by decide)

end KopalniaOS.Xhci
