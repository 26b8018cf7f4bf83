import Mathlib.Data.List.Basic
import Mathlib.Data.BitVec
import Mathlib.Tactic.Common

/-!
# The USB 3 port table

`_parse_extended_capability_registers` reads the list of extended capabilities out of the
controller's registers and records the ports of the USB 3 protocol capabilities. Ports are bytes,
and so are the bounds of the loop that records them.
-/
namespace KopalniaOS.Xhci

/-! ### The capabilities in the controller's registers -/

/-- The registers, as the 32-bit words at their addresses. -/
abbrev Mmio := Nat → BitVec 32

/-- Byte number `i` of a register. -/
def byteOf (raw : BitVec 32) (i : Nat) : UInt8 := UInt8.ofNat (raw.toNat / 2 ^ (8 * i))

/-- `xhci_extended_capability`, without its `m_next`: the list is a `List`. -/
structure ExtendedCapability where
  base : Nat
  entry : BitVec 32
deriving DecidableEq, Repr

namespace ExtendedCapability

def id (node : ExtendedCapability) : UInt8 := byteOf node.entry 0

def next (node : ExtendedCapability) : UInt8 := byteOf node.entry 1

/-- The constructor reads the first word. -/
def read (mmio : Mmio) (capPtr : Nat) : ExtendedCapability := ⟨capPtr, mmio capPtr⟩

end ExtendedCapability

/-- `xhci_usb_supported_protocol_capability`, as the four words its constructor reads. -/
structure SupportedProtocol where
  dword0 : BitVec 32
  dword1 : BitVec 32
  dword2 : BitVec 32
  dword3 : BitVec 32
deriving DecidableEq, Repr

namespace SupportedProtocol

def read (mmio : Mmio) (cap : Nat) : SupportedProtocol :=
  ⟨mmio cap, mmio (cap + 4), mmio (cap + 8), mmio (cap + 12)⟩

def majorRevisionVersion (cap : SupportedProtocol) : UInt8 := byteOf cap.dword0 3

def compatiblePortOffset (cap : SupportedProtocol) : UInt8 := byteOf cap.dword2 0

def compatiblePortCount (cap : SupportedProtocol) : UInt8 := byteOf cap.dword2 1

end SupportedProtocol

/-- `xhci_extended_capability_code::supported_protocol` -/
def supportedProtocol : UInt8 := 2

/-! ### The functions of the driver -/

/-- The constructor with `_read_next_ext_caps`, which calls it for the next capability, for at
most `bound` capabilities. -/
def readExtendedCapabilities : Nat → Mmio → Nat → Option (List ExtendedCapability)
  | 0, _, _ => none
  | bound + 1, mmio, capPtr =>
    let node := ExtendedCapability.read mmio capPtr
    if node.next ≠ 0 then
      (readExtendedCapabilities bound mmio (capPtr + node.next.toNat * 4)).map (node :: ·)
    else some [node]

/-- The loop over `port`, for at most `bound` ports. -/
def recordPorts : Nat → UInt8 → UInt8 → List UInt8 → Option (List UInt8)
  | 0, _, _, _ => none
  | bound + 1, port, lastPort, usb3Ports =>
    if port ≤ lastPort then recordPorts bound (port + 1) lastPort (usb3Ports ++ [port])
    else some usb3Ports

/-- The body of the loop over the capabilities. -/
def parseNode (bound : Nat) (mmio : Mmio) (usb3Ports : List UInt8) (node : ExtendedCapability) :
    Option (List UInt8) :=
  if node.id = supportedProtocol then
    let cap := SupportedProtocol.read mmio node.base
    let firstPort := cap.compatiblePortOffset - 1
    let lastPort := firstPort + cap.compatiblePortCount - 1
    if cap.majorRevisionVersion = 3 then recordPorts bound firstPort lastPort usb3Ports
    else some usb3Ports
  else some usb3Ports

/-- `usb3Ports` is the vector `m_usb3_ports`. Each of the loops is followed for at most `bound`
rounds. -/
def parseExtendedCapabilityRegisters (bound : Nat) (mmio : Mmio)
    (xhciBase extendedCapabilitiesOffset : Nat) (usb3Ports : List UInt8) : Option (List UInt8) := do
  let nodes ← readExtendedCapabilities bound mmio (xhciBase + extendedCapabilitiesOffset)
  nodes.foldlM (parseNode bound mmio) usb3Ports

def isUsb3Port : List UInt8 → UInt8 → Bool
  | [], _ => false
  | port :: rest, portId => if port = portId then true else isUsb3Port rest portId

theorem isUsb3Port_iff (usb3Ports : List UInt8) (portId : UInt8) :
    isUsb3Port usb3Ports portId = true ↔ portId ∈ usb3Ports := by
  induction usb3Ports with
  | nil => simp [isUsb3Port]
  | cons port rest ih =>
    rw [isUsb3Port, List.mem_cons]
    split
    next same => simp [same]
    next other => simp [ih, Ne.symm other]

/-! ### The loop over the ports of one capability -/

/-- `count` ports from `first` on. -/
def portsFrom (first : UInt8) (count : Nat) : List UInt8 :=
  (List.range' first.toNat count).map UInt8.ofNat

theorem mem_portsFrom {first : UInt8} {count : Nat} (fits : first.toNat + count ≤ 256) (p : UInt8) :
    p ∈ portsFrom first count ↔ first.toNat ≤ p.toNat ∧ p.toNat < first.toNat + count := by
  simp only [portsFrom, List.mem_map, List.mem_range'_1]
  constructor
  · rintro ⟨n, range, rfl⟩
    have small : n < 256 := Nat.lt_of_lt_of_le range.2 fits
    rw [UInt8.toNat_ofNat_of_lt' small]
    exact range
  · intro range
    exact ⟨p.toNat, range, UInt8.ofNat_toNat⟩

theorem portsFrom_succ (first : UInt8) (count : Nat) (fits : first.toNat + 1 < 256) :
    portsFrom first (count + 1) = first :: portsFrom (first + 1) count := by
  have next : (first + 1).toNat = first.toNat + 1 := by
    rw [UInt8.toNat_add]
    exact Nat.mod_eq_of_lt fits
  rw [portsFrom, portsFrom, List.range'_succ, List.map_cons, UInt8.ofNat_toNat, next]

/-- Below the top of the byte range the loop records the ports up to the last one. -/
theorem recordPorts_eq {lastPort : UInt8} (below : lastPort.toNat < 255) (count : Nat) :
    ∀ (bound : Nat) (port : UInt8) (usb3Ports : List UInt8), port.toNat + count = lastPort.toNat + 1 →
      count < bound →
      recordPorts bound port lastPort usb3Ports = some (usb3Ports ++ portsFrom port count) := by
  induction count with
  | zero =>
    intro bound port usb3Ports ends enough
    obtain ⟨bound, rfl⟩ := Nat.exists_eq_succ_of_ne_zero (Nat.ne_of_gt enough)
    -- the port has run past the last one, which is below 255
    have past : ¬ port ≤ lastPort := by
      rw [UInt8.le_iff_toNat_le]
      omega
    simp [recordPorts, past, portsFrom]
  | succ count ih =>
    intro bound port usb3Ports ends enough
    obtain ⟨bound, rfl⟩ := Nat.exists_eq_succ_of_ne_zero (Nat.ne_of_gt (Nat.zero_lt_of_lt enough))
    have within : port ≤ lastPort := by
      rw [UInt8.le_iff_toNat_le]
      omega
    -- the next port is counted in eight bits, and does not wrap
    have fits : port.toNat + 1 < 256 := by omega
    have next : (port + 1).toNat = port.toNat + 1 := by
      rw [UInt8.toNat_add]
      exact Nat.mod_eq_of_lt fits
    rw [recordPorts, if_pos within, ih bound (port + 1) _ (by omega) (Nat.lt_of_succ_lt_succ enough),
      portsFrom_succ port count fits]
    simp

/-- Every byte is at most 255. -/
theorem recordPorts_endless (bound : Nat) (port : UInt8) (usb3Ports : List UInt8) :
    recordPorts bound port 255 usb3Ports = none := by
  induction bound generalizing port usb3Ports with
  | zero => rfl
  | succ bound ih =>
    have within : port ≤ 255 := by
      rw [UInt8.le_iff_toNat_le]
      exact Nat.le_of_lt_succ port.toNat_lt
    rw [recordPorts, if_pos within]
    exact ih (port + 1) (usb3Ports ++ [port])

/-! ### One capability -/

section Node

variable (mmio : Mmio)

/-- The capability at this address is one of USB 3. -/
def IsUsb3 (ptr : Nat) : Prop :=
  byteOf (mmio ptr) 0 = supportedProtocol ∧ (SupportedProtocol.read mmio ptr).majorRevisionVersion = 3

instance (ptr : Nat) : Decidable (IsUsb3 mmio ptr) := inferInstanceAs (Decidable (_ ∧ _))

def portOffset (ptr : Nat) : Nat := (SupportedProtocol.read mmio ptr).compatiblePortOffset.toNat

def portCount (ptr : Nat) : Nat := (SupportedProtocol.read mmio ptr).compatiblePortCount.toNat

/-- Ports are numbered from 1 in the registers, and the last one has a number in a byte. -/
def PortsValid (ptr : Nat) : Prop := 1 ≤ portOffset mmio ptr ∧ portOffset mmio ptr + portCount mmio ptr ≤ 256

/-- No ports, from the first one on. -/
def EmptyAtFirst (ptr : Nat) : Prop := portOffset mmio ptr = 1 ∧ portCount mmio ptr = 0

/-- What a capability adds to the table. -/
def usb3Range (ptr : Nat) : List UInt8 :=
  if IsUsb3 mmio ptr then
    portsFrom ((SupportedProtocol.read mmio ptr).compatiblePortOffset - 1) (portCount mmio ptr)
  else []

variable {mmio} {ptr : Nat}

theorem firstPort_toNat (valid : PortsValid mmio ptr) :
    ((SupportedProtocol.read mmio ptr).compatiblePortOffset - 1).toNat = portOffset mmio ptr - 1 := by
  apply UInt8.toNat_sub_of_le
  rw [UInt8.le_iff_toNat_le]
  exact valid.1

theorem parseNode_other (bound : Nat) (usb3Ports : List UInt8) (other : ¬ IsUsb3 mmio ptr) :
    parseNode bound mmio usb3Ports (.read mmio ptr) = some usb3Ports := by
  unfold parseNode
  split
  next isProtocol =>
    have notThree : (SupportedProtocol.read mmio ptr).majorRevisionVersion ≠ 3 :=
      fun three => other ⟨isProtocol, three⟩
    exact if_neg notThree
  next => rfl

theorem parseNode_usb3 (bound : Nat) (usb3Ports : List UInt8) (usb3 : IsUsb3 mmio ptr) :
    parseNode bound mmio usb3Ports (.read mmio ptr) =
      recordPorts bound ((SupportedProtocol.read mmio ptr).compatiblePortOffset - 1)
        ((SupportedProtocol.read mmio ptr).compatiblePortOffset - 1 +
          (SupportedProtocol.read mmio ptr).compatiblePortCount - 1) usb3Ports := by
  have isProtocol : (ExtendedCapability.read mmio ptr).id = supportedProtocol := usb3.1
  unfold parseNode
  rw [if_pos isProtocol]
  exact if_pos usb3.2

/-- The last port of a range that is not empty at the first one is below the top. -/
theorem lastPort_toNat (valid : PortsValid mmio ptr) (nonempty : ¬ EmptyAtFirst mmio ptr) :
    ((SupportedProtocol.read mmio ptr).compatiblePortOffset - 1 +
      (SupportedProtocol.read mmio ptr).compatiblePortCount - 1).toNat + 1 =
        portOffset mmio ptr - 1 + portCount mmio ptr := by
  have first := firstPort_toNat valid
  have low := valid.1
  have high := valid.2
  have some_ : portOffset mmio ptr ≠ 1 ∨ portCount mmio ptr ≠ 0 := by
    by_contra none_
    exact nonempty (by simpa [EmptyAtFirst, not_or] using none_)
  rw [UInt8.toNat_sub, UInt8.toNat_add, first]
  show (2 ^ 8 - 1 + (portOffset mmio ptr - 1 + portCount mmio ptr) % 2 ^ 8) % 2 ^ 8 + 1 = _
  omega

theorem parseNode_eq {bound : Nat} (enough : 256 ≤ bound) (usb3Ports : List UInt8)
    (valid : IsUsb3 mmio ptr → PortsValid mmio ptr)
    (nonempty : IsUsb3 mmio ptr → ¬ EmptyAtFirst mmio ptr) :
    parseNode bound mmio usb3Ports (.read mmio ptr) = some (usb3Ports ++ usb3Range mmio ptr) := by
  by_cases usb3 : IsUsb3 mmio ptr
  · have last := lastPort_toNat (valid usb3) (nonempty usb3)
    have first := firstPort_toNat (valid usb3)
    have low := (valid usb3).1
    have high := (valid usb3).2
    rw [parseNode_usb3 bound usb3Ports usb3, usb3Range, if_pos usb3]
    apply recordPorts_eq
    · omega
    · rw [first]
      exact last.symm
    · omega
  · rw [parseNode_other bound usb3Ports usb3, usb3Range, if_neg usb3, List.append_nil]

theorem parseNode_endless (bound : Nat) (usb3Ports : List UInt8) (usb3 : IsUsb3 mmio ptr)
    (empty : EmptyAtFirst mmio ptr) : parseNode bound mmio usb3Ports (.read mmio ptr) = none := by
  have offset : (SupportedProtocol.read mmio ptr).compatiblePortOffset = 1 :=
    UInt8.toNat_inj.mp empty.1
  have count : (SupportedProtocol.read mmio ptr).compatiblePortCount = 0 :=
    UInt8.toNat_inj.mp empty.2
  -- `0 + 0 - 1` is the largest byte
  rw [parseNode_usb3 bound usb3Ports usb3, offset, count]
  exact recordPorts_endless bound (1 - 1) usb3Ports

end Node

/-! ### The whole list -/

/-- A list of capabilities in the registers, as the addresses of its entries: each names the next
one by its distance in words, and the last one has none. -/
inductive CapabilityList (mmio : Mmio) : Nat → List Nat → Prop where
  | last {ptr} : (ExtendedCapability.read mmio ptr).next = 0 → CapabilityList mmio ptr [ptr]
  | more {ptr rest} : (ExtendedCapability.read mmio ptr).next ≠ 0 →
      CapabilityList mmio (ptr + (ExtendedCapability.read mmio ptr).next.toNat * 4) rest →
      CapabilityList mmio ptr (ptr :: rest)

section List

variable {mmio : Mmio} {head : Nat} {caps : List Nat}

theorem readExtendedCapabilities_eq (list : CapabilityList mmio head caps) {bound : Nat}
    (enough : caps.length ≤ bound) :
    readExtendedCapabilities bound mmio head = some (caps.map (.read mmio)) := by
  induction list generalizing bound with
  | last ends =>
    obtain ⟨bound, rfl⟩ := Nat.exists_eq_succ_of_ne_zero (Nat.ne_of_gt enough)
    simp [readExtendedCapabilities, ends]
  | more goes _ ih =>
    obtain ⟨bound, rfl⟩ := Nat.exists_eq_succ_of_ne_zero (Nat.ne_of_gt (Nat.zero_lt_of_lt enough))
    have rest := ih (Nat.le_of_succ_le_succ enough)
    simp only [readExtendedCapabilities, if_pos goes, rest, Option.map_some, List.map_cons]

/-- Every capability adds its own range. -/
theorem parseNodes_eq {bound : Nat} (enough : 256 ≤ bound)
    (valid : ∀ ptr ∈ caps, IsUsb3 mmio ptr → PortsValid mmio ptr)
    (nonempty : ∀ ptr ∈ caps, IsUsb3 mmio ptr → ¬ EmptyAtFirst mmio ptr) (usb3Ports : List UInt8) :
    (caps.map (.read mmio)).foldlM (parseNode bound mmio) usb3Ports =
      some (usb3Ports ++ caps.flatMap (usb3Range mmio)) := by
  induction caps generalizing usb3Ports with
  | nil => simp
  | cons ptr rest ih =>
    have first := parseNode_eq enough usb3Ports (valid ptr (by simp)) (nonempty ptr (by simp))
    have others := ih (fun p member => valid p (by simp [member]))
      (fun p member => nonempty p (by simp [member])) (usb3Ports ++ usb3Range mmio ptr)
    rw [List.map_cons, List.foldlM_cons, first, List.flatMap_cons, ← List.append_assoc]
    exact others

theorem parseNodes_endless (bound : Nat) {ptr : Nat} (member : ptr ∈ caps) (usb3 : IsUsb3 mmio ptr)
    (empty : EmptyAtFirst mmio ptr) (usb3Ports : List UInt8) :
    (caps.map (.read mmio)).foldlM (parseNode bound mmio) usb3Ports = none := by
  induction caps generalizing usb3Ports with
  | nil => simp at member
  | cons first rest ih =>
    rw [List.map_cons, List.foldlM_cons]
    rcases List.mem_cons.mp member with rfl | later
    · rw [parseNode_endless bound usb3Ports usb3 empty]
      rfl
    · cases parseNode bound mmio usb3Ports (.read mmio first) with
      | none => rfl
      | some ports => exact ih later ports

/-- A port that some USB 3 capability of the list covers, counted from 0. -/
def Covered (mmio : Mmio) (caps : List Nat) (p : UInt8) : Prop :=
  ∃ ptr ∈ caps, IsUsb3 mmio ptr ∧ portOffset mmio ptr - 1 ≤ p.toNat ∧
    p.toNat < portOffset mmio ptr - 1 + portCount mmio ptr

theorem mem_usb3Range (valid : ∀ ptr ∈ caps, IsUsb3 mmio ptr → PortsValid mmio ptr) (p : UInt8) :
    p ∈ caps.flatMap (usb3Range mmio) ↔ Covered mmio caps p := by
  rw [List.mem_flatMap]
  apply exists_congr
  intro ptr
  apply and_congr_right
  intro member
  unfold usb3Range
  split
  next usb3 =>
    have first := firstPort_toNat (valid ptr member usb3)
    have high := (valid ptr member usb3).2
    rw [mem_portsFrom (by omega), first]
    simp [usb3]
  next other => simp [other]

/-- The parsing returns, and the ports it has recorded are the covered ones. -/
def TableMatches (mmio : Mmio) (xhciBase extendedCapabilitiesOffset : Nat) (caps : List Nat) : Prop :=
  ∃ least usb3Ports,
    (∀ bound, least ≤ bound → parseExtendedCapabilityRegisters bound mmio xhciBase
      extendedCapabilitiesOffset [] = some usb3Ports) ∧
    ∀ p, isUsb3Port usb3Ports p = true ↔ Covered mmio caps p

/-- The table matches the list except where a USB 3 capability has no ports from the first one
on: there the parsing never returns. -/
theorem tableMatches_iff {xhciBase extendedCapabilitiesOffset : Nat}
    (list : CapabilityList mmio (xhciBase + extendedCapabilitiesOffset) caps)
    (valid : ∀ ptr ∈ caps, byteOf (mmio ptr) 0 = supportedProtocol → PortsValid mmio ptr) :
    TableMatches mmio xhciBase extendedCapabilitiesOffset caps ↔
      ∀ ptr ∈ caps, IsUsb3 mmio ptr → ¬ EmptyAtFirst mmio ptr := by
  have valid3 : ∀ ptr ∈ caps, IsUsb3 mmio ptr → PortsValid mmio ptr :=
    fun ptr member usb3 => valid ptr member usb3.1
  constructor
  · rintro ⟨least, usb3Ports, returns, -⟩ ptr member usb3 empty
    -- a table without ports has the loop run over all of the eight bits for ever
    have returned := returns (max least caps.length) (Nat.le_max_left ..)
    rw [parseExtendedCapabilityRegisters,
      readExtendedCapabilities_eq list (Nat.le_max_right ..)] at returned
    have never := parseNodes_endless (max least caps.length) member usb3 empty []
    exact Option.some_ne_none usb3Ports (returned.symm.trans never)
  · intro nonempty
    refine ⟨max 256 caps.length, caps.flatMap (usb3Range mmio), ?_, ?_⟩
    · intro bound enough
      rw [parseExtendedCapabilityRegisters,
        readExtendedCapabilities_eq list (Nat.le_trans (Nat.le_max_right ..) enough)]
      exact parseNodes_eq (Nat.le_trans (Nat.le_max_left ..) enough) valid3 nonempty []
    · intro p
      rw [isUsb3Port_iff, mem_usb3Range valid3]

end List

/-! ### Two controllers -/

/-- The registers of a controller with two capabilities: USB 2, and behind it USB 3 with the
given word for its ports. -/
def twoProtocols (ports : BitVec 32) : Mmio := fun address =>
  if address = 0 then 0x02000402
  else if address = 8 then 0x0404
  else if address = 16 then 0x03000002
  else if address = 24 then ports
  else 0

theorem list_twoProtocols (ports : BitVec 32) : CapabilityList (twoProtocols ports) 0 [0, 16] := by
  have first : ExtendedCapability.read (twoProtocols ports) 0 = ⟨0, 0x02000402⟩ := rfl
  have second : ExtendedCapability.read (twoProtocols ports) 16 = ⟨16, 0x03000002⟩ := rfl
  have distance : 0 + (⟨0, 0x02000402⟩ : ExtendedCapability).next.toNat * 4 = 16 := by decide
  apply CapabilityList.more
  · rw [first]
    decide
  · rw [first, distance]
    apply CapabilityList.last
    rw [second]
    decide

theorem valid_twoProtocols {ports : BitVec 32} (valid : PortsValid (twoProtocols ports) 16) :
    ∀ ptr ∈ [0, 16], byteOf (twoProtocols ports ptr) 0 = supportedProtocol →
      PortsValid (twoProtocols ports) ptr := by
  intro ptr member _
  simp only [List.mem_cons, List.not_mem_nil, or_false] at member
  rcases member with rfl | rfl
  · have usb2 : SupportedProtocol.read (twoProtocols ports) 0 = ⟨0x02000402, 0, 0x0404, 0⟩ := rfl
    unfold PortsValid portOffset portCount
    rw [usb2]
    decide
  · exact valid

/-- Four ports for each of the protocols. -/
theorem tableMatches_iff_four : TableMatches (twoProtocols 0x0401) 0 0 [0, 16] ↔
    ∀ ptr ∈ [0, 16], IsUsb3 (twoProtocols 0x0401) ptr → ¬ EmptyAtFirst (twoProtocols 0x0401) ptr :=
  tableMatches_iff (list_twoProtocols _) (valid_twoProtocols ⟨by decide, by decide⟩)

/-- A USB 3 capability with no ports, from the first one on. -/
theorem not_tableMatches_noPorts : CapabilityList (twoProtocols 0x0001) 0 [0, 16] ∧
    (∀ ptr ∈ [0, 16], byteOf (twoProtocols 0x0001 ptr) 0 = supportedProtocol →
      PortsValid (twoProtocols 0x0001) ptr) ∧
    ¬ TableMatches (twoProtocols 0x0001) 0 0 [0, 16] := by
  refine ⟨list_twoProtocols _, valid_twoProtocols ⟨by decide, by decide⟩, ?_⟩
  rintro ⟨least, usb3Ports, returns, -⟩
  have read := readExtendedCapabilities_eq (list_twoProtocols 0x0001) (Nat.le_max_right least 2)
  have usb3 : IsUsb3 (twoProtocols 0x0001) 16 := ⟨by decide, by decide⟩
  have never := parseNodes_endless (max least 2) (show 16 ∈ [0, 16] by simp) usb3
    ⟨by decide, by decide⟩ []
  have returned := returns (max least 2) (Nat.le_max_left ..)
  have same : parseExtendedCapabilityRegisters (max least 2) (twoProtocols 0x0001) 0 0 [] =
      ([0, 16].map (.read (twoProtocols 0x0001))).foldlM
        (parseNode (max least 2) (twoProtocols 0x0001)) [] := by
    rw [parseExtendedCapabilityRegisters]
    exact congrArg (· >>= _) read
  exact Option.some_ne_none usb3Ports (returned.symm.trans (same.trans never))

end KopalniaOS.Xhci
