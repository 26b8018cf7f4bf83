import KopalniaOS.Library.Observation
import KopalniaOS.Library.Word
import KopalniaOS.Pci.Space
import Mathlib.Tactic.IntervalCases

/-!
# Looking for a function

The drivers look for their hardware bus by bus, device by device and function by function. What they
get is the first function that is there and that they want, and no configuration space changes.
-/
namespace KopalniaOS.Pci

open Library Program

variable {ι : Type}

/-! ### The search -/

/-- A whole `PCI_Device`. -/
structure DeviceRecord where
  address : PciDevice
  vendorId : BitVec 16
  deviceId : BitVec 16
  bar : List (BitVec 32)
deriving DecidableEq, Repr

/-- `PCI_Device{}`. -/
def DeviceRecord.none : DeviceRecord := ⟨⟨0, 0, 0⟩, 0, 0, List.replicate 6 0⟩

def PciDevice.of (bus dev fn : Nat) : PciDevice :=
  ⟨BitVec.ofNat 8 bus, BitVec.ofNat 8 dev, BitVec.ofNat 8 fn⟩

def readBars (d : PciDevice) : PciProgram ι (List (BitVec 32)) :=
  collect (fun i => pciRead32 d (BitVec.ofNat 8 (0x10 + i * 4))) (List.range 6)

def readRecord (d : PciDevice) (vid : BitVec 16) : PciProgram ι DeviceRecord := do
  let did ← pciRead16 d 0x02
  let bars ← readBars d
  pure ⟨d, vid, did, bars⟩

/-- The body of the innermost loop of the three searches that look at what is present. -/
def tryFunction (matching : PciDevice → BitVec 16 → PciProgram ι Bool) (d : PciDevice) :
    PciProgram ι (Option DeviceRecord) := do
  let vid ← pciRead16 d 0x00
  if vid = 0xFFFF ∨ vid = 0x0000 then pure Option.none
  else do
    let wanted ← matching d vid
    if wanted = true then do
      let device ← readRecord d vid
      pure (some device)
    else pure Option.none

def tryDevice (matching : PciDevice → BitVec 16 → PciProgram ι Bool) (bus dev : Nat) :
    PciProgram ι (Option DeviceRecord) := do
  let vid ← pciRead16 (.of bus dev 0) 0x00
  if vid = 0xFFFF then pure Option.none
  else do
    let header ← pciRead8 (.of bus dev 0) 0x0E
    let fnLimit := if header &&& 0x80 ≠ 0 then 8 else 1
    firstSome (fun fn => tryFunction matching (.of bus dev fn)) (List.range fnLimit)

def search (matching : PciDevice → BitVec 16 → PciProgram ι Bool) : PciProgram ι DeviceRecord := do
  let found ← firstSome (fun bus => firstSome (tryDevice matching bus) (List.range 32)) (List.range 256)
  pure (found.getD .none)

def getClass (d : PciDevice) : PciProgram ι (BitVec 32) := do
  let base ← pciRead8 d 0x0B
  let sub ← pciRead8 d 0x0A
  let ifc ← pciRead8 d 0x09
  pure (ifc.setWidth 32 <<< 16 ||| sub.setWidth 32 <<< 8 ||| base.setWidth 32)

def findClass (Class : BitVec 32) : PciProgram ι DeviceRecord :=
  search fun d _ => do
    let test ← getClass d
    pure (decide (test = Class))

def findVendorClass (vendor : BitVec 32) (baseClass subClass : BitVec 8) : PciProgram ι DeviceRecord :=
  search fun d vid => do
    let base ← pciRead8 d 0x0B
    let sub ← pciRead8 d 0x0A
    pure (decide (base = baseClass ∧ sub = subClass ∧ vendor = vid.setWidth 32))

def findClassWithSub (baseClass subClass : BitVec 8) : PciProgram ι DeviceRecord :=
  search fun d _ => do
    let base ← pciRead8 d 0x0B
    let sub ← pciRead8 d 0x0A
    pure (decide (base = baseClass ∧ sub = subClass))

/-- The body of the loops of `Find`. -/
def tryAddress (vendor device : BitVec 32) (d : PciDevice) : PciProgram ι (Option DeviceRecord) := do
  let vid ← pciRead16 d 0x00
  let did ← pciRead16 d 0x02
  if vid.setWidth 32 = vendor ∧ did.setWidth 32 = device then do
    let bars ← readBars d
    pure (some ⟨d, vid, did, bars⟩)
  else pure Option.none

/-- `Find` asks every address, whether a function is there or not. -/
def find (vendor device : BitVec 32) : PciProgram ι DeviceRecord := do
  let found ← firstSome (fun bus => firstSome (fun dev => firstSome (fun fn =>
    tryAddress vendor device (.of bus dev fn)) (List.range 8)) (List.range 32)) (List.range 256)
  pure (found.getD .none)

/-! ### What is there -/

/-- The configuration spaces of a machine. -/
abbrev Spaces := BitVec 16 → Space

def Spaces.vendor (c : Spaces) (d : PciDevice) : BitVec 16 := (c d.number).half 0x00

/-- The device has more than one function. -/
def Spaces.multi (c : Spaces) (bus dev : Nat) : Prop := c (PciDevice.of bus dev 0).number 0x0E &&& 0x80 ≠ 0

instance (c : Spaces) (bus dev : Nat) : Decidable (c.multi bus dev) :=
  inferInstanceAs (Decidable (_ ≠ _))

/-- A function that the searches look at. -/
structure Spaces.Present (c : Spaces) (bus dev fn : Nat) : Prop where
  device : c.vendor (.of bus dev 0) ≠ 0xFFFF
  inLimit : fn = 0 ∨ c.multi bus dev
  there : c.vendor (.of bus dev fn) ≠ 0xFFFF
  used : c.vendor (.of bus dev fn) ≠ 0

def Spaces.bars (c : Spaces) (d : PciDevice) : List (BitVec 32) :=
  (List.range 6).map fun i => (c d.number).read32 (BitVec.ofNat 8 (0x10 + i * 4) &&& 0xFC)

def Spaces.describe (c : Spaces) (d : PciDevice) : DeviceRecord :=
  ⟨d, c.vendor d, (c d.number).half 0x02, c.bars d⟩

def Spaces.classCode (c : Spaces) (d : PciDevice) : BitVec 32 :=
  (c d.number 0x09).setWidth 32 <<< 16 ||| (c d.number 0x0A).setWidth 32 <<< 8 |||
    (c d.number 0x0B).setWidth 32

/-! ### Reading only -/

/-- Only the address port may differ. -/
def spaces : Observer (PciState ι) Spaces where
  part := PciState.space
  same s t := ∃ a, t = { s with configAddress := a }
  refl s := ⟨s.configAddress, rfl⟩
  trans := by
    rintro s t u ⟨a, rfl⟩ ⟨b, rfl⟩
    exact ⟨b, rfl⟩
  part_eq := by
    rintro s t ⟨a, rfl⟩
    rfl

/-- A program that reads configuration space and nothing else. -/
abbrev Reads {α : Type} (p : PciProgram ι α) (v : Spaces → α) : Prop :=
  p.Observes pciHandler spaces v

theorem accessed_eq (s : PciState ι) (d : PciDevice) (o : Offset) :
    s.accessed d o (s.space d.number) = { s with configAddress := configAddress d o } := by
  rw [PciState.accessed, Function.update_eq_self]

theorem reads_pciRead32 (d : PciDevice) (o : Offset) :
    Reads (ι := ι) (pciRead32 d o) fun c => (c d.number).read32 (o &&& 0xFC) :=
  fun s => ⟨_, run_pciRead32 d o, configAddress d o, accessed_eq s d o⟩

theorem reads_pciRead16 (d : PciDevice) (o : Offset) :
    Reads (ι := ι) (pciRead16 d o) fun c => (c d.number).half o :=
  fun s => ⟨_, run_pciRead16 d o, configAddress d o, accessed_eq s d o⟩

theorem reads_pciRead8 (d : PciDevice) (o : Offset) :
    Reads (ι := ι) (pciRead8 d o) fun c => c d.number o :=
  fun s => ⟨_, run_pciRead8 d o, configAddress d o, accessed_eq s d o⟩

theorem reads_readBars (d : PciDevice) : Reads (ι := ι) (readBars d) fun c => c.bars d :=
  observes_collect (fun i => reads_pciRead32 d (BitVec.ofNat 8 (0x10 + i * 4))) _

theorem reads_readRecord (d : PciDevice) (vid : BitVec 16) :
    Reads (ι := ι) (readRecord d vid) fun c => ⟨d, vid, (c d.number).half 0x02, c.bars d⟩ := by
  have rest := fun did => (reads_readBars (ι := ι) d).bind fun bars =>
    observes_ret (DeviceRecord.mk d vid did bars)
  exact (reads_pciRead16 d 0x02).bind rest

variable {matching : PciDevice → BitVec 16 → PciProgram ι Bool} {wanted : Spaces → PciDevice → Bool}

/-- What a search asks of a function, given its vendor. -/
def Asks (matching : PciDevice → BitVec 16 → PciProgram ι Bool) (wanted : Spaces → PciDevice → Bool) :
    Prop :=
  ∃ w : PciDevice → BitVec 16 → Spaces → Bool, (∀ d vid, Reads (matching d vid) (w d vid)) ∧
    ∀ c d, w d (c.vendor d) c = wanted c d

/-- What the innermost loop finds at an address. -/
def Spaces.found (c : Spaces) (wanted : Spaces → PciDevice → Bool) (d : PciDevice) : Option DeviceRecord :=
  if c.vendor d = 0xFFFF ∨ c.vendor d = 0 then Option.none
  else if wanted c d = true then some (c.describe d) else Option.none

theorem reads_tryFunction (asks : Asks matching wanted) (d : PciDevice) :
    Reads (tryFunction matching d) fun c => c.found wanted d := by
  obtain ⟨w, reads, equal⟩ := asks
  have yes := fun vid => (reads_readRecord (ι := ι) d vid).bind fun r => observes_ret (some r)
  have answer := fun vid (b : Bool) => observes_ite (c := b = true) (yes vid) (observes_ret Option.none)
  have tested := fun vid => (reads d vid).bind (answer vid)
  have whole := (reads_pciRead16 (ι := ι) d 0x00).bind fun vid =>
    observes_ite (c := vid = 0xFFFF ∨ vid = 0x0000) (observes_ret Option.none) (tested vid)
  refine whole.congr fun c => ?_
  have vendor : (c d.number).half 0x00 = c.vendor d := rfl
  rw [vendor, equal]
  rfl

/-- What the search finds in a device, and in the whole machine. -/
def Spaces.inDevice (c : Spaces) (wanted : Spaces → PciDevice → Bool) (bus dev : Nat) :
    Option DeviceRecord :=
  if c.vendor (.of bus dev 0) = 0xFFFF then Option.none
  else (List.range (if c.multi bus dev then 8 else 1)).findSome? fun fn => c.found wanted (.of bus dev fn)

def Spaces.first (c : Spaces) (wanted : Spaces → PciDevice → Bool) : Option DeviceRecord :=
  (List.range 256).findSome? fun bus => (List.range 32).findSome? fun dev => c.inDevice wanted bus dev

theorem reads_tryDevice (asks : Asks matching wanted) (bus dev : Nat) :
    Reads (tryDevice matching bus dev) fun c => c.inDevice wanted bus dev := by
  have functions := fun header : BitVec 8 => observes_firstSome
    (fun fn => reads_tryFunction asks (.of bus dev fn)) (List.range (if header &&& 0x80 ≠ 0 then 8 else 1))
  have headed := (reads_pciRead8 (ι := ι) (.of bus dev 0) 0x0E).bind functions
  have whole := (reads_pciRead16 (ι := ι) (.of bus dev 0) 0x00).bind fun vid =>
    observes_ite (c := vid = 0xFFFF) (observes_ret Option.none) headed
  exact whole.congr fun c => rfl

theorem reads_search (asks : Asks matching wanted) :
    Reads (search matching) fun c => (c.first wanted).getD .none := by
  have buses := observes_firstSome (fun bus => observes_firstSome (reads_tryDevice asks bus) (List.range 32))
    (List.range 256)
  exact buses.bind fun found => observes_ret (found.getD .none)

/-! ### The first one -/

theorem found_eq_some {c : Spaces} {d : PciDevice} {r : DeviceRecord} :
    c.found wanted d = some r ↔
      c.vendor d ≠ 0xFFFF ∧ c.vendor d ≠ 0 ∧ wanted c d = true ∧ r = c.describe d := by
  unfold Spaces.found
  split
  · rename_i absent
    constructor
    · rintro ⟨⟩
    · rintro ⟨there, used, -⟩
      exact (absent.elim there used).elim
  · rename_i present
    rw [not_or] at present
    split
    · rename_i yes
      rw [Option.some_inj]
      exact ⟨fun eq => ⟨present.1, present.2, yes, eq.symm⟩, fun h => h.2.2.2.symm⟩
    · rename_i no
      constructor
      · rintro ⟨⟩
      · rintro ⟨-, -, yes, -⟩
        exact (no yes).elim

/-- A function that is there and that the caller wants. -/
def Spaces.Wanted (c : Spaces) (wanted : Spaces → PciDevice → Bool) (bus dev fn : Nat) : Prop :=
  c.Present bus dev fn ∧ wanted c (.of bus dev fn) = true

theorem inDevice_eq_some {c : Spaces} {bus dev : Nat} {r : DeviceRecord} :
    c.inDevice wanted bus dev = some r ↔ ∃ fn < 8, c.Wanted wanted bus dev fn ∧
      r = c.describe (.of bus dev fn) ∧ ∀ f < fn, ¬c.Wanted wanted bus dev f := by
  have limit : ∀ fn, fn < (if c.multi bus dev then 8 else 1) ↔ fn < 8 ∧ (fn = 0 ∨ c.multi bus dev) := by
    intro fn
    split <;> rename_i multi <;> simp only [multi, or_true, or_false, and_true]
    omega
  unfold Spaces.inDevice
  split
  · rename_i absent
    constructor
    · rintro ⟨⟩
    · rintro ⟨fn, -, ⟨present, -⟩, -⟩
      exact (present.device absent).elim
  · rename_i device
    rw [findSome?_range_eq_some]
    constructor
    · rintro ⟨fn, inside, found, earlier⟩
      obtain ⟨small, inLimit⟩ := (limit fn).mp inside
      obtain ⟨there, used, yes, rfl⟩ := found_eq_some.mp found
      refine ⟨fn, small, ⟨⟨device, inLimit, there, used⟩, yes⟩, rfl, fun f less other => ?_⟩
      have found' := found_eq_some.mpr ⟨other.1.there, other.1.used, other.2, rfl⟩
      rw [earlier f less] at found'
      cases found'
    · rintro ⟨fn, small, ⟨present, yes⟩, rfl, earlier⟩
      refine ⟨fn, (limit fn).mpr ⟨small, present.inLimit⟩, ?_, fun f less => ?_⟩
      · exact found_eq_some.mpr ⟨present.there, present.used, yes, rfl⟩
      · rw [Option.eq_none_iff_forall_ne_some]
        intro r found
        obtain ⟨there, used, yes, -⟩ := found_eq_some.mp found
        -- below a function of a device with one function there is none
        have inLimit : f = 0 ∨ c.multi bus dev := .inr (present.inLimit.resolve_left (by omega))
        exact earlier f less ⟨⟨device, inLimit, there, used⟩, yes⟩

/-- The addresses that the loops go through have the numbers of all functions, in order. -/
theorem number_of {bus dev fn : Nat} (bus_lt : bus < 256) (dev_lt : dev < 32) (fn_lt : fn < 8) :
    (PciDevice.of bus dev fn).number.toNat = bus * 256 + dev * 8 + fn := by
  have parts : (PciDevice.of bus dev fn).number = (BitVec.ofNat 8 bus).setWidth 16 <<< 8 |||
      (BitVec.ofNat 8 dev).setWidth 16 <<< 3 ||| (BitVec.ofNat 8 fn).setWidth 16 := by
    unfold PciDevice.number PciDevice.of
    refine BitVec.eq_of_getLsbD_eq fun i inside => ?_
    interval_cases i <;> simp [functionOf, configAddress]
  have value : ∀ n k, n < 256 → n * 2 ^ k < 2 ^ 16 →
      ((BitVec.ofNat 8 n).setWidth 16 <<< k).toNat = n * 2 ^ k := by
    intro n k small fits
    have wide : (BitVec.ofNat 8 n).setWidth 16 = BitVec.ofNat 16 n := by
      apply BitVec.eq_of_toNat_eq
      rw [BitVec.toNat_setWidth, BitVec.toNat_ofNat, BitVec.toNat_ofNat]
      omega
    rw [wide, BitVec.toNat_shiftLeft, BitVec.toNat_ofNat, Nat.shiftLeft_eq, Nat.mod_eq_of_lt (a := n)
      (by omega), Nat.mod_eq_of_lt fits]
  have last := value fn 0 (by omega) (by omega)
  rw [BitVec.shiftLeft_zero] at last
  rw [parts, BitVec.toNat_or, BitVec.toNat_or, value bus 8 bus_lt (by omega),
    value dev 3 (by omega) (by omega), last]
  -- the three parts have no bit in common
  rw [or_eq_add (k := 8) (x := bus * 2 ^ 8) (by omega) (by omega), or_eq_add (k := 3) (by omega) (by omega)]
  omega

/-- The function with the least number among those that `W` holds of. -/
structure First (W : Nat → Nat → Nat → Prop) (bus dev fn : Nat) : Prop where
  inRange : bus < 256 ∧ dev < 32 ∧ fn < 8
  holds : W bus dev fn
  least : ∀ b < 256, ∀ d < 32, ∀ f < 8,
    (PciDevice.of b d f).number.toNat < (PciDevice.of bus dev fn).number.toNat → ¬W b d f

/-- `W` holds of no function. -/
def Nowhere (W : Nat → Nat → Nat → Prop) : Prop := ∀ b < 256, ∀ d < 32, ∀ f < 8, ¬W b d f

/-- What two loops find, if the body of the inner one finds the first function of a device. -/
theorem first_of_devices {W : Nat → Nat → Nat → Prop} {v : PciDevice → DeviceRecord}
    {g : Nat → Nat → Option DeviceRecord}
    (some_iff : ∀ bus dev r, g bus dev = some r ↔
      ∃ fn < 8, W bus dev fn ∧ r = v (.of bus dev fn) ∧ ∀ f < fn, ¬W bus dev f) :
    match (List.range 256).findSome? fun bus => (List.range 32).findSome? fun dev => g bus dev with
    | some r => ∃ bus dev fn, First W bus dev fn ∧ r = v (.of bus dev fn)
    | none => Nowhere W := by
  classical
  have none_iff : ∀ bus dev, g bus dev = Option.none → ∀ fn < 8, ¬W bus dev fn := by
    intro bus dev none fn small yes
    -- there would be a first one
    have least := Nat.find_spec (⟨fn, small, yes⟩ : ∃ f, f < 8 ∧ W bus dev f)
    have found := (some_iff bus dev _).mpr ⟨_, least.1, least.2, rfl, fun f less other =>
      Nat.find_min _ less ⟨Nat.lt_trans less least.1, other⟩⟩
    rw [none] at found
    cases found
  cases found : (List.range 256).findSome? fun bus => (List.range 32).findSome? fun dev => g bus dev with
  | none =>
    intro b b_lt d d_lt f f_lt
    have inBus := (findSome?_range_eq_none 256).mp found b b_lt
    exact none_iff b d ((findSome?_range_eq_none 32).mp inBus d d_lt) f f_lt
  | some r =>
    obtain ⟨bus, bus_lt, inBus, before⟩ := (findSome?_range_eq_some 256).mp found
    obtain ⟨dev, dev_lt, inDev, earlier⟩ := (findSome?_range_eq_some 32).mp inBus
    obtain ⟨fn, fn_lt, yes, rfl, least⟩ := (some_iff bus dev r).mp inDev
    refine ⟨bus, dev, fn, ⟨⟨bus_lt, dev_lt, fn_lt⟩, yes, ?_⟩, rfl⟩
    intro b b_lt d d_lt f f_lt less
    rw [number_of b_lt d_lt f_lt, number_of bus_lt dev_lt fn_lt] at less
    -- a smaller number is on an earlier bus, or in an earlier device of the bus, or before the function
    by_cases sameBus : b = bus
    · subst sameBus
      by_cases sameDev : d = dev
      · subst sameDev
        exact least f (by omega)
      · exact none_iff b d (earlier d (by omega)) f f_lt
    · have none := (findSome?_range_eq_none 32).mp (before b (by omega)) d d_lt
      exact none_iff b d none f f_lt

/-! ### What the drivers get -/

/-- The record of a search: the first function, or zeros. A vendor of zero, which the drivers test
for, means that there is none. -/
structure Finds (c : Spaces) (W : Nat → Nat → Nat → Prop) (r : DeviceRecord) : Prop where
  record : (∃ bus dev fn, First W bus dev fn ∧ r = c.describe (.of bus dev fn)) ∨
    Nowhere W ∧ r = .none
  sentinel : r.vendorId = 0 ↔ Nowhere W

theorem finds_of_devices {c : Spaces} {W : Nat → Nat → Nat → Prop} {g : Nat → Nat → Option DeviceRecord}
    (some_iff : ∀ bus dev r, g bus dev = some r ↔
      ∃ fn < 8, W bus dev fn ∧ r = c.describe (.of bus dev fn) ∧ ∀ f < fn, ¬W bus dev f)
    (used : ∀ bus dev fn, W bus dev fn → c.vendor (.of bus dev fn) ≠ 0) :
    Finds c W (((List.range 256).findSome? fun bus =>
      (List.range 32).findSome? fun dev => g bus dev).getD .none) := by
  have first := first_of_devices some_iff
  cases found : (List.range 256).findSome? fun bus => (List.range 32).findSome? fun dev => g bus dev with
  | none =>
    rw [found] at first
    exact ⟨.inr ⟨first, rfl⟩, iff_of_true rfl first⟩
  | some r =>
    rw [found] at first
    obtain ⟨bus, dev, fn, first, rfl⟩ := first
    obtain ⟨bus_lt, dev_lt, fn_lt⟩ := first.inRange
    refine ⟨.inl ⟨bus, dev, fn, first, rfl⟩, iff_of_false (used _ _ _ first.holds) fun no => ?_⟩
    exact no bus bus_lt dev dev_lt fn fn_lt first.holds

/-- A run of a program that returns the record of a search and changes nothing but the address port. -/
def Searches (p : PciProgram ι DeviceRecord) (s : PciState ι) (W : Nat → Nat → Nat → Prop) : Prop :=
  ∃ r a, p.run pciHandler s = some (r, { s with configAddress := a }) ∧ Finds s.space W r

theorem search_searches (asks : Asks matching wanted) (s : PciState ι) :
    Searches (search matching) s (Spaces.Wanted s.space wanted) := by
  obtain ⟨t, ran, a, rfl⟩ := reads_search asks s
  exact ⟨_, a, ran, finds_of_devices (fun _ _ _ => inDevice_eq_some) fun _ _ _ yes => yes.1.used⟩

/-- The class that `Find_Class` is asked for has the interface in front and the base class last. -/
theorem asks_class (Class : BitVec 32) : Asks (ι := ι)
    (fun d _ => do
      let test ← getClass d
      pure (decide (test = Class)))
    fun c d => decide (c.classCode d = Class) := by
  refine ⟨fun d _ c => decide (c.classCode d = Class), fun d _ => ?_, fun _ _ => rfl⟩
  have sub := fun base : BitVec 8 => (reads_pciRead8 (ι := ι) d 0x0A).bind fun sub =>
    (reads_pciRead8 (ι := ι) d 0x09).bind fun ifc =>
      observes_ret (ifc.setWidth 32 <<< 16 ||| sub.setWidth 32 <<< 8 ||| base.setWidth 32 : BitVec 32)
  exact ((reads_pciRead8 d 0x0B).bind sub).bind fun test => observes_ret (decide (test = Class))

theorem asks_bytes (test : BitVec 16 → BitVec 8 → BitVec 8 → Bool) : Asks (ι := ι)
    (fun d vid => do
      let base ← pciRead8 d 0x0B
      let sub ← pciRead8 d 0x0A
      pure (test vid base sub))
    fun c d => test (c.vendor d) (c d.number 0x0B) (c d.number 0x0A) := by
  refine ⟨fun d vid c => test vid (c d.number 0x0B) (c d.number 0x0A), fun d vid => ?_, fun _ _ => rfl⟩
  have sub := fun base : BitVec 8 => (reads_pciRead8 (ι := ι) d 0x0A).bind fun sub =>
    observes_ret (test vid base sub)
  exact (reads_pciRead8 d 0x0B).bind sub

/-- `Find` does not ask whether a function is there. -/
def Spaces.Answers (c : Spaces) (vendor device : BitVec 32) (bus dev fn : Nat) : Prop :=
  (c.vendor (.of bus dev fn)).setWidth 32 = vendor ∧
    ((c (PciDevice.of bus dev fn).number).half 0x02).setWidth 32 = device

/-- What the body finds. -/
def Spaces.answered (c : Spaces) (vendor device : BitVec 32) (d : PciDevice) : Option DeviceRecord :=
  if (c.vendor d).setWidth 32 = vendor ∧ ((c d.number).half 0x02).setWidth 32 = device then
    some (c.describe d)
  else Option.none

theorem reads_tryAddress (vendor device : BitVec 32) (d : PciDevice) :
    Reads (ι := ι) (tryAddress vendor device d) fun c => c.answered vendor device d := by
  have yes := fun vid did => (reads_readBars (ι := ι) d).bind fun bars =>
    observes_ret (some (DeviceRecord.mk d vid did bars))
  have asked := fun vid : BitVec 16 => (reads_pciRead16 (ι := ι) d 0x02).bind fun did =>
    observes_ite (c := vid.setWidth 32 = vendor ∧ did.setWidth 32 = device) (yes vid did)
      (observes_ret Option.none)
  exact (reads_pciRead16 d 0x00).bind asked

theorem find_searches (vendor device : BitVec 32) (real : vendor ≠ 0) (s : PciState ι) :
    Searches (find vendor device) s (Spaces.Answers s.space vendor device) := by
  have loops := observes_firstSome (fun bus => observes_firstSome (fun dev => observes_firstSome (fun fn =>
    reads_tryAddress (ι := ι) vendor device (.of bus dev fn)) (List.range 8)) (List.range 32))
      (List.range 256)
  obtain ⟨t, ran, a, rfl⟩ := (loops.bind fun found => observes_ret (found.getD .none)) s
  refine ⟨_, a, ran, finds_of_devices ?_ ?_⟩
  · intro bus dev r
    have answers : ∀ fn r, Spaces.answered s.space vendor device (.of bus dev fn) = some r ↔
        Spaces.Answers s.space vendor device bus dev fn ∧ r = Spaces.describe s.space (.of bus dev fn) := by
      intro fn r
      unfold Spaces.answered Spaces.Answers
      split
      · rename_i yes
        rw [Option.some_inj]
        exact ⟨fun eq => ⟨yes, eq.symm⟩, fun found => found.2.symm⟩
      · rename_i no
        constructor
        · rintro ⟨⟩
        · rintro ⟨yes, -⟩
          exact (no yes).elim
    have part : spaces.part s = s.space := rfl
    rw [findSome?_range_eq_some, part]
    refine exists_congr fun fn => and_congr_right fun small => ?_
    rw [answers, and_assoc]
    refine and_congr_right fun yes => and_congr_right fun same => forall₂_congr fun f less => ?_
    rw [Option.eq_none_iff_forall_ne_some]
    exact ⟨fun none other => none _ ((answers f _).mpr ⟨other, rfl⟩),
      fun no r found => no ((answers f r).mp found).1⟩
  · rintro bus dev fn ⟨vendor_eq, -⟩ zero
    change Spaces.vendor s.space _ = 0 at zero
    change (Spaces.vendor s.space _).setWidth 32 = vendor at vendor_eq
    rw [zero] at vendor_eq
    exact real vendor_eq.symm

theorem findClassWithSub_searches (base sub : BitVec 8) (s : PciState ι) :
    Searches (findClassWithSub base sub) s
      (Spaces.Wanted s.space fun c d => decide (c d.number 0x0B = base ∧ c d.number 0x0A = sub)) :=
  search_searches (asks_bytes fun _ b c => decide (b = base ∧ c = sub)) s

/-- For every machine, each search returns the function with the least number that is there and that
is asked for, with its vendor, device and base addresses, or a record with vendor zero if there is
none; and nothing but the address port changes. -/
theorem searches_find_first (s : PciState ι) :
    (∀ Class, Searches (findClass Class) s
      (Spaces.Wanted s.space fun c d => decide (c.classCode d = Class))) ∧
    (∀ vendor base sub, Searches (findVendorClass vendor base sub) s
      (Spaces.Wanted s.space fun c d => decide (c d.number 0x0B = base ∧ c d.number 0x0A = sub ∧
        vendor = (c.vendor d).setWidth 32))) ∧
    (∀ base sub, Searches (findClassWithSub base sub) s
      (Spaces.Wanted s.space fun c d => decide (c d.number 0x0B = base ∧ c d.number 0x0A = sub))) ∧
    ∀ vendor device, vendor ≠ 0 →
      Searches (find vendor device) s (Spaces.Answers s.space vendor device) := by
  refine ⟨fun Class => ?_, fun vendor base sub => ?_, fun base sub => ?_, fun vendor device real => ?_⟩
  · exact search_searches (asks_class Class) s
  · exact search_searches
      (asks_bytes fun vid b c => decide (b = base ∧ c = sub ∧ vendor = vid.setWidth 32)) s
  · exact findClassWithSub_searches base sub s
  · exact find_searches vendor device real s

/-- A machine with one function, the network card at number 24. -/
def oneCard : PciState Unit where
  configAddress := 0
  space n i := if n = 24 then if i = 0 then 0xEC else if i = 1 then 0x10 else if i = 0x0B then 2 else 0
    else 0xFF
  msr _ := 0
  table := ⟨fun _ _ => none, fun _ => 0, []⟩

theorem searches_find_first_card :
    ∃ r t, (findVendorClass 0x10EC 0x02 0x00).run pciHandler oneCard = some (r, t) ∧ r.vendorId ≠ 0 := by
  obtain ⟨-, byVendor, -⟩ := searches_find_first oneCard
  obtain ⟨r, a, ran, finds⟩ := byVendor 0x10EC 0x02 0x00
  refine ⟨r, _, ran, fun zero => ?_⟩
  refine finds.sentinel.mp zero 0 (by decide) 3 (by decide) 0 (by decide) ⟨⟨?_, .inl rfl, ?_, ?_⟩, ?_⟩ <;>
    decide

end KopalniaOS.Pci
