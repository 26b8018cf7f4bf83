import KopalniaOS.Ahci.Handler
import KopalniaOS.Ahci.Transfer

/-!
# The command of a transfer

What `read` and `write` leave in the header and in the table of the slot that they issue: entries for
pieces of eight KiB, one after the other, and one for what is left.
-/
namespace KopalniaOS.Ahci

open Library

/-! ### The table as it is issued -/

variable {d : Direction} {c : PortConfig} {s : TransferState} {slot : Slot}

/-- What `count` is before the last entry. -/
def remaining (count sectorsPerPrdt k : Nat) : Nat := (count + (2 ^ 32 - sectorsPerPrdt) * k) % 2 ^ 32

def lastEntry (c : PortConfig) (count buffer sectorSize sectorsPerPrdt length : Nat) : PrdtEntry :=
  prdtEntry c (u64 (buffer + 8192 * (length - 1)))
    (sub32 (remaining count sectorsPerPrdt (length - 1) * sectorSize % 2 ^ 32) 1)

/-- The table that is built: full entries, and the last one. -/
def builtTable (d : Direction) (c : PortConfig)
    (start count buffer sectorSize sectorsPerPrdt length : Nat) : CommandTable where
  fis := commandFis d.command start count
  prdt i :=
    if i = (length : Int) - 1 then
      some (lastEntry c count buffer sectorSize sectorsPerPrdt length)
    else if 0 ≤ i ∧ i < (length : Int) - 1 then
      some (prdtEntry c (u64 (buffer + 8192 * i.toNat)) 8191)
    else none

theorem run_onPort {α : Type} (p : PortProgram α) (s : TransferState) :
    (onPort p).run transferHandler s =
      (p.run portHandler s.port).map fun r => (r.1, { s with port := r.2 }) :=
  Program.run_interp portHandler TransferState.port (fun s port => { s with port }) (fun _ => rfl)
    (fun _ _ => rfl) (fun _ _ _ => rfl) (fun _ s => Program.run_perform transferHandler _ s) p s

/-- The port once the errors are cleared. -/
def PortState.cleared (s : PortState) : PortState :=
  { s with status := fun _ => false, hasErrored := false }

theorem run_clear (s : TransferState) : (onPort clearInterruptErrors).run transferHandler s =
    some ((), { s with port := s.port.cleared }) := by
  rw [run_onPort, run_clearInterruptErrors]
  rfl

theorem run_readCommandSlot (num : Nat) (s : TransferState) :
    (readCommandSlot num).run transferHandler s = some (getCommandSlot num s.port, s) := by
  have found : (readCommandSlot num).run transferHandler s =
      (match getCommandSlot num s.port with
        | some slot => pure (some slot)
        | none => do
          step (.port (.log "Failed to find free command slot."))
          pure none : TransferProgram (Option Slot)).run transferHandler s := rfl
  rw [found]
  cases getCommandSlot num s.port <;> rfl

/-! ### The loop -/

def TransferState.withTable (s : TransferState) (slot : Slot) (t : CommandTable) : TransferState :=
  { s with table := Function.update s.table slot t }

@[simp] theorem table_withTable (s : TransferState) (slot : Slot) (t : CommandTable) :
    (s.withTable slot t).table slot = t :=
  Function.update_self ..

@[simp] theorem header_withTable (s : TransferState) (slot : Slot) (t : CommandTable) :
    (s.withTable slot t).header = s.header := rfl

@[simp] theorem withTable_withTable (s : TransferState) (slot : Slot) (t u : CommandTable) :
    (s.withTable slot t).withTable slot u = s.withTable slot u := by
  unfold TransferState.withTable
  rw [Function.update_idem]

theorem withTable_table (s : TransferState) (slot : Slot) : s.withTable slot (s.table slot) = s := by
  unfold TransferState.withTable
  rw [Function.update_eq_self]

theorem run_writePrdt_bind {α : Type} (i : Int) (entry : PrdtEntry) (f : Unit → TransferProgram α) :
    (step (.writePrdt slot i entry) >>= f).run transferHandler s =
      (f ()).run transferHandler (s.withTable slot
        ⟨(s.table slot).fis, Function.update (s.table slot).prdt i (some entry)⟩) := rfl

theorem run_writeFis (fis : RegH2d) : (step (.writeFis slot fis)).run transferHandler s =
    some ((), s.withTable slot ⟨fis, (s.table slot).prdt⟩) := rfl

/-- A table with the first entries of the loop. -/
def CommandTable.filled (t : CommandTable) (c : PortConfig) (buffer i k : Nat) : CommandTable where
  fis := t.fis
  prdt j :=
    if (i : Int) ≤ j ∧ j < i + k then some (prdtEntry c (u64 (buffer + 8192 * (j - i).toNat)) 8191)
    else t.prdt j

theorem filled_zero (t : CommandTable) (c : PortConfig) (buffer i : Nat) :
    t.filled c buffer i 0 = t := by
  unfold CommandTable.filled
  congr 1
  funext j
  exact if_neg (by omega)

theorem u64_next (buffer k : Nat) :
    u64 (u64 (buffer + 8192) + 8192 * k) = u64 (buffer + 8192 * (k + 1)) := by
  unfold u64
  omega

theorem filled_succ (t : CommandTable) (c : PortConfig) (buffer i k : Nat) (word : buffer < 2 ^ 64) :
    (CommandTable.mk t.fis (Function.update t.prdt i (some (prdtEntry c buffer 8191)))).filled
        c (u64 (buffer + 8192)) (i + 1) k = t.filled c buffer i (k + 1) := by
  unfold CommandTable.filled
  congr 1
  funext j
  dsimp only
  -- index `i` is what was just written; behind it the indices and the addresses move on together
  by_cases first : j = (i : Int)
  · subst first
    rw [if_neg (by omega), Function.update_self, if_pos (by omega), Int.sub_self, Int.toNat_zero,
      Nat.mul_zero, Nat.add_zero, u64_of_lt word]
  · rw [Function.update_of_ne first]
    by_cases inside : (i : Int) ≤ j ∧ j < i + (k + 1 : Nat)
    · have next : (j - i).toNat = (j - (i + 1 : Nat)).toNat + 1 := by omega
      rw [if_pos (by omega), if_pos inside, next, u64_next]
    · rw [if_neg (by omega), if_neg inside]

theorem sub32_lt (a b : Nat) : sub32 a b < 2 ^ 32 := Nat.mod_lt _ (by decide)

theorem remaining_succ (count k : Nat) {spp : Nat} (small : spp < 2 ^ 32) :
    remaining (sub32 count spp) spp k = remaining count spp (k + 1) := by
  unfold remaining sub32
  -- subtracting on words is adding what is missing to `2 ^ 32`
  obtain ⟨b, rfl⟩ : ∃ b, spp = 2 ^ 32 - b := ⟨2 ^ 32 - spp, by omega⟩
  rw [Nat.mul_add_one]
  generalize (2 ^ 32 - (2 ^ 32 - b)) * k = x
  omega

theorem run_fillPrdt (c : PortConfig) (slot : Slot) {spp : Nat} (small : spp < 2 ^ 32)
    (left i : Nat) {buffer count : Nat} (word : buffer < 2 ^ 64) (word' : count < 2 ^ 32)
    (s : TransferState) :
    (fillPrdt c slot spp left i buffer count).run transferHandler s =
      some ((u64 (buffer + 8192 * left), remaining count spp left),
        s.withTable slot ((s.table slot).filled c buffer i left)) := by
  induction left generalizing i buffer count s with
  | zero =>
    rw [filled_zero, withTable_table, fillPrdt, remaining, Nat.mul_zero, Nat.mul_zero, Nat.add_zero,
      Nat.add_zero, u64_of_lt word, Nat.mod_eq_of_lt word']
    rfl
  | succ left ih =>
    rw [fillPrdt, run_writePrdt_bind, ih (i + 1) (u64_lt _) (sub32_lt count spp), u64_next,
      remaining_succ count left small, table_withTable, withTable_withTable]
    exact congrArg (fun t => some (_, s.withTable slot t)) (filled_succ _ c buffer i left word)

/-- The table is built as stated, whatever was in it. -/
theorem run_buildTable (d : Direction) (c : PortConfig) (slot : Slot) (start : Nat)
    {count buffer sectorSize spp : Nat} (length : Nat) (small : spp < 2 ^ 32) (word : buffer < 2 ^ 64)
    (word' : count < 2 ^ 32) (s : TransferState) :
    (buildTable d c slot start count buffer sectorSize spp length).run transferHandler s =
      some ((), s.withTable slot (builtTable d c start count buffer sectorSize spp length)) := by
  have cleared (f : Unit → TransferProgram Unit) :
      (step (.clearTable slot) >>= f).run transferHandler s =
        (f ()).run transferHandler (s.withTable slot ⟨{}, fun _ => none⟩) := rfl
  rw [buildTable, cleared, Program.run_bind, run_fillPrdt c slot small _ _ word word',
    Option.bind_some, run_writePrdt_bind, table_withTable, withTable_withTable, table_withTable,
    withTable_withTable]
  rw [run_writeFis, table_withTable, withTable_withTable]
  -- the last entry, the entries of the loop, and nothing else
  congr 3
  unfold builtTable CommandTable.filled
  congr 1
  funext i
  dsimp only
  by_cases last : i = (length : Int) - 1
  · subst last
    rw [Function.update_self, if_pos rfl]
    rfl
  · rw [Function.update_of_ne last, if_neg last]
    by_cases before : 0 ≤ i ∧ i < (length : Int) - 1
    · rw [if_pos (by omega), if_pos before, Int.natCast_zero, Int.sub_zero]
    · rw [if_neg (by omega), if_neg before]

/-! ### The command that is issued -/

/-- No division is by zero, and what is issued is the command of a slot whose header and table
satisfy `P`. -/
def Issued (P : Slot → CommandHeader → CommandTable → Prop) (o : TransferOp) (s : TransferState) :
    Prop :=
  match o with
  | .divide _ b => b ≠ 0
  | .port (.writeIssue w) => ∃ slot, w = bit slot ∧ P slot (s.header slot) (s.table slot)
  | _ => True

variable {P : Slot → CommandHeader → CommandTable → Prop}

/-- Without an issued command there is none to look at. -/
theorem issued_of_unvisited {p : TransferProgram Bool} (issued : p.All transferHandler (Issued P) s)
    (none : ∀ w u, ¬p.Visits transferHandler s (.port (.writeIssue w)) u) :
    p.All transferHandler (Issued fun _ _ _ => False) s := by
  intro o u visit
  have here := issued o u visit
  cases o with
  | divide a b => exact here
  | port o =>
    cases o with
    | writeIssue w => exact (none w u visit).elim
    | _ => trivial
  | _ => trivial

theorem all_onPort {α : Type} {Q : TransferOp → TransferState → Prop} (p : PortProgram α)
    (s : TransferState) : (onPort p).All transferHandler Q s ↔
      p.All portHandler (fun o port => Q (.port o) { s with port }) s.port := by
  induction p generalizing s with
  | ret a => exact ⟨fun _ => Program.all_ret a _, fun _ => Program.all_ret a s⟩
  | op o k ih =>
    have split : (onPort (.op o k)).All transferHandler Q s ↔ Q (.port o) s ∧
        ∀ r, transferHandler (.port o) s = some r → (onPort (k r.1)).All transferHandler Q r.2 :=
      Program.all_op (TransferOp.port o) (fun r => onPort (k r)) s
    rw [split, Program.all_op]
    refine and_congr Iff.rfl ⟨fun rest r answer => ?_, fun rest r answer => ?_⟩
    · refine (ih r.1 { s with port := r.2 }).mp (rest (r.1, { s with port := r.2 }) ?_)
      rw [transferHandler, answer]
      rfl
    · obtain ⟨r', answer', rfl⟩ := Option.map_eq_some_iff.mp answer
      exact (ih r'.1 _).mpr (rest r' answer')
  | stuck => exact ⟨fun _ => Program.all_stuck _, fun _ => Program.all_stuck s⟩

/-- Polling issues nothing. -/
def IssuesNothing (o : PortOp) : Prop := ∀ w, o ≠ .writeIssue w

theorem IssuesNothing.issued {o : PortOp} (quiet : IssuesNothing o) (s : TransferState) :
    Issued P (.port o) s := by
  cases o with
  | writeIssue w => exact (quiet w rfl).elim
  | _ => trivial

theorem issuesNothing_waitForPort (n : Nat) : (waitForPort n).Always IssuesNothing := by
  induction n with
  | zero => exact ⟨nofun, fun _ => trivial⟩
  | succ n ih =>
    refine ⟨nofun, fun busy => ?_⟩
    cases busy with
    | true => exact ih
    | false => trivial

theorem issuesNothing_waitForPortCompletion (slot : Slot) (n : Nat) :
    (waitForPortCompletion slot n).Always IssuesNothing := by
  induction n with
  | zero => exact ⟨nofun, fun _ => ⟨nofun, fun _ => trivial⟩⟩
  | succ n ih =>
    refine ⟨nofun, fun error => ?_⟩
    cases error with
    | true => exact ⟨nofun, fun _ => ⟨nofun, fun _ => trivial⟩⟩
    | false =>
      refine ⟨nofun, fun issue => ?_⟩
      change (if issue slot = false then pure Outcome.completed
        else waitForPortCompletion slot n : PortProgram Outcome).Always IssuesNothing
      split
      · trivial
      · exact ih

theorem issuesNothing_awaitData (n : Nat) : (awaitData n).Always IssuesNothing := by
  induction n with
  | zero => trivial
  | succ n ih =>
    refine ⟨nofun, fun received => ?_⟩
    cases received with
    | true => exact ⟨nofun, fun _ => trivial⟩
    | false => exact ih

/-- `issue_command` issues its own slot. -/
def IssuesOnly (slot : Slot) (o : PortOp) : Prop := ∀ w, o = .writeIssue w → w = bit slot

theorem IssuesNothing.issuesOnly {o : PortOp} (quiet : IssuesNothing o) (slot : Slot) :
    IssuesOnly slot o :=
  fun w issued => (quiet w issued).elim

theorem issuesOnly_issueCommand (slot : Slot) : (issueCommand slot).Always (IssuesOnly slot) := by
  have quiet {α : Type} {p : PortProgram α} (always : p.Always IssuesNothing) :
      p.Always (IssuesOnly slot) := always.mono fun _ holds => holds.issuesOnly slot
  refine (quiet (issuesNothing_waitForPort portPolls)).bind fun ready => ?_
  cases ready with
  | false => trivial
  | true =>
    refine ⟨nofun, fun _ => ⟨fun w issued => by cases issued; rfl, fun _ => ⟨nofun, fun _ => ?_⟩⟩⟩
    refine (quiet (issuesNothing_waitForPortCompletion slot completionPolls)).bind fun outcome => ?_
    by_cases completed : outcome ≠ .completed
    · rw [if_pos completed]
      trivial
    · rw [if_neg completed]
      exact (quiet (issuesNothing_awaitData dataPolls)).bind fun _ => trivial

theorem run_issueCommand_busy {s : PortState} (busy : s.busy = true) (slot : Slot) :
    (issueCommand slot).run portHandler s = some (.hung, s) := by
  rw [issueCommand, Program.run_bind, run_waitForPort_busy busy, Option.bind_some]
  rfl

theorem bit_injective {i j : Slot} (same : bit i = bit j) : i = j := by
  have here := congrFun same i
  simpa [bit] using here

/-- A port that answers has the command issued, with what the slot has at that time. -/
theorem all_issueCommand_iff (slot : Slot) (s : TransferState) :
    (onPort (issueCommand slot)).All transferHandler (Issued P) s ↔
      s.port.busy = true ∨ P slot (s.header slot) (s.table slot) := by
  rw [all_onPort]
  constructor
  · intro all
    rw [or_iff_not_imp_left, Bool.not_eq_true]
    intro ready
    -- past the first wait, the second operation is the one that issues
    have later := ((Program.all_bind _ _ _).mp all).2 _ _ (run_waitForPort 99999999 ready)
    rw [if_neg (by decide)] at later
    have second := ((Program.all_perform_bind _ _ _).mp later).2 _ rfl
    obtain ⟨slot', same, holds⟩ := ((Program.all_perform_bind _ _ _).mp second).1
    rw [bit_injective same]
    exact holds
  · rintro (busy | holds)
    · refine (Program.all_bind _ _ _).mpr ⟨?_, fun a t ran => ?_⟩
      · exact (issuesNothing_waitForPort portPolls).all (fun _ _ quiet => quiet.issued _) s.port
      · rw [run_waitForPort_busy busy] at ran
        cases ran
        exact Program.all_ret _ _
    · refine (issuesOnly_issueCommand slot).all (fun o port only => ?_) s.port
      cases o with
      | writeIssue w => exact ⟨slot, only w rfl, holds⟩
      | _ => trivial

/-- `header.prd_table_length` -/
def prdTableLength (count sectorSize : Nat) : Nat :=
  (sub32 count 1 / (8 * 1024 / sectorSize) % 2 ^ 16 + 1) % 2 ^ 16

def builtHeader (d : Direction) (length : Nat) : CommandHeader :=
  ⟨5, d.write, d.prefetchable, true, length⟩

theorem issued_clear (s : TransferState) :
    (onPort clearInterruptErrors).All transferHandler (Issued P) s := by
  have quiet : clearInterruptErrors.Always IssuesNothing := ⟨nofun, fun _ => ⟨nofun, fun _ => trivial⟩⟩
  rw [all_onPort]
  exact quiet.all (fun _ _ quiet => quiet.issued _) s.port

theorem issued_readCommandSlot (num : Nat) (s : TransferState) :
    (readCommandSlot num).All transferHandler (Issued P) s := by
  refine (Program.all_perform_bind _ _ _).mpr ⟨trivial, fun r _ =>
    (Program.all_perform_bind _ _ _).mpr ⟨trivial, fun r' _ => ?_⟩⟩
  split
  · exact Program.all_ret _ _
  · exact (Program.all_perform_bind _ _ _).mpr ⟨trivial, fun _ _ => Program.all_ret _ _⟩

/-- The table is built without a division, and nothing is issued meanwhile. -/
theorem issued_buildTable (d : Direction) (c : PortConfig) (slot : Slot)
    (start count buffer sectorSize spp length : Nat) (s : TransferState) :
    (buildTable d c slot start count buffer sectorSize spp length).All transferHandler (Issued P) s := by
  have fill (left i buffer count : Nat) (s : TransferState) :
      (fillPrdt c slot spp left i buffer count).All transferHandler (Issued P) s := by
    induction left generalizing i buffer count s with
    | zero => exact Program.all_ret _ _
    | succ left ih => exact (Program.all_perform_bind _ _ _).mpr ⟨trivial, fun _ _ => ih _ _ _ _⟩
  refine (Program.all_perform_bind _ _ _).mpr ⟨trivial, fun _ _ =>
    (Program.all_bind _ _ _).mpr ⟨fill _ _ _ _ _, fun a t _ =>
      (Program.all_perform_bind _ _ _).mpr ⟨trivial, fun _ _ =>
        (Program.all_op _ _ _).mpr ⟨trivial, fun _ _ => Program.all_ret _ _⟩⟩⟩⟩

theorem all_divide_bind {α : Type} (a b : Nat) (f : Nat → TransferProgram α) :
    (step (.divide a b) >>= f).All transferHandler (Issued P) s ↔
      b ≠ 0 ∧ (f (a / b)).All transferHandler (Issued P) s := by
  rw [step, Program.all_perform_bind]
  refine and_congr_right fun pos => ?_
  rw [transferHandler, if_neg pos]
  exact ⟨fun rest => rest _ rfl, fun rest r answer => by cases answer; exact rest⟩

theorem all_writeHeader_bind {α : Type} (header : CommandHeader) (f : Unit → TransferProgram α) :
    (step (.writeHeader slot header) >>= f).All transferHandler (Issued P) s ↔
      (f ()).All transferHandler (Issued P)
        { s with header := Function.update s.header slot header } := by
  rw [step, Program.all_perform_bind]
  exact ⟨fun all => all.2 _ rfl, fun rest => ⟨trivial, fun r answer => by cases answer; exact rest⟩⟩

/-- A call divides by the sector size and by the number of sectors in an entry, and if the length is
not too large and the port answers it issues what it has built. -/
theorem all_transfer_iff (d : Direction) (c : PortConfig) (start : Nat) {count buffer : Nat}
    (sectorSize : Nat) (word : buffer < 2 ^ 64) (word' : count < 2 ^ 32) (s : TransferState) :
    (transfer d c start count buffer sectorSize).All transferHandler (Issued P) s ↔
      ∀ slot, getCommandSlot c.numCommandSlots s.port = some slot →
        sectorSize ≠ 0 ∧ 8 * 1024 / sectorSize ≠ 0 ∧
          (maxPrdtSize < prdTableLength count sectorSize ∨ s.port.busy = true ∨
            P slot (builtHeader d (prdTableLength count sectorSize))
              (builtTable d c start count buffer sectorSize (8 * 1024 / sectorSize)
                (prdTableLength count sectorSize))) := by
  have same : getCommandSlot c.numCommandSlots s.port.cleared =
      getCommandSlot c.numCommandSlots s.port := rfl
  rw [transfer, Program.all_bind_of_run (run_clear s), and_iff_right (issued_clear s),
    Program.all_bind_of_run (run_readCommandSlot _ _), and_iff_right (issued_readCommandSlot _ _),
    same]
  cases free : getCommandSlot c.numCommandSlots s.port with
  | none => exact ⟨fun _ => nofun, fun _ => Program.all_ret _ _⟩
  | some slot =>
    have only : ∀ Q : Slot → Prop, (∀ slot', some slot = some slot' → Q slot') ↔ Q slot :=
      fun Q => ⟨fun all => all slot rfl, fun holds _ is => Option.some.inj is ▸ holds⟩
    have small : 8 * 1024 / sectorSize < 2 ^ 32 := by
      have := Nat.div_le_self (8 * 1024) sectorSize
      omega
    rw [only, prdTableLength]
    dsimp only
    rw [all_divide_bind, all_divide_bind]
    -- from here on only the two quotients count, not how they were computed
    generalize 8 * 1024 / sectorSize = spp at small ⊢
    generalize (sub32 count 1 / spp % 2 ^ 16 + 1) % 2 ^ 16 = length
    refine and_congr Iff.rfl (and_congr Iff.rfl ?_)
    rw [all_writeHeader_bind]
    by_cases long : maxPrdtSize < length
    · rw [if_pos long]
      exact ⟨fun _ => .inl long, fun _ => Program.all_ret _ _⟩
    rw [if_neg long, Program.all_bind_of_run (run_buildTable d c slot start length small word word' _),
      and_iff_right (issued_buildTable d c slot start count buffer sectorSize _ _ _), Program.all_bind,
      or_iff_right long]
    refine (and_iff_left fun _ _ _ => Program.all_ret _ _).trans ((all_issueCommand_iff slot _).trans ?_)
    rw [table_withTable, header_withTable]
    dsimp only
    rw [Function.update_self]
    rfl

theorem run_divide_bind {α : Type} {b : Nat} (pos : b ≠ 0) (a : Nat) (f : Nat → TransferProgram α) :
    (step (.divide a b) >>= f).run transferHandler s = (f (a / b)).run transferHandler s := by
  rw [step, Program.run_bind, Program.run_perform, transferHandler, if_neg pos, Option.bind_some]

theorem run_writeHeader_bind {α : Type} (header : CommandHeader) (f : Unit → TransferProgram α) :
    (step (.writeHeader slot header) >>= f).run transferHandler s = (f ()).run transferHandler
      { s with header := Function.update s.header slot header } := rfl

/-- A call that issues nothing does not claim that it did. -/
theorem result_of_unissued (d : Direction) (c : PortConfig) (start : Nat) {count buffer : Nat}
    (sectorSize : Nat) (word : buffer < 2 ^ 64) (word' : count < 2 ^ 32) {s t : TransferState} {a : Bool}
    (unissued : (transfer d c start count buffer sectorSize).All transferHandler
      (Issued fun _ _ _ => False) s)
    (ran : (transfer d c start count buffer sectorSize).run transferHandler s = some (a, t)) :
    a = false := by
  have outcome := (all_transfer_iff d c start sectorSize word word' s).mp unissued
  have same : getCommandSlot c.numCommandSlots s.port.cleared =
      getCommandSlot c.numCommandSlots s.port := rfl
  rw [transfer, Program.run_bind, run_clear, Option.bind_some, Program.run_bind, run_readCommandSlot,
    Option.bind_some, same] at ran
  cases free : getCommandSlot c.numCommandSlots s.port with
  | none =>
    rw [free] at ran
    cases ran
    rfl
  | some slot =>
    obtain ⟨size, sectors, why⟩ := outcome slot free
    have small : 8 * 1024 / sectorSize < 2 ^ 32 := by
      have := Nat.div_le_self (8 * 1024) sectorSize
      omega
    rw [prdTableLength] at why
    rw [free] at ran
    dsimp only at ran
    rw [run_divide_bind size] at ran
    generalize 8 * 1024 / sectorSize = spp at small sectors why ran
    rw [run_divide_bind sectors, run_writeHeader_bind] at ran
    generalize (sub32 count 1 / spp % 2 ^ 16 + 1) % 2 ^ 16 = length at why ran
    by_cases long : maxPrdtSize < length
    · rw [if_pos long] at ran
      cases ran
      rfl
    · -- an issue that never happens leaves a port that stays busy, and a call that gives up
      have busy := (why.resolve_left long).resolve_right id
      rw [if_neg long, Program.run_bind, run_buildTable d c slot start length small word word',
        Option.bind_some, Program.run_bind, run_onPort, run_issueCommand_busy (by exact busy)] at ran
      cases ran
      rfl

/-! ### What the adapter reads -/

def PrdtEntry.address (e : PrdtEntry) : Nat := e.dataBaseAddress + 2 ^ 32 * e.dataBaseAddressUpper

def PrdtEntry.bytes (e : PrdtEntry) : Nat := e.dataByteCount + 1

/-- An entry that was not written is zero. -/
def CommandTable.entry (t : CommandTable) (i : Nat) : PrdtEntry :=
  (t.prdt i).getD ⟨0, 0, 0, false⟩

/-- The bytes that the first entries describe. -/
def CommandTable.totalBytes (t : CommandTable) (n : Nat) : Nat :=
  ((List.range n).map fun i => (t.entry i).bytes).sum

def RegH2d.lba (f : RegH2d) : Nat :=
  f.lba0 + 2 ^ 8 * f.lba1 + 2 ^ 16 * f.lba2 + 2 ^ 24 * f.lba3 + 2 ^ 32 * f.lba4 + 2 ^ 40 * f.lba5

def RegH2d.count (f : RegH2d) : Nat := f.countLo + 2 ^ 8 * f.countHi

theorem entry_builtTable_full (d : Direction) (c : PortConfig) (start count buffer sectorSize spp : Nat)
    {length i : Nat} (before : i + 1 < length) :
    (builtTable d c start count buffer sectorSize spp length).entry i =
      prdtEntry c (u64 (buffer + 8192 * i)) 8191 := by
  unfold CommandTable.entry builtTable
  dsimp only
  rw [if_neg (by omega), if_pos (by omega), Option.getD_some, Int.toNat_natCast]

theorem entry_builtTable_last (d : Direction) (c : PortConfig) (start count buffer sectorSize spp : Nat)
    {length i : Nat} (last : i + 1 = length) :
    (builtTable d c start count buffer sectorSize spp length).entry i =
      lastEntry c count buffer sectorSize spp length := by
  unfold CommandTable.entry builtTable
  dsimp only
  rw [if_pos (by omega), Option.getD_some]

/-- Whole entries of eight KiB, and the last one. -/
theorem totalBytes_builtTable (d : Direction) (c : PortConfig)
    (start count buffer sectorSize spp k : Nat) :
    (builtTable d c start count buffer sectorSize spp (k + 1)).totalBytes (k + 1) =
      8192 * k + (lastEntry c count buffer sectorSize spp (k + 1)).bytes := by
  have full (i : Nat) (inside : i ∈ List.range k) :
      ((builtTable d c start count buffer sectorSize spp (k + 1)).entry i).bytes = 8192 := by
    rw [entry_builtTable_full _ _ _ _ _ _ _ (Nat.succ_lt_succ (List.mem_range.mp inside))]
    rfl
  unfold CommandTable.totalBytes
  rw [List.range_succ, List.map_append, List.sum_append, List.map_congr_left full,
    List.map_const', List.sum_replicate_nat, List.length_range, List.map_singleton, List.sum_singleton,
    entry_builtTable_last _ _ _ _ _ _ _ rfl, Nat.mul_comm]

end KopalniaOS.Ahci
