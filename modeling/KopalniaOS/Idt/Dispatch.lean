import KopalniaOS.Idt.Model
import Mathlib.Data.List.Induction

/-!
# Dispatch calls what was installed

A row holds a list of handlers, and every call of `Install_handler` that is not refused extends the
list of its row by one.
-/
namespace KopalniaOS.Idt

open Library
open Hpet (HandlerTable installHandler)

variable {ι κ : Type} {t : HandlerTable ι} {handler : Option ι} {irq vector : Nat}
  {row : List ι} {calls : List (Option ι × Nat)}

/-- The calls of `Install_handler` that change nothing. -/
def Refused (t : HandlerTable ι) (handler : Option ι) (irq : Nat) : Prop :=
  handler = none ∨ 24 ≤ irq ∨ 4 ≤ t.count (irq + 32)

/-- The handlers that are accepted for a line: the first four that are not null. -/
def accepted (calls : List (Option ι × Nat)) (irq : Nat) : List ι :=
  if 24 ≤ irq then []
  else (calls.filterMap fun call => if call.2 = irq then call.1 else none).take 4

/-- The list that the row of a vector should hold; the vectors below 32 have no line. -/
def rowOf (calls : List (Option ι × Nat)) (vector : Nat) : List ι :=
  if 32 ≤ vector then accepted calls (vector - 32) else []

/-- What a row holds. -/
structure Row (t : HandlerTable ι) (vector : Nat) (row : List ι) : Prop where
  count : t.count vector = row.length
  handlers : ∀ j, t.handlers vector j = row[j]?

/-! ### One call -/

theorem installHandler_refused (refused : Refused t handler irq) :
    installHandler handler irq t = t := by
  unfold installHandler
  rcases refused with rfl | high | full
  · rfl
  · rw [if_pos high, ite_self]
  · simp [full]

theorem taken_of_not_refused (taken : ¬Refused t handler irq) :
    ∃ h, handler = some h ∧ irq < 24 ∧ t.count (irq + 32) < 4 := by
  simp only [Refused, not_or, Nat.not_le] at taken
  obtain ⟨present, low, room⟩ := taken
  obtain ⟨h, rfl⟩ := Option.ne_none_iff_exists'.mp present
  exact ⟨h, rfl, low, room⟩

/-- A call that is not refused fills the first free place of its row, and routes the line if the row
was empty. -/
theorem installHandler_taken {handler : ι} (low : irq < 24) (room : t.count (irq + 32) < 4) :
    installHandler (some handler) irq t =
      { handlers := Function.update t.handlers (irq + 32)
          (Function.update (t.handlers (irq + 32)) (t.count (irq + 32)) (some handler))
        count := Function.update t.count (irq + 32) (t.count (irq + 32) + 1)
        routed := t.routed ++ if t.count (irq + 32) = 0 then [(irq, irq + 32)] else [] } := by
  unfold installHandler
  rw [if_neg (by simp), if_neg (Nat.not_le.mpr low)]
  dsimp only
  rw [if_neg (Nat.not_le.mpr room)]
  split
  · rfl
  · simp only [List.append_nil]

theorem Row.installHandler_self {handler : ι} (holds : Row t (irq + 32) row) (low : irq < 24)
    (room : row.length < 4) :
    Row (installHandler (some handler) irq t) (irq + 32) (row ++ [handler]) := by
  have free : t.count (irq + 32) < 4 := by
    rw [holds.count]
    exact room
  rw [installHandler_taken low free]
  refine ⟨?_, fun j => ?_⟩
  · simp only [Function.update_self, holds.count, List.length_append, List.length_singleton]
  · simp only [Function.update_self, holds.count]
    by_cases here : j = row.length
    · subst here
      rw [Function.update_self, List.getElem?_concat_length]
    · rw [Function.update_of_ne here, holds.handlers]
      -- behind the new handler there is nothing, as before
      by_cases before : j < row.length
      · rw [List.getElem?_append_left before]
      · rw [List.getElem?_eq_none (Nat.not_lt.mp before), List.getElem?_eq_none]
        rw [List.length_append, List.length_singleton]
        omega

theorem Row.installHandler_other (holds : Row t vector row) (other : vector ≠ irq + 32) :
    Row (installHandler handler irq t) vector row := by
  by_cases refused : Refused t handler irq
  · rw [installHandler_refused refused]
    exact holds
  · obtain ⟨handler, rfl, low, room⟩ := taken_of_not_refused refused
    rw [installHandler_taken low room]
    refine ⟨?_, fun j => ?_⟩
    · simp only [Function.update_of_ne other, holds.count]
    · simp only [Function.update_of_ne other, holds.handlers]

/-! ### All calls -/

theorem accepted_concat_other {call : Option ι × Nat} (other : call.2 ≠ irq ∨ call.1 = none) :
    accepted (calls ++ [call]) irq = accepted calls irq := by
  have skipped : (if call.2 = irq then call.1 else none) = none := by
    rcases other with other | null
    · exact if_neg other
    · rw [null, ite_self]
  simp [accepted, List.filterMap_append, skipped]

/-- Taking only the first ones earlier makes no difference. -/
theorem take_take_concat (handlers : List ι) (handler : ι) (n : Nat) :
    (handlers.take n ++ [handler]).take n = (handlers ++ [handler]).take n := by
  rcases Nat.le_total handlers.length n with short | long
  · rw [List.take_of_length_le short]
  · have filled : n ≤ (handlers.take n).length := by
      rw [List.length_take_of_le long]
    rw [List.take_append_of_le_length filled, List.take_append_of_le_length long, List.take_take,
      Nat.min_self]

theorem accepted_concat_self {handler : ι} (low : irq < 24) :
    accepted (calls ++ [(some handler, irq)]) irq = (accepted calls irq ++ [handler]).take 4 := by
  have last : [(some handler, irq)].filterMap (fun call => if call.2 = irq then call.1 else none) =
      [handler] := by
    simp
  unfold accepted
  rw [if_neg (Nat.not_le.mpr low), if_neg (Nat.not_le.mpr low), List.filterMap_append, last,
    take_take_concat]

theorem length_accepted (calls : List (Option ι × Nat)) (irq : Nat) :
    (accepted calls irq).length ≤ 4 := by
  unfold accepted
  split
  · exact Nat.zero_le _
  · exact List.length_take_le ..

theorem installAll_concat (calls : List (Option ι × Nat)) (call : Option ι × Nat) :
    installAll (calls ++ [call]) = installHandler call.1 call.2 (installAll calls) := by
  simp [installAll, List.foldl_append]

/-- The step of the induction: a further call. -/
theorem Row.installAll_next (holds : ∀ vector, Row t vector (rowOf calls vector))
    (call : Option ι × Nat) (vector : Nat) :
    Row (installHandler call.1 call.2 t) vector (rowOf (calls ++ [call]) vector) := by
  obtain ⟨handler, irq⟩ := call
  by_cases other : vector ≠ irq + 32
  · have same : rowOf (calls ++ [(handler, irq)]) vector = rowOf calls vector := by
      unfold rowOf
      split
      · exact accepted_concat_other (.inl fun here => other (by dsimp only at here; omega))
      · rfl
    rw [same]
    exact (holds vector).installHandler_other other
  · obtain rfl := not_not.mp other
    have line (calls : List (Option ι × Nat)) : rowOf calls (irq + 32) = accepted calls irq := by
      rw [rowOf, if_pos (Nat.le_add_left ..), Nat.add_sub_cancel]
    have before := holds (irq + 32)
    rw [line] at before ⊢
    have room : t.count (irq + 32) = (accepted calls irq).length := before.count
    cases handler with
    | none =>
      rw [accepted_concat_other (.inr rfl), installHandler_refused (.inl rfl)]
      exact before
    | some handler =>
      by_cases low : irq < 24
      · rw [accepted_concat_self low]
        by_cases full : 4 ≤ (accepted calls irq).length
        · -- a fifth handler is refused, and not among the first four
          rw [installHandler_refused (.inr (.inr (room ▸ full))),
            List.take_append_of_le_length full, List.take_of_length_le (length_accepted calls irq)]
          exact before
        · rw [List.take_of_length_le (by rw [List.length_append, List.length_singleton]; omega)]
          exact before.installHandler_self low (Nat.not_le.mp full)
      · have high := Nat.not_lt.mp low
        have nothing (calls : List (Option ι × Nat)) : accepted calls irq = [] := if_pos high
        rw [installHandler_refused (.inr (.inl high)), nothing]
        rwa [nothing] at before

/-- Every row holds what was accepted for its line. -/
theorem row_installAll (calls : List (Option ι × Nat)) (vector : Nat) :
    Row (installAll calls) vector (rowOf calls vector) := by
  induction calls using List.reverseRecOn generalizing vector with
  | nil =>
    have nothing : rowOf ([] : List (Option ι × Nat)) vector = [] := by simp [rowOf, accepted]
    rw [nothing]
    exact ⟨rfl, fun j => rfl⟩
  | append_singleton calls call ih =>
    rw [installAll_concat]
    exact Row.installAll_next ih call vector

/-! ### Routing -/

/-- The vector has been routed once if its row has a handler, and else not at all. -/
def RoutedOnce (t : HandlerTable ι) (vector : Nat) : Prop :=
  t.routed.filter (fun route => route.2 = vector) =
    if t.count vector = 0 then [] else [(vector - 32, vector)]

theorem RoutedOnce.installHandler (once : RoutedOnce t vector) (handler : Option ι) (irq : Nat) :
    RoutedOnce (installHandler handler irq t) vector := by
  by_cases refused : Refused t handler irq
  · rw [installHandler_refused refused]
    exact once
  · obtain ⟨handler, rfl, low, room⟩ := taken_of_not_refused refused
    rw [installHandler_taken low room]
    unfold RoutedOnce at once ⊢
    dsimp only
    rw [List.filter_append, once]
    by_cases here : vector = irq + 32
    · subst here
      simp only [Function.update_self, Nat.add_sub_cancel]
      -- only the first handler of the row routes
      by_cases first : t.count (irq + 32) = 0
      · simp [first]
      · simp [first]
    · simp only [Function.update_of_ne here]
      have elsewhere : irq + 32 ≠ vector := Ne.symm here
      by_cases first : t.count (irq + 32) = 0
      · simp [first, elsewhere]
      · simp [first]

theorem routedOnce_installAll (calls : List (Option ι × Nat)) (vector : Nat) :
    RoutedOnce (installAll calls) vector := by
  induction calls using List.reverseRecOn with
  | nil => rfl
  | append_singleton calls call ih =>
    rw [installAll_concat]
    exact ih.installHandler call.1 call.2

/-! ### The loop of `isr_common` -/

variable {m : Machine ι κ} {regs : IsrRegisters}

/-- The rest of the row is called in order. -/
theorem run_callHandlers (holds : Row m.table regs.intNo row) (left i : Nat)
    (enough : row.length < i + left) (inside : i ≤ row.length) :
    (callHandlers regs left i).run dispatchHandler m =
      some ((), { m with calls := m.calls ++ (row.drop i).map fun handler => (handler, regs) }) := by
  induction left generalizing i m with
  | zero => exact absurd inside (Nat.not_le.mpr enough)
  | succ left ih =>
    -- the count is read on every turn, and the handlers do not change it
    have read : (perform (.readCount regs.intNo)).run dispatchHandler m =
        some (m.table.count regs.intNo, m) := rfl
    rw [callHandlers, Program.run_bind, read, Option.bind_some, holds.count]
    by_cases more : i < row.length
    · have present : m.table.handlers regs.intNo i = some row[i] := by
        rw [holds.handlers, List.getElem?_eq_getElem more]
      have called : (do
          let handler ← perform (.readHandler regs.intNo i)
          perform (.call handler regs)
          callHandlers regs left (i + 1) : DispatchProgram ι κ Unit).run dispatchHandler m =
          (callHandlers regs left (i + 1)).run dispatchHandler
            { m with calls := m.calls ++ [(row[i], regs)] } := by
        have handler : (perform (.readHandler regs.intNo i)).run dispatchHandler m =
            some (some row[i], m) := congrArg (fun answer => some (answer, m)) present
        rw [Program.run_bind, handler]
        rfl
      rw [if_pos more, called, ih (m := { m with calls := m.calls ++ [(row[i], regs)] })
        ⟨holds.count, holds.handlers⟩ (i + 1) (by omega) more, List.drop_eq_getElem_cons more]
      simp only [List.append_assoc, List.map_cons, List.singleton_append]
    · have ended : i = row.length := Nat.le_antisymm inside (Nat.not_lt.mp more)
      rw [if_neg more, ended, List.drop_length]
      simp

theorem run_callUacpi (vector : Nat) :
    (callUacpi vector).run dispatchHandler m = some ((), m) := by
  have read : (perform (.readUacpiHandler vector)).run dispatchHandler m =
      some (m.uacpiHandlers vector, m) := rfl
  rw [callUacpi, Program.run_bind, read]
  cases m.uacpiHandlers vector <;> rfl

theorem run_endOfInterrupt (vector : Nat) :
    (endOfInterrupt vector).run dispatchHandler m = some ((), m) := by
  have straight : (endOfInterrupt vector).run dispatchHandler m =
      (if m.picEnabled = true then perform (.picSendEoi ((vector - 32) % 256)) else pure () :
        DispatchProgram ι κ Unit).run dispatchHandler m := rfl
  rw [straight]
  split <;> rfl

/-- For the vectors from 32 on `isr_common` returns, and has called the row. -/
theorem run_isrCommon (holds : Row m.table regs.intNo row) (short : row.length < 256)
    (device : 32 ≤ regs.intNo) :
    ∃ m', (isrCommon regs).run dispatchHandler m = some ((), m') ∧
      m'.calls = m.calls ++ row.map fun handler => (handler, regs) := by
  have loop := run_callHandlers holds 256 0 (by omega) (Nat.zero_le _)
  have regular : ¬regs.intNo ≤ 31 := by omega
  simp only [isrCommon, Program.run_bind, if_neg regular, if_pos device, Program.pure_eq,
    Option.bind_some, loop, run_callUacpi, List.drop_zero]
  by_cases timer : regs.intNo = 32
  · exact ⟨_, by rw [if_pos timer]; exact run_endOfInterrupt _, rfl⟩
  · exact ⟨_, by rw [if_neg timer]; exact run_endOfInterrupt _, rfl⟩

/-! ### Dispatch -/

/-- What the tables and the dispatcher do after any sequence of calls of `Install_handler`. -/
structure DispatchesInstalled (calls : List (Option ι × Nat)) : Prop where
  bounded : ∀ vector, (installAll calls).count vector ≤ 4
  present : ∀ vector, ∀ j < (installAll calls).count vector,
    (installAll calls).handlers vector j ≠ none
  absent : ∀ vector j, (installAll calls).count vector ≤ j →
    (installAll calls).handlers vector j = none
  refused : ∀ handler irq, Refused (installAll calls) handler irq →
    installHandler handler irq (installAll calls) = installAll calls
  /-- A call that is not refused routes exactly if its handler is the first of the row. -/
  routes : ∀ handler irq, ¬Refused (installAll calls) handler irq →
    (installHandler handler irq (installAll calls)).routed =
      (installAll calls).routed ++
        if (installAll calls).count (irq + 32) = 0 then [(irq, irq + 32)] else []
  once : ∀ vector, RoutedOnce (installAll calls) vector
  dispatches : ∀ (κ : Type) (m : Machine ι κ) (regs : IsrRegisters), m.table = installAll calls →
    32 ≤ regs.intNo → ∃ m', (isrCommon regs).run dispatchHandler m = some ((), m') ∧
      m'.calls = m.calls ++ (accepted calls (regs.intNo - 32)).map fun handler => (handler, regs)

/-- For every sequence of calls of `Install_handler`, with null handlers and any lines. -/
theorem dispatches_installed (calls : List (Option ι × Nat)) : DispatchesInstalled calls := by
  have short (vector : Nat) : (rowOf calls vector).length ≤ 4 := by
    unfold rowOf
    split
    · exact length_accepted ..
    · exact Nat.zero_le _
  refine ⟨fun vector => ?_, fun vector j below => ?_, fun vector j above => ?_,
    fun handler irq refused => installHandler_refused refused, fun handler irq taken => ?_,
    routedOnce_installAll calls, fun κ m regs same device => ?_⟩
  · rw [(row_installAll calls vector).count]
    exact short vector
  · rw [(row_installAll calls vector).count] at below
    rw [(row_installAll calls vector).handlers, List.getElem?_eq_getElem below]
    simp
  · rw [(row_installAll calls vector).count] at above
    rw [(row_installAll calls vector).handlers, List.getElem?_eq_none above]
  · obtain ⟨handler, rfl, low, room⟩ := taken_of_not_refused taken
    rw [installHandler_taken low room]
  · have holds := row_installAll calls regs.intNo
    rw [← same] at holds
    -- a vector from 32 on has a line, so its row is what was accepted for it
    have line : rowOf calls regs.intNo = accepted calls (regs.intNo - 32) := if_pos device
    rw [line] at holds
    exact run_isrCommon holds (Nat.lt_of_le_of_lt (length_accepted ..) (by decide)) device

/-- Two handlers share line 11, and the null handler and line 24 are refused. -/
example : accepted [(some 'a', 11), (none, 11), (some 'b', 24), (some 'c', 11)] 11 = ['a', 'c'] := by
  decide

end KopalniaOS.Idt
