import Mathlib.Data.List.TakeWhile

/-!
# Maximal runs

The pieces of a list between separators, without the empty ones, and how a scan from the left
finds the first of them.
-/
namespace KopalniaOS.Library

variable {α : Type} {sep : α → Bool}

/-- The maximal runs of elements that are no separators. -/
def runs (sep : α → Bool) (l : List α) : List (List α) :=
  (l.splitOnP sep).filter fun run => !run.isEmpty

@[simp] theorem runs_nil (sep : α → Bool) : runs sep [] = [] := by
  simp [runs]

theorem runs_cons_sep {x : α} (separator : sep x = true) (rest : List α) :
    runs sep (x :: rest) = runs sep rest := by
  simp [runs, List.splitOnP_cons_eq_if_modifyHead, separator]

/-- Separators in front of the first run do not matter. -/
theorem runs_dropWhile (l : List α) : runs sep (l.dropWhile sep) = runs sep l := by
  induction l with
  | nil => rfl
  | cons x rest ih =>
    by_cases separator : sep x = true
    · rw [List.dropWhile_cons_of_pos separator, ih, runs_cons_sep separator]
    · rw [List.dropWhile_cons_of_neg separator]

/-- A run goes up to a separator or the end. -/
theorem runs_append {run rest : List α} (nonempty : run ≠ []) (inside : ∀ x ∈ run, sep x = false)
    (ended : ∀ x, rest.head? = some x → sep x = true) :
    runs sep (run ++ rest) = run :: runs sep rest := by
  have kept : (!run.isEmpty) = true := by simpa using nonempty
  cases rest with
  | nil => simp [runs, List.splitOnP_eq_singleton inside, kept]
  | cons x rest =>
    have separator := ended x rfl
    rw [runs_cons_sep separator, runs, List.splitOnP_append_cons_of_forall_mem inside x separator,
      List.filter_cons, if_pos kept, runs]

/-- What a scan over the first run finds, and where it stops. -/
theorem runs_cons {x : α} (rest : List α) (inside : sep x = false) :
    runs sep (x :: rest) =
      (x :: rest).takeWhile (fun y => !sep y) ::
        runs sep ((x :: rest).dropWhile fun y => !sep y) := by
  have parts := List.takeWhile_append_dropWhile (p := fun y => !sep y) (l := x :: rest)
  conv => lhs; rw [← parts]
  apply runs_append
  · simp [inside]
  · intro y member
    simpa using List.mem_takeWhile_imp member
  · intro y head
    have stopped := List.head?_dropWhile_not (fun y => !sep y) (x :: rest)
    rw [head] at stopped
    simpa using stopped

end KopalniaOS.Library
