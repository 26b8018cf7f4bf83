import KopalniaOS.Library.Interrupts

/-!
# Rely conditions

Assertions about programs whose state is moved by others meanwhile. An assertion that these moves keep
can be used at every operation, and the assertions of the parts of a program are put together as they
are for sequential code.
-/
namespace KopalniaOS.Library

open Relation

/-- The moves of the environment keep `P`. -/
def Stable {S : Type} (env : S → S → Prop) (P : S → Prop) : Prop := ∀ s t, P s → env s t → P t

theorem Stable.moves {S : Type} {env : S → S → Prop} {P : S → Prop} (stable : Stable env P) {s t : S}
    (before : P s) (moved : ReflTransGen env s t) : P t := by
  induction moved with
  | refl => exact before
  | tail _ step ih => exact stable _ _ ih step

namespace Program

variable {σ : Type} {ρ : σ → Type} {S α β : Type} {h : Handler σ ρ S} {env : S → S → Prop}
variable {P P' : S → Prop} {Q Q' : α → S → Prop} {R : β → S → Prop}

/-- From every state in `P`, whatever the environment does, `p` returns in `Q` if it returns. -/
def Under (h : Handler σ ρ S) (env : S → S → Prop) (P : S → Prop) (p : Program σ ρ α)
    (Q : α → S → Prop) : Prop :=
  ∀ tr s, P s → p.Robust h (fun _ => env) (fun _ _ => True) tr s fun _ a t => Q a t

theorem under_ret {a : α} (holds : ∀ s, P s → Q a s) : (pure a : Program σ ρ α).Under h env P Q :=
  fun _ s before => holds s before

theorem under_stuck : (.stuck : Program σ ρ α).Under h env P Q := fun _ _ _ => trivial

theorem Under.bind {p : Program σ ρ α} {f : α → Program σ ρ β} (first : p.Under h env P Q)
    (next : ∀ a, (f a).Under h env (Q a) R) : (p >>= f).Under h env P R := by
  intro tr s before
  rw [robust_bind]
  exact (first tr s before).mono fun tr' a t after => next a tr' t after

theorem Under.mono {p : Program σ ρ α} (under : p.Under h env P Q) (weaker : ∀ s, P' s → P s)
    (stronger : ∀ a s, Q a s → Q' a s) : p.Under h env P' Q' :=
  fun tr s before => (under tr s (weaker s before)).mono fun _ a t => stronger a t

theorem Under.post {p : Program σ ρ α} (under : p.Under h env P Q) (stronger : ∀ a s, Q a s → Q' a s) :
    p.Under h env P Q' :=
  under.mono (fun _ before => before) stronger

theorem under_exists {ι : Type} {F : ι → S → Prop} {p : Program σ ρ α}
    (each : ∀ i, p.Under h env (F i) Q) : p.Under h env (fun s => ∃ i, F i s) Q := by
  rintro tr s ⟨i, before⟩
  exact each i tr s before

theorem under_and {c : Prop} {p : Program σ ρ α} (holds : c → p.Under h env P Q) :
    p.Under h env (fun s => c ∧ P s) Q :=
  fun tr s before => holds before.1 tr s before.2

theorem under_ite {c : Prop} [Decidable c] {p q : Program σ ρ α} (yes : c → p.Under h env P Q)
    (no : ¬c → q.Under h env P Q) : (if c then p else q).Under h env P Q := by
  split
  · rename_i holds
    exact yes holds
  · rename_i fails
    exact no fails

theorem under_perform {o : σ} {Q : ρ o → S → Prop} (stable : Stable env P)
    (answers : ∀ s r, P s → h o s = some r → Q r.1 r.2) : (perform o).Under h env P Q := by
  intro tr s before t moved
  exact ⟨trivial, fun r answer => answers t r (stable.moves before moved) answer⟩

/-- What holds of every complete run. -/
theorem Under.ends {p : Program σ ρ α} (under : p.Under h env P Q) {s t : S} {a : α} (before : P s)
    (ends : p.Ends h (fun _ => env) [] s a t) : Q a t := by
  obtain ⟨-, after⟩ := (under [] s before).ends ends
  exact after

/-! ### Waiting -/

/-- A loop that waits for a test, and has a limit. -/
def poll (test : Program σ ρ Bool) (late : Program σ ρ Unit) : Nat → Program σ ρ Unit
  | 0 => late
  | n + 1 => do
    let done ← test
    if done = true then pure () else poll test late n

theorem under_poll {test : Program σ ρ Bool} {late : Program σ ρ Unit} {P Q : S → Prop}
    (tested : test.Under h env P fun done s => if done = true then Q s else P s)
    (gaveUp : late.Under h env P fun _ => Q) (n : Nat) :
    (poll test late n).Under h env P fun _ => Q := by
  induction n with
  | zero => exact gaveUp
  | succ n ih =>
    refine tested.bind fun done => ?_
    cases done with
    | true => exact under_ret fun s after => after
    | false => exact ih

/-! ### A run with a schedule -/

/-- The environment makes these moves before each operation. -/
def scheduled (h : Handler σ ρ S) (move : S → S) : Handler σ ρ S := fun o s => h o (move s)

theorem ends_of_scheduled {move : S → S} (moves : ∀ s, ReflTransGen env s (move s)) {p : Program σ ρ α}
    {tr : History σ ρ} {s t : S} {a : α} (ran : p.run (scheduled h move) s = some (a, t)) :
    p.Ends h (fun _ => env) tr s a t := by
  induction p generalizing tr s with
  | ret b =>
    cases ran
    exact ⟨rfl, rfl⟩
  | op o k ih =>
    obtain ⟨r, answer, ran⟩ := Option.bind_eq_some_iff.mp ran
    exact ⟨move s, moves s, r, answer, ih r.1 ran⟩
  | stuck => cases ran

end Program

end KopalniaOS.Library
