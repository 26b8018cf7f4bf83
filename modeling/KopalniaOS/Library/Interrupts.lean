import KopalniaOS.Library.Program
import Mathlib.Logic.Relation

/-!
# Programs under interference

Calls run one after the other. Between any two operations of a call, and between
calls, an environment may move the state. What the environment may do can depend
on the history of the interrupted call, so that windows in which it is masked
can be expressed. `Robust` is the weakest precondition for such runs and
`Session.invariant` the rule for whole sequences of calls.
-/
namespace KopalniaOS.Library

open Relation

/-- One operation together with its answer. -/
structure Event (σ : Type) (ρ : σ → Type) where
  operation : σ
  answer : ρ operation

/-- The operations of a call so far, the latest first. -/
abbrev History (σ : Type) (ρ : σ → Type) := List (Event σ ρ)

namespace Program

variable {σ : Type} {ρ : σ → Type} {S α β : Type}
variable (h : Handler σ ρ S) (env : History σ ρ → S → S → Prop) (watch : History σ ρ → S → Prop)

/-- Whatever the environment does before each operation, `watch` holds when the operation
is issued, and the call ends in `post`. -/
def Robust : History σ ρ → Program σ ρ α → S → (History σ ρ → α → S → Prop) → Prop
  | tr, .ret a, s, post => post tr a s
  | tr, .op o k, s, post => ∀ t, ReflTransGen (env tr) s t → watch tr t ∧
      ∀ r, h o t = some r → Robust (⟨o, r.1⟩ :: tr) (k r.1) r.2 post
  | _, .stuck, _, _ => True

/-- A complete run: before each operation the environment has moved the state somewhere, and the
call returns `a` in the state `t`. -/
def Ends : History σ ρ → Program σ ρ α → S → α → S → Prop
  | _, .ret b, s, a, t => b = a ∧ s = t
  | tr, .op o k, s, a, t => ∃ u, ReflTransGen (env tr) s u ∧
      ∃ r, h o u = some r ∧ Ends (⟨o, r.1⟩ :: tr) (k r.1) r.2 a t
  | _, .stuck, _, _, _ => False

variable {h env watch}

theorem robust_op (tr : History σ ρ) (o : σ) (k : ρ o → Program σ ρ α) (s : S)
    (post : History σ ρ → α → S → Prop) :
    (Program.op o k).Robust h env watch tr s post ↔
      ∀ t, ReflTransGen (env tr) s t → watch tr t ∧
        ∀ r, h o t = some r → (k r.1).Robust h env watch (⟨o, r.1⟩ :: tr) r.2 post := Iff.rfl

theorem robust_bind (tr : History σ ρ) (p : Program σ ρ α) (f : α → Program σ ρ β) (s : S)
    (post : History σ ρ → β → S → Prop) :
    (p >>= f).Robust h env watch tr s post ↔
      p.Robust h env watch tr s fun tr' a t => (f a).Robust h env watch tr' t post := by
  induction p generalizing tr s with
  | ret a => rfl
  | op o k ih => simp only [op_bind, robust_op, ih]
  | stuck => rfl

theorem Robust.mono {tr : History σ ρ} {p : Program σ ρ α} {s : S}
    {post weaker : History σ ρ → α → S → Prop} (robust : p.Robust h env watch tr s post)
    (implied : ∀ tr' a t, post tr' a t → weaker tr' a t) :
    p.Robust h env watch tr s weaker := by
  induction p generalizing tr s with
  | ret a => exact implied tr a s robust
  | op o k ih =>
    intro t moved
    obtain ⟨watched, rest⟩ := robust t moved
    exact ⟨watched, fun r answer => ih r.1 (rest r answer)⟩
  | stuck => trivial

/-- One operation under an environment that keeps `P`. -/
theorem robust_perform_bind {P : S → Prop} {tr : History σ ρ} {o : σ} {f : ρ o → Program σ ρ α}
    {s : S} {post : History σ ρ → α → S → Prop} (holds : P s)
    (stable : ∀ t t', P t → env tr t t' → P t') (watched : ∀ t, P t → watch tr t)
    (next : ∀ t, P t → ∀ r, h o t = some r →
      (f r.1).Robust h env watch (⟨o, r.1⟩ :: tr) r.2 post) :
    (perform o >>= f).Robust h env watch tr s post := by
  intro t moved
  have kept : P t := by
    induction moved with
    | refl => exact holds
    | tail _ step ih => exact stable _ _ ih step
  exact ⟨watched t kept, next t kept⟩

/-- A robust call ends well, whatever happens meanwhile. -/
theorem Robust.ends {tr : History σ ρ} {p : Program σ ρ α} {s t : S} {a : α}
    {post : History σ ρ → α → S → Prop} (robust : p.Robust h env watch tr s post)
    (ends : p.Ends h env tr s a t) : ∃ tr', post tr' a t := by
  induction p generalizing tr s with
  | ret b =>
    obtain ⟨rfl, rfl⟩ := ends
    exact ⟨tr, robust⟩
  | op o k ih =>
    obtain ⟨u, moved, r, answer, rest⟩ := ends
    exact ih r.1 ((robust u moved).2 r answer) rest
  | stuck => exact ends.elim

/-- The environment may also do nothing. -/
theorem ends_of_run {tr : History σ ρ} {p : Program σ ρ α} {s t : S} {a : α}
    (ran : p.run h s = some (a, t)) : p.Ends h env tr s a t := by
  induction p generalizing tr s with
  | ret b =>
    cases ran
    exact ⟨rfl, rfl⟩
  | op o k ih =>
    obtain ⟨r, answer, ran⟩ := Option.bind_eq_some_iff.mp ran
    exact ⟨s, .refl, r, answer, ih r.1 ran⟩
  | stuck => cases ran

theorem Robust.alone {tr : History σ ρ} {p : Program σ ρ α} {s t : S} {a : α}
    {post : History σ ρ → α → S → Prop} (robust : p.Robust h env watch tr s post)
    (ran : p.run h s = some (a, t)) : ∃ tr', post tr' a t :=
  robust.ends (ends_of_run ran)

theorem ends_perform_bind {tr : History σ ρ} {o : σ} {f : ρ o → Program σ ρ α} {s u t : S} {a : α}
    {r : ρ o × S} (moved : ReflTransGen (env tr) s u) (answer : h o u = some r)
    (rest : (f r.1).Ends h env (⟨o, r.1⟩ :: tr) r.2 a t) :
    (perform o >>= f).Ends h env tr s a t :=
  ⟨u, moved, r, answer, rest⟩

/-- An environment that is masked in `s` leaves it alone. -/
theorem eq_of_masked {tr : History σ ρ} {s t : S} (masked : ∀ t, ¬env tr s t)
    (moved : ReflTransGen (env tr) s t) : t = s := by
  rcases ReflTransGen.cases_head moved with same | ⟨next, step, -⟩
  · exact same.symm
  · exact (masked next step).elim

/-- Once the environment is masked for good, a call does what it does alone. -/
theorem robust_of_run {tr : History σ ρ} {p : Program σ ρ α} {s : S}
    {post : History σ ρ → α → S → Prop} (masked : ∀ more t t', ¬env (more ++ tr) t t')
    (watched : ∀ more t, watch (more ++ tr) t)
    (alone : ∀ a t, p.run h s = some (a, t) → ∀ more, post (more ++ tr) a t) :
    p.Robust h env watch tr s post := by
  induction p generalizing tr s with
  | ret a => exact alone a s rfl []
  | op o k ih =>
    intro t moved
    -- the environment cannot move, so the operation finds the state of the call alone
    obtain rfl : t = s := eq_of_masked (masked [] s) moved
    refine ⟨watched [] t, fun r answer => ?_⟩
    apply ih r.1
    · intro more t t'
      rw [List.append_cons]
      exact masked (more ++ [⟨o, r.1⟩]) t t'
    · intro more t
      rw [List.append_cons]
      exact watched (more ++ [⟨o, r.1⟩]) t
    · intro a t ran more
      rw [List.append_cons]
      exact alone a t (by rw [run_op, answer]; exact ran) (more ++ [⟨o, r.1⟩])
  | stuck => trivial

end Program

/-! ### Sequences of calls -/

/-- A component used through calls: what a call may start with, the code it runs,
what its return does to the bookkeeping, and what the environment does meanwhile. -/
structure Session (σ : Type) (ρ : σ → Type) (S C : Type) (α : C → Type) where
  handler : Handler σ ρ S
  enter : C → S → S → Prop
  code : (c : C) → S → Program σ ρ (α c)
  leave : (c : C) → α c → S → S
  busyEnv : C → History σ ρ → S → S → Prop
  idleEnv : S → S → Prop

namespace Session

variable {σ : Type} {ρ : σ → Type} {S C : Type} {α : C → Type}

/-- Either no call is in progress, or one is, with what is left of its code. -/
inductive Conf (σ : Type) (ρ : σ → Type) (S C : Type) (α : C → Type) where
  | idle (s : S)
  | busy (c : C) (tr : History σ ρ) (p : Program σ ρ (α c)) (s : S)

variable (M : Session σ ρ S C α)

inductive Step : Conf σ ρ S C α → Conf σ ρ S C α → Prop where
  | call {c s t} : M.enter c s t → Step (.idle s) (.busy c [] (M.code c t) t)
  | op {c tr o k s r} : M.handler o s = some r →
      Step (.busy c tr (.op o k) s) (.busy c (⟨o, r.1⟩ :: tr) (k r.1) r.2)
  | interrupt {c tr o k s t} : M.busyEnv c tr s t →
      Step (.busy c tr (.op o k) s) (.busy c tr (.op o k) t)
  | rest {s t} : M.idleEnv s t → Step (.idle s) (.idle t)
  | ret {c tr a s} : Step (.busy c tr (.ret a) s) (.idle (M.leave c a s))

def Reachable (s : S) : Conf σ ρ S C α → Prop := ReflTransGen M.Step (.idle s)

variable {M}

/-- What holds of a configuration when `J` is to hold whenever no call is in progress. -/
def Keeps (M : Session σ ρ S C α) (watch : C → History σ ρ → S → Prop) (J : S → Prop) :
    Conf σ ρ S C α → Prop
  | .idle s => J s
  | .busy c tr p s =>
    p.Robust M.handler (M.busyEnv c) (watch c) tr s fun _ a t => J (M.leave c a t)

variable {watch : C → History σ ρ → S → Prop} {J : S → Prop}

theorem keeps_step
    (enters : ∀ c s t, J s → M.enter c s t → M.Keeps watch J (.busy c [] (M.code c t) t))
    (rests : ∀ s t, J s → M.idleEnv s t → J t)
    {x y : Conf σ ρ S C α} (step : M.Step x y) (holds : M.Keeps watch J x) :
    M.Keeps watch J y := by
  cases step with
  | call entered => exact enters _ _ _ holds entered
  | op answer => exact (holds _ .refl).2 _ answer
  | interrupt moved => exact fun t more => holds t (.head moved more)
  | rest moved => exact rests _ _ holds moved
  | ret => exact holds

/-- An invariant that every call restores, whatever interrupts it, holds between
the calls of every run. -/
theorem invariant
    (enters : ∀ c s t, J s → M.enter c s t → M.Keeps watch J (.busy c [] (M.code c t) t))
    (rests : ∀ s t, J s → M.idleEnv s t → J t)
    {s : S} (initial : J s) {x : Conf σ ρ S C α} (reached : M.Reachable s x) :
    M.Keeps watch J x := by
  induction reached with
  | refl => exact initial
  | tail _ step ih => exact keeps_step enters rests step ih

/-- What is watched holds whenever a call is about to issue an operation. -/
theorem Keeps.watched {c : C} {tr : History σ ρ} {o : σ} {k : ρ o → Program σ ρ (α c)} {s : S}
    (keeps : M.Keeps watch J (.busy c tr (.op o k) s)) : watch c tr s :=
  (keeps s .refl).1

/-- `P` holds between the calls, and within a call whenever it is about to issue an operation
and when it has returned. -/
def Everywhere (M : Session σ ρ S C α) (P : S → Prop) : Conf σ ρ S C α → Prop
  | .idle s => P s
  | .busy _ _ (.op _ _) s => P s
  | .busy c _ (.ret a) s => P (M.leave c a s)
  | .busy _ _ .stuck _ => True

theorem Keeps.everywhere {P : S → Prop} {x : Conf σ ρ S C α} (keeps : M.Keeps watch J x)
    (between : ∀ s, J s → P s) (within : ∀ c tr s, watch c tr s → P s) : M.Everywhere P x := by
  cases x with
  | idle s => exact between s keeps
  | busy c tr p s =>
    cases p with
    | ret a => exact between _ keeps
    | op o k => exact within c tr s keeps.watched
    | stuck => trivial

theorem step_perform {c : C} {o : σ} {f : ρ o → Program σ ρ (α c)} {s : S} {r : ρ o × S}
    (tr : History σ ρ) (answer : M.handler o s = some r) :
    M.Step (.busy c tr (Program.perform o >>= f) s) (.busy c (⟨o, r.1⟩ :: tr) (f r.1) r.2) :=
  .op answer

theorem step_interrupt {c : C} {o : σ} {f : ρ o → Program σ ρ (α c)} {s t : S} {tr : History σ ρ}
    (moved : M.busyEnv c tr s t) :
    M.Step (.busy c tr (Program.perform o >>= f) s) (.busy c tr (Program.perform o >>= f) t) :=
  .interrupt moved

/-- What a part of a call does alone is one of its interleavings. -/
theorem steps_of_run_bind {c : C} {β : Type} {p : Program σ ρ β} {f : β → Program σ ρ (α c)}
    {s t : S} {b : β} (ran : p.run M.handler s = some (b, t)) (tr : History σ ρ) :
    ∃ tr', ReflTransGen M.Step (.busy c tr (p >>= f) s) (.busy c tr' (f b) t) := by
  induction p generalizing tr s with
  | ret b => cases ran; exact ⟨tr, .refl⟩
  | op o k ih =>
    obtain ⟨r, answer, ran⟩ := Option.bind_eq_some_iff.mp ran
    obtain ⟨tr', steps⟩ := ih r.1 ran (⟨o, r.1⟩ :: tr)
    exact ⟨tr', .head (.op answer) steps⟩
  | stuck => cases ran

/-- What a call does alone is one of its interleavings. -/
theorem steps_of_run {c : C} {p : Program σ ρ (α c)} {s t : S} {a : α c}
    (ran : p.run M.handler s = some (a, t)) (tr : History σ ρ) :
    ∃ tr', ReflTransGen M.Step (.busy c tr p s) (.busy c tr' (.ret a) t) := by
  have steps := steps_of_run_bind (f := .ret) ran tr
  rwa [Program.bind_ret] at steps

/-- If `P` holds everywhere from here on, it holds of what the call does alone. -/
theorem all_of_everywhere {P : S → Prop} {c : C} {tr : History σ ρ} {p : Program σ ρ (α c)} {s : S}
    (everywhere : ∀ x, ReflTransGen M.Step (.busy c tr p s) x → M.Everywhere P x) :
    p.All M.handler (fun _ => P) s := by
  induction p generalizing tr s with
  | ret a => simp
  | op o k ih =>
    refine (Program.all_op o k s).mpr ⟨everywhere _ .refl, fun r answer => ?_⟩
    exact ih r.1 fun x steps => everywhere x (.head (.op answer) steps)
  | stuck => simp

/-- A call that nothing interrupts. -/
theorem steps_call {c : C} {s t u : S} {a : α c} (entered : M.enter c s t)
    (ran : (M.code c t).run M.handler t = some (a, u)) :
    ReflTransGen M.Step (.idle s) (.idle (M.leave c a u)) := by
  obtain ⟨tr, steps⟩ := steps_of_run ran []
  exact .tail (.head (.call entered) steps) .ret

end Session

end KopalniaOS.Library
