import Mathlib.Algebra.Group.Int.Defs
import Mathlib.Algebra.GroupWithZero.Nat
import Mathlib.Logic.Basic

/-!
# Sequential code as a tree of operations

A `Program` issues one operation at a time to whatever owns the state, and
continues with the answer. The same program can be run without interference,
inspected operation by operation, or interleaved with other activity. `stuck`
stands for a loop that has used up its bound.
-/
namespace KopalniaOS.Library

inductive Program (σ : Type) (ρ : σ → Type) (α : Type) where
  | ret (a : α)
  | op (o : σ) (k : ρ o → Program σ ρ α)
  | stuck

/-- What answers the operations. `none` means that the operation never returns. -/
abbrev Handler (σ : Type) (ρ : σ → Type) (S : Type) := (o : σ) → S → Option (ρ o × S)

namespace Program

variable {σ : Type} {ρ : σ → Type} {S α β : Type}

def bind : Program σ ρ α → (α → Program σ ρ β) → Program σ ρ β
  | .ret a, f => f a
  | .op o k, f => .op o fun r => (k r).bind f
  | .stuck, _ => .stuck

instance : Monad (Program σ ρ) where
  pure := .ret
  bind := bind

/-- Issue one operation and return its answer. -/
def perform (o : σ) : Program σ ρ (ρ o) := .op o .ret

@[simp] theorem pure_eq (a : α) : (pure a : Program σ ρ α) = .ret a := rfl

@[simp] theorem ret_bind (a : α) (f : α → Program σ ρ β) : (.ret a >>= f) = f a := rfl

@[simp] theorem op_bind (o : σ) (k : ρ o → Program σ ρ α) (f : α → Program σ ρ β) :
    (.op o k >>= f) = .op o fun r => k r >>= f := rfl

@[simp] theorem stuck_bind (f : α → Program σ ρ β) : (.stuck >>= f) = .stuck := rfl

theorem bind_ret (p : Program σ ρ α) : (p >>= .ret) = p := by
  induction p with
  | ret a => rfl
  | op o k ih => simp only [op_bind, ih]
  | stuck => rfl

theorem bind_assoc {γ : Type} (p : Program σ ρ α) (f : α → Program σ ρ β)
    (g : β → Program σ ρ γ) : (p >>= f >>= g) = p >>= fun a => f a >>= g := by
  induction p with
  | ret a => rfl
  | op o k ih => simp only [op_bind, ih]
  | stuck => rfl

instance : LawfulMonad (Program σ ρ) :=
  LawfulMonad.mk' (Program σ ρ) bind_ret (fun _ _ => rfl) bind_assoc

/-! ### Running without interference -/

variable (h : Handler σ ρ S)

def run : Program σ ρ α → S → Option (α × S)
  | .ret a, s => some (a, s)
  | .op o k, s => (h o s).bind fun r => (k r.1).run r.2
  | .stuck, _ => none

@[simp] theorem run_ret (a : α) (s : S) : (.ret a : Program σ ρ α).run h s = some (a, s) := rfl

@[simp] theorem run_stuck (s : S) : (.stuck : Program σ ρ α).run h s = none := rfl

@[simp] theorem run_op (o : σ) (k : ρ o → Program σ ρ α) (s : S) :
    (Program.op o k).run h s = (h o s).bind fun r => (k r.1).run h r.2 := rfl

@[simp] theorem run_perform (o : σ) (s : S) :
    (perform o : Program σ ρ (ρ o)).run h s = h o s := by
  cases answer : h o s <;> simp [perform, answer]

@[simp] theorem run_bind (p : Program σ ρ α) (f : α → Program σ ρ β) (s : S) :
    (p >>= f).run h s = (p.run h s).bind fun r => (f r.1).run h r.2 := by
  induction p generalizing s with
  | ret a => rfl
  | op o k ih =>
    simp only [op_bind, run_op]
    cases h o s with
    | none => rfl
    | some r => exact ih r.1 r.2
  | stuck => rfl

/-! ### Programs as parts of larger ones -/

/-- Every operation of `p` replaced by a program. -/
def interp {σ' : Type} {ρ' : σ' → Type} (f : (o : σ) → Program σ' ρ' (ρ o)) :
    Program σ ρ α → Program σ' ρ' α
  | .ret a => .ret a
  | .op o k => f o >>= fun r => (k r).interp f
  | .stuck => .stuck

theorem interp_bind {σ' : Type} {ρ' : σ' → Type} (g : (o : σ) → Program σ' ρ' (ρ o))
    (p : Program σ ρ α) (f : α → Program σ ρ β) :
    (p >>= f).interp g = p.interp g >>= fun a => (f a).interp g := by
  induction p with
  | ret a => rfl
  | op o k ih => simp only [op_bind, interp, ih, bind_assoc]
  | stuck => rfl

theorem interp_perform {σ' : Type} {ρ' : σ' → Type} (g : (o : σ) → Program σ' ρ' (ρ o)) (o : σ) :
    (perform o : Program σ ρ (ρ o)).interp g = g o :=
  bind_ret (g o)

/-- Replacing twice is replacing by what the replacements become. -/
theorem interp_interp {σ' σ'' : Type} {ρ' : σ' → Type} {ρ'' : σ'' → Type}
    (f : (o : σ) → Program σ' ρ' (ρ o)) (g : (o : σ') → Program σ'' ρ'' (ρ' o))
    (p : Program σ ρ α) : (p.interp f).interp g = p.interp fun o => (f o).interp g := by
  induction p with
  | ret a => rfl
  | op o k ih => simp only [interp, interp_bind, ih]
  | stuck => rfl

/-- A program whose operations act on a part of the state does to that part what it does alone. -/
theorem run_interp {σ' : Type} {ρ' : σ' → Type} {S' : Type} {h' : Handler σ' ρ' S'}
    {f : (o : σ) → Program σ' ρ' (ρ o)} (part : S' → S) (put : S' → S → S')
    (put_part : ∀ s, put s (part s) = s) (part_put : ∀ s t, part (put s t) = t)
    (put_put : ∀ s t u, put (put s t) u = put s u)
    (acts : ∀ o s, (f o).run h' s = (h o (part s)).map fun r => (r.1, put s r.2))
    (p : Program σ ρ α) (s : S') :
    (p.interp f).run h' s = (p.run h (part s)).map fun r => (r.1, put s r.2) := by
  induction p generalizing s with
  | ret a => rw [interp, run_ret, run_ret, Option.map_some, put_part]
  | op o k ih =>
    rw [interp, run_bind, run_op, acts]
    cases h o (part s) with
    | none => rfl
    | some r =>
      rw [Option.map_some, Option.bind_some, Option.bind_some, ih, part_put]
      simp only [put_put]
  | stuck => rfl

/-! ### The operations a run issues -/

/-- `p.Visits h s o t`: the run of `p` from `s` issues `o` when the state is `t`. -/
def Visits : Program σ ρ α → S → σ → S → Prop
  | .ret _, _, _, _ => False
  | .op o k, s, o', t => (o = o' ∧ s = t) ∨ ∃ r, h o s = some r ∧ (k r.1).Visits r.2 o' t
  | .stuck, _, _, _ => False

/-- Every operation the run of `p` from `s` issues satisfies `P`. -/
def All (P : σ → S → Prop) (p : Program σ ρ α) (s : S) : Prop :=
  ∀ o t, p.Visits h s o t → P o t

variable {h} {P : σ → S → Prop}

@[simp] theorem all_ret (a : α) (s : S) : (.ret a : Program σ ρ α).All h P s :=
  fun _ _ visit => visit.elim

@[simp] theorem all_stuck (s : S) : (.stuck : Program σ ρ α).All h P s :=
  fun _ _ visit => visit.elim

theorem all_op (o : σ) (k : ρ o → Program σ ρ α) (s : S) :
    (Program.op o k).All h P s ↔ P o s ∧ ∀ r, h o s = some r → (k r.1).All h P r.2 := by
  constructor
  · intro all
    exact ⟨all o s (.inl ⟨rfl, rfl⟩), fun r answer o' t visit => all o' t (.inr ⟨r, answer, visit⟩)⟩
  · rintro ⟨first, rest⟩ o' t (⟨rfl, rfl⟩ | ⟨r, answer, visit⟩)
    · exact first
    · exact rest r answer o' t visit

theorem all_perform_bind (o : σ) (f : ρ o → Program σ ρ β) (s : S) :
    (perform o >>= f).All h P s ↔ P o s ∧ ∀ r, h o s = some r → (f r.1).All h P r.2 :=
  all_op o f s

theorem all_bind (p : Program σ ρ α) (f : α → Program σ ρ β) (s : S) :
    (p >>= f).All h P s ↔
      p.All h P s ∧ ∀ a t, p.run h s = some (a, t) → (f a).All h P t := by
  induction p generalizing s with
  | ret a => simp
  | op o k ih =>
    simp only [op_bind, all_op, run_op, ih]
    constructor
    · rintro ⟨first, rest⟩
      refine ⟨⟨first, fun r answer => (rest r answer).1⟩, fun a t ran => ?_⟩
      obtain ⟨r, answer, ran⟩ := Option.bind_eq_some_iff.mp ran
      exact (rest r answer).2 a t ran
    · rintro ⟨⟨first, rest⟩, after⟩
      refine ⟨first, fun r answer => ⟨rest r answer, fun a t ran => after a t ?_⟩⟩
      rw [answer]
      exact ran
  | stuck => simp

/-- The same by evaluation. -/
def allB (h : Handler σ ρ S) (P : σ → S → Bool) : Program σ ρ α → S → Bool
  | .ret _, _ => true
  | .op o k, s => P o s && match h o s with
    | none => true
    | some r => (k r.1).allB h P r.2
  | .stuck, _ => true

theorem all_of_allB {Q : σ → S → Prop} [∀ o s, Decidable (Q o s)] {p : Program σ ρ α} {s : S}
    (checked : p.allB h (fun o s => decide (Q o s)) s = true) : p.All h Q s := by
  induction p generalizing s with
  | ret a => exact all_ret a s
  | op o k ih =>
    rw [allB, Bool.and_eq_true] at checked
    obtain ⟨first, rest⟩ := checked
    refine (all_op o k s).mpr ⟨of_decide_eq_true first, fun r answer => ih r.1 ?_⟩
    rw [answer] at rest
    exact rest
  | stuck => exact all_stuck s

/-- A sequence whose first part is known to return. -/
theorem all_bind_of_run {p : Program σ ρ α} {f : α → Program σ ρ β} {s t : S} {a : α}
    (ran : p.run h s = some (a, t)) : (p >>= f).All h P s ↔ p.All h P s ∧ (f a).All h P t := by
  rw [all_bind]
  refine and_congr Iff.rfl ⟨fun rest => rest a t ran, fun rest b u ran' => ?_⟩
  rw [ran] at ran'
  cases ran'
  exact rest

theorem visits_bind_of_run {p : Program σ ρ α} {f : α → Program σ ρ β} {s t u : S} {a : α} {o : σ}
    (ran : p.run h s = some (a, t)) :
    (p >>= f).Visits h s o u ↔ p.Visits h s o u ∨ (f a).Visits h t o u := by
  have never := all_bind_of_run (f := f) (P := fun o' s' => ¬(o' = o ∧ s' = u)) ran
  unfold All at never
  have told : ∀ {γ : Type} (q : Program σ ρ γ) (v : S),
      (∀ o' s', q.Visits h v o' s' → ¬(o' = o ∧ s' = u)) ↔ ¬q.Visits h v o u := by
    intro γ q v
    refine ⟨fun all visit => all o u visit ⟨rfl, rfl⟩, ?_⟩
    rintro no _ _ visit ⟨rfl, rfl⟩
    exact no visit
  rw [told, told, told, ← not_or] at never
  exact not_iff_not.mp never

/-! ### The operations a program can issue -/

/-- Whatever the answers are, every operation of `p` satisfies `Q`, and `p` does not get stuck. -/
def Always (Q : σ → Prop) : Program σ ρ α → Prop
  | .ret _ => True
  | .op o k => Q o ∧ ∀ r, (k r).Always Q
  | .stuck => False

variable {Q : σ → Prop}

@[simp] theorem always_ret (a : α) : (.ret a : Program σ ρ α).Always Q := trivial

theorem always_perform_bind (o : σ) (f : ρ o → Program σ ρ α) :
    (perform o >>= f).Always Q ↔ Q o ∧ ∀ r, (f r).Always Q := Iff.rfl

theorem Always.bind {p : Program σ ρ α} {f : α → Program σ ρ β} (first : p.Always Q)
    (next : ∀ a, (f a).Always Q) : (p >>= f).Always Q := by
  induction p with
  | ret a => exact next a
  | op o k ih => exact ⟨first.1, fun r => ih r (first.2 r)⟩
  | stuck => exact first

/-- Every sequence of answers leads to the end of the first part. -/
theorem always_bind_unit [∀ o, Nonempty (ρ o)] {p : Program σ ρ Unit} {f : Unit → Program σ ρ β} :
    (p >>= f).Always Q ↔ p.Always Q ∧ (f ()).Always Q := by
  refine ⟨fun always => ?_, fun both => both.1.bind fun _ => both.2⟩
  induction p with
  | ret a => exact ⟨trivial, always⟩
  | op o k ih =>
    refine ⟨⟨always.1, fun r => (ih r (always.2 r)).1⟩, ?_⟩
    obtain ⟨r⟩ := (inferInstance : Nonempty (ρ o))
    exact (ih r (always.2 r)).2
  | stuck => exact always.elim

/-- Replacing operations by programs that issue only operations of another kind. -/
theorem Always.interp {σ' : Type} {ρ' : σ' → Type} {R : σ' → Prop}
    {f : (o : σ) → Program σ' ρ' (ρ o)} {p : Program σ ρ α} (always : p.Always Q)
    (each : ∀ o, Q o → (f o).Always R) : (p.interp f).Always R := by
  induction p with
  | ret a => trivial
  | op o k ih => exact (each o always.1).bind fun r => ih r (always.2 r)
  | stuck => exact always

theorem Always.mono {R : σ → Prop} {p : Program σ ρ α} (always : p.Always Q)
    (implied : ∀ o, Q o → R o) : p.Always R := by
  induction p with
  | ret a => trivial
  | op o k ih => exact ⟨implied o always.1, fun r => ih r (always.2 r)⟩
  | stuck => exact always

/-- What holds of whatever `p` can issue holds of what a run of it issues. -/
theorem Always.all {p : Program σ ρ α} (always : p.Always Q) (implied : ∀ o s, Q o → P o s) (s : S) :
    p.All h P s := by
  induction p generalizing s with
  | ret a => exact all_ret a s
  | op o k ih =>
    exact (all_op o k s).mpr ⟨implied o s always.1, fun r _ => ih r.1 (always.2 r.1) r.2⟩
  | stuck => exact always.elim

/-- A program whose operations act on a part of the state, if they are of the kind that does. -/
theorem run_embed {S' : Type} {h' : Handler σ ρ S'} (part : S' → S) (put : S' → S → S')
    (put_part : ∀ s, put s (part s) = s) (part_put : ∀ s t, part (put s t) = t)
    (put_put : ∀ s t u, put (put s t) u = put s u)
    (acts : ∀ o s, Q o → h' o s = (h o (part s)).map fun r => (r.1, put s r.2))
    {p : Program σ ρ α} (always : p.Always Q) (s : S') :
    p.run h' s = (p.run h (part s)).map fun r => (r.1, put s r.2) := by
  induction p generalizing s with
  | ret a => rw [run_ret, run_ret, Option.map_some, put_part]
  | op o k ih =>
    rw [run_op, run_op, acts o s always.1]
    cases h o (part s) with
    | none => rfl
    | some r =>
      rw [Option.map_some, Option.bind_some, Option.bind_some, ih r.1 (always.2 r.1), part_put]
      simp only [put_put]
  | stuck => cases always

/-- If every step on one state can be followed on another, so can every run. -/
theorem run_simulates {S' : Type} {h' : Handler σ ρ S'} {R : S → S' → Prop}
    (follows : ∀ o s s' r, R s s' → h o s = some r → ∃ t', h' o s' = some (r.1, t') ∧ R r.2 t')
    {p : Program σ ρ α} {s t : S} {s' : S'} {a : α} (related : R s s')
    (ran : p.run h s = some (a, t)) : ∃ t', p.run h' s' = some (a, t') ∧ R t t' := by
  induction p generalizing s s' with
  | ret b =>
    cases ran
    exact ⟨s', rfl, related⟩
  | op o k ih =>
    obtain ⟨r, answer, ran⟩ := Option.bind_eq_some_iff.mp ran
    obtain ⟨t', answer', related'⟩ := follows o s s' r related answer
    rw [run_op, answer']
    exact ih r.1 related' ran
  | stuck => cases ran

/-- What no operation changes, no run changes. -/
theorem run_keeps {γ : Type} {part : S → γ} (keeps : ∀ o s r, h o s = some r → part r.2 = part s)
    {p : Program σ ρ α} {s t : S} {a : α} (ran : p.run h s = some (a, t)) : part t = part s := by
  induction p generalizing s with
  | ret b =>
    cases ran
    rfl
  | op o k ih =>
    obtain ⟨r, answer, ran⟩ := Option.bind_eq_some_iff.mp ran
    exact (ih r.1 ran).trans (keeps o s r answer)
  | stuck => cases ran

/-- No run of `p` changes this part of the state. -/
def Keeps {γ : Type} (h : Handler σ ρ S) (part : S → γ) (p : Program σ ρ α) : Prop :=
  ∀ s a t, p.run h s = some (a, t) → part t = part s

theorem keeps_ret {γ : Type} {part : S → γ} (a : α) : (.ret a : Program σ ρ α).Keeps h part := by
  rintro s b t ran
  cases ran
  rfl

theorem keeps_stuck {γ : Type} {part : S → γ} : (.stuck : Program σ ρ α).Keeps h part := by
  rintro s b t ran
  cases ran

theorem Keeps.bind {γ : Type} {part : S → γ} {p : Program σ ρ α} {f : α → Program σ ρ β}
    (first : p.Keeps h part) (next : ∀ a, (f a).Keeps h part) : (p >>= f).Keeps h part := by
  intro s b u ran
  rw [run_bind] at ran
  obtain ⟨⟨a, t⟩, before, after⟩ := Option.bind_eq_some_iff.mp ran
  exact (next a t b u after).trans (first s a t before)

theorem keeps_perform {γ : Type} {part : S → γ} {o : σ}
    (keeps : ∀ s r, h o s = some r → part r.2 = part s) : (perform o).Keeps h part := by
  intro s a t ran
  rw [run_perform] at ran
  exact keeps s (a, t) ran

end Program

/-! ### Contracts -/

/-- What a run may assume about its operations and what it owes in return.
`mayHang` tells whether a run that never returns is acceptable. -/
structure Contract (σ S : Type) where
  assume : σ → S → Prop
  guarantee : σ → S → Prop
  mayHang : Prop

namespace Program

variable {σ : Type} {ρ : σ → Type} {S α β : Type} (h : Handler σ ρ S)

/-- As long as the operations of `p` satisfy the assumption they satisfy the
guarantee, and a run that gets to the end meets the postcondition. -/
def Meets (c : Contract σ S) : Program σ ρ α → S → (α → S → Prop) → Prop
  | .ret a, s, post => post a s
  | .op o k, s, post => c.assume o s →
      c.guarantee o s ∧ (h o s = none → c.mayHang) ∧
        ∀ r, h o s = some r → (k r.1).Meets c r.2 post
  | .stuck, _, _ => c.mayHang

variable {h} {c : Contract σ S}

theorem meets_op (o : σ) (k : ρ o → Program σ ρ α) (s : S) (post : α → S → Prop) :
    (Program.op o k).Meets h c s post ↔ (c.assume o s →
      c.guarantee o s ∧ (h o s = none → c.mayHang) ∧
        ∀ r, h o s = some r → (k r.1).Meets h c r.2 post) := Iff.rfl

theorem Meets.mono {p : Program σ ρ α} {s : S} {post weaker : α → S → Prop}
    (meets : p.Meets h c s post) (implied : ∀ a t, post a t → weaker a t) :
    p.Meets h c s weaker := by
  induction p generalizing s with
  | ret a => exact implied a s meets
  | op o k ih =>
    intro assumed
    obtain ⟨guaranteed, returns, rest⟩ := meets assumed
    exact ⟨guaranteed, returns, fun r answer => ih r.1 (rest r answer)⟩
  | stuck => exact meets

theorem meets_bind (p : Program σ ρ α) (f : α → Program σ ρ β) (s : S) (post : β → S → Prop) :
    (p >>= f).Meets h c s post ↔ p.Meets h c s fun a t => (f a).Meets h c t post := by
  induction p generalizing s with
  | ret a => rfl
  | op o k ih =>
    simp only [op_bind, meets_op, ih]
  | stuck => rfl

theorem meets_perform_bind (o : σ) (f : ρ o → Program σ ρ β) (s : S) (post : β → S → Prop) :
    (perform o >>= f).Meets h c s post ↔ (c.assume o s →
      c.guarantee o s ∧ (h o s = none → c.mayHang) ∧
        ∀ r, h o s = some r → (f r.1).Meets h c r.2 post) := Iff.rfl

/-- A run whose operations all satisfy the assumption keeps the guarantee. -/
theorem Meets.guaranteed {p : Program σ ρ α} {s : S} {post : α → S → Prop}
    (meets : p.Meets h c s post) (assumed : p.All h c.assume s) : p.All h c.guarantee s := by
  induction p generalizing s with
  | ret a => simp
  | op o k ih =>
    obtain ⟨first, rest⟩ := (all_op o k s).mp assumed
    obtain ⟨guaranteed, -, after⟩ := meets first
    exact (all_op o k s).mpr ⟨guaranteed, fun r answer => ih r.1 (after r answer) (rest r answer)⟩
  | stuck => simp

/-- A run whose operations all satisfy the assumption, and that may not hang,
returns in the postcondition. -/
theorem Meets.returns {p : Program σ ρ α} {s : S} {post : α → S → Prop}
    (meets : p.Meets h c s post) (assumed : p.All h c.assume s) (total : ¬c.mayHang) :
    ∃ a t, p.run h s = some (a, t) ∧ post a t := by
  induction p generalizing s with
  | ret a => exact ⟨a, s, rfl, meets⟩
  | op o k ih =>
    obtain ⟨first, rest⟩ := (all_op o k s).mp assumed
    obtain ⟨-, returns, after⟩ := meets first
    cases answer : h o s with
    | none => exact (total (returns answer)).elim
    | some r =>
      obtain ⟨a, t, ran, holds⟩ := ih r.1 (after r answer) (rest r answer)
      exact ⟨a, t, by rw [run_op, answer]; exact ran, holds⟩
  | stuck => exact (total meets).elim

/-- The postcondition of a run that is known to return. -/
theorem Meets.result {p : Program σ ρ α} {s t : S} {a : α} {post : α → S → Prop}
    (meets : p.Meets h c s post) (assumed : p.All h c.assume s)
    (ran : p.run h s = some (a, t)) : post a t := by
  induction p generalizing s with
  | ret b => cases ran; exact meets
  | op o k ih =>
    obtain ⟨first, rest⟩ := (all_op o k s).mp assumed
    obtain ⟨-, -, after⟩ := meets first
    obtain ⟨r, answer, ran⟩ := Option.bind_eq_some_iff.mp ran
    exact ih r.1 (after r answer) (rest r answer) ran
  | stuck => cases ran

/-- The operations of a sequence, by a contract of its first part. -/
theorem all_bind_of_meets {P Q : σ → S → Prop} {p : Program σ ρ α} {f : α → Program σ ρ β} {s : S}
    {post : α → S → Prop} (all : p.All h P s) (meets : p.Meets h ⟨P, Q, True⟩ s post)
    (rest : ∀ a t, post a t → (f a).All h P t) : (p >>= f).All h P s :=
  (all_bind p f s).mpr ⟨all, fun a t ran => rest a t (meets.result all ran)⟩

/-- To derive one property of all operations of a sequence from another, derive it for the
parts; the second part may rely on what the first one meets. -/
theorem all_bind_of_imp {P Q R : σ → S → Prop} {p : Program σ ρ α} {f : α → Program σ ρ β} {s : S}
    {post : α → S → Prop} (first : p.All h Q s → p.All h P s) (meets : p.Meets h ⟨P, R, True⟩ s post)
    (rest : ∀ a t, post a t → (f a).All h Q t → (f a).All h P t) (all : (p >>= f).All h Q s) :
    (p >>= f).All h P s := by
  obtain ⟨here, later⟩ := (all_bind p f s).mp all
  have done := first here
  refine (all_bind p f s).mpr ⟨done, fun a t ran => ?_⟩
  exact rest a t (meets.result done ran) (later a t ran)

/-- What every operation of a kind keeps, a program of such operations keeps. -/
theorem Always.meets {Q : σ → Prop} {I : S → Prop}
    (keeps : ∀ o s, Q o → I s → c.assume o s →
      c.guarantee o s ∧ (h o s = none → c.mayHang) ∧ ∀ r, h o s = some r → I r.2)
    {p : Program σ ρ α} (always : p.Always Q) {s : S} (before : I s) :
    p.Meets h c s fun _ t => I t := by
  induction p generalizing s with
  | ret a => exact before
  | op o k ih =>
    intro assumed
    obtain ⟨guaranteed, returns, after⟩ := keeps o s always.1 before assumed
    exact ⟨guaranteed, returns, fun r answer => ih r.1 (always.2 r.1) (after r answer)⟩
  | stuck => cases always

/-- A weaker guarantee. -/
theorem Meets.weaken {guarantee : σ → S → Prop} {p : Program σ ρ α} {s : S} {post : α → S → Prop}
    (meets : p.Meets h c s post) (implied : ∀ o t, c.guarantee o t → guarantee o t) :
    p.Meets h { c with guarantee } s post := by
  induction p generalizing s with
  | ret a => exact meets
  | op o k ih =>
    intro assumed
    obtain ⟨guaranteed, returns, rest⟩ := meets assumed
    exact ⟨implied o s guaranteed, returns, fun r answer => ih r.1 (rest r answer)⟩
  | stuck => exact meets

/-- What is known of a run that returns. -/
theorem meets_of_run {assume : σ → S → Prop} {mayHang : Prop} {p : Program σ ρ α} {s t : S} {a : α}
    (ran : p.run h s = some (a, t)) :
    p.Meets h ⟨assume, fun _ _ => True, mayHang⟩ s fun b u => b = a ∧ u = t := by
  induction p generalizing s with
  | ret b =>
    cases ran
    exact ⟨rfl, rfl⟩
  | op o k ih =>
    obtain ⟨r, answer, ran⟩ := Option.bind_eq_some_iff.mp ran
    refine fun _ => ⟨trivial, fun fails => ?_, fun r' answer' => ?_⟩
    · rw [answer] at fails
      cases fails
    · rw [answer] at answer'
      cases answer'
      exact ih r.1 ran
  | stuck => cases ran

/-! ### Contracts without assumptions -/

variable {allowed : σ → S → Prop}

/-- The run of `p` returns in the postcondition, and all its operations are allowed. -/
abbrev Ensures (h : Handler σ ρ S) (allowed : σ → S → Prop) (p : Program σ ρ α) (s : S)
    (post : α → S → Prop) : Prop :=
  p.Meets h ⟨fun _ _ => True, allowed, False⟩ s post

theorem ensures_perform {o : σ} {f : ρ o → Program σ ρ α} {s : S} {post : α → S → Prop} {r : ρ o × S}
    (answer : h o s = some r) (here : allowed o s) (next : (f r.1).Ensures h allowed r.2 post) :
    (perform o >>= f).Ensures h allowed s post := by
  intro _
  refine ⟨here, fun fails => ?_, fun r' answer' => ?_⟩
  · rw [answer] at fails
    cases fails
  · rw [answer] at answer'
    cases answer'
    exact next

theorem ensures_bind {p : Program σ ρ α} {f : α → Program σ ρ β} {s : S} {post : α → S → Prop}
    {post' : β → S → Prop} (first : p.Ensures h allowed s post)
    (next : ∀ a t, post a t → (f a).Ensures h allowed t post') :
    (p >>= f).Ensures h allowed s post' :=
  (meets_bind p f s post').mpr (first.mono next)

theorem Ensures.all {p : Program σ ρ α} {s : S} {post : α → S → Prop}
    (ensures : p.Ensures h allowed s post) : p.All h allowed s :=
  ensures.guaranteed fun _ _ _ => trivial

theorem Ensures.returns {p : Program σ ρ α} {s : S} {post : α → S → Prop}
    (ensures : p.Ensures h allowed s post) : ∃ a t, p.run h s = some (a, t) ∧ post a t :=
  Meets.returns ensures (fun _ _ _ => trivial) not_false

/-! ### Runs that may hang -/

/-- A run of `p` that returns does so in the postcondition. -/
abbrev Leaves (h : Handler σ ρ S) (p : Program σ ρ α) (s : S) (post : α → S → Prop) : Prop :=
  p.Meets h ⟨fun _ _ => True, fun _ _ => True, True⟩ s post

theorem leaves_bind (p : Program σ ρ α) (f : α → Program σ ρ β) (s : S) (post : β → S → Prop) :
    (p >>= f).Leaves h s post ↔ p.Leaves h s fun a t => (f a).Leaves h t post :=
  meets_bind p f s post

theorem leaves_op (o : σ) (k : ρ o → Program σ ρ α) (s : S) (post : α → S → Prop) :
    (Program.op o k).Leaves h s post ↔ ∀ r, h o s = some r → (k r.1).Leaves h r.2 post := by
  rw [Leaves, meets_op]
  simp

theorem leaves_perform_bind (o : σ) (f : ρ o → Program σ ρ β) (s : S) (post : β → S → Prop) :
    (perform o >>= f).Leaves h s post ↔ ∀ r, h o s = some r → (f r.1).Leaves h r.2 post :=
  leaves_op o f s post

theorem Leaves.result {p : Program σ ρ α} {s t : S} {a : α} {post : α → S → Prop}
    (leaves : p.Leaves h s post) (ran : p.run h s = some (a, t)) : post a t :=
  Meets.result leaves (fun _ _ _ => trivial) ran

/-! ### Programs that do the same -/

/-- The same result from every state, and whatever is asked of all operations holds of both. -/
def Equivalent (h : Handler σ ρ S) (P : σ → S → Prop) (p q : Program σ ρ α) : Prop :=
  ∀ s, p.run h s = q.run h s ∧ (p.All h P s ↔ q.All h P s)

variable {P : σ → S → Prop}

theorem Equivalent.refl (p : Program σ ρ α) : p.Equivalent h P p := fun _ => ⟨rfl, Iff.rfl⟩

theorem Equivalent.bind (p : Program σ ρ α) {f g : α → Program σ ρ β}
    (same : ∀ a, (f a).Equivalent h P (g a)) : (p >>= f).Equivalent h P (p >>= g) := by
  intro s
  constructor
  · rw [run_bind, run_bind]
    exact congrArg _ (funext fun r => (same r.1 r.2).1)
  · rw [all_bind, all_bind]
    refine and_congr Iff.rfl (forall_congr' fun a => forall_congr' fun t => ?_)
    exact imp_congr_right fun _ => (same a t).2

/-- An operation that always gives the same answer and changes nothing can be left out. -/
theorem Equivalent.perform {o : σ} {r : ρ o} (answer : ∀ s, h o s = some (r, s))
    (allowed : ∀ s, P o s) {f : ρ o → Program σ ρ α} {q : Program σ ρ α}
    (same : (f r).Equivalent h P q) : (perform o >>= f).Equivalent h P q := by
  intro s
  constructor
  · rw [run_bind, run_perform, answer, Option.bind_some]
    exact (same s).1
  · rw [all_perform_bind, answer]
    simpa [allowed] using (same s).2

end Program

end KopalniaOS.Library
