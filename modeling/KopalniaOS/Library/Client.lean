import KopalniaOS.Library.Interrupts

/-!
# A loop around calls

A client asks a component for a value, works on it with a state of its own, and asks again. The
component goes on meanwhile, also while the client works, and still the client is always where it would
be if it had been given its answers one after the other.
-/
namespace KopalniaOS.Library

open Relation

/-- `ask` is the call that the client makes, and `turn` what it does with the answer. -/
structure Client (σ : Type) (ρ : σ → Type) (S C V γ : Type) where
  handler : Handler σ ρ S
  ask : γ → C
  turn : γ → V → Program σ ρ γ

namespace Client

variable {σ τ : Type} {ρ : σ → Type} {θ : τ → Type} {S T C V γ : Type}

/-- The client waits for an answer, or has some of a turn left. -/
inductive Phase (σ : Type) (ρ : σ → Type) (γ : Type) where
  | asking (g : γ)
  | working (p : Program σ ρ γ)

def Phase.left : Phase σ ρ γ → Program σ ρ γ
  | .asking g => .ret g
  | .working p => p

/-- Both of them; `answers` are the values that the calls have returned. -/
structure Joint (σ : Type) (ρ : σ → Type) (τ : Type) (θ : τ → Type) (S T C V γ : Type) where
  server : Session.Conf τ θ T C fun _ => V
  answers : List V
  phase : Phase σ ρ γ
  state : S

/-- The state of the component. -/
def Joint.component (x : Joint σ ρ τ θ S T C V γ) : T :=
  match x.server with
  | .idle s => s
  | .busy _ _ _ s => s

variable (M : Session τ θ T C fun _ => V) (K : Client σ ρ S C V γ)

/-- The first four are steps of the component alone, and the last two of the client. -/
inductive Step : Joint σ ρ τ θ S T C V γ → Joint σ ρ τ θ S T C V γ → Prop where
  | ask {g vs s t u} : M.enter (K.ask g) s t →
      Step ⟨.idle s, vs, .asking g, u⟩ ⟨.busy (K.ask g) [] (M.code (K.ask g) t) t, vs, .asking g, u⟩
  | op {c tr o k s r vs φ u} : M.handler o s = some r →
      Step ⟨.busy c tr (.op o k) s, vs, φ, u⟩ ⟨.busy c (⟨o, r.1⟩ :: tr) (k r.1) r.2, vs, φ, u⟩
  | interrupt {c tr o k s t vs φ u} : M.busyEnv c tr s t →
      Step ⟨.busy c tr (.op o k) s, vs, φ, u⟩ ⟨.busy c tr (.op o k) t, vs, φ, u⟩
  | rest {s t vs φ u} : M.idleEnv s t → Step ⟨.idle s, vs, φ, u⟩ ⟨.idle t, vs, φ, u⟩
  | answer {c tr a s vs g u} :
      Step ⟨.busy c tr (.ret a) s, vs, .asking g, u⟩
        ⟨.idle (M.leave c a s), vs ++ [a], .working (K.turn g a), u⟩
  | work {x vs o k u r} : K.handler o u = some r →
      Step ⟨x, vs, .working (.op o k), u⟩ ⟨x, vs, .working (k r.1), r.2⟩
  | next {x vs g u} : Step ⟨x, vs, .working (.ret g), u⟩ ⟨x, vs, .asking g, u⟩

/-- The turns of the client alone, with these answers. -/
def turns : List V → γ → Program σ ρ γ
  | [], g => .ret g
  | v :: vs, g => K.turn g v >>= turns vs

def start (t : T) (g : γ) (s : S) : Joint σ ρ τ θ S T C V γ := ⟨.idle t, [], .asking g, s⟩

def Reachable (t : T) (g : γ) (s : S) : Joint σ ρ τ θ S T C V γ → Prop :=
  ReflTransGen (K.Step M) (start t g s)

variable {M K} {t : T} {g : γ} {s : S} {x y : Joint σ ρ τ θ S T C V γ}

theorem turns_concat (vs : List V) (v : V) (g : γ) :
    K.turns (vs ++ [v]) g = K.turns vs g >>= fun g => K.turn g v := by
  induction vs generalizing g with
  | nil => exact Program.bind_ret _
  | cons w vs ih =>
    rw [List.cons_append, turns, turns, Program.bind_assoc]
    exact congrArg (K.turn g w >>= ·) (funext ih)

/-- The component cannot tell that the client is there. -/
theorem reachable_server (reached : K.Reachable M t g s x) : M.Reachable t x.server := by
  induction reached with
  | refl => exact .refl
  | tail _ step ih =>
    cases step with
    | ask entered => exact .tail ih (.call entered)
    | op answer => exact .tail ih (.op answer)
    | interrupt moved => exact .tail ih (.interrupt moved)
    | rest moved => exact .tail ih (.rest moved)
    | answer => exact .tail ih .ret
    | work _ => exact ih
    | next => exact ih

/-- What the client has done and still has to do are its turns with the answers so far. -/
def Follows (K : Client σ ρ S C V γ) (g : γ) (s : S) (x : Joint σ ρ τ θ S T C V γ) : Prop :=
  (K.turns x.answers g).run K.handler s = x.phase.left.run K.handler x.state

theorem follows_step (follows : Follows K g s x) (step : K.Step M x y) : Follows K g s y := by
  unfold Follows at *
  cases step with
  | ask _ => exact follows
  | op _ => exact follows
  | interrupt _ => exact follows
  | rest _ => exact follows
  | answer =>
    rw [turns_concat, Program.run_bind, follows]
    rfl
  | work answer =>
    dsimp only [Phase.left] at follows ⊢
    rw [follows, Program.run_op, answer]
    rfl
  | next => exact follows

theorem reachable_follows (reached : K.Reachable M t g s x) : Follows K g s x := by
  induction reached with
  | refl => rfl
  | tail _ step ih => exact follows_step ih step

/-- A component that records what its calls return has recorded the answers. -/
theorem reachable_recorded (record : T → List V)
    (enters : ∀ c s t, M.enter c s t → record t = record s)
    (handles : ∀ o s r, M.handler o s = some r → record r.2 = record s)
    (interrupts : ∀ c tr s t, M.busyEnv c tr s t → record t = record s)
    (rests : ∀ s t, M.idleEnv s t → record t = record s)
    (leaves : ∀ c a s, record (M.leave c a s) = record s ++ [a])
    (empty : record t = []) (reached : K.Reachable M t g s x) :
    record x.component = x.answers := by
  induction reached with
  | refl => exact empty
  | tail _ step ih =>
    cases step with
    | ask entered => exact (enters _ _ _ entered).trans ih
    | op answer => exact (handles _ _ _ answer).trans ih
    | interrupt moved => exact (interrupts _ _ _ _ moved).trans ih
    | rest moved => exact (rests _ _ moved).trans ih
    | answer => exact (leaves ..).trans (congrArg (· ++ [_]) ih)
    | work _ => exact ih
    | next => exact ih

/-! ### Going on -/

/-- A call that nothing interrupts gives the client its answer. -/
theorem steps_ask {t t' u : T} {a : V} {vs : List V} (entered : M.enter (K.ask g) t t')
    (ran : (M.code (K.ask g) t').run M.handler t' = some (a, u)) :
    ReflTransGen (K.Step M) ⟨.idle t, vs, .asking g, s⟩
      ⟨.idle (M.leave (K.ask g) a u), vs ++ [a], .working (K.turn g a), s⟩ := by
  have called : ∀ (p : Program τ θ V) (tr : History τ θ) (t : T), p.run M.handler t = some (a, u) →
      ∃ tr', ReflTransGen (K.Step M) ⟨.busy (K.ask g) tr p t, vs, .asking g, s⟩
        ⟨.busy (K.ask g) tr' (.ret a) u, vs, .asking g, s⟩ := by
    intro p
    induction p with
    | ret b =>
      intro tr t ran
      cases ran
      exact ⟨tr, .refl⟩
    | op o k ih =>
      intro tr t ran
      obtain ⟨r, answer, ran⟩ := Option.bind_eq_some_iff.mp ran
      obtain ⟨tr', steps⟩ := ih r.1 (⟨o, r.1⟩ :: tr) r.2 ran
      exact ⟨tr', .head (.op answer) steps⟩
    | stuck =>
      intro tr t ran
      cases ran
  obtain ⟨tr, steps⟩ := called _ [] t' ran
  exact .tail (.head (.ask entered) steps) .answer

end Client

end KopalniaOS.Library
