import KopalniaOS.Library.Program

/-!
# Programs that look and do not touch

A program observes a part of the state if its result is a function of that part and everything else
that it changes is of no account. Observations compose, and so do loops that stop at the first find.
-/
namespace KopalniaOS.Library

/-- What is looked at, and which states are taken to be the same. -/
structure Observer (S E : Type) where
  part : S → E
  same : S → S → Prop
  refl : ∀ s, same s s
  trans : ∀ {s t u}, same s t → same t u → same s u
  part_eq : ∀ {s t}, same s t → part t = part s

namespace Program

variable {σ : Type} {ρ : σ → Type} {S E α β : Type} {h : Handler σ ρ S} {o : Observer S E}

/-- `p` returns what `v` says of the part that is looked at, in a state that is the same. -/
def Observes (h : Handler σ ρ S) (o : Observer S E) (p : Program σ ρ α) (v : E → α) : Prop :=
  ∀ s, ∃ t, p.run h s = some (v (o.part s), t) ∧ o.same s t

theorem observes_ret (a : α) : (.ret a : Program σ ρ α).Observes h o fun _ => a :=
  fun s => ⟨s, rfl, o.refl s⟩

theorem Observes.bind {p : Program σ ρ α} {f : α → Program σ ρ β} {v : E → α} {w : α → E → β}
    (first : p.Observes h o v) (next : ∀ a, (f a).Observes h o (w a)) :
    (p >>= f).Observes h o fun e => w (v e) e := by
  intro s
  obtain ⟨t, ran, same⟩ := first s
  obtain ⟨u, ran', same'⟩ := next (v (o.part s)) t
  refine ⟨u, ?_, o.trans same same'⟩
  rw [run_bind, ran, Option.bind_some, ran', o.part_eq same]

/-- The same with a value that is easier to read. -/
theorem Observes.congr {p : Program σ ρ α} {v w : E → α} (observes : p.Observes h o v)
    (equal : ∀ e, v e = w e) : p.Observes h o w := by
  intro s
  obtain ⟨t, ran, same⟩ := observes s
  exact ⟨t, by rw [ran, equal], same⟩

theorem observes_ite {c : Prop} [Decidable c] {p q : Program σ ρ α} {v w : E → α}
    (yes : p.Observes h o v) (no : q.Observes h o w) :
    (if c then p else q).Observes h o fun e => if c then v e else w e := by
  by_cases holds : c
  · simpa only [if_pos holds] using yes
  · simpa only [if_neg holds] using no

/-! ### Loops -/

/-- A loop over a list that returns the first thing it finds. -/
def firstSome (f : α → Program σ ρ (Option β)) : List α → Program σ ρ (Option β)
  | [] => pure none
  | a :: rest => do
    let found ← f a
    match found with
    | some b => pure (some b)
    | none => firstSome f rest

theorem observes_firstSome {f : α → Program σ ρ (Option β)} {v : α → E → Option β}
    (each : ∀ a, (f a).Observes h o (v a)) (l : List α) :
    (firstSome f l).Observes h o fun e => l.findSome? fun a => v a e := by
  induction l with
  | nil => exact observes_ret none
  | cons a rest ih =>
    have next : ∀ found : Option β, (match found with
        | some b => (pure (some b) : Program σ ρ (Option β))
        | none => firstSome f rest).Observes h o
          fun e => found.or (rest.findSome? fun a => v a e) := by
      intro found
      cases found with
      | none => exact ih
      | some b => exact observes_ret (some b)
    refine ((each a).bind next).congr fun e => ?_
    rw [List.findSome?_cons]
    cases v a e <;> rfl

/-- A loop over a list that collects what its body returns. -/
def collect (f : α → Program σ ρ β) : List α → Program σ ρ (List β)
  | [] => pure []
  | a :: rest => do
    let b ← f a
    let bs ← collect f rest
    pure (b :: bs)

theorem observes_collect {f : α → Program σ ρ β} {v : α → E → β}
    (each : ∀ a, (f a).Observes h o (v a)) (l : List α) :
    (collect f l).Observes h o fun e => l.map fun a => v a e := by
  induction l with
  | nil => exact observes_ret []
  | cons a rest ih => exact (each a).bind fun b => ih.bind fun bs => observes_ret (b :: bs)

end Program

/-- The first find in a row of numbers. -/
theorem findSome?_range_eq_some {β : Type} {g : Nat → Option β} {b : β} (n : Nat) :
    (List.range n).findSome? g = some b ↔ ∃ i < n, g i = some b ∧ ∀ j < i, g j = none := by
  induction n with
  | zero => simp
  | succ n ih =>
    rw [List.range_succ, List.findSome?_append, Option.or_eq_some_iff, ih, List.findSome?_eq_none_iff,
      List.findSome?_singleton]
    constructor
    · rintro (⟨i, inside, found, earlier⟩ | ⟨before, found⟩)
      · exact ⟨i, Nat.lt_succ_of_lt inside, found, earlier⟩
      · exact ⟨n, Nat.lt_succ_self n, found, fun j less => before j (List.mem_range.mpr less)⟩
    · rintro ⟨i, inside, found, earlier⟩
      rcases Nat.lt_succ_iff_lt_or_eq.mp inside with less | rfl
      · exact .inl ⟨i, less, found, earlier⟩
      · exact .inr ⟨fun j member => earlier j (List.mem_range.mp member), found⟩

theorem findSome?_range_eq_none {β : Type} {g : Nat → Option β} (n : Nat) :
    (List.range n).findSome? g = none ↔ ∀ i < n, g i = none := by
  rw [List.findSome?_eq_none_iff]
  exact forall_congr' fun i => by rw [List.mem_range]

end KopalniaOS.Library
