import Mathlib.Data.List.Basic
import Mathlib.Logic.Function.Basic

/-!
# Ledgers

What is begun gets a number, and a ledger keeps what happens to every number. A number whose life
is over was begun once, used only after that, and ended once.
-/
namespace KopalniaOS.Library

inductive LifeEvent where
  | begun (n : Nat)
  | used (n : Nat)
  | ended (n : Nat)
deriving DecidableEq, Repr

def LifeEvent.number : LifeEvent → Nat
  | .begun n => n
  | .used n => n
  | .ended n => n

/-- The numbers below `issued` have been given out. -/
structure Ledger where
  issued : Nat
  events : List LifeEvent
deriving DecidableEq, Repr

namespace Ledger

def empty : Ledger := ⟨0, []⟩

def begin (l : Ledger) : Ledger := ⟨l.issued + 1, l.events ++ [.begun l.issued]⟩

def use (l : Ledger) (n : Nat) : Ledger := { l with events := l.events ++ [.used n] }

def finish (l : Ledger) (n : Nat) : Ledger := { l with events := l.events ++ [.ended n] }

/-- What happened to one number. -/
def life (l : Ledger) (n : Nat) : List LifeEvent := l.events.filter fun e => e.number == n

/-- Begun, and used so often. -/
def Open (n : Nat) (life : List LifeEvent) : Prop :=
  ∃ uses, life = .begun n :: List.replicate uses (.used n)

/-- Begun, used so often, and ended. -/
def Closed (n : Nat) (life : List LifeEvent) : Prop :=
  ∃ uses, life = .begun n :: List.replicate uses (.used n) ++ [.ended n]

/-- Everything that was begun was ended, once, and not used after that. -/
def Balanced (l : Ledger) : Prop := ∀ n < l.issued, Closed n (l.life n)

/-- The ledger of a state in which these numbers are alive. -/
structure Tracks (l : Ledger) (alive : Nat → Prop) : Prop where
  known : ∀ n, alive n → n < l.issued
  new : ∀ n, l.issued ≤ n → l.life n = []
  living : ∀ n, alive n → Open n (l.life n)
  past : ∀ n < l.issued, ¬alive n → Closed n (l.life n)

variable {l : Ledger} {alive alive' : Nat → Prop} {n : Nat}

theorem tracks_empty (none : ∀ n, ¬alive n) : empty.Tracks alive where
  known n lives := (none n lives).elim
  new _ _ := rfl
  living n lives := (none n lives).elim
  past _ given _ := absurd given (Nat.not_lt_zero _)

theorem life_begin (n : Nat) :
    l.begin.life n = l.life n ++ if l.issued = n then [.begun n] else [] := by
  by_cases here : l.issued = n <;> simp [life, begin, LifeEvent.number, here]

theorem life_use (m n : Nat) : (l.use m).life n = l.life n ++ if m = n then [.used n] else [] := by
  by_cases here : m = n <;> simp [life, use, LifeEvent.number, here]

theorem life_finish (m n : Nat) :
    (l.finish m).life n = l.life n ++ if m = n then [.ended n] else [] := by
  by_cases here : m = n <;> simp [life, finish, LifeEvent.number, here]

theorem Tracks.begin (tracks : l.Tracks alive) (lives : ∀ n, alive' n ↔ alive n ∨ n = l.issued) :
    l.begin.Tracks alive' where
  known n now := by
    -- the number that is given out is the least one that was not
    rcases (lives n).mp now with before | rfl
    · exact Nat.lt_succ_of_lt (tracks.known n before)
    · exact Nat.lt_succ_self _
  new n later := by
    have later : l.issued < n := later
    rw [life_begin, tracks.new n (Nat.le_of_lt later), if_neg (Nat.ne_of_lt later)]
    rfl
  living n now := by
    rw [life_begin]
    rcases (lives n).mp now with before | rfl
    · rw [if_neg (Nat.ne_of_gt (tracks.known n before)), List.append_nil]
      exact tracks.living n before
    · rw [if_pos rfl, tracks.new _ (Nat.le_refl _)]
      exact ⟨0, rfl⟩
  past n given not := by
    rw [lives, not_or] at not
    have before : n < l.issued := Nat.lt_of_le_of_ne (Nat.le_of_lt_succ given) not.2
    rw [life_begin, if_neg (Nat.ne_of_gt before), List.append_nil]
    exact tracks.past n before not.1

theorem Tracks.use (tracks : l.Tracks alive) (now : alive n) : (l.use n).Tracks alive where
  known := tracks.known
  new m later := by
    -- a number that is alive has been given out
    have other : n ≠ m := Nat.ne_of_lt (Nat.lt_of_lt_of_le (tracks.known n now) later)
    rw [life_use, if_neg other, List.append_nil]
    exact tracks.new m later
  living m lives := by
    obtain ⟨uses, life⟩ := tracks.living m lives
    rw [life_use, life]
    split
    · exact ⟨uses + 1, by rw [List.replicate_succ', List.cons_append]⟩
    · exact ⟨uses, List.append_nil _⟩
  past m given not := by
    have other : n ≠ m := by
      rintro rfl
      exact not now
    rw [life_use, if_neg other, List.append_nil]
    exact tracks.past m given not

theorem Tracks.finish (tracks : l.Tracks alive) (now : alive n)
    (lives : ∀ m, alive' m ↔ alive m ∧ m ≠ n) : (l.finish n).Tracks alive' where
  known m later := tracks.known m ((lives m).mp later).1
  new m later := by
    have other : n ≠ m := Nat.ne_of_lt (Nat.lt_of_lt_of_le (tracks.known n now) later)
    rw [life_finish, if_neg other, List.append_nil]
    exact tracks.new m later
  living m later := by
    obtain ⟨before, other⟩ := (lives m).mp later
    rw [life_finish, if_neg other.symm, List.append_nil]
    exact tracks.living m before
  past m given not := by
    rw [life_finish]
    -- the life that ends is the one that is past from here on
    by_cases here : n = m
    · subst here
      obtain ⟨uses, life⟩ := tracks.living n now
      exact ⟨uses, by rw [life, if_pos rfl]⟩
    · rw [if_neg here, List.append_nil]
      exact tracks.past m given fun before => not ((lives m).mpr ⟨before, Ne.symm here⟩)

theorem Tracks.balanced (tracks : l.Tracks alive) (none : ∀ n, ¬alive n) : l.Balanced :=
  fun n given => tracks.past n given (none n)

end Ledger

end KopalniaOS.Library
