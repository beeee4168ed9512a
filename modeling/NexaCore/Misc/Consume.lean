import Mathlib.Tactic

/-!
# Loops that consume their input

A `Consumer` is the body of a loop together with what is left to do: a round that succeeds leaves
less than there was. `Consumer.loop` runs it to the end, and `loop_next` takes one round of it,
however many rounds are to come.
-/

namespace NexaCore.Misc

/-- The body of a loop and a measure that each of its rounds lowers. -/
structure Consumer (σ ε : Type) where
  left : σ → Nat
  step : σ → Except ε σ
  consumes : ∀ {s s'}, left s ≠ 0 → step s = .ok s' → left s' < left s

namespace Consumer

variable {σ ε : Type} (C : Consumer σ ε)

/-- At most so many rounds of the loop. -/
def rounds : Nat → σ → Except ε σ
  | 0, s => .ok s
  | count + 1, s =>
    if C.left s = 0 then .ok s
    else
      match C.step s with
      | .ok s' => rounds count s'
      | .error e => .error e

/-- The loop, until nothing is left. -/
def loop (s : σ) : Except ε σ :=
  C.rounds (C.left s) s

variable {C} {s s' : σ}

theorem rounds_of_le {m n : Nat} (first : C.left s ≤ m) (second : C.left s ≤ n) :
    C.rounds m s = C.rounds n s := by
  induction m generalizing n s with
  | zero =>
    have done : C.left s = 0 := Nat.le_zero.mp first
    cases n with
    | zero => rfl
    | succ n => rw [rounds, rounds, if_pos done]
  | succ m ih =>
    by_cases done : C.left s = 0
    · cases n with
      | zero => rw [rounds, rounds, if_pos done]
      | succ n => rw [rounds, rounds, if_pos done, if_pos done]
    · cases n with
      | zero => omega
      | succ n =>
        rw [rounds, rounds, if_neg done, if_neg done]
        cases stepped : C.step s with
        | error e => rfl
        | ok s' =>
          have less := C.consumes done stepped
          exact ih (by omega) (by omega)

theorem loop_done (done : C.left s = 0) : C.loop s = .ok s := by
  rw [loop, done, rounds]

theorem loop_next (going : C.left s ≠ 0) (stepped : C.step s = .ok s') : C.loop s = C.loop s' := by
  have less := C.consumes going stepped
  obtain ⟨n, left⟩ := Nat.exists_eq_succ_of_ne_zero going
  rw [loop, left, rounds, if_neg going, stepped, loop]
  exact rounds_of_le (by omega) (Nat.le_refl _)

theorem loop_invariant (Inv : σ → Prop) (kept : ∀ {s s'}, Inv s → C.step s = .ok s' → Inv s')
    (initial : Inv s) (ends : C.loop s = .ok s') : Inv s' := by
  have all : ∀ count s, Inv s → C.rounds count s = .ok s' → Inv s' := by
    intro count
    induction count with
    | zero =>
      intro s holds ends
      cases ends
      exact holds
    | succ count ih =>
      intro s holds ends
      rw [rounds] at ends
      split at ends
      · cases ends
        exact holds
      · cases stepped : C.step s with
        | error e => rw [stepped] at ends; cases ends
        | ok t =>
          rw [stepped] at ends
          exact ih t (kept holds stepped) ends
  exact all _ s initial ends

end Consumer

end NexaCore.Misc
