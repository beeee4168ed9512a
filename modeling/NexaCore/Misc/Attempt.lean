import Mathlib

/-!
# Calls that may fail and change a state

A call returns its result together with the state after it, also when it fails: an error
ends the caller early and keeps what was already changed.
-/

namespace NexaCore.Misc

variable {ε σ α β : Type}

/-- Goes on with `next` in the state after a call that succeeded; `?` in the source. -/
def andThen (call : Except ε α × σ) (next : α → σ → Except ε β × σ) : Except ε β × σ :=
  match call with
  | (.ok value, state) => next value state
  | (.error e, state) => (.error e, state)

@[simp] theorem andThen_ok (value : α) (state : σ) (next : α → σ → Except ε β × σ) :
    andThen (.ok value, state) next = next value state := rfl

@[simp] theorem andThen_error (e : ε) (state : σ) (next : α → σ → Except ε β × σ) :
    andThen (.error e, state) next = (.error e, state) := rfl

variable {call : Except ε α × σ} {next : α → σ → Except ε β × σ}

/-- What holds after the first call, and after the second where the first succeeded, holds
after both. -/
theorem andThen_state {P : σ → Prop} (first : P call.2)
    (second : ∀ value, call.1 = .ok value → P (next value call.2).2) :
    P (andThen call next).2 := by
  obtain ⟨_ | value, state⟩ := call
  · exact first
  · exact second value rfl

theorem andThen_keep (keeps : ∀ value state, (next value state).2 = state) :
    (andThen call next).2 = call.2 := by
  obtain ⟨_ | value, state⟩ := call
  · rfl
  · exact keeps value state

theorem of_andThen_ok {result : β} (success : (andThen call next).1 = .ok result) :
    ∃ value, call.1 = .ok value ∧ (next value call.2).1 = .ok result ∧
      (andThen call next).2 = (next value call.2).2 := by
  obtain ⟨_ | value, state⟩ := call
  · cases success
  · exact ⟨value, rfl, success, rfl⟩

end NexaCore.Misc
