import Mathlib.Tactic

/-!
# Runs of a labelled transition relation

A system is a relation `step s a s'` between a state, the action taken and the
state after it. `Run step s as s'` says that the actions `as`, taken in order,
lead from `s` to `s'`; `Run.invariant` is the one induction over runs that the
safety results of this development use. A run whose steps all meet a side
condition is a run of the restricted relation `step.restrict guard`.
-/

namespace NexaCore.Misc

open List

universe u v

theorem exists_of_any {α : Type u} {o : Option α} {P : α → Prop} [DecidablePred P]
    (evaluated : o.any fun a => P a) : ∃ a, o = some a ∧ P a := by
  simpa only [Option.any_eq_true, decide_eq_true_eq] using evaluated

/-- A labelled transition relation on `σ` with actions `α`. -/
def Lts (σ : Type u) (α : Type v) : Type (max u v) := σ → α → σ → Prop

/-- The system whose actions are partial functions on the state: `none` says
that the action is not enabled. -/
def Lts.ofPartial {σ : Type u} {α : Type v} (next : σ → α → Option σ) : Lts σ α :=
  fun s a s' => next s a = some s'

/-- The system in which only the actions that meet `guard` in the state before
them are taken. -/
def Lts.restrict {σ : Type u} {α : Type v} (step : Lts σ α) (guard : σ → α → Prop) : Lts σ α :=
  fun s a s' => guard s a ∧ step s a s'

/-- `Run step s as s'`: the actions `as` lead from `s` to `s'`. -/
inductive Run {σ : Type u} {α : Type v} (step : Lts σ α) : σ → List α → σ → Prop
  | nil (s : σ) : Run step s [] s
  | snoc {s m s' : σ} {as : List α} {a : α} :
      Run step s as m → step m a s' → Run step s (as ++ [a]) s'

namespace Run

variable {σ : Type u} {α : Type v} {step : Lts σ α}

variable {s s' : σ} {a : α}

theorem single (h : step s a s') : Run step s [a] s' := by
  simpa using snoc (nil s) h

variable {as bs : List α}

theorem trans {m : σ} (first : Run step s as m) (last : Run step m bs s') :
    Run step s (as ++ bs) s' := by
  induction last with
  | nil => simpa using first
  | snoc _ hstep ih =>
    rw [← append_assoc]
    exact snoc ih hstep

theorem cons {s m s' : σ} {a : α} {as : List α} (hstep : step s a m) (rest : Run step m as s') :
    Run step s (a :: as) s' := by
  simpa using trans (single hstep) rest

/-- A run over two lists of actions passes through a state between them. -/
theorem split (run : Run step s (as ++ bs) s') : ∃ m, Run step s as m ∧ Run step m bs s' := by
  obtain ⟨cs, eq⟩ : ∃ cs, cs = as ++ bs := ⟨_, rfl⟩
  rw [← eq] at run
  induction run generalizing bs with
  | nil =>
    obtain ⟨rfl, rfl⟩ := List.append_eq_nil_iff.mp eq.symm
    exact ⟨s, nil s, nil s⟩
  | snoc earlier hstep ih =>
    rcases eq_nil_or_concat bs with rfl | ⟨bs, b, rfl⟩
    · rw [append_nil] at eq
      exact ⟨_, eq ▸ snoc earlier hstep, nil _⟩
    · rw [concat_eq_append, ← append_assoc] at eq
      obtain ⟨front, last⟩ := append_inj' eq rfl
      obtain ⟨m, first, second⟩ := ih front
      cases last
      exact ⟨m, first, concat_eq_append ▸ snoc second hstep⟩

theorem eq_of_nil (empty : as = []) (run : Run step s as s') : s' = s := by
  cases run with
  | nil => rfl
  | snoc => simp at empty

theorem uncons (run : Run step s (a :: as) s') : ∃ m, step s a m ∧ Run step m as s' := by
  obtain ⟨m, first, rest⟩ : ∃ m, Run step s [a] m ∧ Run step m as s' := split run
  obtain ⟨as, eq⟩ : ∃ as, as = [a] := ⟨_, rfl⟩
  rw [← eq] at first
  cases first with
  | nil => cases eq
  | snoc earlier hstep =>
    obtain ⟨front, last⟩ := append_inj' (eq.trans (nil_append [a]).symm) rfl
    cases last
    exact ⟨m, eq_of_nil front earlier ▸ hstep, rest⟩

/-- What holds initially and is kept by every step holds after every run. -/
theorem invariant (Inv : σ → Prop) (preserved : ∀ s a s', Inv s → step s a s' → Inv s')
    (run : Run step s as s') (initial : Inv s) : Inv s' := by
  induction run with
  | nil => exact initial
  | snoc _ hstep ih => exact preserved _ _ _ ih hstep

/-- What holds before a run and not after it is lost at one of its steps. -/
theorem exists_lost (P : σ → Prop) (run : Run step s as s') (before : P s) (after : ¬P s') :
    ∃ a ∈ as, ∃ m m', step m a m' ∧ P m ∧ ¬P m' := by
  induction run with
  | nil => exact absurd before after
  | @snoc m s' as a _ hstep ih =>
    by_cases kept : P m
    · exact ⟨a, by simp, m, s', hstep, kept, after⟩
    · obtain ⟨b, mem, lost⟩ := ih kept
      exact ⟨b, mem_append_left _ mem, lost⟩

/-- Executing the actions one after the other gives a run of what is executed. -/
theorem of_foldlM {next : σ → α → Option σ} {step : Lts σ α}
    (executes : ∀ s a s', next s a = some s' → step s a s')
    (executed : as.foldlM next s = some s') : Run step s as s' := by
  induction as generalizing s with
  | nil => cases executed; exact nil _
  | cons a as ih =>
    rw [foldlM_cons] at executed
    obtain ⟨m, first, rest⟩ := Option.bind_eq_some_iff.mp executed
    exact cons (executes s a m first) (ih rest)

theorem exists_of_any {next : σ → α → Option σ} {step : Lts σ α} {P : σ → Prop} [DecidablePred P]
    (executes : ∀ s a s', next s a = some s' → step s a s')
    (evaluated : (as.foldlM next s).any fun s' => P s') : ∃ s', Run step s as s' ∧ P s' := by
  obtain ⟨s', executed, holds⟩ := Misc.exists_of_any evaluated
  exact ⟨s', of_foldlM executes executed, holds⟩

end Run

/-- The execution of a partial function under a guard. -/
def guarded {σ : Type u} {α : Type v} (next : σ → α → Option σ) (guard : σ → α → Prop)
    [∀ s a, Decidable (guard s a)] (s : σ) (a : α) : Option σ :=
  if guard s a then next s a else none

theorem restrict_of_guarded {σ : Type u} {α : Type v} {next : σ → α → Option σ}
    {guard : σ → α → Prop} [∀ s a, Decidable (guard s a)] {s s' : σ} {a : α}
    (executed : guarded next guard s a = some s') : (Lts.ofPartial next).restrict guard s a s' := by
  unfold guarded at executed
  split at executed
  · exact ⟨‹_›, executed⟩
  · cases executed

end NexaCore.Misc
