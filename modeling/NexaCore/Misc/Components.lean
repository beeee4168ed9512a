import Mathlib.Data.List.Basic

/-!
# Systems of independent components

A system whose state has one component for each key. An action that belongs to a key acts on
that key's component alone; then what a whole list of actions makes of a component depends only
on the actions of its own key.
-/

namespace NexaCore.Misc

open List

universe u v w x

variable {σ : Type u} {α : Type v} {κ : Type w} {β : Type x} [DecidableEq κ]

/-- A step takes the component of the action's key as `next` does and leaves the others. -/
def ActsAtKey (view : σ → κ → β) (key : α → κ) (next : β → α → β) (step : σ → α → σ) : Prop :=
  ∀ s a k, view (step s a) k = if key a = k then next (view s k) a else view s k

variable {view : σ → κ → β} {key : α → κ} {next : β → α → β} {step : σ → α → σ}

theorem ActsAtKey.foldl (acts : ActsAtKey view key next step) (as : List α) (s : σ) (k : κ) :
    view (as.foldl step s) k = (as.filter (key · = k)).foldl next (view s k) := by
  induction as generalizing s with
  | nil => rfl
  | cons a as ih =>
    rw [foldl_cons, ih, acts s a k]
    by_cases own : key a = k
    · simp only [own, if_true, decide_true, filter_cons_of_pos, foldl_cons]
    · simp only [own, if_false, decide_false, Bool.false_eq_true, not_false_eq_true,
        filter_cons_of_neg]

theorem ActsAtKey.foldl_filter (acts : ActsAtKey view key next step) (as : List α) (s : σ) (k : κ) :
    view ((as.filter (key · = k)).foldl step s) k = view (as.foldl step s) k := by
  rw [acts.foldl, acts.foldl, filter_filter]
  simp only [Bool.and_self]

end NexaCore.Misc
