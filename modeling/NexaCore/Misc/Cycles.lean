import Mathlib

/-!
# Cycles of a finite relation
-/

namespace NexaCore.Misc

open Relation

variable {α : Type} {r : α → α → Prop}

/-- The element lies on a cycle or leads to one. -/
def ReachesCycle (r : α → α → Prop) (a : α) : Prop :=
  ∃ c, ReflTransGen r a c ∧ TransGen r c c

/-- In a finite set in which every element has a successor, every element leads to a cycle. -/
theorem reachesCycle_of_serial {s : Finset α} (serial : ∀ a ∈ s, ∃ b ∈ s, r a b) {a : α}
    (mem : a ∈ s) : ReachesCycle r a := by
  by_contra none
  -- what is reached from `a` inside `s`; without a cycle there it is well-founded
  let reached := { x : s // ReflTransGen r a x }
  let beyond : reached → reached → Prop := fun x y => TransGen r y.1.1 x.1.1
  have : IsTrans reached beyond := ⟨fun _ _ _ first second => second.trans first⟩
  have : Std.Irrefl beyond := ⟨fun x cycle => none ⟨x.1.1, x.2, cycle⟩⟩
  have founded : WellFounded beyond := Finite.wellFounded_of_trans_of_irrefl beyond
  obtain ⟨m, -, minimal⟩ := founded.has_min Set.univ ⟨⟨⟨a, mem⟩, .refl⟩, trivial⟩
  obtain ⟨b, inside, edge⟩ := serial m.1.1 m.1.2
  exact minimal ⟨⟨b, inside⟩, m.2.tail edge⟩ trivial (.single edge)

/-- Where each step stays inside and goes down, no cycle is reached. -/
theorem not_reachesCycle (inside : α → Prop) (rank : α → Nat)
    (down : ∀ a b, inside a → r a b → inside b ∧ rank b < rank a) {a : α} (start : inside a) :
    ¬ReachesCycle r a := by
  rintro ⟨c, path, cycle⟩
  have there : inside c := by
    clear cycle
    induction path with
    | refl => exact start
    | tail _ edge ih => exact (down _ _ ih edge).1
  have lower : ∀ d, TransGen r c d → inside d ∧ rank d < rank c := by
    intro d walk
    induction walk with
    | single edge => exact down _ _ there edge
    | tail _ edge ih =>
      obtain ⟨next, less⟩ := down _ _ ih.1 edge
      exact ⟨next, less.trans ih.2⟩
  exact Nat.lt_irrefl _ (lower c cycle).2

end NexaCore.Misc
