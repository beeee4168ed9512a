import Mathlib.Tactic

/-!
# Disjoint regions of memory

Byte ranges that lie in a window and are apart from each other. Their order does not
matter; a range can be cut in two, dropped, or added beyond all the others.
-/

namespace NexaCore.Misc

open Function List

/-- The `size` bytes from `start` on. -/
structure Region where
  start : Nat
  size : Nat
  deriving DecidableEq, Repr

namespace Region

def stop (r : Region) : Nat := r.start + r.size

def Holds (r : Region) (address : Nat) : Prop := r.start ≤ address ∧ address < r.stop

/-- The regions have no byte in common because one ends before the other. -/
def Apart (r s : Region) : Prop := r.stop ≤ s.start ∨ s.stop ≤ r.start

theorem Apart.symm {r s : Region} (apart : r.Apart s) : s.Apart r := Or.symm apart

instance : Std.Symm Apart := ⟨fun _ _ => Apart.symm⟩

theorem Apart.not_holds {r s : Region} {address : Nat} (apart : r.Apart s)
    (here : r.Holds address) :
    ¬s.Holds address := by
  unfold Apart Holds at *
  omega

end Region

/-- The regions lie between `lower` and `upper` and are apart from each other. -/
structure Packed (lower upper : Nat) (regions : List Region) : Prop where
  inside : ∀ r ∈ regions, lower ≤ r.start ∧ r.stop ≤ upper
  apart : regions.Pairwise Region.Apart

namespace Packed

variable {lower upper upper' : Nat} {r : Region} {regions regions' : List Region}

theorem perm (packed : Packed lower upper regions) (same : regions.Perm regions') :
    Packed lower upper regions' :=
  ⟨fun r mem => packed.inside r (same.mem_iff.mpr mem),
    (same.pairwise_iff fun apart => apart.symm).mp packed.apart⟩

theorem tail (packed : Packed lower upper (r :: regions)) : Packed lower upper regions :=
  ⟨fun r mem => packed.inside r (.tail _ mem), (pairwise_cons.mp packed.apart).2⟩

theorem head_apart (packed : Packed lower upper (r :: regions)) {s : Region} (mem : s ∈ regions) :
    r.Apart s :=
  (pairwise_cons.mp packed.apart).1 s mem

theorem beyond (packed : Packed lower upper regions) (order : lower ≤ r.start)
    (above : upper ≤ r.start) (inside : r.stop ≤ upper') : Packed lower upper' (r :: regions) := by
  have start : r.start ≤ r.stop := Nat.le_add_right _ _
  refine ⟨fun s mem => ?_, pairwise_cons.mpr ⟨fun s mem => ?_, packed.apart⟩⟩
  · rcases mem_cons.mp mem with rfl | mem
    · exact ⟨order, inside⟩
    · obtain ⟨least, most⟩ := packed.inside s mem
      exact ⟨least, by omega⟩
  · obtain ⟨-, most⟩ := packed.inside s mem
    exact .inr (most.trans above)

theorem split {start first second : Nat}
    (packed : Packed lower upper (⟨start, first + second⟩ :: regions)) :
    Packed lower upper (⟨start, first⟩ :: ⟨start + first, second⟩ :: regions) := by
  obtain ⟨least, most⟩ := packed.inside _ (.head _)
  have others := fun s mem => packed.head_apart (s := s) mem
  simp only [Region.stop, Region.Apart] at *
  refine ⟨fun s mem => ?_, pairwise_cons.mpr ⟨fun s mem => ?_,
    pairwise_cons.mpr ⟨fun s mem => ?_, packed.tail.apart⟩⟩⟩
  · rcases mem_cons.mp mem with rfl | mem
    · simp only [Region.stop]
      omega
    · rcases mem_cons.mp mem with rfl | mem
      · simp only [Region.stop]
        omega
      · exact packed.tail.inside s mem
  · simp only [Region.Apart, Region.stop]
    rcases mem_cons.mp mem with rfl | mem
    · exact .inl le_rfl
    · have apart := others s mem
      omega
  · simp only [Region.Apart, Region.stop]
    have apart := others s mem
    omega

end Packed

/-- Adding an element to one of the lists of a family adds it to their concatenation. -/
theorem flatMap_update_perm {ι α : Type} [DecidableEq ι] {l : List ι} (distinct : l.Nodup) {i : ι}
    (mem : i ∈ l) (f : ι → List α) (x : α) :
    (l.flatMap (update f i (x :: f i))).Perm (x :: l.flatMap f) := by
  induction l with
  | nil => cases mem
  | cons j l ih =>
    obtain ⟨fresh, distinct⟩ := nodup_cons.mp distinct
    rw [flatMap_cons, flatMap_cons]
    rcases mem_cons.mp mem with rfl | mem
    · have same : l.flatMap (update f i (x :: f i)) = l.flatMap f := by
        rw [flatMap_def, flatMap_def]
        congr 1
        apply map_congr_left
        intro k there
        have other : k ≠ i := by
          rintro rfl
          exact fresh there
        exact update_of_ne other _ _
      rw [update_self, same]
      exact List.Perm.refl _
    · have other : j ≠ i := fun equal => fresh (equal ▸ mem)
      rw [update_of_ne other]
      exact ((ih distinct mem).append_left _).trans perm_middle

end NexaCore.Misc
