import Mathlib.Tactic

/-!
# Rotations

A counter that steps through the `n` positions of a cycle. `rotation k m` lists the
`m` positions visited from `k` on; a full turn visits each position once, wherever
it starts.
-/

namespace NexaCore.Misc

open List Nat

variable {n : Nat} [NeZero n]

/-- The `m` positions visited from `k` on. -/
def rotation (k : Fin n) : Nat → List (Fin n)
  | 0 => []
  | m + 1 => k :: rotation (k + 1) m

@[simp] theorem length_rotation (k : Fin n) (m : Nat) : (rotation k m).length = m := by
  induction m generalizing k with
  | zero => rfl
  | succ m ih => simp [rotation, ih]

theorem rotation_add (k : Fin n) (a b : Nat) :
    rotation k (a + b) = rotation k a ++ rotation (k + Fin.ofNat n a) b := by
  induction a generalizing k with
  | zero => simp [rotation]
  | succ a ih =>
    have shift : k + 1 + Fin.ofNat n a = k + Fin.ofNat n (a + 1) := by
      apply Fin.ext
      simp only [Fin.val_add, Fin.val_ofNat, Fin.val_one', add_mod_mod, mod_add_mod]
      congr 1
      omega
    rw [add_right_comm, rotation, ih, shift]
    rfl

theorem rotation_eq_map (k : Fin n) (m : Nat) :
    rotation k m = (List.range m).map (fun i => k + Fin.ofNat n i) := by
  induction m with
  | zero => rfl
  | succ m ih =>
    rw [rotation_add, ih, range_succ, map_append]
    rfl

theorem nodup_rotation (k : Fin n) : (rotation k n).Nodup := by
  rw [rotation_eq_map]
  refine Nodup.map_on (fun i hi j hj eq => ?_) nodup_range
  have same := congrArg Fin.val (add_left_cancel eq)
  simp only [Fin.val_ofNat] at same
  rwa [mod_eq_of_lt (List.mem_range.mp hi), mod_eq_of_lt (List.mem_range.mp hj)] at same

theorem rotation_perm (k : Fin n) : (rotation k n).Perm (List.finRange n) := by
  have all : (rotation k n).toFinset = Finset.univ := by
    apply Finset.eq_univ_of_card
    rw [toFinset_card_of_nodup (nodup_rotation k), length_rotation, Fintype.card_fin]
  refine (perm_ext_iff_of_nodup (nodup_rotation k) (nodup_finRange n)).mpr fun p => ?_
  rw [← mem_toFinset, all]
  simp

theorem rotation_of_contiguous {k : Fin n} {m : Nat} {part : List (Fin n)}
    (contiguous : part <:+: rotation k m) : ∃ k', part = rotation k' part.length := by
  obtain ⟨before, after, eq⟩ := contiguous
  have lengths : m = before.length + (part.length + after.length) := by
    have := congrArg List.length eq
    simp only [length_append, length_rotation] at this
    omega
  rw [lengths, rotation_add, rotation_add, append_assoc] at eq
  have tail := (append_inj eq (by simp)).2
  exact ⟨_, (append_inj tail (by simp)).1⟩

end NexaCore.Misc
