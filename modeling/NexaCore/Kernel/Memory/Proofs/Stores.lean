import NexaCore.Kernel.Memory.Paging
import Mathlib.Data.Set.Basic

/-!
# What is stored to

The stores that lead from one memory to another, and which of them stay in given
tables and frames.
-/

namespace NexaCore.Memory

namespace Store

def Within (s : Store) (f : Nat) : Prop :=
  f * frameBytes ≤ s.addr ∧ s.addr + s.len ≤ (f + 1) * frameBytes

/-- The store is to an entry of the table in the frame `t`. -/
def EntryOf (s : Store) (t : Nat) : Prop := ∃ idx : Fin 512, s = ⟨t * frameBytes + 8 * idx, 8⟩

/-- The store is to an entry of one of `tables`, or lies in one of `frames`. -/
def Permitted (tables frames : Set Nat) (s : Store) : Prop :=
  (∃ t ∈ tables, s.EntryOf t) ∨ ∃ f ∈ frames, s.Within f

variable {s : Store} {tables tables' frames frames' : Set Nat}

theorem EntryOf.within {t : Nat} (entry : s.EntryOf t) : s.Within t := by
  obtain ⟨idx, rfl⟩ := entry
  have bound := idx.isLt
  simp only [Within, frameBytes]
  omega

theorem Permitted.mono (permitted : s.Permitted tables frames)
    (tablesKept : tables ⊆ tables' ∪ frames') (framesKept : frames ⊆ frames') :
    s.Permitted tables' frames' := by
  rcases permitted with ⟨t, listed, entry⟩ | ⟨f, owned, within⟩
  · rcases tablesKept listed with old | new
    · exact .inl ⟨t, old, entry⟩
    · exact .inr ⟨t, new, entry.within⟩
  · exact .inr ⟨f, framesKept owned, within⟩

end Store

namespace PhysMem

/-- The stores made between `mem` and `mem'` all satisfy `P`. -/
def Writes (mem mem' : PhysMem) (P : Store → Prop) : Prop :=
  ∃ stores, mem'.stores = stores ++ mem.stores ∧ ∀ s ∈ stores, P s

variable {mem mem' mem'' : PhysMem} {P Q : Store → Prop}

theorem Writes.refl (mem : PhysMem) (P : Store → Prop) : mem.Writes mem P := ⟨[], rfl, nofun⟩

theorem Writes.mono (writes : mem.Writes mem' P) (weaker : ∀ s, P s → Q s) : mem.Writes mem' Q := by
  obtain ⟨stores, log, satisfied⟩ := writes
  exact ⟨stores, log, fun s made => weaker s (satisfied s made)⟩

theorem Writes.trans (first : mem.Writes mem' P) (second : mem'.Writes mem'' P) :
    mem.Writes mem'' P := by
  obtain ⟨early, log, satisfied⟩ := first
  obtain ⟨late, log', satisfied'⟩ := second
  refine ⟨late ++ early, by rw [log', log, List.append_assoc], fun s made => ?_⟩
  rcases List.mem_append.mp made with isLate | isEarly
  · exact satisfied' s isLate
  · exact satisfied s isEarly

theorem Writes.of_cons {s : Store} (log : mem'.stores = s :: mem.stores) (satisfied : P s) :
    mem.Writes mem' P :=
  ⟨[s], log, by simpa using satisfied⟩

theorem writes_setEntry (mem : PhysMem) {table : Nat} (aligned : table % 2 ^ 12 = 0) (idx : Fin 512)
    (value : Nat) : mem.Writes (mem.setEntry table idx value) (·.EntryOf (table / frameBytes)) := by
  have whole : table / frameBytes * frameBytes = table :=
    Nat.div_mul_cancel (Nat.dvd_of_mod_eq_zero aligned)
  exact Writes.of_cons rfl ⟨idx, by rw [whole]⟩

theorem writes_zeroTable (mem : PhysMem) {table : Nat} (aligned : table % 2 ^ 12 = 0) :
    mem.Writes (mem.zeroTable table) (·.Within (table / frameBytes)) := by
  apply Writes.of_cons rfl
  simp only [Store.Within, frameBytes] at *
  omega

theorem writes_fillTable (mem : PhysMem) {table : Nat} (aligned : table % 2 ^ 12 = 0)
    (child : Fin 512 → Option Nat) :
    mem.Writes (mem.fillTable table child) (·.Within (table / frameBytes)) := by
  unfold fillTable
  induction List.finRange 512 generalizing mem with
  | nil => exact Writes.refl mem _
  | cons k ks ih =>
    refine Writes.trans ?_ (ih (fillEntry table child mem k))
    unfold fillEntry
    cases child k with
    | none => exact Writes.refl mem _
    | some value => exact (mem.writes_setEntry aligned k value).mono fun _ entry => entry.within

end PhysMem

end NexaCore.Memory
