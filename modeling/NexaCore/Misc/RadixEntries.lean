import NexaCore.Misc.RadixGrowth

/-!
# The entries of the lowest tables

The layout `L.entries` has the tables of `L`, but its walk returns the word of the lowest
table instead of what the word stands for. An insertion that builds tables and splits no
leaf (`Descent.entries`) is an insertion for both layouts.
-/

namespace NexaCore.Misc

/-- The slot with the word itself as the leaf; leaves above the lowest level are left out. -/
def Slot.entry {F V P W : Type} (level : Nat) (word : W) : Slot F V P → Slot F V W
  | .absent => .absent
  | .leaf _ => if level = 0 then .leaf fun _ => word else .absent
  | .table g => .table g

namespace RadixLayout

variable {F I W V P : Type} {L : RadixLayout F I W V P} {mem mem' mem₁ : F → I → W}
  {level : Nat} {f g : F} {v : V}

/-- The layout whose leaves are the words of the lowest tables. -/
def entries (L : RadixLayout F I W V P) : RadixLayout F I W V W where
  decode level word := (L.decode level word).entry level word
  index := L.index

theorem entries_decode_table_iff {word : W} :
    L.entries.decode level word = .table g ↔ L.decode level word = .table g := by
  simp only [entries]
  cases L.decode level word with
  | absent => simp [Slot.entry]
  | leaf reach => by_cases lowest : level = 0 <;> simp [Slot.entry, lowest]
  | table h => simp [Slot.entry]

theorem entries_decode_absent {word : W} (absent : L.decode level word = .absent) :
    L.entries.decode level word = .absent := by
  simp only [entries, absent, Slot.entry]

theorem tables_entries : L.entries.tables mem level f = L.tables mem level f := by
  induction level generalizing f with
  | zero => rfl
  | succ level ih => simp only [tables, entries_decode_table_iff, ih]

theorem separated_entries : L.entries.Separated mem level f ↔ L.Separated mem level f := by
  induction level generalizing f with
  | zero => rfl
  | succ level ih => simp only [Separated, entries_decode_table_iff, tables_entries, ih]

theorem walk_entries_eq_none (unmapped : L.walk mem level f v = none) :
    L.entries.walk mem level f v = none := by
  induction level generalizing f with
  | zero =>
    cases slot : L.decode 0 (mem f (L.index 0 v)) with
    | absent => exact walk_of_absent (entries_decode_absent slot)
    | leaf reach =>
      rw [walk_of_leaf slot] at unmapped
      cases unmapped
    | table g =>
      have table : L.entries.decode 0 (mem f (L.entries.index 0 v)) = .table g :=
        entries_decode_table_iff.mpr slot
      simp only [walk, table]
  | succ level ih =>
    cases slot : L.decode (level + 1) (mem f (L.index (level + 1) v)) with
    | absent => exact walk_of_absent (entries_decode_absent slot)
    | leaf reach =>
      rw [walk_of_leaf slot] at unmapped
      cases unmapped
    | table g =>
      rw [walk_of_table slot] at unmapped
      rw [walk_of_table (entries_decode_table_iff.mpr slot)]
      exact ih unmapped

/-- The walk for the entries only depends on the words of the tables. -/
theorem walk_entries_congr (agree : ∀ x ∈ L.tables mem level f, mem' x = mem x) (v : V) :
    L.entries.walk mem' level f v = L.entries.walk mem level f v := by
  apply walk_congr
  rwa [tables_entries]

/-- A step down that finds a table or builds an empty one keeps the entries. -/
theorem Descent.entries {free free₁ : Set F} (separated : L.Separated mem (level + 1) f)
    (reserved : ∀ x ∈ L.tables mem (level + 1) f, x ∉ free)
    (descent : Descent L mem free level f v mem₁ free₁ g)
    (step : L.decode (level + 1) (mem f (L.index (level + 1) v)) = .table g ∨
      L.decode (level + 1) (mem f (L.index (level + 1) v)) = .absent ∧
        ∀ i, L.decode level (mem₁ g i) = .absent) :
    Descent L.entries mem free level f v mem₁ free₁ g := by
  have walks : ∀ w, L.index (level + 1) w = L.index (level + 1) v →
      L.entries.walk mem₁ level g w = L.entries.walk mem (level + 1) f w := by
    intro w selected
    rcases step with old | ⟨absent, empty⟩
    · have slot : L.entries.decode (level + 1) (mem f (L.index (level + 1) w)) = .table g :=
        entries_decode_table_iff.mpr (selected ▸ old)
      rw [walk_of_table slot]
      exact walk_entries_congr
        (fun x inside => descent.sibling_kept separated reserved old inside) w
    · have slot : L.decode (level + 1) (mem f (L.index (level + 1) w)) = .absent :=
        selected ▸ absent
      rw [walk_of_absent (entries_decode_absent slot),
        walk_of_absent (entries_decode_absent (empty _))]
  refine ⟨entries_decode_table_iff.mpr descent.slot, descent.others, descent.frame,
    descent.free_subset, separated_entries.mpr descent.separated, ?_,
    fun w selected _ => walks w selected, .inl walks⟩
  intro x inside
  rw [tables_entries] at inside
  obtain ⟨taken, origin⟩ := descent.tables x inside
  refine ⟨taken, origin.imp_right ?_⟩
  rintro ⟨h, slot, below⟩
  exact ⟨h, entries_decode_table_iff.mpr slot, by rwa [tables_entries]⟩

end RadixLayout

end NexaCore.Misc
