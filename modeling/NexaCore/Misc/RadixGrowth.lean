import NexaCore.Misc.RadixTable
import Mathlib.Data.Set.Card

/-!
# Counting the tables of a radix tree

How many frames an insertion takes: one for each table on the way to its page that is
missing. `Grown` says so for the tree below a table, and `Grown.of_old` and
`Grown.of_fresh` carry it one level up.
-/

namespace NexaCore.Misc.RadixLayout

open Finset Option

variable {F I W V P : Type} {L : RadixLayout F I W V P} {mem mem' mem₁ mem₂ : F → I → W}
  {level : Nat} {f g : F} {v : V}

theorem tableAt_of_table {i : I} {path : List I}
    (slot : L.decode (level + 1) (mem f i) = .table g) :
    L.tableAt mem (level + 1) f (i :: path) = L.tableAt mem level g path := by
  rw [tableAt, slot]

theorem tableAt_of_not_table {i : I} {path : List I}
    (slot : ∀ g, L.decode (level + 1) (mem f i) ≠ .table g) :
    L.tableAt mem (level + 1) f (i :: path) = none := by
  rw [tableAt]
  cases entry : L.decode (level + 1) (mem f i) with
  | absent | leaf => rfl
  | table g => exact absurd entry (slot g)

/-- The path to the lowest table for `v`. -/
def path (L : RadixLayout F I W V P) : Nat → V → List I
  | 0, _ => []
  | level + 1, v => L.index (level + 1) v :: path L level v

/-- The walk for `v` does not end above the lowest level: it finds nothing, or it passes
all the tables on its way. -/
def Deep (L : RadixLayout F I W V P) (mem : F → I → W) (level : Nat) (f : F) (v : V) : Prop :=
  L.walk mem level f v = none ∨ (L.tableAt mem level f (L.path level v)).isSome

theorem Deep.not_leaf (deep : L.Deep mem (level + 1) f v) (reach : V → P) :
    L.decode (level + 1) (mem f (L.index (level + 1) v)) ≠ .leaf reach := by
  intro slot
  rcases deep with unmapped | passed
  · rw [walk_of_leaf slot] at unmapped
    cases unmapped
  · rw [path, tableAt_of_not_table (by simp [slot])] at passed
    cases passed

theorem Deep.below (deep : L.Deep mem (level + 1) f v)
    (slot : L.decode (level + 1) (mem f (L.index (level + 1) v)) = .table g) :
    L.Deep mem level g v := by
  rwa [Deep, walk_of_table slot, path, tableAt_of_table slot] at deep

theorem Deep.congr (agree : ∀ x ∈ L.tables mem level f, mem' x = mem x)
    (deep : L.Deep mem level f v) : L.Deep mem' level f v := by
  rwa [Deep, walk_congr agree, tableAt_congr agree]

variable [DecidableEq I]

/-- The paths to the tables on the way to the page of `v`. -/
def spine (L : RadixLayout F I W V P) : Nat → V → Finset (List I)
  | 0, _ => {[]}
  | level + 1, v => insert [] ((spine L level v).image (L.index (level + 1) v :: ·))

/-- The paths of `paths` that lead to no table. -/
def missing (L : RadixLayout F I W V P) (mem : F → I → W) (level : Nat) (f : F)
    (paths : Finset (List I)) : Finset (List I) :=
  paths.filter fun path => (L.tableAt mem level f path).isNone

theorem nil_mem_spine (level : Nat) (v : V) : [] ∈ L.spine level v := by
  cases level <;> simp [spine]

theorem cons_mem_spine {i : I} {path : List I} :
    i :: path ∈ L.spine (level + 1) v ↔ i = L.index (level + 1) v ∧ path ∈ L.spine level v := by
  simp only [spine, mem_insert, mem_image, reduceCtorEq, false_or, List.cons.injEq]
  constructor
  · rintro ⟨rest, inside, rfl, rfl⟩
    exact ⟨rfl, inside⟩
  · rintro ⟨rfl, inside⟩
    exact ⟨path, inside, rfl, rfl⟩

theorem path_mem_spine (level : Nat) (v : V) : L.path level v ∈ L.spine level v := by
  induction level with
  | zero => exact nil_mem_spine 0 v
  | succ level ih => exact cons_mem_spine.mpr ⟨rfl, ih⟩

theorem card_spine (level : Nat) (v : V) : (L.spine level v).card = level + 1 := by
  induction level with
  | zero => rfl
  | succ level ih =>
    rw [spine, card_insert_of_notMem (by simp), card_image_of_injective _ (List.cons_injective), ih]

/-- The root is never missing; the others are missing below the entry of `v`. -/
theorem card_missing_succ :
    (L.missing mem (level + 1) f (L.spine (level + 1) v)).card =
      ((L.spine level v).filter fun path =>
        (L.tableAt mem (level + 1) f (L.index (level + 1) v :: path)).isNone).card := by
  have image : L.missing mem (level + 1) f (L.spine (level + 1) v) =
      ((L.spine level v).filter fun path =>
        (L.tableAt mem (level + 1) f (L.index (level + 1) v :: path)).isNone).image
          (L.index (level + 1) v :: ·) := by
    ext path
    cases path with
    | nil => simp [missing, tableAt_nil]
    | cons i path =>
      simp only [missing, mem_filter, cons_mem_spine, mem_image, List.cons.injEq]
      constructor
      · rintro ⟨⟨rfl, inside⟩, absent⟩
        exact ⟨path, ⟨inside, absent⟩, rfl, rfl⟩
      · rintro ⟨rest, ⟨inside, absent⟩, rfl, rfl⟩
        exact ⟨⟨rfl, inside⟩, absent⟩
  rw [image, card_image_of_injective _ List.cons_injective]

theorem card_missing_of_not_table
    (slot : ∀ g, L.decode (level + 1) (mem f (L.index (level + 1) v)) ≠ .table g) :
    (L.missing mem (level + 1) f (L.spine (level + 1) v)).card = level + 1 := by
  rw [card_missing_succ]
  simp only [tableAt_of_not_table slot, isNone_none, filter_true]
  exact card_spine level v

/-- The tables that are missing for `P` and `S` are those missing for `P` and, once these
are there, those missing for `S`. -/
theorem card_missing_union {P S : Finset (List I)}
    (paths : ∀ path, (L.tableAt mem' level f path).isSome ↔
      (L.tableAt mem level f path).isSome ∨ path ∈ P) :
    (L.missing mem level f (P ∪ S)).card =
      (L.missing mem level f P).card + (L.missing mem' level f S).card := by
  have absent : ∀ path, (L.tableAt mem' level f path).isNone ↔
      (L.tableAt mem level f path).isNone ∧ path ∉ P := by
    intro path
    rw [← not_isSome, ← not_isSome]
    simp only [Bool.not_eq_true', ← Bool.not_eq_true, paths, not_or]
  have split : L.missing mem level f (P ∪ S) =
      L.missing mem level f P ∪ L.missing mem' level f S := by
    ext path
    simp only [missing, mem_filter, mem_union, absent]
    tauto
  have apart : Disjoint (L.missing mem level f P) (L.missing mem' level f S) := by
    rw [disjoint_left]
    intro path early late
    exact ((absent path).mp (Finset.mem_filter.mp late).2).2 (Finset.mem_filter.mp early).1
  rw [split, card_union_of_disjoint apart]

/-- An insertion for `v` below `f` succeeds if the page is not mapped and a frame is left
for each missing table. It then has added these tables and taken as many frames. -/
structure Grown (L : RadixLayout F I W V P) (mem : F → I → W) (free : Set F) (level : Nat) (f : F)
    (v : V) (done : Bool) (mem' : F → I → W) (free' : Set F) : Prop where
  done_iff : done = true ↔ (L.missing mem level f (L.spine level v)).card ≤ free.ncard ∧
    L.walk mem level f v = none
  paths : done = true → ∀ path, (L.tableAt mem' level f path).isSome ↔
    (L.tableAt mem level f path).isSome ∨ path ∈ L.spine level v
  count : done = true →
    free'.ncard + (L.missing mem level f (L.spine level v)).card = free.ncard

variable {free free₁ free₂ : Set F} {target : V → P} {done : Bool}

/-- An insertion that finds no free frame for the first table that is missing. -/
theorem Grown.refused (empty : free = ∅)
    (slot : ∀ g, L.decode (level + 1) (mem f (L.index (level + 1) v)) ≠ .table g) :
    Grown L mem free (level + 1) f v false mem free := by
  refine ⟨iff_of_false (by simp) fun ⟨enough, _⟩ => ?_, nofun, nofun⟩
  rw [card_missing_of_not_table slot, empty, Set.ncard_empty] at enough
  exact absurd enough (by simp)

theorem Graft.tableAt_iff (graft : Graft L mem mem₂ level f (L.index (level + 1) v) g)
    (below : ∀ path, (L.tableAt mem₂ level g path).isSome ↔
      (L.tableAt mem (level + 1) f (L.index (level + 1) v :: path)).isSome ∨
        path ∈ L.spine level v) (path : List I) :
    (L.tableAt mem₂ (level + 1) f path).isSome ↔
      (L.tableAt mem (level + 1) f path).isSome ∨ path ∈ L.spine (level + 1) v := by
  cases path with
  | nil => simp [tableAt_nil]
  | cons i path =>
    rw [cons_mem_spine]
    by_cases here : i = L.index (level + 1) v
    · subst here
      rw [tableAt_of_table graft.slot, below]
      simp
    · have same : L.tableAt mem₂ (level + 1) f (i :: path) =
          L.tableAt mem (level + 1) f (i :: path) := by
        simp only [tableAt, graft.others i here]
        cases slot : L.decode (level + 1) (mem f i) with
        | absent | leaf => rfl
        | table h => exact tableAt_congr (graft.kept i h here slot) path
      simp [same, here]

section Lift

variable (separated : L.Separated mem (level + 1) f)
  (reserved : ∀ x ∈ L.tables mem (level + 1) f, x ∉ free)
  (descent : Descent L mem free level f v mem₁ free₁ g)
  (mapped : Mapped L mem₁ free₁ level g v target done mem₂ free₂)
  (grown : Grown L mem₁ free₁ level g v done mem₂ free₂)

include separated reserved descent mapped grown

theorem Grown.of_old (slot : L.decode (level + 1) (mem f (L.index (level + 1) v)) = .table g)
    (same : free₁ = free) : Grown L mem free (level + 1) f v done mem₂ free₂ := by
  have agree : ∀ x ∈ L.tables mem level g, mem₁ x = mem x :=
    fun x inside => descent.sibling_kept separated reserved slot inside
  have walks : L.walk mem₁ level g v = L.walk mem (level + 1) f v := by
    rw [walk_congr agree, walk_of_table slot]
  have card : (L.missing mem₁ level g (L.spine level v)).card =
      (L.missing mem (level + 1) f (L.spine (level + 1) v)).card := by
    rw [card_missing_succ]
    simp only [missing, tableAt_congr agree, tableAt_of_table slot]
  subst same
  obtain ⟨doneIff, paths, count⟩ := grown
  rw [card] at doneIff count
  refine ⟨walks ▸ doneIff, fun success => ?_, count⟩
  refine (descent.graft separated reserved mapped).tableAt_iff fun path => ?_
  rw [paths success, tableAt_congr agree, tableAt_of_table slot]

theorem Grown.of_fresh (finite : free.Finite)
    (slot : L.decode (level + 1) (mem f (L.index (level + 1) v)) = .absent) (wasFree : g ∈ free)
    (fewer : free₁ = free \ {g}) (empty : ∀ i, L.decode level (mem₁ g i) = .absent) :
    Grown L mem free (level + 1) f v done mem₂ free₂ := by
  have noTable : ∀ h, L.decode (level + 1) (mem f (L.index (level + 1) v)) ≠ .table h := by
    simp [slot]
  have onlyRoot : ∀ path, (L.tableAt mem₁ level g path).isSome ↔ path = [] := by
    intro path
    cases path with
    | nil => simp [tableAt_nil]
    | cons i path =>
      cases level with
      | zero => simp [tableAt]
      | succ level => simp [tableAt, empty i]
  have below : (L.missing mem₁ level g (L.spine level v)).card = level := by
    cases level with
    | zero =>
      rw [card_eq_zero, missing, filter_eq_empty_iff]
      simp [spine, tableAt_nil]
    | succ level => exact card_missing_of_not_table fun h => by simp [empty]
  have taken : free₁.ncard + 1 = free.ncard := by
    rw [fewer]
    exact Set.ncard_sdiff_singleton_add_one wasFree finite
  obtain ⟨doneIff, paths, count⟩ := grown
  rw [below] at doneIff count
  refine ⟨?_, fun success => ?_, fun success => ?_⟩
  · rw [doneIff, card_missing_of_not_table noTable, walk_of_absent slot,
      walk_of_absent (empty _), ← taken]
    simp
  · refine (descent.graft separated reserved mapped).tableAt_iff fun path => ?_
    rw [paths success, onlyRoot, tableAt_of_not_table noTable]
    simp only [isSome_none, Bool.false_eq_true, false_or, or_iff_right_iff_imp]
    rintro rfl
    exact nil_mem_spine level v
  · rw [card_missing_of_not_table noTable, ← taken, ← count success]
    omega

end Lift

end NexaCore.Misc.RadixLayout
