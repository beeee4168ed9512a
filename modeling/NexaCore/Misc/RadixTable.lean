import Mathlib

/-!
# Radix trees of tables in a flat memory

A memory maps a frame and an index to a word. A word of a table at some level is `absent`, a
`leaf` that says where it sends an address, or the frame of a `table` one level below; a walk
follows the words that an address selects. `Separated` says that the tables of a tree are pairwise
distinct. `Descent` and `Mapped` say what one step down the tree and a whole insertion may do;
`Mapped.lift` puts them together one level higher.
-/

namespace NexaCore.Misc

open Set

/-- What a word of a table means, for frames `F`, addresses `V` and results `P`. -/
inductive Slot (F V P : Type) where
  | absent
  | leaf (reach : V → P)
  | table (frame : F)

/-- Where a slot that links no table sends an address. -/
def Slot.reach {F V P : Type} : Slot F V P → V → Option P
  | .leaf reach, v => some (reach v)
  | _, _ => none

/-- How the words of each level are read, and which index an address selects there.
Level `0` is the lowest. -/
structure RadixLayout (F I W V P : Type) where
  decode : Nat → W → Slot F V P
  index : Nat → V → I

namespace RadixLayout

variable {F I W V P : Type} (L : RadixLayout F I W V P)

/-- The result of the walk for `v` from the table `f` of the given level. -/
def walk (mem : F → I → W) : Nat → F → V → Option P
  | 0, f, v =>
      match L.decode 0 (mem f (L.index 0 v)) with
      | .leaf reach => some (reach v)
      | _ => none
  | level + 1, f, v =>
      match L.decode (level + 1) (mem f (L.index (level + 1) v)) with
      | .absent => none
      | .leaf reach => some (reach v)
      | .table g => walk mem level g v

/-- The tables of the tree below `f`, with `f`. -/
def tables (mem : F → I → W) : Nat → F → Set F
  | 0, f => {f}
  | level + 1, f =>
      {h | h = f ∨ ∃ i g, L.decode (level + 1) (mem f i) = .table g ∧ h ∈ tables mem level g}

/-- Distinct places of the tree below `f` hold distinct tables. -/
def Separated (mem : F → I → W) : Nat → F → Prop
  | 0, _ => True
  | level + 1, f =>
      (∀ i g, L.decode (level + 1) (mem f i) = .table g →
        Separated mem level g ∧ f ∉ L.tables mem level g) ∧
      ∀ i j g h, i ≠ j → L.decode (level + 1) (mem f i) = .table g →
        L.decode (level + 1) (mem f j) = .table h →
        Disjoint (L.tables mem level g) (L.tables mem level h)

/-- The table that a path of indices leads to. -/
def tableAt (mem : F → I → W) : Nat → F → List I → Option F
  | _, f, [] => some f
  | 0, _, _ :: _ => none
  | level + 1, f, i :: path =>
      match L.decode (level + 1) (mem f i) with
      | .table g => tableAt mem level g path
      | _ => none

/-- Two addresses select the same word of every table up to `level`. -/
def SamePage (level : Nat) (v w : V) : Prop := ∀ k ≤ level, L.index k v = L.index k w

variable {L} {mem mem' mem₁ mem₂ : F → I → W} {level : Nat} {f g h : F} {i j : I} {v w : V}

theorem samePage_succ (same : L.index (level + 1) v = L.index (level + 1) w) :
    L.SamePage (level + 1) v w ↔ L.SamePage level v w := by
  constructor
  · intro page k bound
    exact page k (Nat.le_succ_of_le bound)
  · intro page k bound
    rcases Nat.le_succ_iff.mp bound with below | rfl
    · exact page k below
    · exact same

theorem mem_tables_self (level : Nat) : f ∈ L.tables mem level f := by
  cases level with
  | zero => rfl
  | succ level => exact .inl rfl

theorem tables_child (slot : L.decode (level + 1) (mem f i) = .table g) :
    L.tables mem level g ⊆ L.tables mem (level + 1) f :=
  fun _ inside => .inr ⟨i, g, slot, inside⟩

theorem tableAt_nil : L.tableAt mem level f [] = some f := by
  cases level <;> rfl

theorem tableAt_cons {path : List I} :
    L.tableAt mem (level + 1) f (i :: path) = some h ↔
      ∃ g, L.decode (level + 1) (mem f i) = .table g ∧ L.tableAt mem level g path = some h := by
  rw [tableAt]
  cases L.decode (level + 1) (mem f i) <;> simp

theorem mem_tables_iff :
    h ∈ L.tables mem level f ↔ ∃ path, L.tableAt mem level f path = some h := by
  induction level generalizing f with
  | zero =>
    constructor
    · intro same
      exact ⟨[], by rw [tableAt_nil, mem_singleton_iff.mp same]⟩
    · rintro ⟨_ | ⟨i, path⟩, found⟩
      · cases found
        rfl
      · cases found
  | succ level ih =>
    constructor
    · rintro (rfl | ⟨i, g, slot, inside⟩)
      · exact ⟨[], tableAt_nil⟩
      · obtain ⟨path, found⟩ := ih.mp inside
        exact ⟨i :: path, tableAt_cons.mpr ⟨g, slot, found⟩⟩
    · rintro ⟨_ | ⟨i, path⟩, found⟩
      · cases found
        exact .inl rfl
      · obtain ⟨g, slot, found⟩ := tableAt_cons.mp found
        exact .inr ⟨i, g, slot, ih.mpr ⟨path, found⟩⟩

/-- A tree is separated exactly if distinct paths lead to distinct tables. -/
theorem separated_iff : L.Separated mem level f ↔
    ∀ p q h, L.tableAt mem level f p = some h → L.tableAt mem level f q = some h → p = q := by
  induction level generalizing f with
  | zero =>
    refine iff_of_true trivial fun p q h atP atQ => ?_
    rcases p with _ | ⟨i, p⟩
    · rcases q with _ | ⟨j, q⟩
      · rfl
      · cases atQ
    · cases atP
  | succ level ih =>
    constructor
    · rintro ⟨below, apart⟩ p q h atP atQ
      rcases p with _ | ⟨i, p⟩ <;> rcases q with _ | ⟨j, q⟩
      · rfl
      · cases atP
        obtain ⟨g, slot, found⟩ := tableAt_cons.mp atQ
        exact absurd (mem_tables_iff.mpr ⟨q, found⟩) (below j g slot).2
      · cases atQ
        obtain ⟨g, slot, found⟩ := tableAt_cons.mp atP
        exact absurd (mem_tables_iff.mpr ⟨p, found⟩) (below i g slot).2
      · obtain ⟨g, slotP, foundP⟩ := tableAt_cons.mp atP
        obtain ⟨g', slotQ, foundQ⟩ := tableAt_cons.mp atQ
        by_cases same : i = j
        · subst same
          rw [slotP] at slotQ
          cases slotQ
          rw [ih.mp (below i g slotP).1 p q h foundP foundQ]
        · have disjoint := apart i j g g' same slotP slotQ
          exact absurd (mem_tables_iff.mpr ⟨q, foundQ⟩)
            (disjoint_left.mp disjoint (mem_tables_iff.mpr ⟨p, foundP⟩))
    · intro injective
      refine ⟨fun i g slot => ⟨ih.mpr fun p q h atP atQ => ?_, fun inside => ?_⟩,
        fun i j g h other slotI slotJ => disjoint_left.mpr fun x inI inJ => other ?_⟩
      · have eq := injective (i :: p) (i :: q) h (tableAt_cons.mpr ⟨g, slot, atP⟩)
          (tableAt_cons.mpr ⟨g, slot, atQ⟩)
        exact List.tail_eq_of_cons_eq eq
      · obtain ⟨path, found⟩ := mem_tables_iff.mp inside
        have eq := injective [] (i :: path) f tableAt_nil (tableAt_cons.mpr ⟨g, slot, found⟩)
        cases eq
      · obtain ⟨p, atP⟩ := mem_tables_iff.mp inI
        obtain ⟨q, atQ⟩ := mem_tables_iff.mp inJ
        have eq := injective (i :: p) (j :: q) x (tableAt_cons.mpr ⟨g, slotI, atP⟩)
          (tableAt_cons.mpr ⟨h, slotJ, atQ⟩)
        exact List.head_eq_of_cons_eq eq

section

variable (agree : ∀ x ∈ L.tables mem level f, mem' x = mem x)

include agree

/-- The tree below `f` only depends on the words of its tables. -/
theorem tableAt_congr (path : List I) :
    L.tableAt mem' level f path = L.tableAt mem level f path := by
  induction level generalizing f path with
  | zero => cases path <;> rfl
  | succ level ih =>
    cases path with
    | nil => rfl
    | cons i path =>
      simp only [tableAt, agree f (mem_tables_self _)]
      cases slot : L.decode (level + 1) (mem f i) with
      | absent | leaf => rfl
      | table g => exact ih (fun x inside => agree x (tables_child slot inside)) path

theorem tables_congr : L.tables mem' level f = L.tables mem level f := by
  ext x
  simp only [mem_tables_iff, tableAt_congr agree]

theorem separated_congr (separated : L.Separated mem level f) : L.Separated mem' level f := by
  rw [separated_iff] at separated ⊢
  simpa only [tableAt_congr agree] using separated

theorem walk_congr (v : V) : L.walk mem' level f v = L.walk mem level f v := by
  induction level generalizing f with
  | zero => simp only [walk, agree f rfl]
  | succ level ih =>
    simp only [walk, agree f (mem_tables_self _)]
    cases slot : L.decode (level + 1) (mem f (L.index (level + 1) v)) with
    | absent | leaf => rfl
    | table g => exact ih fun x inside => agree x (tables_child slot inside)

end

theorem walk_of_table (slot : L.decode (level + 1) (mem f (L.index (level + 1) v)) = .table g) :
    L.walk mem (level + 1) f v = L.walk mem level g v := by
  rw [walk, slot]

/-- `mem'` differs from `mem` below `f` only in the entry `i`, which holds the table
`g` of a separated tree that shares no table with the rest. -/
structure Graft (L : RadixLayout F I W V P) (mem mem' : F → I → W) (level : Nat) (f : F) (i : I)
    (g : F) : Prop where
  slot : L.decode (level + 1) (mem' f i) = .table g
  others : ∀ j, j ≠ i → mem' f j = mem f j
  kept : ∀ j h, j ≠ i → L.decode (level + 1) (mem f j) = .table h →
    ∀ x ∈ L.tables mem level h, mem' x = mem x
  separated : L.Separated mem' level g
  root_apart : f ∉ L.tables mem' level g
  apart : ∀ j h, j ≠ i → L.decode (level + 1) (mem f j) = .table h →
    Disjoint (L.tables mem' level g) (L.tables mem level h)

namespace Graft

variable (graft : Graft L mem mem' level f i g)

include graft

theorem separated_root (separated : L.Separated mem (level + 1) f) :
    L.Separated mem' (level + 1) f := by
  obtain ⟨below, apart⟩ := separated
  -- an entry of `mem'` is the grafted one or an old one, whose tree is unchanged
  have other : ∀ j h, j ≠ i → L.decode (level + 1) (mem' f j) = .table h →
      L.decode (level + 1) (mem f j) = .table h ∧
        L.tables mem' level h = L.tables mem level h := by
    intro j h ne slot
    rw [graft.others j ne] at slot
    exact ⟨slot, tables_congr (graft.kept j h ne slot)⟩
  constructor
  · intro j h slot
    by_cases same : j = i
    · subst same
      obtain rfl : g = h := by simpa [graft.slot] using slot
      exact ⟨graft.separated, graft.root_apart⟩
    · obtain ⟨old, tables⟩ := other j h same slot
      rw [tables]
      exact ⟨separated_congr (graft.kept j h same old) (below j h old).1, (below j h old).2⟩
  · intro j k h h' ne slotJ slotK
    by_cases sameJ : j = i
    · subst sameJ
      obtain rfl : g = h := by simpa [graft.slot] using slotJ
      obtain ⟨old, tables⟩ := other k h' (Ne.symm ne) slotK
      rw [tables]
      exact graft.apart k h' (Ne.symm ne) old
    · obtain ⟨oldJ, tablesJ⟩ := other j h sameJ slotJ
      rw [tablesJ]
      by_cases sameK : k = i
      · subst sameK
        obtain rfl : g = h' := by simpa [graft.slot] using slotK
        exact (graft.apart j h sameJ oldJ).symm
      · obtain ⟨oldK, tablesK⟩ := other k h' sameK slotK
        rw [tablesK]
        exact apart j k h h' ne oldJ oldK

theorem mem_tables {x : F} (inside : x ∈ L.tables mem' (level + 1) f) :
    x = f ∨ x ∈ L.tables mem' level g ∨
      ∃ j h, j ≠ i ∧ L.decode (level + 1) (mem f j) = .table h ∧ x ∈ L.tables mem level h := by
  rcases inside with rfl | ⟨j, h, slot, inside⟩
  · exact .inl rfl
  · by_cases same : j = i
    · subst same
      obtain rfl : g = h := by simpa [graft.slot] using slot
      exact .inr (.inl inside)
    · rw [graft.others j same] at slot
      rw [tables_congr (graft.kept j h same slot)] at inside
      exact .inr (.inr ⟨j, h, same, slot, inside⟩)

theorem walk_inside (selected : L.index (level + 1) w = i) :
    L.walk mem' (level + 1) f w = L.walk mem' level g w :=
  walk_of_table (selected ▸ graft.slot)

theorem walk_outside (selected : L.index (level + 1) w ≠ i) :
    L.walk mem' (level + 1) f w = L.walk mem (level + 1) f w := by
  simp only [walk, graft.others _ selected]
  cases slot : L.decode (level + 1) (mem f (L.index (level + 1) w)) with
  | absent | leaf => rfl
  | table h => exact walk_congr (graft.kept _ h selected slot) w

end Graft

/-- One step down the tree of `f` for the address `v`: afterwards the entry of `v`
holds a table `g`, new or old, whose tree sends the addresses below that entry
where they went before. The last alternative is a step that has cleared the word
of `v` in the lowest table. -/
structure Descent (L : RadixLayout F I W V P) (mem : F → I → W) (free : Set F) (level : Nat)
    (f : F) (v : V) (mem' : F → I → W) (free' : Set F) (g : F) : Prop where
  slot : L.decode (level + 1) (mem' f (L.index (level + 1) v)) = .table g
  others : ∀ j, j ≠ L.index (level + 1) v → mem' f j = mem f j
  frame : ∀ x, x ≠ f → x ∉ free → mem' x = mem x
  free_subset : free' ⊆ free
  separated : L.Separated mem' level g
  tables : ∀ x ∈ L.tables mem' level g, x ∉ free' ∧
    (x ∈ free ∨ ∃ h, L.decode (level + 1) (mem f (L.index (level + 1) v)) = .table h ∧
      x ∈ L.tables mem level h)
  walk : ∀ w, L.index (level + 1) w = L.index (level + 1) v → ¬ L.SamePage level v w →
    L.walk mem' level g w = L.walk mem (level + 1) f w
  page : (∀ w, L.index (level + 1) w = L.index (level + 1) v →
      L.walk mem' level g w = L.walk mem (level + 1) f w) ∨
    (level = 0 ∧ L.decode 0 (mem' g (L.index 0 v)) = .absent)

/-- What an insertion of `target` for the page of `v` below `f` may do, where `done`
says whether it succeeds: it writes only tables of the tree and free frames,
keeps the tree separated and its tables in use, and redirects the page of `v`
and nothing else. -/
structure Mapped (L : RadixLayout F I W V P) (mem : F → I → W) (free : Set F) (level : Nat)
    (f : F) (v : V) (target : V → P) (done : Bool) (mem' : F → I → W) (free' : Set F) : Prop where
  frame : ∀ x, x ∉ L.tables mem level f → x ∉ free → mem' x = mem x
  free_subset : free' ⊆ free
  separated : L.Separated mem' level f
  tables : ∀ x ∈ L.tables mem' level f, x ∉ free' ∧ (x ∈ L.tables mem level f ∨ x ∈ free)
  outside : ∀ w, ¬ L.SamePage level v w → L.walk mem' level f w = L.walk mem level f w
  inside : done = true → ∀ w, L.SamePage level v w → L.walk mem' level f w = some (target w)
  failed : done = false → ∀ w, L.walk mem' level f w = L.walk mem level f w
  cleared : level = 0 → L.decode 0 (mem f (L.index 0 v)) = .absent → done = true

variable {free free' free₁ free₂ : Set F} {target : V → P} {done : Bool}

theorem Mapped.refused (separated : L.Separated mem level f)
    (reserved : ∀ x ∈ L.tables mem level f, x ∉ free)
    (present : level = 0 → L.decode 0 (mem f (L.index 0 v)) ≠ .absent) :
    Mapped L mem free level f v target false mem free where
  frame := fun _ _ _ => rfl
  free_subset := subset_rfl
  separated := separated
  tables := fun x inside => ⟨reserved x inside, .inl inside⟩
  outside := fun _ _ => rfl
  inside := nofun
  failed := fun _ _ => rfl
  cleared := fun lowest absent => absurd absent (present lowest)

/-- A frame that is neither a table nor free does not become a table. -/
theorem Mapped.not_mem_tables (mapped : Mapped L mem free level f v target done mem' free') {x : F}
    (noTable : x ∉ L.tables mem level f) (notFree : x ∉ free) : x ∉ L.tables mem' level f := by
  intro inside
  rcases (mapped.tables x inside).2 with old | new
  · exact noTable old
  · exact notFree new

section Lift

variable (separated : L.Separated mem (level + 1) f)
  (reserved : ∀ x ∈ L.tables mem (level + 1) f, x ∉ free)
  (descent : Descent L mem free level f v mem₁ free₁ g)

include separated reserved descent

/-- The tree of the table stepped to does not hold the one stepped from. -/
theorem Descent.root_apart : f ∉ L.tables mem₁ level g := by
  intro inside
  rcases (descent.tables f inside).2 with isFree | ⟨h, slot, below⟩
  · exact reserved f (mem_tables_self _) isFree
  · exact (separated.1 _ h slot).2 below

theorem Descent.apart (other : j ≠ L.index (level + 1) v)
    (slot : L.decode (level + 1) (mem f j) = .table h) {x : F} (inside : x ∈ L.tables mem level h) :
    x ∉ L.tables mem₁ level g := by
  intro below
  rcases (descent.tables x below).2 with isFree | ⟨h', slot', below'⟩
  · exact reserved x (tables_child slot inside) isFree
  · exact disjoint_left.mp (separated.2 _ _ _ _ other slot slot') inside below'

theorem Descent.sibling_kept (slot : L.decode (level + 1) (mem f j) = .table h) {x : F}
    (inside : x ∈ L.tables mem level h) : mem₁ x = mem x := by
  refine descent.frame x ?_ (reserved x (tables_child slot inside))
  rintro rfl
  exact (separated.1 j h slot).2 inside

theorem Descent.graft (mapped : Mapped L mem₁ free₁ level g v target done mem₂ free₂) :
    Graft L mem mem₂ level f (L.index (level + 1) v) g := by
  have root : mem₂ f = mem₁ f :=
    mapped.frame f (descent.root_apart separated reserved)
      fun isFree => reserved f (mem_tables_self _) (descent.free_subset isFree)
  refine ⟨?_, ?_, ?_, mapped.separated, ?_, ?_⟩
  · rw [root]
    exact descent.slot
  · intro j other
    rw [root]
    exact descent.others j other
  · intro j h other slot x inside
    have notFree := reserved x (tables_child slot inside)
    rw [mapped.frame x (descent.apart separated reserved other slot inside)
      fun isFree => notFree (descent.free_subset isFree)]
    exact descent.sibling_kept separated reserved slot inside
  · intro inside
    rcases (mapped.tables f inside).2 with below | isFree
    · exact descent.root_apart separated reserved below
    · exact reserved f (mem_tables_self _) (descent.free_subset isFree)
  · intro j h other slot
    refine disjoint_left.mpr fun x below inside => ?_
    rcases (mapped.tables x below).2 with before | isFree
    · exact descent.apart separated reserved other slot inside before
    · exact reserved x (tables_child slot inside) (descent.free_subset isFree)

/-- An insertion below the table stepped to is an insertion below the one stepped from. -/
theorem Mapped.lift (mapped : Mapped L mem₁ free₁ level g v target done mem₂ free₂) :
    Mapped L mem free (level + 1) f v target done mem₂ free₂ := by
  have graft := descent.graft separated reserved mapped
  -- the tables below the entry of `v` before the step, or free frames
  have origin : ∀ x ∈ L.tables mem₁ level g, x ∈ L.tables mem (level + 1) f ∨ x ∈ free := by
    intro x inside
    rcases (descent.tables x inside).2 with isFree | ⟨h, slot, below⟩
    · exact .inr isFree
    · exact .inl (tables_child slot below)
  refine ⟨?_, mapped.free_subset.trans descent.free_subset, graft.separated_root separated, ?_, ?_,
    ?_, ?_, nofun⟩
  · intro x outside notFree
    have notBelow : x ∉ L.tables mem₁ level g := by
      intro below
      rcases origin x below with before | isFree
      · exact outside before
      · exact notFree isFree
    rw [mapped.frame x notBelow fun isFree => notFree (descent.free_subset isFree)]
    refine descent.frame x ?_ notFree
    rintro rfl
    exact outside (mem_tables_self _)
  · intro x inside
    rcases graft.mem_tables inside with rfl | below | ⟨j, h, other, slot, inside⟩
    · have notFree := reserved x (mem_tables_self _)
      exact ⟨fun isFree => notFree (descent.free_subset (mapped.free_subset isFree)),
        .inl (mem_tables_self _)⟩
    · obtain ⟨notFree, before | isFree⟩ := mapped.tables x below
      · exact ⟨notFree, origin x before⟩
      · exact ⟨notFree, .inr (descent.free_subset isFree)⟩
    · have notFree := reserved x (tables_child slot inside)
      exact ⟨fun isFree => notFree (descent.free_subset (mapped.free_subset isFree)),
        .inl (tables_child slot inside)⟩
  · intro w otherPage
    by_cases selected : L.index (level + 1) w = L.index (level + 1) v
    · have apart : ¬ L.SamePage level v w :=
        fun page => otherPage ((samePage_succ selected.symm).mpr page)
      rw [graft.walk_inside selected, mapped.outside w apart, descent.walk w selected apart]
    · exact graft.walk_outside selected
  · intro success w page
    have selected : L.index (level + 1) w = L.index (level + 1) v := (page _ le_rfl).symm
    rw [graft.walk_inside selected]
    exact mapped.inside success w ((samePage_succ selected.symm).mp page)
  · intro failure w
    by_cases selected : L.index (level + 1) w = L.index (level + 1) v
    · rw [graft.walk_inside selected, mapped.failed failure w]
      rcases descent.page with kept | ⟨lowest, absent⟩
      · exact kept w selected
      · subst lowest
        rw [mapped.cleared rfl absent] at failure
        cases failure
    · exact graft.walk_outside selected

end Lift

/-- The step to a table that is there already, whose entry may be rewritten. -/
theorem Descent.of_table (separated : L.Separated mem (level + 1) f)
    (reserved : ∀ x ∈ L.tables mem (level + 1) f, x ∉ free)
    (old : L.decode (level + 1) (mem f (L.index (level + 1) v)) = .table g)
    (slot : L.decode (level + 1) (mem' f (L.index (level + 1) v)) = .table g)
    (others : ∀ j, j ≠ L.index (level + 1) v → mem' f j = mem f j)
    (frame : ∀ x, x ≠ f → mem' x = mem x) : Descent L mem free level f v mem' free g := by
  obtain ⟨below, apart⟩ := separated.1 _ g old
  have agree : ∀ x ∈ L.tables mem level g, mem' x = mem x := by
    intro x inside
    apply frame
    rintro rfl
    exact apart inside
  have walks : ∀ w, L.index (level + 1) w = L.index (level + 1) v →
      L.walk mem' level g w = L.walk mem (level + 1) f w := by
    intro w selected
    rw [walk_of_table (selected ▸ old), walk_congr agree]
  refine ⟨slot, others, fun x other _ => frame x other, subset_rfl, separated_congr agree below, ?_,
    fun w selected _ => walks w selected, .inl walks⟩
  intro x inside
  rw [tables_congr agree] at inside
  exact ⟨reserved x (tables_child old inside), .inr ⟨g, old, inside⟩⟩

/-- A table without entries for further tables. -/
def Flat (L : RadixLayout F I W V P) (mem : F → I → W) (level : Nat) (f : F) : Prop :=
  ∀ j h, L.decode level (mem f j) ≠ .table h

theorem Flat.tables_eq (flat : Flat L mem level f) : L.tables mem level f = {f} := by
  cases level with
  | zero => rfl
  | succ level =>
    ext x
    constructor
    · rintro (rfl | ⟨i, g, slot, -⟩)
      · rfl
      · exact absurd slot (flat i g)
    · rintro rfl
      exact .inl rfl

theorem Flat.separated (flat : Flat L mem level f) : L.Separated mem level f := by
  cases level with
  | zero => trivial
  | succ level =>
    exact ⟨fun i g slot => absurd slot (flat i g), fun i _ g _ _ slot => absurd slot (flat i g)⟩

theorem walk_of_absent (slot : L.decode level (mem f (L.index level v)) = .absent) :
    L.walk mem level f v = none := by
  cases level <;> rw [walk, slot]

theorem walk_of_leaf {reach : V → P}
    (slot : L.decode level (mem f (L.index level v)) = .leaf reach) :
    L.walk mem level f v = some (reach v) := by
  cases level <;> rw [walk, slot]

theorem walk_of_not_table (slot : ∀ h, L.decode level (mem f (L.index level v)) ≠ .table h) :
    L.walk mem level f v = (L.decode level (mem f (L.index level v))).reach v := by
  cases found : L.decode level (mem f (L.index level v)) with
  | absent => exact walk_of_absent found
  | leaf reach => exact walk_of_leaf found
  | table h => exact absurd found (slot h)

/-- The step from an entry that links no table to a new table that was built in a free frame.
If it is a lowest one, the word of `v` may be clear. -/
theorem Descent.of_fresh (wasFree : g ∈ free) (taken : g ∉ free') (fewer : free' ⊆ free)
    (slot : L.decode (level + 1) (mem' f (L.index (level + 1) v)) = .table g)
    (others : ∀ j, j ≠ L.index (level + 1) v → mem' f j = mem f j)
    (frame : ∀ x, x ≠ f → x ≠ g → mem' x = mem x) (flat : Flat L mem' level g)
    (old : ∀ h, L.decode (level + 1) (mem f (L.index (level + 1) v)) ≠ .table h)
    (reach : ∀ w, L.index (level + 1) w = L.index (level + 1) v →
      (L.decode level (mem' g (L.index level w))).reach w =
          (L.decode (level + 1) (mem f (L.index (level + 1) v))).reach w ∨
        (level = 0 ∧ L.index 0 w = L.index 0 v ∧ L.decode 0 (mem' g (L.index 0 v)) = .absent)) :
    Descent L mem free level f v mem' free' g := by
  have walks : ∀ w, L.index (level + 1) w = L.index (level + 1) v →
      L.walk mem' level g w = L.walk mem (level + 1) f w ∨
        (level = 0 ∧ L.index 0 w = L.index 0 v ∧ L.decode 0 (mem' g (L.index 0 v)) = .absent) := by
    intro w selected
    rw [walk_of_not_table (flat _), walk_of_not_table (by rwa [selected]), selected]
    exact reach w selected
  refine ⟨slot, others, fun x other notFree => frame x other ?_, fewer, flat.separated, ?_,
    fun w selected apart => (walks w selected).resolve_right ?_, ?_⟩
  · rintro rfl
    exact notFree wasFree
  · intro x inside
    rw [flat.tables_eq] at inside
    obtain rfl := mem_singleton_iff.mp inside
    exact ⟨taken, .inl wasFree⟩
  · rintro ⟨rfl, same, -⟩
    refine apart fun k bound => ?_
    rw [Nat.le_zero.mp bound, same]
  · by_cases cleared : level = 0 ∧ L.decode 0 (mem' g (L.index 0 v)) = .absent
    · exact .inr cleared
    · exact .inl fun w selected => (walks w selected).resolve_right
        fun ⟨lowest, _, absent⟩ => cleared ⟨lowest, absent⟩

theorem Mapped.leaf (notFree : f ∉ free)
    (slot : L.decode 0 (mem' f (L.index 0 v)) = .leaf target)
    (others : ∀ j, j ≠ L.index 0 v → mem' f j = mem f j)
    (frame : ∀ x, x ≠ f → mem' x = mem x) : Mapped L mem free 0 f v target true mem' free := by
  have samePage : ∀ w, L.SamePage 0 v w ↔ L.index 0 v = L.index 0 w := by
    intro w
    constructor
    · intro page
      exact page 0 le_rfl
    · intro same k bound
      rw [Nat.le_zero.mp bound]
      exact same
  refine ⟨fun x outside _ => frame x outside, subset_rfl, trivial, ?_, ?_, ?_, nofun,
    fun _ _ => rfl⟩
  · intro x inside
    obtain rfl := mem_singleton_iff.mp inside
    exact ⟨notFree, .inl rfl⟩
  · intro w otherPage
    have other : L.index 0 w ≠ L.index 0 v := fun same => otherPage ((samePage w).mpr same.symm)
    simp only [walk, others _ other]
  · intro _ w page
    exact walk_of_leaf ((samePage w).mp page ▸ slot)

end RadixLayout

end NexaCore.Misc
