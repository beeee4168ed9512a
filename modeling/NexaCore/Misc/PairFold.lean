import Mathlib

/-!
# Folding a list pairwise

A list is folded level by level: neighbours are joined by a binary operation, a last
element without a neighbour is joined with itself, until one element is left. Folding with
the constructor of a tree gives the tree that every other folding evaluates (`foldToRoot_map`).
The sibling path of an index leads from that element to the root (`climb_siblingPath`), and
where the operation does not collide no other path of that length does (`climb_unique`).
-/

namespace NexaCore.Misc

open List

variable {α β : Type}

/-- One level: neighbours are joined, an odd last element with itself. -/
def foldPairs (node : α → α → α) : List α → List α
  | [] => []
  | [x] => [node x x]
  | x :: y :: rest => node x y :: foldPairs node rest

/-- The pairs that are joined at one level. -/
def levelPairs : List α → List (α × α)
  | [] => []
  | [x] => [(x, x)]
  | x :: y :: rest => (x, y) :: levelPairs rest

/-- Levels are folded while more than one element is left. -/
def foldToRoot (node : α → α → α) : Nat → List α → List α
  | 0, level => level
  | fuel + 1, level =>
      if 1 < level.length then foldToRoot node fuel (foldPairs node level) else level

variable (node : α → α → α)

@[simp] theorem length_foldPairs (level : List α) :
    (foldPairs node level).length = (level.length + 1) / 2 := by
  fun_induction foldPairs node level with
  | case1 => simp
  | case2 x => simp
  | case3 x y rest ih =>
    simp only [length_cons, ih]
    omega

variable {node' : β → β → β} {f : β → α}

theorem foldPairs_map (hom : ∀ x y, f (node' x y) = node (f x) (f y)) (level : List β) :
    foldPairs node (level.map f) = (foldPairs node' level).map f := by
  fun_induction foldPairs node' level with
  | case1 => rfl
  | case2 x => simp only [map_cons, map_nil, foldPairs, hom]
  | case3 x y rest ih => simp only [map_cons, foldPairs, hom, ih]

theorem foldToRoot_map (hom : ∀ x y, f (node' x y) = node (f x) (f y)) (fuel : Nat)
    (level : List β) :
    foldToRoot node fuel (level.map f) = (foldToRoot node' fuel level).map f := by
  induction fuel generalizing level with
  | zero => rfl
  | succ fuel ih =>
    rw [foldToRoot, foldToRoot, length_map]
    split
    · rw [foldPairs_map node hom, ih]
    · rfl

variable {fuel : Nat} {level : List α}

theorem length_foldToRoot (nonempty : level ≠ []) (enough : level.length ≤ fuel) :
    (foldToRoot node fuel level).length = 1 := by
  induction fuel generalizing level with
  | zero => exact absurd (length_eq_zero_iff.mp (Nat.le_zero.mp enough)) nonempty
  | succ fuel ih =>
    have positive := length_pos_iff.mpr nonempty
    rw [foldToRoot]
    split
    · refine ih (fun empty => ?_) ?_
      · have none := congrArg length empty
        rw [length_foldPairs, length_nil] at none
        omega
      · rw [length_foldPairs]
        omega
    · omega

theorem exists_foldToRoot (nonempty : level ≠ []) :
    ∃ root, foldToRoot node level.length level = [root] :=
  length_eq_one_iff.mp (length_foldToRoot node nonempty le_rfl)

theorem foldPairs_eq_map (level : List α) :
    foldPairs node level = (levelPairs level).map fun p => node p.1 p.2 := by
  fun_induction foldPairs node level with
  | case1 => rfl
  | case2 x => rfl
  | case3 x y rest ih => rw [ih, levelPairs, map_cons]

/-- A pair joins two elements of the level, or the last with itself. -/
theorem getElem?_levelPairs (level : List α) (i : Nat) :
    (levelPairs level)[i]? = level[2 * i]?.map fun left => (left, level[2 * i + 1]?.getD left) := by
  fun_induction levelPairs level generalizing i with
  | case1 => simp
  | case2 x => cases i <;> simp
  | case3 x y rest ih =>
    cases i with
    | zero => rfl
    | succ i =>
      have next : 2 * (i + 1) = 2 * i + 1 + 1 := by omega
      rw [getElem?_cons_succ, ih, next]
      simp only [getElem?_cons_succ]

theorem foldToRoot_induction {P : List α → Prop}
    (step : ∀ level, P (foldPairs node level) → P level) (fuel : Nat) (level : List α)
    (root : P (foldToRoot node fuel level)) : P level := by
  induction fuel generalizing level with
  | zero => exact root
  | succ fuel ih =>
    rw [foldToRoot] at root
    split at root
    · exact step level (ih _ root)
    · exact root

/-! ## Sibling paths -/

/-- The neighbour that the element `idx` of a level is joined with. -/
def sibling (level : List α) (idx : Nat) (self : α) : α :=
  level[if idx % 2 = 0 then idx + 1 else idx - 1]?.getD self

/-- The neighbours of the element `idx` of a level and of those above it, up to the root;
`fallback` stands for an element outside of the level. -/
def siblingPath (node : α → α → α) (fallback : α) : Nat → Nat → List α → List α
  | 0, _, _ => []
  | fuel + 1, idx, level =>
      if 1 < level.length then
        sibling level idx (level[idx]?.getD fallback) ::
          siblingPath node fallback fuel (idx / 2) (foldPairs node level)
      else []

/-- The element that a path of neighbours leads to. -/
def climb (node : α → α → α) : α → Nat → List α → α
  | x, _, [] => x
  | x, idx, s :: path => climb node (if idx % 2 = 0 then node x s else node s x) (idx / 2) path

variable {node}

variable {idx : Nat} {x : α}

theorem getElem?_levelPairs_half (found : level[idx]? = some x) :
    (levelPairs level)[idx / 2]? = some (if idx % 2 = 0 then (x, sibling level idx x)
      else (sibling level idx x, x)) := by
  rw [getElem?_levelPairs, sibling]
  by_cases even : idx % 2 = 0
  · have double : 2 * (idx / 2) = idx := by omega
    rw [double, found, if_pos even, if_pos even]
    rfl
  · have left : 2 * (idx / 2) = idx - 1 := by omega
    have right : idx - 1 + 1 = idx := by omega
    have bound := (List.getElem?_eq_some_iff.mp found).1
    have before : level[idx - 1]? = some (level.get ⟨idx - 1, by omega⟩) :=
      List.getElem?_eq_getElem (by omega)
    rw [left, right, found, if_neg even, if_neg even, before]
    rfl

theorem node_ite (idx : Nat) (x s : α) :
    (if idx % 2 = 0 then node x s else node s x) =
      (fun p : α × α => node p.1 p.2) (if idx % 2 = 0 then (x, s) else (s, x)) := by
  split <;> rfl

theorem getElem?_parent (found : level[idx]? = some x) :
    (foldPairs node level)[idx / 2]? = some (if idx % 2 = 0 then node x (sibling level idx x)
      else node (sibling level idx x) x) := by
  rw [foldPairs_eq_map, getElem?_map, getElem?_levelPairs_half found, node_ite]
  rfl

theorem climb_siblingPath (node : α → α → α) (fallback : α) (enough : level.length ≤ fuel)
    (found : level[idx]? = some x) :
    foldToRoot node fuel level = [climb node x idx (siblingPath node fallback fuel idx level)] := by
  induction fuel generalizing idx level x with
  | zero =>
    have bound := (List.getElem?_eq_some_iff.mp found).1
    omega
  | succ fuel ih =>
    have bound := (List.getElem?_eq_some_iff.mp found).1
    rw [foldToRoot, siblingPath]
    split
    · rw [found, Option.getD_some, climb]
      refine ih ?_ (getElem?_parent found)
      rw [length_foldPairs]
      omega
    · obtain ⟨only, rfl⟩ := length_eq_one_iff.mp (show level.length = 1 by omega)
      obtain rfl : idx = 0 := by simpa using bound
      cases found
      rfl

/-! ## Paths that reach the root -/

/-- The pairs that are joined on the way from a level to the root. -/
def treePairs (node : α → α → α) : Nat → List α → List (α × α)
  | 0, _ => []
  | fuel + 1, level =>
      if 1 < level.length then
        levelPairs level ++ treePairs node fuel (foldPairs node level)
      else []

/-- The pairs that are joined along a path. -/
def climbPairs (node : α → α → α) : α → Nat → List α → List (α × α)
  | _, _, [] => []
  | x, idx, s :: path =>
      (if idx % 2 = 0 then (x, s) else (s, x)) ::
        climbPairs node (if idx % 2 = 0 then node x s else node s x) (idx / 2) path

variable {y : α}

theorem ite_pair_inj {s t : α}
    (same : (if idx % 2 = 0 then (x, s) else (s, x)) = if idx % 2 = 0 then (y, t) else (t, y)) :
    x = y ∧ s = t := by
  split at same
  · exact ⟨congrArg Prod.fst same, congrArg Prod.snd same⟩
  · exact ⟨congrArg Prod.snd same, congrArg Prod.fst same⟩

/-- Where no two of the joined pairs give the same element, a path of the right length that
leads to the root starts at the element and is its sibling path. -/
theorem climb_unique (fallback : α) {pairs : Set (α × α)}
    (collisionFree : pairs.InjOn fun p => node p.1 p.2) {path : List α}
    (enough : level.length ≤ fuel) (found : level[idx]? = some x)
    (tree : ∀ p ∈ treePairs node fuel level, p ∈ pairs)
    (climbed : ∀ p ∈ climbPairs node y idx path, p ∈ pairs)
    (length : path.length = (siblingPath node fallback fuel idx level).length)
    (reached : foldToRoot node fuel level = [climb node y idx path]) :
    y = x ∧ path = siblingPath node fallback fuel idx level := by
  induction fuel generalizing idx level path x y with
  | zero =>
    have bound := (List.getElem?_eq_some_iff.mp found).1
    omega
  | succ fuel ih =>
    have bound := (List.getElem?_eq_some_iff.mp found).1
    rw [foldToRoot] at reached
    rw [siblingPath] at length ⊢
    rw [treePairs] at tree
    by_cases more : 1 < level.length
    · rw [if_pos more] at reached length tree ⊢
      obtain ⟨s, rest, rfl⟩ := exists_cons_of_length_eq_add_one length
      rw [found, Option.getD_some]
      have shorter : (foldPairs node level).length ≤ fuel := by
        rw [length_foldPairs]
        omega
      rw [climb] at reached
      rw [climbPairs] at climbed
      obtain ⟨parent, tail⟩ := ih shorter (getElem?_parent found)
        (fun p joined => tree p (mem_append_right _ joined))
        (fun p joined => climbed p (.tail _ joined))
        (Nat.succ.inj length) reached
      -- The parents are the same element, so the same pair was joined.
      rw [node_ite, node_ite] at parent
      obtain ⟨start, neighbour⟩ := ite_pair_inj (collisionFree (climbed _ (.head _))
        (tree _ (mem_append_left _ (mem_of_getElem? (getElem?_levelPairs_half found)))) parent)
      exact ⟨start, by rw [neighbour, tail]⟩
    · rw [if_neg more] at reached length ⊢
      obtain rfl := length_eq_zero_iff.mp length
      obtain ⟨only, rfl⟩ := length_eq_one_iff.mp (show level.length = 1 by omega)
      obtain rfl : idx = 0 := by simpa using bound
      cases found
      exact ⟨(singleton_inj.mp reached).symm, rfl⟩

/-! ## The tree of a folding -/

/-- A binary tree with values at its leaves. -/
inductive LeafTree (β : Type) where
  | leaf (value : β)
  | node (left right : LeafTree β)
deriving DecidableEq, Repr

namespace LeafTree

/-- The element a tree stands for. -/
def eval (leaf : β → α) (node : α → α → α) : LeafTree β → α
  | .leaf value => leaf value
  | .node left right => node (left.eval leaf node) (right.eval leaf node)

def leaves : LeafTree β → List β
  | .leaf value => [value]
  | .node left right => left.leaves ++ right.leaves

/-- What evaluating a tree applies `leaf` and `node` to. -/
def inputs (leaf : β → α) (node : α → α → α) : LeafTree β → List (β ⊕ α × α)
  | .leaf value => [.inl value]
  | .node left right =>
      .inr (left.eval leaf node, right.eval leaf node) ::
        (left.inputs leaf node ++ right.inputs leaf node)

variable {leaf : β → α} {t : LeafTree β}

/-- Where no two inputs collide, a tree is determined by the element it stands for. -/
theorem eval_injective {node : α → α → α} {inputs : Set (β ⊕ α × α)}
    (collisionFree : inputs.InjOn (Sum.elim leaf fun p => node p.1 p.2)) {u : LeafTree β}
    (first : ∀ i ∈ t.inputs leaf node, i ∈ inputs) (second : ∀ i ∈ u.inputs leaf node, i ∈ inputs)
    (same : t.eval leaf node = u.eval leaf node) : t = u := by
  induction t generalizing u with
  | leaf value =>
    cases u with
    | leaf value' =>
      have equal := collisionFree (first (.inl value) (.head _))
        (second (.inl value') (.head _)) same
      rw [Sum.inl.inj equal]
    | node left right =>
      have equal := collisionFree (first (.inl value) (.head _)) (second _ (.head _)) same
      cases equal
  | node left right ihLeft ihRight =>
    cases u with
    | leaf value' =>
      have equal := collisionFree (first _ (.head _)) (second (.inl value') (.head _)) same
      cases equal
    | node left' right' =>
      have equal := Sum.inr.inj (collisionFree (first _ (.head _)) (second _ (.head _)) same)
      have atLeft := ihLeft (fun i input => first i (.tail _ (mem_append_left _ input)))
        (fun i input => second i (.tail _ (mem_append_left _ input)))
        (congrArg Prod.fst equal)
      have atRight := ihRight (fun i input => first i (.tail _ (mem_append_right _ input)))
        (fun i input => second i (.tail _ (mem_append_right _ input)))
        (congrArg Prod.snd equal)
      rw [atLeft, atRight]

theorem inl_mem_inputs {value : β} : .inl value ∈ t.inputs leaf node ↔ value ∈ t.leaves := by
  induction t with
  | leaf other => simp [inputs, leaves]
  | node left right ihLeft ihRight =>
    simp only [inputs, leaves, mem_cons, reduceCtorEq, false_or, mem_append, ihLeft, ihRight]

end LeafTree

/-- The tree that folding a list builds. -/
def foldTree (values : List β) : Option (LeafTree β) :=
  (foldToRoot .node values.length (values.map .leaf)).head?

variable {values : List β}

theorem exists_foldTree_root (nonempty : values ≠ []) :
    ∃ tree : LeafTree β, foldToRoot .node values.length (values.map .leaf) = [tree] := by
  have leaves : values.map LeafTree.leaf ≠ [] := fun empty => nonempty (map_eq_nil_iff.mp empty)
  have folded := exists_foldToRoot LeafTree.node leaves
  rwa [length_map] at folded

theorem foldTree_eq_none_iff : foldTree values = none ↔ values = [] := by
  constructor
  · intro none
    by_contra nonempty
    obtain ⟨root, folded⟩ := exists_foldTree_root nonempty
    rw [foldTree, folded] at none
    cases none
  · rintro rfl
    rfl

variable {tree : LeafTree β}

theorem foldToRoot_eq_singleton (built : foldTree values = some tree) :
    foldToRoot .node values.length (values.map .leaf) = [tree] := by
  have nonempty : values ≠ [] := by
    rintro rfl
    cases built
  obtain ⟨root, folded⟩ := exists_foldTree_root nonempty
  rw [foldTree, folded] at built
  cases built
  exact folded

theorem foldToRoot_eq_eval (node : α → α → α) (leaf : β → α) (built : foldTree values = some tree) :
    foldToRoot node values.length (values.map leaf) = [tree.eval leaf node] := by
  have hom : ∀ left right : LeafTree β, (LeafTree.node left right).eval leaf node =
      node (left.eval leaf node) (right.eval leaf node) := fun left right => rfl
  have mapped := foldToRoot_map node hom values.length (values.map LeafTree.leaf)
  rw [map_map, foldToRoot_eq_singleton built] at mapped
  exact mapped

theorem leaves_foldPairs_isPrefixOf (level : List (LeafTree β)) :
    level.flatMap LeafTree.leaves <+: (foldPairs .node level).flatMap LeafTree.leaves := by
  fun_induction foldPairs LeafTree.node level with
  | case1 => exact prefix_rfl
  | case2 x => simp [LeafTree.leaves]
  | case3 x y rest ih =>
    simp only [flatMap_cons, LeafTree.leaves, append_assoc]
    exact (prefix_append_right_inj _).mpr ((prefix_append_right_inj _).mpr ih)

theorem leaves_foldTree_startsWith (built : foldTree values = some tree) :
    values <+: tree.leaves := by
  have kept := foldToRoot_induction .node
      (P := fun level => level.flatMap LeafTree.leaves <+: tree.leaves)
    (fun level => (leaves_foldPairs_isPrefixOf level).trans) values.length (values.map .leaf)
    (by simp [foldToRoot_eq_singleton built])
  simpa [flatMap_map, LeafTree.leaves] using kept

variable {value : β}

theorem mem_leaves_foldPairs {level : List (LeafTree β)}
    (held : value ∈ (foldPairs .node level).flatMap LeafTree.leaves) :
    value ∈ level.flatMap LeafTree.leaves := by
  fun_induction foldPairs LeafTree.node level with
  | case1 => exact held
  | case2 x => simpa [LeafTree.leaves] using held
  | case3 x y rest ih =>
    simp only [flatMap_cons, LeafTree.leaves, append_assoc, mem_append] at held ⊢
    exact held.imp_right (Or.imp_right ih)

theorem mem_of_mem_leaves (built : foldTree values = some tree) (held : value ∈ tree.leaves) :
    value ∈ values := by
  have inside := foldToRoot_induction .node
      (P := fun level => value ∈ level.flatMap LeafTree.leaves)
    (fun level => mem_leaves_foldPairs) values.length (values.map .leaf)
    (by simpa [foldToRoot_eq_singleton built] using held)
  simpa [flatMap_map, LeafTree.leaves] using inside

theorem foldTree_injective {others : List β} (lengths : values.length = others.length)
    (same : foldTree values = foldTree others) : values = others := by
  cases built : foldTree values with
  | none =>
    rw [foldTree_eq_none_iff.mp built, foldTree_eq_none_iff.mp (same.symm.trans built)]
  | some tree =>
    exact prefix_of_prefix_length_le (leaves_foldTree_startsWith built)
      (leaves_foldTree_startsWith (same.symm.trans built)) lengths.le |>.eq_of_length lengths

end NexaCore.Misc
