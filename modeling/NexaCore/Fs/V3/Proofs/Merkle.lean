import NexaCore.Fs.V3.Merkle

/-!
# What a Merkle root commits to

The root stands for the tree that the folding builds over the blocks, where an odd last node
is there twice: it determines that tree, and the blocks when their number is known. The
sibling path of a leaf verifies, and no other path of its length does. The hash is only asked
not to collide on the byte strings that the computations at hand feed to it.
-/

namespace NexaCore.Fs.V3

open Misc List

variable (keyedHash : MerkleKey → List UInt8 → Hash)

/-- The byte string that is hashed for a block or for a pair of nodes. -/
def hashedBytes : List UInt8 ⊕ Hash × Hash → List UInt8
  | .inl block => block
  | .inr (left, right) => left.toList ++ right.toList

/-- The byte strings that `root_over_blocks` hashes. -/
def rootInputs (key : MerkleKey) (blocks : List (List UInt8)) : List (List UInt8) :=
  match foldTree blocks with
  | none => [emptyMerkleBytes]
  | some tree => (tree.inputs (leafHash keyedHash key) (nodeHash keyedHash key)).map hashedBytes

/-- The byte strings that `merkle_root` hashes over the leaves. -/
def treeInputs (key : MerkleKey) (leaves : List Hash) : List (List UInt8) :=
  (treePairs (nodeHash keyedHash key) leaves.length leaves).map fun p => hashedBytes (.inr p)

/-- The byte strings that `verify_proof` hashes. -/
def proofInputs (key : MerkleKey) (leaf : Hash) (index : Nat) (proof : List Hash) :
    List (List UInt8) :=
  (climbPairs (nodeHash keyedHash key) leaf index proof).map fun p => hashedBytes (.inr p)

/-- A hash for examples: it keeps some of the bytes, and whether there are more than 64. -/
def sampleHash (_key : MerkleKey) (bytes : List UInt8) : Hash :=
  Vector.ofFn fun i =>
    if i.val = 0 then if (bytes.drop 64).isEmpty then 1 else 0
    else if i.val < 16 then bytes.getD i.val 0 else bytes.getD (16 + i.val) 0

variable {keyedHash} {key : MerkleKey}

theorem hashedBytes_pair_injective :
    Function.Injective fun p : Hash × Hash => hashedBytes (.inr p) := by
  intro p q same
  have halves := append_inj same (by rw [Vector.length_toList, Vector.length_toList])
  exact Prod.ext (Vector.toList_inj.mp halves.1) (Vector.toList_inj.mp halves.2)

theorem length_hashedBytes_pair (p : Hash × Hash) : (hashedBytes (.inr p)).length = 64 := by
  rw [hashedBytes, length_append, Vector.length_toList, Vector.length_toList]
  rfl

/-- Blocks and pairs of nodes are hashed from different byte strings. -/
theorem hashedBytes_injOn :
    Set.InjOn hashedBytes {i | ∀ block, i = .inl block → block.length = blockSize} := by
  intro i iSize j jSize same
  have lengths := congrArg length same
  cases i with
  | inl block =>
    cases j with
    | inl other => exact congrArg Sum.inl same
    | inr q =>
      rw [length_hashedBytes_pair] at lengths
      exact absurd ((iSize block rfl).symm.trans lengths) (by decide)
  | inr p =>
    cases j with
    | inl other =>
      rw [length_hashedBytes_pair] at lengths
      exact absurd ((jSize other rfl).symm.trans lengths.symm) (by decide)
    | inr q => exact congrArg Sum.inr (hashedBytes_pair_injective same)

theorem elim_eq_keyedHash :
    (Sum.elim (leafHash keyedHash key) fun p => nodeHash keyedHash key p.1 p.2) =
      keyedHash key ∘ hashedBytes := by
  funext i
  cases i with
  | inl | inr => rfl

variable {blocks : List (List UInt8)} {tree : LeafTree (List UInt8)}

theorem rootOverBlocks_of_tree (built : foldTree blocks = some tree) :
    rootOverBlocks keyedHash key blocks =
      tree.eval (leafHash keyedHash key) (nodeHash keyedHash key) := by
  have nonempty : blocks ≠ [] := by
    rintro rfl
    cases built
  have folded := foldToRoot_eq_eval (nodeHash keyedHash key) (leafHash keyedHash key) built
  rw [rootOverBlocks, merkleRoot, if_neg (by simpa using nonempty), length_map, folded]
  rfl

theorem rootOverBlocks_nil : rootOverBlocks keyedHash key [] = keyedHash key emptyMerkleBytes := rfl

theorem size_of_mem_inputs (sizes : ∀ block ∈ blocks, block.length = blockSize)
    (built : foldTree blocks = some tree) {i : List UInt8 ⊕ Hash × Hash}
    (input : i ∈ tree.inputs (leafHash keyedHash key) (nodeHash keyedHash key))
    (block : List UInt8) (isBlock : i = .inl block) : block.length = blockSize := by
  subst isBlock
  exact sizes block (mem_of_mem_leaves built (LeafTree.inl_mem_inputs.mp input))

/-- A volume with blocks does not have the root of the empty volume. -/
theorem rootOverBlocks_ne_empty (sizes : ∀ block ∈ blocks, block.length = blockSize)
    (built : foldTree blocks = some tree) (collisionFree : Set.InjOn (keyedHash key)
      {bytes | bytes ∈ rootInputs keyedHash key blocks ∨ bytes = emptyMerkleBytes}) :
    rootOverBlocks keyedHash key blocks ≠ keyedHash key emptyMerkleBytes := by
  intro same
  -- a root hashes one of the inputs of its tree
  obtain ⟨i, input, hashed⟩ : ∃ i ∈ tree.inputs (leafHash keyedHash key) (nodeHash keyedHash key),
      tree.eval (leafHash keyedHash key) (nodeHash keyedHash key) =
        keyedHash key (hashedBytes i) := by
    cases tree with
    | leaf block => exact ⟨.inl block, .head _, rfl⟩
    | node left right => exact ⟨.inr (_, _), .head _, rfl⟩
  have fed : hashedBytes i ∈ rootInputs keyedHash key blocks := by
    rw [rootInputs, built]
    exact mem_map_of_mem input
  rw [rootOverBlocks_of_tree built, hashed] at same
  have lengths := congrArg length (collisionFree (.inl fed) (.inr rfl) same)
  rw [show emptyMerkleBytes.length = 20 by decide] at lengths
  cases i with
  | inl block =>
    have size := size_of_mem_inputs sizes built input block rfl
    exact absurd (size.symm.trans lengths) (by decide)
  | inr p =>
    rw [length_hashedBytes_pair] at lengths
    exact absurd lengths (by decide)

variable {xs ys : List (List UInt8)}

theorem foldTree_eq_of_root (xSizes : ∀ block ∈ xs, block.length = blockSize)
    (ySizes : ∀ block ∈ ys, block.length = blockSize) (collisionFree : Set.InjOn (keyedHash key)
      {bytes | bytes ∈ rootInputs keyedHash key xs ∨ bytes ∈ rootInputs keyedHash key ys})
    (same : rootOverBlocks keyedHash key xs = rootOverBlocks keyedHash key ys) :
    foldTree xs = foldTree ys := by
  cases xBuilt : foldTree xs with
  | none =>
    cases yBuilt : foldTree ys with
    | none => rfl
    | some tree =>
      rw [foldTree_eq_none_iff.mp xBuilt, rootOverBlocks_nil] at same
      refine absurd same.symm (rootOverBlocks_ne_empty ySizes yBuilt (collisionFree.mono ?_))
      rintro bytes (fed | rfl)
      · exact .inr fed
      · exact .inl (by rw [rootInputs, xBuilt]; exact (.head _))
  | some xTree =>
    cases yBuilt : foldTree ys with
    | none =>
      rw [foldTree_eq_none_iff.mp yBuilt, rootOverBlocks_nil] at same
      refine absurd same (rootOverBlocks_ne_empty xSizes xBuilt (collisionFree.mono ?_))
      rintro bytes (fed | rfl)
      · exact .inl fed
      · exact .inr (by rw [rootInputs, yBuilt]; exact (.head _))
    | some yTree =>
      rw [rootOverBlocks_of_tree xBuilt, rootOverBlocks_of_tree yBuilt] at same
      rw [rootInputs, rootInputs, xBuilt, yBuilt] at collisionFree
      have free : Set.InjOn
          (Sum.elim (leafHash keyedHash key) fun p => nodeHash keyedHash key p.1 p.2)
          {i | i ∈ xTree.inputs (leafHash keyedHash key) (nodeHash keyedHash key) ∨
            i ∈ yTree.inputs (leafHash keyedHash key) (nodeHash keyedHash key)} := by
        rw [elim_eq_keyedHash]
        refine collisionFree.comp (hashedBytes_injOn.mono ?_) ?_
        · rintro i (input | input)
          · exact size_of_mem_inputs xSizes xBuilt input
          · exact size_of_mem_inputs ySizes yBuilt input
        · rintro i (input | input)
          · exact .inl (mem_map_of_mem input)
          · exact .inr (mem_map_of_mem input)
      exact congrArg some (LeafTree.eval_injective free (fun _ => .inl) (fun _ => .inr) same)

theorem root_eq_of_foldTree (same : foldTree xs = foldTree ys) :
    rootOverBlocks keyedHash key xs = rootOverBlocks keyedHash key ys := by
  cases built : foldTree xs with
  | none =>
    rw [foldTree_eq_none_iff.mp built, foldTree_eq_none_iff.mp (same.symm.trans built)]
  | some tree => rw [rootOverBlocks_of_tree built, rootOverBlocks_of_tree (same.symm.trans built)]

/-- The root commits to the tree over the blocks: roots agree exactly when the trees do, and
for volumes of one size exactly when the blocks do. -/
theorem rootOverBlocks_eq_iff {xs ys : List (List UInt8)}
    (xSizes : ∀ block ∈ xs, block.length = blockSize)
    (ySizes : ∀ block ∈ ys, block.length = blockSize)
    (collisionFree : Set.InjOn (keyedHash key)
      {bytes | bytes ∈ rootInputs keyedHash key xs ∨ bytes ∈ rootInputs keyedHash key ys}) :
    (rootOverBlocks keyedHash key xs = rootOverBlocks keyedHash key ys ↔
        foldTree xs = foldTree ys) ∧
      (xs.length = ys.length →
        (rootOverBlocks keyedHash key xs = rootOverBlocks keyedHash key ys ↔ xs = ys)) := by
  refine ⟨⟨foldTree_eq_of_root xSizes ySizes collisionFree, root_eq_of_foldTree⟩, fun lengths => ?_⟩
  constructor
  · intro same
    exact foldTree_injective lengths (foldTree_eq_of_root xSizes ySizes collisionFree same)
  · rintro rfl
    rfl

/-- A block of equal bytes. -/
def sampleBlock (byte : UInt8) : List UInt8 := List.replicate blockSize byte

theorem length_sampleBlock {bytes : List UInt8} :
    ∀ block ∈ bytes.map sampleBlock, block.length = blockSize := by
  intro block held
  obtain ⟨byte, -, rfl⟩ := mem_map.mp held
  exact length_replicate

theorem injOn_of_nodup {f : List UInt8 → Hash} {first second : List (List UInt8)}
    (inputs : List (List UInt8)) (apart : (inputs.map f).Nodup) (inFirst : first ⊆ inputs)
    (inSecond : second ⊆ inputs) :
    Set.InjOn f {bytes | bytes ∈ first ∨ bytes ∈ second} :=
  fun _ inA _ inB same => inj_on_of_nodup_map apart (inA.elim (inFirst ·) (inSecond ·))
    (inB.elim (inFirst ·) (inSecond ·)) same

/-- Two blocks, and the same with another last block: the roots differ. -/
theorem rootOverBlocks_eq_iff_two :
    rootOverBlocks sampleHash defaultHash ([0, 1].map sampleBlock) ≠
      rootOverBlocks sampleHash defaultHash ([0, 2].map sampleBlock) := by
  have pair : ∀ byte, rootInputs sampleHash defaultHash ([0, byte].map sampleBlock) =
      [hashedBytes (.inr (sampleHash defaultHash (sampleBlock 0),
        sampleHash defaultHash (sampleBlock byte))), sampleBlock 0, sampleBlock byte] :=
    fun byte => rfl
  have apart : Set.InjOn (sampleHash defaultHash)
      {bytes | bytes ∈ rootInputs sampleHash defaultHash ([0, 1].map sampleBlock) ∨
        bytes ∈ rootInputs sampleHash defaultHash ([0, 2].map sampleBlock)} := by
    refine injOn_of_nodup ([hashedBytes (.inr (sampleHash defaultHash (sampleBlock 0),
      sampleHash defaultHash (sampleBlock 1))), hashedBytes (.inr (sampleHash defaultHash
      (sampleBlock 0), sampleHash defaultHash (sampleBlock 2))), sampleBlock 0, sampleBlock 1,
      sampleBlock 2]) (by decide +kernel) ?_ ?_
    · rw [pair]
      simp
    · rw [pair]
      simp
  have committed := rootOverBlocks_eq_iff length_sampleBlock length_sampleBlock apart
  rw [Ne, committed.2 rfl]
  intro same
  exact absurd (congrArg (fun blocks => blocks[1]?.bind head?) same) (by decide +kernel)

/-- Three blocks have the root of four where the last is there twice, with no collision among
the hashed byte strings. -/
theorem rootOverBlocks_three_eq_four :
    Set.InjOn (sampleHash defaultHash)
        {bytes | bytes ∈ rootInputs sampleHash defaultHash ([0, 1, 2].map sampleBlock) ∨
          bytes ∈ rootInputs sampleHash defaultHash ([0, 1, 2, 2].map sampleBlock)} ∧
      rootOverBlocks sampleHash defaultHash ([0, 1, 2].map sampleBlock) =
        rootOverBlocks sampleHash defaultHash ([0, 1, 2, 2].map sampleBlock) ∧
      [0, 1, 2].map sampleBlock ≠ [0, 1, 2, 2].map sampleBlock := by
  refine ⟨?_, by decide +kernel, fun same => ?_⟩
  · have doubled : rootInputs sampleHash defaultHash ([0, 1, 2, 2].map sampleBlock) =
        rootInputs sampleHash defaultHash ([0, 1, 2].map sampleBlock) := rfl
    have last : rootInputs sampleHash defaultHash ([0, 1, 2].map sampleBlock) =
        (rootInputs sampleHash defaultHash ([0, 1, 2].map sampleBlock)).take 6 ++
          [sampleBlock 2] := rfl
    have covered : rootInputs sampleHash defaultHash ([0, 1, 2].map sampleBlock) ⊆
        (rootInputs sampleHash defaultHash ([0, 1, 2].map sampleBlock)).take 6 := by
      nth_rewrite 1 [last]
      refine append_subset.mpr ⟨List.Subset.refl _, ?_⟩
      exact cons_subset.mpr ⟨mem_of_getElem? (i := 5) rfl, nil_subset _⟩
    rw [doubled]
    exact injOn_of_nodup _ (by decide +kernel) covered covered
  · exact absurd (congrArg length same) (by decide)

/-! ## Proofs -/

theorem nodeHash_injOn {inputs : Set (List UInt8)} (collisionFree : inputs.InjOn (keyedHash key)) :
    Set.InjOn (fun p : Hash × Hash => nodeHash keyedHash key p.1 p.2)
      {p | hashedBytes (.inr p) ∈ inputs} := by
  intro p pIn q qIn same
  exact hashedBytes_pair_injective (collisionFree pIn qIn same)

/-- The proof of a leaf verifies, and a proof of that length that verifies is the proof of
that leaf. -/
theorem merkleProof_complete_sound (keyedHash : MerkleKey → List UInt8 → Hash) (key : MerkleKey)
    {leaves : List Hash} {i : Nat} {leaf : Hash}
    (found : leaves[i]? = some leaf) :
    ∃ proof, merkleProof keyedHash key leaves i = some proof ∧
      verifyProof keyedHash key (merkleRoot keyedHash key leaves) leaf i proof = true ∧
      ∀ l p, Set.InjOn (keyedHash key) {bytes | bytes ∈ treeInputs keyedHash key leaves ∨
          bytes ∈ proofInputs keyedHash key l i p} →
        p.length = proof.length →
        verifyProof keyedHash key (merkleRoot keyedHash key leaves) l i p = true →
        l = leaf ∧ p = proof := by
  have bound := (List.getElem?_eq_some_iff.mp found).1
  have nonempty : leaves ≠ [] := ne_nil_of_length_pos (by omega)
  have root : foldToRoot (nodeHash keyedHash key) leaves.length leaves =
      [merkleRoot keyedHash key leaves] := by
    obtain ⟨root, folded⟩ := exists_foldToRoot (nodeHash keyedHash key) nonempty
    rw [merkleRoot, if_neg (by simpa using nonempty), folded]
    rfl
  refine ⟨siblingPath (nodeHash keyedHash key) defaultHash leaves.length i leaves,
    by rw [merkleProof, if_neg (by omega)], ?_, ?_⟩
  · have climbed := climb_siblingPath (nodeHash keyedHash key) defaultHash le_rfl found
    rw [root] at climbed
    rw [verifyProof, ← List.singleton_inj.mp climbed]
    exact beq_self_eq_true _
  · intro l p collisionFree length verified
    have reached : climb (nodeHash keyedHash key) l i p = merkleRoot keyedHash key leaves :=
      eq_of_beq verified
    refine climb_unique defaultHash (nodeHash_injOn collisionFree) le_rfl found ?_ ?_ length
      (by rw [root, reached])
    · intro pair joined
      exact .inl (mem_map_of_mem joined)
    · intro pair joined
      exact .inr (mem_map_of_mem joined)

/-- A leaf of equal bytes. -/
def sampleLeaf (byte : UInt8) : Hash := Vector.replicate hashLen byte

/-- Of three leaves the last is its own neighbour; no other leaf verifies in its place. -/
theorem merkleProof_complete_sound_three :
    ∃ proof, merkleProof sampleHash defaultHash ([1, 2, 3].map sampleLeaf) 2 = some proof ∧
      verifyProof sampleHash defaultHash
        (merkleRoot sampleHash defaultHash ([1, 2, 3].map sampleLeaf)) (sampleLeaf 3) 2
          proof = true ∧
      verifyProof sampleHash defaultHash
        (merkleRoot sampleHash defaultHash ([1, 2, 3].map sampleLeaf)) (sampleLeaf 4) 2
        [sampleLeaf 3, sampleLeaf 5] = false := by
  have found : ([1, 2, 3].map sampleLeaf)[2]? = some (sampleLeaf 3) := rfl
  obtain ⟨proof, produced, verifies, only⟩ :=
      merkleProof_complete_sound sampleHash defaultHash found
  have length : proof.length = 2 := by
    obtain rfl := Option.some_inj.mp produced
    decide +kernel
  have apart : Set.InjOn (sampleHash defaultHash)
      {bytes | bytes ∈ treeInputs sampleHash defaultHash ([1, 2, 3].map sampleLeaf) ∨
        bytes ∈ proofInputs sampleHash defaultHash (sampleLeaf 4) 2 [sampleLeaf 3, sampleLeaf 5]} :=
    injOn_of_nodup (treeInputs sampleHash defaultHash ([1, 2, 3].map sampleLeaf) ++
      proofInputs sampleHash defaultHash (sampleLeaf 4) 2 [sampleLeaf 3, sampleLeaf 5])
      (by decide +kernel) (subset_append_left _ _) (subset_append_right _ _)
  refine ⟨proof, produced, verifies, Bool.eq_false_iff.mpr fun verified => ?_⟩
  have leaf := (only (sampleLeaf 4) [sampleLeaf 3, sampleLeaf 5] apart length.symm verified).1
  exact absurd leaf (by decide)

end NexaCore.Fs.V3
