import NexaCore.Misc.PairFold

/-!
# The Merkle tree of a v3 volume

Embedding of `nexacore-fs/src/v3/merkle.rs`. Keyed BLAKE3 is an arbitrary function
`keyedHash` of the key and the bytes. A `while` loop over the levels runs with the number of
leaves as its bound: each turn halves the level, so it ends before.
-/

namespace NexaCore.Fs.V3

open Misc

/-- `BLOCK_SIZE` (`v3/mod.rs:35`). -/
def blockSize : Nat := 4096

/-- `HASH_LEN` (`merkle.rs:17`). -/
def hashLen : Nat := 32

/-- `Hash` (`merkle.rs:20`), `[u8; HASH_LEN]`. -/
abbrev Hash := Vector UInt8 hashLen

/-- `MerkleKey` (`merkle.rs:23`). -/
abbrev MerkleKey := Vector UInt8 hashLen

/-- `Hash::default()`. -/
def defaultHash : Hash := Vector.replicate hashLen 0

/-- The bytes of `b"NCFS-v3-empty-merkle"`. -/
def emptyMerkleBytes : List UInt8 :=
  "NCFS-v3-empty-merkle".toList.map fun c => UInt8.ofNat c.toNat

variable (keyedHash : MerkleKey → List UInt8 → Hash)

/-- `leaf_hash` (`merkle.rs:26-29`). -/
def leafHash (key : MerkleKey) (block : List UInt8) : Hash := keyedHash key block

/-- `node_hash` (`merkle.rs:32-38`). -/
def nodeHash (key : MerkleKey) (left right : Hash) : Hash :=
  keyedHash key (left.toList ++ right.toList)

/-- `empty_root` (`merkle.rs:41-44`). -/
def emptyRoot (key : MerkleKey) : Hash := keyedHash key emptyMerkleBytes

/-- `merkle_root` (`merkle.rs:58-68`), with `fold_level` (`merkle.rs:47-55`) as `foldPairs`. -/
def merkleRoot (key : MerkleKey) (leaves : List Hash) : Hash :=
  if leaves.isEmpty then emptyRoot keyedHash key
  else (foldToRoot (nodeHash keyedHash key) leaves.length leaves).head?.getD
    (emptyRoot keyedHash key)

/-- `root_over_blocks` (`merkle.rs:71-75`). -/
def rootOverBlocks (key : MerkleKey) (blocks : List (List UInt8)) : Hash :=
  merkleRoot keyedHash key (blocks.map (leafHash keyedHash key))

/-- `merkle_proof` (`merkle.rs:80-97`). -/
def merkleProof (key : MerkleKey) (leaves : List Hash) (index : Nat) : Option (List Hash) :=
  if leaves.length ≤ index then none
  else some (siblingPath (nodeHash keyedHash key) defaultHash leaves.length index leaves)

/-- `verify_proof` (`merkle.rs:101-119`). -/
def verifyProof (key : MerkleKey) (root leaf : Hash) (index : Nat) (proof : List Hash) : Bool :=
  climb (nodeHash keyedHash key) leaf index proof == root

end NexaCore.Fs.V3
