import NexaCore.Fs.Proofs.Calls
import NexaCore.Fs.Proofs.Read

/-!
# Damaged blocks

Every stored block has its tag, so a block with other data fails the check of its tag, unless the
tags collide. A block that is lost altogether is read as zeros.
-/

namespace NexaCore.Fs.OnDiskVolume

open Misc Std List Option

variable {computeTag : TagFunction} {v : OnDiskVolume}

theorem foldl_or_xor_eq_zero {pairs : List (UInt8 × UInt8)} {diff : UInt8} :
    pairs.foldl (fun diff pair => diff ||| (pair.1 ^^^ pair.2)) diff = 0 ↔
      diff = 0 ∧ ∀ pair ∈ pairs, pair.1 = pair.2 := by
  induction pairs generalizing diff with
  | nil => simp
  | cons pair pairs ih =>
    rw [foldl_cons, ih, UInt8.or_eq_zero_iff, UInt8.xor_eq_zero_iff, forall_mem_cons, and_assoc]

/-- The comparison without early exit is that of the whole tags. -/
theorem verifyTag_eq {b : Nat} {block : List UInt8} {tag : Tag} :
    verifyTag computeTag b block tag =
      if computeTag b block = tag then .ok () else .error .integrityViolation := by
  have same : (∀ pair ∈ (computeTag b block).toList.zip tag.toList, pair.1 = pair.2) ↔
      computeTag b block = tag := by
    simp [← Vector.toList_inj, ← forall₂_eq_eq_eq, forall₂_iff_zip]
  simp only [verifyTag, foldl_or_xor_eq_zero, same, true_and]

/-- The answer is as before, or says that a block is damaged. -/
def Noticed {α : Type} (after before : Except FsError α) : Prop :=
  after = before ∨ after = .error .integrityViolation

theorem Noticed.bind {α β : Type} {after before : Except FsError α} {f g : α → Except FsError β}
    (noticed : Noticed after before) (next : ∀ a, Noticed (f a) (g a)) :
    Noticed (after >>= f) (before >>= g) := by
  rcases noticed with rfl | rfl
  · cases after with
    | error e => exact .inl rfl
    | ok a => exact next a
  · exact .inr rfl

/-- The stored blocks have other data, which has other tags. -/
structure Damages (computeTag : TagFunction) (v : OnDiskVolume)
    (damaged : ExtTreeMap Nat (List UInt8)) : Prop where
  present : ∀ b : Nat, damaged[b]?.isSome = v.dataBlocks[b]?.isSome
  noCollision : ∀ (b : Nat) (block other : List UInt8), v.dataBlocks[b]? = some block →
    damaged[b]? = some other → computeTag b other = computeTag b block → other = block

theorem Inv.readBlock_damaged {damaged : ExtTreeMap Nat (List UInt8)} (inv : v.Inv computeTag)
    (damages : Damages computeTag v damaged) (b start stop : Nat) :
    Noticed (readBlock computeTag { v with dataBlocks := damaged } b start stop)
      (v.readBlock computeTag b start stop) := by
  have tag := inv.tagged b
  have kept := damages.present b
  unfold readBlock Noticed
  cases found : v.dataBlocks[b]? with
  | none =>
    rw [found, isSome_none, isSome_eq_false_iff, isNone_iff_eq_none] at kept
    simp [kept]
  | some block =>
    rw [found, isSome_some] at kept
    obtain ⟨other, there⟩ := isSome_iff_exists.mp kept
    rw [found, map_some] at tag
    by_cases same : computeTag b other = computeTag b block
    · simp [there, damages.noCollision b block other found there same]
    · simp only [there, tag, verifyTag_eq, if_neg same]
      split
      · exact .inl rfl
      · exact .inr rfl

/-- In every volume that calls with any results leave, a read of damaged blocks, short of a
collision of tags, returns what it returned before or an integrity violation. -/
theorem damage_noticed {totalBlocks : Nat} {calls : List Call}
    {damaged : ExtTreeMap Nat (List UInt8)} (reached : Reached computeTag totalBlocks calls v)
    (damages : Damages computeTag v damaged) (path : String) (offset : Nat) (count : UInt32) :
    readFile computeTag { v with dataBlocks := damaged } path offset count =
        v.readFile computeTag path offset count ∨
      readFile computeTag { v with dataBlocks := damaged } path offset count =
        some (.error .integrityViolation) := by
  have loop : ∀ inode e idxs,
      Noticed (readBlocks computeTag { v with dataBlocks := damaged } inode e idxs)
        (v.readBlocks computeTag inode e idxs) := by
    intro inode e idxs
    induction idxs with
    | nil => exact .inl rfl
    | cons idx idxs ih =>
      exact (reached.inv.readBlock_damaged damages ..).bind fun bytes => ih.bind fun _ => .inl rfl
  have same : lookup { v with dataBlocks := damaged } path = v.lookup path := rfl
  unfold readFile
  rw [same]
  split
  · exact .inl rfl
  · rename_i n inode found
    split
    · exact .inl rfl
    · split
      · exact .inl rfl
      · cases addU64 offset count.toNat with
        | none => exact .inl rfl
        | some stop => exact (loop ..).imp (congrArg some) (congrArg some)

/-- Tags that show the first byte of a block. -/
def firstByteTag : TagFunction := fun _ block => Vector.replicate tagLen (block.headD 0)

/-- The first byte of a file is replaced. -/
theorem damage_noticed_replaced :
    ∃ v, Reached firstByteTag 8 [.createFile "/a", .writeFile "/a" 0 [1]] v ∧
      let read := readFile firstByteTag { v with dataBlocks := v.dataBlocks.insert 3 [2] } "/a" 0 1
      read = v.readFile firstByteTag "/a" 0 1 ∨ read = some (.error .integrityViolation) := by
  obtain ⟨v, reached, stored⟩ : ∃ v,
      Reached firstByteTag 8 [.createFile "/a", .writeFile "/a" 0 [1]] v ∧
      (v.dataBlocks[3]?.any fun block => block.headD 0 = 1) = true :=
    exists_reached (by decide +kernel)
  obtain ⟨block, found, first⟩ := exists_of_any stored
  refine ⟨v, reached,
    damage_noticed reached ⟨fun b => ?_, fun b old new before after same => ?_⟩ ..⟩
  · rw [getElem?_insert_eq]
    split
    · rename_i here
      rw [here, found]
      rfl
    · rfl
  · rcases insert_eq_some.mp after with ⟨rfl, rfl⟩ | ⟨-, after⟩
    · cases found.symm.trans before
      simp only [firstByteTag, first] at same
      exact absurd same (by decide)
    · exact some_inj.mp (after.symm.trans before)

end NexaCore.Fs.OnDiskVolume
