import NexaCore.Fs.Proofs.Calls

/-!
# Paths and inode numbers

The path map of a volume is a one-to-one correspondence between paths and live inodes as
long as every creation takes a number that is not in use. `next_inode` wraps around, so
after 2^64 creations it comes back to numbers that may still be live.
-/

namespace NexaCore.Fs.OnDiskVolume

open Misc Std Nat Option

variable {computeTag : TagFunction} {v v' m : OnDiskVolume} {path : String} {n : Nat}

/-- Every path has a live inode of its own and every live inode has a path. -/
structure Named (v : OnDiskVolume) : Prop where
  live : ∀ (p : String) (n : Nat), v.pathMap[p]? = some n → ∃ inode, v.inodes[n]? = some inode
  unique : ∀ (p q : String) (n : Nat), v.pathMap[p]? = some n → v.pathMap[q]? = some n → p = q
  named : ∀ (n : Nat) (inode : Inode), v.inodes[n]? = some inode →
    ∃ p : String, v.pathMap[p]? = some n

/-- A creation that passes its checks takes a number that is not in use. -/
def FreshInode (v : OnDiskVolume) : Call → Prop
  | .createFile path => v.Creatable path → v.inodes[v.nextInode]? = none
  | .createDirectory path => v.Creatable path → v.inodes[v.nextInode]? = none
  | _ => True

theorem Named.created (named : v.Named) (fileType : FileType) (absent : path ∉ v.pathMap)
    (fresh : v.inodes[v.nextInode]? = none) : (v.created fileType path).Named := by
  have unnamed : ∀ p : String, v.pathMap[p]? ≠ some v.nextInode := by
    intro p here
    obtain ⟨inode, found⟩ := named.live p _ here
    rw [fresh] at found
    cases found
  refine ⟨fun p n here => ?_, fun p q n here there => ?_, fun n inode found => ?_⟩
  · rcases insert_eq_some.mp here with ⟨-, rfl⟩ | ⟨-, here⟩
    · exact ⟨_, insert_eq_some.mpr (.inl ⟨rfl, rfl⟩)⟩
    · obtain ⟨inode, found⟩ := named.live p n here
      exact ⟨inode, insert_eq_some.mpr (.inr ⟨by grind, found⟩)⟩
  · rcases insert_eq_some.mp here with ⟨rfl, rfl⟩ | ⟨-, here⟩
    · rcases insert_eq_some.mp there with ⟨rfl, -⟩ | ⟨-, there⟩
      · rfl
      · exact absurd there (unnamed q)
    · rcases insert_eq_some.mp there with ⟨-, rfl⟩ | ⟨-, there⟩
      · exact absurd here (unnamed p)
      · exact named.unique p q n here there
  · rcases insert_eq_some.mp found with ⟨rfl, -⟩ | ⟨-, found⟩
    · exact ⟨path, insert_eq_some.mpr (.inl ⟨rfl, rfl⟩)⟩
    · obtain ⟨p, here⟩ := named.named n inode found
      have other : p ≠ path := by
        rintro rfl
        exact absent (ExtTreeMap.mem_iff_isSome_getElem?.mpr (by rw [here]; rfl))
      exact ⟨p, insert_eq_some.mpr (.inr ⟨other, here⟩)⟩

theorem Named.removed (named : v.Named) (inodes : m.inodes = v.inodes)
    (pathMap : m.pathMap = v.pathMap) (here : v.pathMap[path]? = some n) (freeBlocks : Nat) :
    (m.removed path n freeBlocks).Named := by
  refine ⟨fun p k there => ?_, fun p q k there there' => ?_, fun k inode found => ?_⟩
  · simp only [OnDiskVolume.removed, inodes, pathMap, erase_eq_some] at there ⊢
    obtain ⟨inode, found⟩ := named.live p k there.2
    refine ⟨inode, ?_, found⟩
    rintro rfl
    exact there.1 (named.unique p path k there.2 here)
  · simp only [OnDiskVolume.removed, pathMap, erase_eq_some] at there there'
    exact named.unique p q k there.2 there'.2
  · simp only [OnDiskVolume.removed, inodes, pathMap, erase_eq_some] at found ⊢
    obtain ⟨p, there⟩ := named.named k inode found.2
    refine ⟨p, ?_, there⟩
    rintro rfl
    exact found.1 (some_inj.mp (there.symm.trans here))

theorem Named.written {inode : Inode} {data : List UInt8} {newBlocks : List (Nat × Nat)}
    {b' : BlockBitmap} {e : Extent} (named : v.Named) (found : v.inodes[n]? = some inode) :
    (written computeTag v n inode data e newBlocks b').Named := by
  refine ⟨fun p k here => ?_, ?_, fun k other there => ?_⟩
  · rw [pathMap_written] at here
    rw [inodes_written, getElem?_insert_eq]
    split
    · exact ⟨_, rfl⟩
    · exact named.live p k here
  · rw [pathMap_written]
    exact named.unique
  · rw [inodes_written] at there
    rw [pathMap_written]
    rcases insert_eq_some.mp there with ⟨rfl, -⟩ | ⟨-, there⟩
    · exact named.named k inode found
    · exact named.named k other there

variable {c : Call} {r : Except FsError Unit}

/-- A call keeps the correspondence if it takes no inode number in use. -/
theorem Named.effect (named : v.Named) (effect : Effect computeTag v c r v')
    (fresh : v.FreshInode c) : v'.Named := by
  cases effect with
  | refused | idle => exact named
  | createdFile creatable | createdDirectory creatable =>
    exact named.created _ creatable.absent (fresh creatable)
  | written admitted => exact named.written (lookup_eq_ok.mp admitted.found).2
  | ranOut => exact ⟨named.live, named.unique, named.named⟩
  | deletedFile found =>
    exact named.removed (releases_foldl _ _).inodes (releases_foldl _ _).pathMap
      (lookup_eq_ok.mp found).1 _
  | deletedDirectory _ found => exact named.removed rfl rfl (lookup_eq_ok.mp found).1 _

variable {totalBlocks : Nat}

theorem named_format (formatted : format totalBlocks = some v) : v.Named := by
  obtain ⟨bitmap, -, formatted⟩ := bind_eq_some_iff.mp formatted
  cases formatted
  refine ⟨fun p n here => ?_, fun p q n here there => ?_, fun n inode found => ?_⟩
  · obtain ⟨-, rfl⟩ := insert_empty_eq_some.mp here
    exact ⟨rootInode, insert_empty_eq_some.mpr ⟨rfl, rfl⟩⟩
  · rw [(insert_empty_eq_some.mp here).1, (insert_empty_eq_some.mp there).1]
  · obtain ⟨rfl, -⟩ := insert_empty_eq_some.mp found
    exact ⟨"/", insert_empty_eq_some.mpr ⟨rfl, rfl⟩⟩

variable {calls : List Call} {v₀ : OnDiskVolume}

/-- The invariant and the correspondence along calls that take no inode number in use. -/
theorem inv_named_of_run (formatted : format totalBlocks = some v₀)
    (run : Run ((step computeTag).restrict FreshInode) v₀ calls v) :
    v.Inv computeTag ∧ v.Named := by
  refine run.invariant (fun v => v.Inv computeTag ∧ v.Named) (fun m c m' kept taken => ?_)
    ⟨inv_format formatted, named_format formatted⟩
  obtain ⟨inv, named⟩ := kept
  obtain ⟨fresh, taken⟩ := taken
  obtain ⟨r, -, effect⟩ := step_effect inv taken
  exact ⟨inv.effect effect, named.effect effect fresh⟩

/-! ## Short runs -/

/-- Every live inode number was given out. -/
def Below (v : OnDiskVolume) : Prop :=
  ∀ (n : Nat) (inode : Inode), v.inodes[n]? = some inode → n < v.nextInode

theorem Below.created (below : v.Below) (fileType : FileType) (bound : v.nextInode + 1 < 2 ^ 64) :
    (v.created fileType path).Below := by
  intro n inode found
  simp only [OnDiskVolume.created] at found ⊢
  rw [mod_eq_of_lt bound]
  rcases insert_eq_some.mp found with ⟨rfl, -⟩ | ⟨-, found⟩
  · exact lt_succ_self _
  · exact lt_succ_of_lt (below n inode found)

theorem Below.removed (below : v.Below) (inodes : m.inodes = v.inodes)
    (next : m.nextInode = v.nextInode) (freeBlocks : Nat) :
    (m.removed path n freeBlocks).Below := by
  intro k inode found
  simp only [OnDiskVolume.removed, inodes, next, erase_eq_some] at found ⊢
  exact below k inode found.2

theorem Below.effect (below : v.Below) (effect : Effect computeTag v c r v')
    (bound : v.nextInode + 1 < 2 ^ 64) :
    v'.Below ∧ v'.nextInode ≤ v.nextInode + 1 := by
  cases effect with
  | refused | idle => exact ⟨below, le_succ _⟩
  | createdFile | createdDirectory => exact ⟨below.created _ bound, mod_le _ _⟩
  | written admitted =>
    refine ⟨fun k other there => ?_, (releases_foldl _ _).nextInode.trans_le (le_succ _)⟩
    rw [inodes_written] at there
    refine Nat.lt_of_lt_of_eq ?_ (releases_foldl _ _).nextInode.symm
    rcases insert_eq_some.mp there with ⟨rfl, -⟩ | ⟨-, there⟩
    · exact below _ _ (lookup_eq_ok.mp admitted.found).2
    · exact below k other there
  | ranOut => exact ⟨below, le_succ _⟩
  | deletedFile =>
    exact ⟨below.removed (releases_foldl _ _).inodes (releases_foldl _ _).nextInode _,
      (releases_foldl _ _).nextInode.trans_le (le_succ _)⟩
  | deletedDirectory => exact ⟨below.removed rfl rfl _, le_succ _⟩

/-- In a run that is too short for the inode number to wrap around every creation takes a
number that is not in use. -/
theorem run_freshInode (formatted : format totalBlocks = some v₀)
    (run : Run (step computeTag) v₀ calls v) (short : calls.length < 2 ^ 64 - firstUserInode) :
    Run ((step computeTag).restrict FreshInode) v₀ calls v ∧ v.Below ∧
      v.nextInode ≤ firstUserInode + calls.length := by
  induction run with
  | nil =>
    obtain ⟨bitmap, -, formatted⟩ := bind_eq_some_iff.mp formatted
    cases formatted
    refine ⟨.nil _, fun n inode found => ?_, le_rfl⟩
    rcases insert_eq_some.mp found with ⟨rfl, -⟩ | ⟨-, found⟩
    · exact (by decide : rootInodeNumber < firstUserInode)
    · simp at found
  | @snoc m v calls c earlier taken ih =>
    rw [List.length_append, List.length_singleton] at short ⊢
    obtain ⟨restricted, below, next⟩ := ih (by omega)
    obtain ⟨inv, -⟩ := inv_named_of_run formatted restricted
    obtain ⟨r, -, effect⟩ := step_effect inv taken
    have bound : m.nextInode + 1 < 2 ^ 64 := by
      simp only [firstUserInode] at *
      omega
    obtain ⟨below', next'⟩ := below.effect effect bound
    have fresh : m.inodes[m.nextInode]? = none := by
      cases found : m.inodes[m.nextInode]? with
      | none => rfl
      | some inode => exact absurd (below _ inode found) (Nat.lt_irrefl _)
    have guard : m.FreshInode c := by
      cases c with
      | createFile | createDirectory => exact fun _ => fresh
      | writeFile | deleteFile | deleteDirectory => exact trivial
    exact ⟨restricted.snoc ⟨guard, taken⟩, below', by omega⟩

end NexaCore.Fs.OnDiskVolume
