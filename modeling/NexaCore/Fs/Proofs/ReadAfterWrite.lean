import NexaCore.Fs.Proofs.Paths
import NexaCore.Fs.Proofs.Read

/-!
# Reading after writing

A successful write puts its data over the bytes of one file and leaves every other file and
the directories alone, as long as no two paths share an inode. A creation that comes back
to a number in use makes two paths share one.
-/

namespace NexaCore.Fs.OnDiskVolume

open Misc Std Option List Prod

variable {computeTag : TagFunction} {v v' : OnDiskVolume} {path : String} {offset n : Nat}
  {inode : Inode} {data : List UInt8} {newBlocks : List (Nat × Nat)} {b' : BlockBitmap}

/-- The old bytes, extended with zeros up to the end of the data, with the data over them. -/
def overwrite (old : List UInt8) (offset : Nat) (data : List UInt8) : List UInt8 :=
  overlay (old ++ List.replicate (offset + data.length - old.length) 0) offset data

theorem length_extended (old : List UInt8) (stop : Nat) :
    (old ++ List.replicate (stop - old.length) 0).length = max old.length stop := by
  rw [length_append, length_replicate]
  omega

theorem getElem?_overwrite (old data : List UInt8) (offset : Nat) {k : Nat}
    (below : k < max old.length (offset + data.length)) :
    (overwrite old offset data)[k]? = some
      (if offset ≤ k ∧ k < offset + data.length then data.getD (k - offset) 0
      else old.getD k 0) := by
  rw [overwrite, getElem?_overlay (by rw [length_extended]; omega)]
  split
  · rw [getD_eq_getElem?_getD, getElem?_eq_getElem (by omega), getD_some]
  · rw [getD_eq_getElem?_getD]
    by_cases inside : k < old.length
    · rw [getElem?_append_left inside, getElem?_eq_getElem inside, getD_some]
    · rw [getElem?_append_right (Nat.not_lt.mp inside), getElem?_replicate,
        if_pos (by omega), getElem?_eq_none (Nat.not_lt.mp inside), getD_none]

theorem getD_contents (inv : v.Inv computeTag) (found : v.inodes[n]? = some inode) (k : Nat) :
    (v.contents inode).getD k 0 = v.byteAt inode.blocks k := by
  rw [getD_eq_getElem?_getD]
  by_cases below : k < inode.size
  · rw [getElem?_contents v inode below, getD_some]
  · rw [getElem?_eq_none (by rw [length_contents]; omega), getD_none,
      (inv.shaped n inode found).zero k (Nat.not_lt.mp below)]

theorem lookup_congr {p : String} (paths : v'.pathMap[p]? = v.pathMap[p]?)
    (inodes : ∀ n : Nat, v.pathMap[p]? = some n → v'.inodes[n]? = v.inodes[n]?) :
    v'.lookup p = v.lookup p := by
  unfold lookup
  rw [paths]
  cases here : v.pathMap[p]? with
  | none => rfl
  | some n => simp only [inodes n here]

section Written

variable (inv : v.Inv computeTag) (admitted : v.Admitted path offset data n inode)
  (allocates : Allocates (Extent.ofWrite offset data).blockIdxs v.bitmap b' newBlocks)

include admitted in
theorem lookup_written :
    (written computeTag v n inode data (.ofWrite offset data) newBlocks b').lookup path =
      .ok (n, updateInode inode newBlocks (.ofWrite offset data)) := by
  rw [lookup_eq_ok, pathMap_written, inodes_written, getElem?_insert_eq, if_pos rfl]
  exact ⟨(lookup_eq_ok.mp admitted.found).1, rfl⟩

include admitted in
theorem lookup_written_of_ne {q : String} (named : v.Named) (other : q ≠ path) :
    (written computeTag v n inode data (.ofWrite offset data) newBlocks b').lookup q =
      v.lookup q := by
  have here := (lookup_eq_ok.mp admitted.found).1
  refine lookup_congr (by rw [pathMap_written]) fun k there => ?_
  have apart : k ≠ n := by
    rintro rfl
    exact other (named.unique q path k there here)
  rw [inodes_written, getElem?_insert_eq, if_neg apart]

include inv admitted allocates

theorem contents_written :
    (written computeTag v n inode data (.ofWrite offset data) newBlocks b').contents
      (updateInode inode newBlocks (.ofWrite offset data)) =
      overwrite (v.contents inode) offset data := by
  have found := (lookup_eq_ok.mp admitted.found).2
  have size : (updateInode inode newBlocks (.ofWrite offset data)).size =
      max inode.size (offset + data.length) := by
    simp only [updateInode, admitted.covered]
    split <;> omega
  apply ext_getElem?
  intro k
  by_cases below : k < max inode.size (offset + data.length)
  · rw [getElem?_contents _ _ (by rwa [size]),
      getElem?_overwrite _ _ _ (by rwa [length_contents]), inv.byteAt_written admitted allocates,
      getD_contents inv found]
  · rw [getElem?_eq_none (by rw [length_contents, size]; omega),
      getElem?_eq_none ?_]
    rw [overwrite, length_overlay (by rw [length_extended]; omega), length_extended,
      length_contents]
    omega

theorem contentsOf_written : ∃ old, v.contentsOf path = some old ∧
    (written computeTag v n inode data (.ofWrite offset data) newBlocks b').contentsOf path =
      some (overwrite old offset data) := by
  refine ⟨v.contents inode, ?_, ?_⟩
  · simp only [contentsOf, admitted.found, admitted.regular, if_true]
  · have regular : (updateInode inode newBlocks (.ofWrite offset data)).fileType = .regularFile :=
      admitted.regular
    simp only [contentsOf, lookup_written admitted, regular, if_true,
      contents_written inv admitted allocates]

theorem contentsOf_written_of_ne {q : String} (named : v.Named) (other : q ≠ path) :
    (written computeTag v n inode data (.ofWrite offset data) newBlocks b').contentsOf q =
      v.contentsOf q := by
  simp only [contentsOf, lookup_written_of_ne admitted named other]
  cases there : v.lookup q with
  | error err => rfl
  | ok entry =>
    obtain ⟨k, i⟩ := entry
    obtain ⟨here', found'⟩ := lookup_eq_ok.mp there
    have apart : k ≠ n := by
      rintro rfl
      exact other (named.unique q path k here' (lookup_eq_ok.mp admitted.found).1)
    simp only [contents]
    rw [map_congr_left fun k _ => inv.byteAt_written_of_ne admitted allocates found' apart k]

omit inv allocates in
theorem listDirectory_written (named : v.Named) (q : String) :
    (written computeTag v n inode data (.ofWrite offset data) newBlocks b').listDirectory q =
      v.listDirectory q := by
  unfold listDirectory
  by_cases same : q = path
  · have regular : (updateInode inode newBlocks (.ofWrite offset data)).fileType = .regularFile :=
      admitted.regular
    simp only [same, lookup_written admitted, admitted.found, regular, admitted.regular]
    rfl
  · rw [lookup_written_of_ne admitted named same, pathMap_written]

end Written

/-! ## Every reached volume -/

/-- No block has two pointers. The pointer 0 of a hole is not a block. -/
def Exclusive (v : OnDiskVolume) : Prop :=
  ∀ (n n' : Nat) (inode inode' : Inode) (k k' b : Nat), v.inodes[n]? = some inode →
    v.inodes[n']? = some inode' → inode.blocks[k]? = some b → inode'.blocks[k']? = some b →
    b ≠ 0 → n = n' ∧ k = k'

/-- What a write of `data` to `path` that returned `count` did to the volume. -/
structure WriteEffect (computeTag : TagFunction) (v v' : OnDiskVolume) (path : String)
    (offset : Nat) (data : List UInt8) (count : Nat) : Prop where
  count : count = data.length
  contents : ∃ old, v.contentsOf path = some old ∧
    v'.contentsOf path = some (overwrite old offset data)
  others : ∀ q, q ≠ path → v'.lookup q = v.lookup q ∧ v'.statFile q = v.statFile q ∧
    v'.contentsOf q = v.contentsOf q
  paths : v'.pathMap = v.pathMap
  directories : ∀ q, v'.listDirectory q = v.listDirectory q
  reads : ∀ new, v'.contentsOf path = some new → ∀ (o : Nat) (c : UInt32),
    v'.readFile computeTag path o c = some (.ok ((new.drop o).take c.toNat))
  exclusive : v'.Exclusive

theorem Inv.readFile_of_contentsOf (inv : v.Inv computeTag) {bytes : List UInt8}
    (here : v.contentsOf path = some bytes) (o : Nat) (c : UInt32) :
    v.readFile computeTag path o c = some (.ok ((bytes.drop o).take c.toNat)) := by
  unfold contentsOf at here
  split at here
  · cases here
  · rename_i n inode found
    split at here
    · rename_i regular
      obtain rfl := Option.some_inj.mp here
      exact inv.readFile_eq found regular o c
    · cases here

theorem Inv.writeEffect (inv : v.Inv computeTag) (named : v.Named) (nonempty : data ≠ [])
    {count : Nat} (run : v.writeFile computeTag path offset data = some (.ok count, v')) :
    WriteEffect computeTag v v' path offset data count := by
  rcases writeFile_cases computeTag inv.toStored path offset data with
    ⟨err, failed, -⟩ | ⟨empty, -⟩ | ⟨n, inode, admitted, ⟨newBlocks, b', -, allocates, done⟩ |
      ⟨b', -, failed⟩⟩
  · rw [failed] at run
    cases run
  · exact absurd empty nonempty
  · rw [done] at run
    obtain ⟨rfl, rfl⟩ : data.length = count ∧ _ = v' := by simpa using run
    have inv' := inv.written admitted allocates
    refine ⟨rfl, contentsOf_written inv admitted allocates, fun q other => ?_, pathMap_written,
      listDirectory_written admitted named, fun new here => inv'.readFile_of_contentsOf here,
      inv'.owned⟩
    have same : (OnDiskVolume.written computeTag v n inode data (.ofWrite offset data) newBlocks
        b').lookup q = v.lookup q := lookup_written_of_ne admitted named other
    refine ⟨same, ?_, contentsOf_written_of_ne inv admitted allocates named other⟩
    unfold statFile
    rw [same]
  · rw [failed] at run
    cases run

/-- After calls that take no inode number in use no block has two pointers and every
successful write of at least one byte has the effect of a write. -/
theorem read_after_write (computeTag : TagFunction) (totalBlocks : Nat) (calls : List Call)
    (v₀ v : OnDiskVolume) (formatted : format totalBlocks = some v₀)
    (run : Run ((step computeTag).restrict FreshInode) v₀ calls v) :
    v.Exclusive ∧
      ∀ path offset data count v', data ≠ [] →
        v.writeFile computeTag path offset data = some (.ok count, v') →
        WriteEffect computeTag v v' path offset data count := by
  obtain ⟨inv, named⟩ := inv_named_of_run formatted run
  exact ⟨inv.owned, fun path offset data count v' nonempty written =>
    inv.writeEffect named nonempty written⟩

theorem read_after_write_exists : ∃ v₀ v v', format 8 = some v₀ ∧
    Run ((step zeroTag).restrict FreshInode) v₀ [.createFile "/a"] v ∧
    v.writeFile zeroTag "/a" 4095 [1, 2] = some (.ok 2, v') ∧
    WriteEffect zeroTag v v' "/a" 4095 [1, 2] 2 := by
  obtain ⟨v, ⟨v₀, formatted, run⟩, evaluated⟩ : ∃ v, Reached zeroTag 8 [.createFile "/a"] v ∧
      (v.writeFile zeroTag "/a" 4095 [1, 2]).any fun q => q.1 = .ok 2 :=
    exists_reached (by decide +kernel)
  obtain ⟨⟨r, v'⟩, written, rfl⟩ := exists_of_any evaluated
  have fresh := (run_freshInode formatted run (by decide)).1
  exact ⟨v₀, v, v', formatted, fresh, written,
    (read_after_write zeroTag 8 _ v₀ v formatted fresh).2 "/a" 4095 [1, 2] 2 v' (by decide) written⟩

/-! ## The inode number wraps around -/

/-- A file that is created and deleted again leaves only a larger inode number. -/
theorem run_create_delete (computeTag : TagFunction)
    (counted : v.bitmap.freeCount = v.superblock.freeBlocks)
    (few : v.superblock.inodeCount + 1 < 2 ^ 64) (creatable : v.Creatable path)
    (fresh : v.inodes[v.nextInode]? = none) :
    Run (step computeTag) v [.createFile path, .deleteFile path]
      { v with nextInode := (v.nextInode + 1) % 2 ^ 64 } := by
  have absent : v.pathMap[path]? = none := ExtTreeMap.getElem?_eq_none creatable.absent
  have found : (v.created .regularFile path).lookup path =
      .ok (v.nextInode, v.newInode .regularFile path) := by
    rw [lookup_eq_ok]
    simp only [created, getElem?_insert_eq, if_true, and_self]
  have back : (v.created .regularFile path).deleted path v.nextInode
      (v.newInode .regularFile path) = { v with nextInode := (v.nextInode + 1) % 2 ^ 64 } := by
    have inodes : (v.inodes.insert v.nextInode (v.newInode .regularFile path)).erase v.nextInode =
        v.inodes := erase_insert_of_none fresh
    have pathMap : (v.pathMap.insert path v.nextInode).erase path = v.pathMap :=
      erase_insert_of_none absent
    have count : (v.superblock.inodeCount + 1) % 2 ^ 64 - 1 = v.superblock.inodeCount := by
      rw [Nat.mod_eq_of_lt few, Nat.add_sub_cancel]
    simp only [deleted, removed, created, newInode, foldl_nil] at inodes pathMap ⊢
    rw [inodes, pathMap, count, counted]
  have create : (Call.createFile path).run computeTag v =
      some (.ok (), v.created .regularFile path) := by
    rcases v.create_cases .regularFile path with ⟨err, -, refused⟩ | ⟨run, -⟩
    · exact absurd creatable refused
    · rw [Call.run, createFile, run]
      rfl
  have delete : (Call.deleteFile path).run computeTag (v.created .regularFile path) =
      some (.ok (), { v with nextInode := (v.nextInode + 1) % 2 ^ 64 }) := by
    rw [Call.run, deleteFile, found, ← back]
    rfl
  exact .cons (congrArg (Option.map snd) create)
    (.single (congrArg (Option.map snd) delete))

/-- Repeating that moves the inode number to any value on the way to which it is free. -/
theorem exists_run_nextInode (computeTag : TagFunction)
    (counted : v.bitmap.freeCount = v.superblock.freeBlocks)
    (few : v.superblock.inodeCount + 1 < 2 ^ 64) (creatable : v.Creatable path)
    (bounded : v.nextInode < 2 ^ 64) (k : Nat)
    (fresh : ∀ i < k, v.inodes[(v.nextInode + i) % 2 ^ 64]? = none) :
    ∃ calls, Run (step computeTag) v calls { v with nextInode := (v.nextInode + k) % 2 ^ 64 } := by
  induction k with
  | zero =>
    rw [Nat.add_zero, Nat.mod_eq_of_lt bounded]
    exact ⟨[], .nil v⟩
  | succ k ih =>
    obtain ⟨calls, run⟩ := ih fun i below => fresh i (Nat.lt_succ_of_lt below)
    have next : ((v.nextInode + k) % 2 ^ 64 + 1) % 2 ^ 64 = (v.nextInode + (k + 1)) % 2 ^ 64 := by
      rw [Nat.mod_add_mod, Nat.add_assoc]
    have more : Run (step computeTag) { v with nextInode := (v.nextInode + k) % 2 ^ 64 }
        [.createFile path, .deleteFile path]
        { v with nextInode := ((v.nextInode + k) % 2 ^ 64 + 1) % 2 ^ 64 } :=
      run_create_delete computeTag counted few ⟨creatable.short, creatable.absent, creatable.table⟩
        (fresh k (Nat.lt_succ_self k))
    rw [next] at more
    exact ⟨_, run.trans more⟩

/-- After 2^64 - 1 files the next one gets the inode of the root directory. -/
theorem write_changes_other_path : ∃ calls v v', Reached zeroTag 8 calls v ∧
    v.writeFile zeroTag "/b" 0 [1] = some (.ok 1, v') ∧ v.contentsOf "/" = some [] ∧
    v'.contentsOf "/" = some [1] := by
  have executed : (format 8).any fun v₀ => v₀.bitmap.freeCount = v₀.superblock.freeBlocks ∧
      v₀.superblock.inodeCount = 1 ∧ v₀.nextInode = 2 ∧ v₀.inodes.keys = [1] ∧ "/a" ∉ v₀.pathMap ∧
      v₀.serializedInodeTableLen + inodeRecordFixedLen + byteLen "/a" ≤ blockSize ∧
      ((Call.createFile "/b").run zeroTag { v₀ with nextInode := 1 }).any fun p =>
        p.2.contentsOf "/" = some [] ∧ (p.2.writeFile zeroTag "/b" 0 [1]).any fun q =>
          q.1 = .ok 1 ∧ q.2.contentsOf "/" = some [1] := by
    decide +kernel
  simp only [Option.any_eq_true, decide_eq_true_eq] at executed
  obtain ⟨v₀, formatted, counted, count, next, inodes, absent, room, ⟨r, v⟩, created, before,
    ⟨r', v'⟩, written, rfl, after⟩ := executed
  have other : ∀ k, k ≠ 1 → v₀.inodes[k]? = none := by
    intro k other
    apply ExtTreeMap.getElem?_eq_none
    rw [← ExtTreeMap.mem_keys, inodes, mem_singleton]
    exact other
  obtain ⟨calls, run⟩ := exists_run_nextInode zeroTag counted (by omega)
    ⟨by decide +kernel, absent, room⟩ (by omega) (2 ^ 64 - 1) fun i below => other _ (by omega)
  have wrapped : (v₀.nextInode + (2 ^ 64 - 1)) % 2 ^ 64 = 1 := by omega
  rw [wrapped] at run
  exact ⟨_, v, v', ⟨v₀, formatted, run.snoc (congrArg (Option.map snd) created)⟩, written,
    before, after⟩

end NexaCore.Fs.OnDiskVolume
