import NexaCore.Fs.Proofs.Written
import NexaCore.Misc.Run

/-!
# Sequences of calls

The five calls that change a volume, what each of them can do (`Effect`), and the
invariant along every sequence of calls on a formatted volume.
-/

namespace NexaCore.Fs.OnDiskVolume

open Misc BlockBitmap Option Prod

variable {computeTag : TagFunction} {v v' : OnDiskVolume}

inductive Call where
  | createFile (path : String)
  | createDirectory (path : String)
  | writeFile (path : String) (offset : Nat) (data : List UInt8)
  | deleteFile (path : String)
  | deleteDirectory (path : String)
  deriving DecidableEq, Repr

/-- The call executed: whether it succeeded, and the volume after it. -/
def Call.run (computeTag : TagFunction) (v : OnDiskVolume) :
    Call → Checked (Except FsError Unit × OnDiskVolume)
  | .createFile path => some ((v.createFile path).map (Except.map fun _ => ()) id)
  | .createDirectory path => some ((v.createDirectory path).map (Except.map fun _ => ()) id)
  | .writeFile path offset data =>
      (v.writeFile computeTag path offset data).map (map (Except.map fun _ => ()) id)
  | .deleteFile path => some (v.deleteFile path)
  | .deleteDirectory path => some (v.deleteDirectory path)

/-- A call that returns, with any result. -/
def step (computeTag : TagFunction) : Lts OnDiskVolume Call :=
  .ofPartial fun v c => (c.run computeTag v).map snd

/-! ## What a call can do -/

structure Creatable (v : OnDiskVolume) (path : String) : Prop where
  short : byteLen path ≤ maxPathLen
  absent : path ∉ v.pathMap
  table : v.serializedInodeTableLen + inodeRecordFixedLen + byteLen path ≤ blockSize

def newInode (v : OnDiskVolume) (fileType : FileType) (path : String) : Inode where
  inodeNumber := v.nextInode
  fileType := fileType
  size := 0
  blockCount := 0
  created := 0
  modified := 0
  blocks := []
  name := basename path

def created (v : OnDiskVolume) (fileType : FileType) (path : String) : OnDiskVolume :=
  { v with
    nextInode := (v.nextInode + 1) % 2 ^ 64
    inodes := v.inodes.insert v.nextInode (v.newInode fileType path)
    pathMap := v.pathMap.insert path v.nextInode
    superblock := { v.superblock with inodeCount := (v.superblock.inodeCount + 1) % 2 ^ 64 } }

def removed (v : OnDiskVolume) (path : String) (n : Nat) (freeBlocks : Nat) : OnDiskVolume :=
  { v with
    inodes := v.inodes.erase n
    pathMap := v.pathMap.erase path
    superblock := { v.superblock with
      inodeCount := v.superblock.inodeCount - 1
      freeBlocks } }

def deleted (v : OnDiskVolume) (path : String) (n : Nat) (inode : Inode) : OnDiskVolume :=
  let m := inode.blocks.foldl releaseBlock v
  m.removed path n m.bitmap.freeCount

theorem create_cases (v : OnDiskVolume) (fileType : FileType) (path : String) :
    (∃ err, v.create fileType path = (.error err, v) ∧ ¬v.Creatable path) ∨
    (v.create fileType path = (.ok v.nextInode, v.created fileType path) ∧ v.Creatable path) := by
  unfold create
  by_cases long : byteLen path > maxPathLen
  · rw [if_pos long]
    exact .inl ⟨_, rfl, fun ok => Nat.not_lt.mpr ok.short long⟩
  rw [if_neg long]
  by_cases present : path ∈ v.pathMap
  · rw [if_pos present]
    exact .inl ⟨_, rfl, fun ok => ok.absent present⟩
  rw [if_neg present]
  by_cases table : v.serializedInodeTableLen + inodeRecordFixedLen + byteLen path > blockSize
  · rw [if_pos table]
    exact .inl ⟨_, rfl, fun ok => Nat.not_lt.mpr ok.table table⟩
  rw [if_neg table]
  exact .inr ⟨rfl, Nat.not_lt.mp long, present, Nat.not_lt.mp table⟩

theorem deleteFile_cases (v : OnDiskVolume) (path : String) :
    (∃ err, v.deleteFile path = (.error err, v)) ∨
    ∃ n inode, v.lookup path = .ok (n, inode) ∧ inode.fileType = .regularFile ∧
      v.deleteFile path = (.ok (), v.deleted path n inode) := by
  unfold deleteFile
  split
  · exact .inl ⟨_, rfl⟩
  · rename_i n inode found
    by_cases regular : inode.fileType ≠ .regularFile
    · rw [if_pos regular]
      exact .inl ⟨_, rfl⟩
    · rw [if_neg regular]
      exact .inr ⟨n, inode, found, not_not.mp regular, rfl⟩

theorem deleteDirectory_cases (v : OnDiskVolume) (path : String) :
    (∃ err, v.deleteDirectory path = (.error err, v)) ∨
    ∃ n inode, path ≠ "/" ∧ v.lookup path = .ok (n, inode) ∧ inode.fileType = .directory ∧
      v.deleteDirectory path = (.ok (), v.removed path n v.superblock.freeBlocks) := by
  unfold deleteDirectory
  split
  · exact .inl ⟨_, rfl⟩
  · rename_i other
    split
    · exact .inl ⟨_, rfl⟩
    · rename_i n inode found
      by_cases directory : inode.fileType ≠ .directory
      · rw [if_pos directory]
        exact .inl ⟨_, rfl⟩
      · rw [if_neg directory]
        split
        · exact .inl ⟨_, rfl⟩
        · rename_i children listed
          by_cases empty : children ≠ []
          · rw [if_pos empty]
            exact .inl ⟨_, rfl⟩
          · rw [if_neg empty]
            exact .inr ⟨n, inode, other, found, not_not.mp directory, rfl⟩

/-- Everything a call can do. -/
inductive Effect (computeTag : TagFunction) (v : OnDiskVolume) :
    Call → Except FsError Unit → OnDiskVolume → Prop
  | refused {c : Call} {err : FsError} : Effect computeTag v c (.error err) v
  | idle {path : String} {offset : Nat} : Effect computeTag v (.writeFile path offset []) (.ok ()) v
  | createdFile {path : String} (creatable : v.Creatable path) :
      Effect computeTag v (.createFile path) (.ok ()) (v.created .regularFile path)
  | createdDirectory {path : String} (creatable : v.Creatable path) :
      Effect computeTag v (.createDirectory path) (.ok ()) (v.created .directory path)
  | written {path : String} {offset n : Nat} {data : List UInt8} {inode : Inode}
      {newBlocks : List (Nat × Nat)} {b' : BlockBitmap}
      (admitted : v.Admitted path offset data n inode)
      (allocates : Allocates (Extent.ofWrite offset data).blockIdxs v.bitmap b' newBlocks) :
      Effect computeTag v (.writeFile path offset data) (.ok ())
        (written computeTag v n inode data (.ofWrite offset data) newBlocks b')
  | ranOut {path : String} {offset n : Nat} {data : List UInt8} {inode : Inode} {b' : BlockBitmap}
      (admitted : v.Admitted path offset data n inode)
      (out : RunsOut (Extent.ofWrite offset data).blockIdxs v.bitmap b') :
      Effect computeTag v (.writeFile path offset data) (.error .noSpace) { v with bitmap := b' }
  | deletedFile {path : String} {n : Nat} {inode : Inode} (found : v.lookup path = .ok (n, inode))
      (regular : inode.fileType = .regularFile) :
      Effect computeTag v (.deleteFile path) (.ok ()) (v.deleted path n inode)
  | deletedDirectory {path : String} {n : Nat} {inode : Inode} (other : path ≠ "/")
      (found : v.lookup path = .ok (n, inode)) (directory : inode.fileType = .directory) :
      Effect computeTag v (.deleteDirectory path) (.ok ())
        (v.removed path n v.superblock.freeBlocks)

theorem Stored.run_effect (computeTag : TagFunction) (stored : v.Stored) (c : Call) :
    ∃ r v', c.run computeTag v = some (r, v') ∧ Effect computeTag v c r v' := by
  cases c with
  | createFile path =>
    rcases v.create_cases .regularFile path with ⟨err, run, -⟩ | ⟨run, creatable⟩
    · exact ⟨_, _, by rw [Call.run, createFile, run]; rfl, .refused⟩
    · exact ⟨_, _, by rw [Call.run, createFile, run]; rfl, .createdFile creatable⟩
  | createDirectory path =>
    rcases v.create_cases .directory path with ⟨err, run, -⟩ | ⟨run, creatable⟩
    · exact ⟨_, _, by rw [Call.run, createDirectory, run]; rfl, .refused⟩
    · exact ⟨_, _, by rw [Call.run, createDirectory, run]; rfl, .createdDirectory creatable⟩
  | writeFile path offset data =>
    rcases writeFile_cases computeTag stored path offset data with
      ⟨err, run, -⟩ | ⟨rfl, run⟩ | ⟨n, inode, admitted, ⟨newBlocks, b', -, allocates, run⟩ |
        ⟨b', out, run⟩⟩
    · exact ⟨_, _, by rw [Call.run, run]; rfl, .refused⟩
    · exact ⟨_, _, by rw [Call.run, run]; rfl, .idle⟩
    · exact ⟨_, _, by rw [Call.run, run]; rfl, .written admitted allocates⟩
    · exact ⟨_, _, by rw [Call.run, run]; rfl, .ranOut admitted out⟩
  | deleteFile path =>
    rcases v.deleteFile_cases path with ⟨err, run⟩ | ⟨n, inode, found, regular, run⟩
    · exact ⟨_, _, by rw [Call.run, run], .refused⟩
    · exact ⟨_, _, by rw [Call.run, run], .deletedFile found regular⟩
  | deleteDirectory path =>
    rcases v.deleteDirectory_cases path with ⟨err, run⟩ | ⟨n, inode, other, found, directory, run⟩
    · exact ⟨_, _, by rw [Call.run, run], .refused⟩
    · exact ⟨_, _, by rw [Call.run, run], .deletedDirectory other found directory⟩

variable {c : Call} {r : Except FsError Unit}

theorem Stored.effect_of_run (stored : v.Stored) (run : c.run computeTag v = some (r, v')) :
    Effect computeTag v c r v' := by
  obtain ⟨r', v'', run', effect⟩ := stored.run_effect computeTag c
  rw [run] at run'
  cases run'
  exact effect

/-! ## The invariant along a run -/

theorem Inv.created (inv : v.Inv computeTag) (fileType : FileType) (path : String) :
    (v.created fileType path).Inv computeTag := by
  refine inv.of_inodes rfl rfl rfl rfl rfl rfl fun n inode found => ?_
  rcases insert_eq_some.mp found with ⟨rfl, rfl⟩ | ⟨-, found⟩
  · exact .inr ⟨rfl, rfl, rfl, rfl⟩
  · exact .inl found

theorem Inv.removed (inv : v.Inv computeTag) (path : String) (n freeBlocks : Nat) :
    (v.removed path n freeBlocks).Inv computeTag := by
  refine inv.of_inodes rfl rfl rfl rfl rfl rfl fun m inode found => ?_
  exact .inl (erase_eq_some.mp found).2

theorem Releases.removed {m : OnDiskVolume} {bs : List Nat} (released : Releases v m bs)
    (path : String) (n freeBlocks : Nat) :
    Releases (v.removed path n freeBlocks) (m.removed path n freeBlocks) bs := by
  refine ⟨?_, ?_, ?_, released.nextInode, released.dataBlocks, released.integrityTags,
    released.total, released.allocated, released.wf⟩
  · simp only [OnDiskVolume.removed, released.superblock]
  · simp only [OnDiskVolume.removed, released.inodes]
  · simp only [OnDiskVolume.removed, released.pathMap]

/-- In the deletion of a file the inode can be taken away first, so that nothing points to
its blocks when they are released. -/
theorem Inv.deleted {path : String} {n : Nat} {inode : Inode} (inv : v.Inv computeTag)
    (found : v.inodes[n]? = some inode) : (v.deleted path n inode).Inv computeTag := by
  have released := (releases_foldl v inode.blocks).removed path n
    (inode.blocks.foldl releaseBlock v).bitmap.freeCount
  refine (inv.removed path n _).released released ?_ fun b mem block =>
    inv.referenced n inode found b mem block
  intro n' other found' b mem' block mem
  obtain ⟨apart, found'⟩ := erase_eq_some.mp found'
  obtain ⟨k, here⟩ := List.getElem?_of_mem mem
  obtain ⟨k', here'⟩ := List.getElem?_of_mem mem'
  exact apart (inv.owned n' n other inode k' k b found' found here' here block).1

theorem Inv.effect (inv : v.Inv computeTag) (effect : Effect computeTag v c r v') :
    v'.Inv computeTag := by
  cases effect with
  | refused | idle => exact inv
  | createdFile | createdDirectory => exact inv.created _ _
  | written admitted allocates => exact inv.written admitted allocates
  | ranOut admitted out => exact inv.allocate out.wf out.total out.kept
  | deletedFile found regular => exact inv.deleted (lookup_eq_ok.mp found).2
  | deletedDirectory => exact inv.removed _ _ _

theorem step_effect (inv : v.Inv computeTag) (taken : step computeTag v c v') :
    ∃ r, c.run computeTag v = some (r, v') ∧ Effect computeTag v c r v' := by
  obtain ⟨⟨r, v''⟩, run, rfl⟩ := map_eq_some_iff.mp taken
  exact ⟨r, run, inv.toStored.effect_of_run run⟩

variable {totalBlocks : Nat}

/-- The bitmap of a formatted volume: the structural blocks are allocated. -/
theorem format_bitmap (formatted : format totalBlocks = some v) :
    v.bitmap.Wf ∧ v.bitmap.totalBlocks = totalBlocks ∧
      ∀ b, 0 < b → b ≤ totalBlocks → b ≤ 2 ∨ b = totalBlocks → v.bitmap.isAllocated b = true := by
  obtain ⟨fresh, made, formatted⟩ := bind_eq_some_iff.mp formatted
  cases formatted
  have total := (new_eq_some made).1
  obtain ⟨wf₁, total₁, first⟩ := (wf_new made).allocate_getD (k := 0) (by omega)
  obtain ⟨wf₂, total₂, second⟩ := wf₁.allocate_getD (k := 1) fun m positive upper inMap =>
    first m positive (by omega) (total₁ ▸ inMap)
  have tracked := (total₂.trans total₁).trans total
  refine ⟨wf₂.markAllocated totalBlocks, (totalBlocks_markAllocated _ _).trans tracked,
    fun b positive inMap structural => ?_⟩
  rw [isAllocated_markAllocated, tracked]
  split
  · rfl
  · rename_i ordinary
    exact second b positive (by omega) (by omega)

theorem inv_format (formatted : format totalBlocks = some v) : v.Inv computeTag := by
  obtain ⟨wf, total, reserved⟩ := format_bitmap formatted
  obtain ⟨bitmap, -, formatted⟩ := bind_eq_some_iff.mp formatted
  cases formatted
  refine ⟨wf, total.symm, rfl, rfl, ?_, ?_, ?_, ?_, ?_, ?_⟩
  · intro b block found
    simp at found
  · intro b
    simp
  · intro b positive inMap structural
    rw [total] at inMap structural
    exact reserved b positive inMap structural
  · intro n inode found b mem
    rw [(insert_empty_eq_some.mp found).2] at mem
    cases mem
  · intro n n' inode inode' k k' b found _ here
    rw [(insert_empty_eq_some.mp found).2] at here
    cases here
  · intro n inode found
    obtain ⟨rfl, rfl⟩ := insert_empty_eq_some.mp found
    refine ⟨rfl, Nat.zero_le _, Nat.zero_le _, rfl, fun k _ => ?_, fun _ => rfl⟩
    simp [byteAt, rootInode]

/-- A volume reached from a formatted one by calls with any results. -/
def Reached (computeTag : TagFunction) (totalBlocks : Nat) (calls : List Call) (v : OnDiskVolume) :
    Prop :=
  ∃ v₀, format totalBlocks = some v₀ ∧ Run (step computeTag) v₀ calls v

variable {calls : List Call}

theorem Reached.inv (reached : Reached computeTag totalBlocks calls v) : v.Inv computeTag := by
  obtain ⟨v₀, formatted, run⟩ := reached
  refine run.invariant (Inv computeTag) (fun m c m' inv taken => ?_) (inv_format formatted)
  obtain ⟨r, -, effect⟩ := step_effect inv taken
  exact inv.effect effect

def execute (computeTag : TagFunction) (totalBlocks : Nat) (calls : List Call) :
    Checked OnDiskVolume :=
  (format totalBlocks).bind fun v =>
    calls.foldlM (fun v c => (c.run computeTag v).map snd) v

theorem exists_reached {P : OnDiskVolume → Prop} [DecidablePred P]
    (evaluated : (execute computeTag totalBlocks calls).any fun v => P v) :
    ∃ v, Reached computeTag totalBlocks calls v ∧ P v := by
  obtain ⟨v, executed, holds⟩ := exists_of_any evaluated
  obtain ⟨v₀, formatted, run⟩ := bind_eq_some_iff.mp executed
  exact ⟨v, ⟨v₀, formatted, Run.of_foldlM (fun _ _ _ taken => taken) run⟩, holds⟩

def zeroTag : TagFunction := fun _ _ => Vector.replicate tagLen 0

end NexaCore.Fs.OnDiskVolume
