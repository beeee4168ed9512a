import NexaCore.Fs.Proofs.Paths

/-!
# The tree of paths

The directories of a volume are a tree only through the strings of the path map, and the creations
do not look for the parent. Where each of them finds its parent, every path has one, and a
directory that `delete_directory` removes has nothing below it.
-/

namespace NexaCore.Fs.OnDiskVolume

open Misc Std List Option ExtTreeMap

def beforeSlash (path : List Char) : List Char := (path.reverse.dropWhile (· ≠ '/')).tail.reverse

/-- The parent of a path: the text before its last slash, or the root. -/
def parentPath (path : String) : String :=
  if beforeSlash path.toList = [] then "/" else String.ofList (beforeSlash path.toList)

/-- The path `q` lies below the directory `path`, at any depth. -/
def LiesBelow (path q : String) : Prop := ∃ rest, q.toList = path.toList ++ '/' :: rest

theorem beforeSlash_append {before rest : List Char} (last : '/' ∉ rest) :
    beforeSlash (before ++ '/' :: rest) = before := by
  have passed : ∀ c ∈ rest.reverse, (decide (c ≠ '/')) = true := by
    intro c mem
    refine decide_eq_true fun same => last ?_
    rwa [same, mem_reverse] at mem
  rw [beforeSlash, reverse_append, reverse_cons, append_assoc, dropWhile_append_of_pos passed]
  simp

theorem eq_beforeSlash_append {path : List Char} (slash : '/' ∈ path) :
    ∃ rest, '/' ∉ rest ∧ path = beforeSlash path ++ '/' :: rest := by
  obtain ⟨rest, before, split, last⟩ := eq_append_cons_of_mem (mem_reverse.mpr slash)
  have whole : path = before.reverse ++ '/' :: rest.reverse := by
    rw [← reverse_reverse path, split]
    simp
  have last' : '/' ∉ rest.reverse := by rwa [mem_reverse]
  exact ⟨rest.reverse, last', by rw [whole, beforeSlash_append last']⟩

variable {computeTag : TagFunction} {v v' m : OnDiskVolume} {path p : String} {n k : Nat}

theorem liesBelow_of_parentPath (slash : '/' ∈ p.toList) (parent : parentPath p = path)
    (other : path ≠ "/") : LiesBelow path p := by
  obtain ⟨rest, -, split⟩ := eq_beforeSlash_append slash
  unfold parentPath at parent
  split at parent
  · exact absurd parent.symm other
  · refine ⟨rest, ?_⟩
    rw [← parent, String.toList_ofList]
    exact split

def IsDirectory (v : OnDiskVolume) (path : String) : Prop :=
  ∃ n inode, v.lookup path = .ok (n, inode) ∧ inode.fileType = .directory

/-- Every path starts with a slash, and except for the root its parent is a directory. -/
def PathTree (v : OnDiskVolume) : Prop :=
  ∀ (p : String) (n : Nat), v.pathMap[p]? = some n →
    '/' ∈ p.toList.head? ∧ (p ≠ "/" → v.IsDirectory (parentPath p))

/-- A creation that passes its checks names an absolute path, and its parent is a directory. -/
def ParentExists (v : OnDiskVolume) : Call → Prop
  | .createFile path | .createDirectory path =>
      v.Creatable path → '/' ∈ path.toList.head? ∧ v.IsDirectory (parentPath path)
  | _ => True

theorem children_of_deleteDirectory (removes : v.deleteDirectory path = (.ok (), v')) :
    path ≠ "/" ∧ v.pathMap.keys.filterMap (childName path) = [] := by
  unfold deleteDirectory at removes
  by_cases root : path = "/"
  · simp [root] at removes
  refine ⟨root, ?_⟩
  cases found : v.lookup path with
  | error err => simp [root, found] at removes
  | ok entry =>
    by_contra some
    by_cases directory : entry.2.fileType = .directory <;>
      simp [root, found, directory, listDirectory, some] at removes

theorem PathTree.not_below (tree : v.PathTree) (other : path ≠ "/")
    (empty : v.pathMap.keys.filterMap (childName path) = []) (rest : List Char) (n : Nat) :
    v.pathMap[String.ofList (path.toList ++ '/' :: rest)]? ≠ some n := by
  intro found
  have long : String.ofList (path.toList ++ '/' :: rest) ≠ path := by
    intro same
    have lengths := congrArg (fun p => p.toList.length) same
    simp at lengths
  by_cases slash : '/' ∈ rest
  · -- the parent lies below the directory as well
    obtain ⟨last, clean, split⟩ := eq_beforeSlash_append slash
    have before : beforeSlash (path.toList ++ '/' :: rest) =
        path.toList ++ '/' :: beforeSlash rest := by
      rw [split, ← cons_append, ← append_assoc, beforeSlash_append clean, ← split]
    have below : String.ofList (path.toList ++ '/' :: rest) ≠ "/" := by
      intro root
      have lengths := congrArg (fun p => p.toList.length) root
      have some := length_pos_of_mem slash
      simp at lengths
      omega
    obtain ⟨k, inode, parent, -⟩ := (tree _ n found).2 below
    rw [parentPath, String.toList_ofList, before, if_neg (by simp)] at parent
    have shorter : (beforeSlash rest).length < rest.length := by
      rw [split, length_append, ← split]
      simp
    exact tree.not_below other empty (beforeSlash rest) k (lookup_eq_ok.mp parent).1
  · have child : childName path (String.ofList (path.toList ++ '/' :: rest)) =
        some (String.ofList rest) := by
      rw [childName, if_neg other, if_neg long, if_pos] <;> simp [slash]
    have listed : String.ofList (path.toList ++ '/' :: rest) ∈ v.pathMap.keys :=
      mem_keys.mpr (mem_iff_isSome_getElem?.mpr (by rw [found]; rfl))
    exact not_mem_nil (empty ▸ mem_filterMap.mpr ⟨_, listed, child⟩)
termination_by rest.length

theorem PathTree.of_lookup (tree : v.PathTree) (found : v.pathMap[p]? = some n)
    (kept : p ≠ "/" → ∀ k inode, v.lookup (parentPath p) = .ok (k, inode) →
      inode.fileType = .directory → v'.lookup (parentPath p) = .ok (k, inode)) :
    '/' ∈ p.toList.head? ∧ (p ≠ "/" → v'.IsDirectory (parentPath p)) := by
  obtain ⟨absolute, parent⟩ := tree p n found
  refine ⟨absolute, fun root => ?_⟩
  obtain ⟨k, inode, there, directory⟩ := parent root
  exact ⟨k, inode, kept root k inode there directory, directory⟩

theorem PathTree.created (tree : v.PathTree) (fileType : FileType) (absent : path ∉ v.pathMap)
    (fresh : v.inodes[v.nextInode]? = none) (absolute : '/' ∈ path.toList.head?)
    (parent : v.IsDirectory (parentPath path)) : (v.created fileType path).PathTree := by
  have kept : ∀ p k inode, v.lookup p = .ok (k, inode) →
      (v.created fileType path).lookup p = .ok (k, inode) := by
    intro p k inode there
    obtain ⟨here, live⟩ := lookup_eq_ok.mp there
    refine lookup_eq_ok.mpr ⟨insert_eq_some.mpr (.inr ⟨?_, here⟩),
      insert_eq_some.mpr (.inr ⟨?_, live⟩)⟩
    · rintro rfl
      exact absent (mem_iff_isSome_getElem?.mpr (by rw [here]; rfl))
    · rintro rfl
      rw [fresh] at live
      cases live
  intro p n found
  rcases insert_eq_some.mp found with ⟨rfl, -⟩ | ⟨-, found⟩
  · obtain ⟨k, inode, there, directory⟩ := parent
    exact ⟨absolute, fun _ => ⟨k, inode, kept _ k inode there, directory⟩⟩
  · exact tree.of_lookup found fun _ k inode there _ => kept _ k inode there

theorem PathTree.removed (tree : v.PathTree) (named : v.Named) (inodes : m.inodes = v.inodes)
    (pathMap : m.pathMap = v.pathMap) (here : v.pathMap[path]? = some n) (freeBlocks : Nat)
    (leaf : ∀ p k, v.pathMap[p]? = some k → p ≠ "/" → parentPath p ≠ path) :
    (m.removed path n freeBlocks).PathTree := by
  intro p k found
  simp only [OnDiskVolume.removed, pathMap, erase_eq_some] at found
  refine tree.of_lookup found.2 fun root j inode there _ => ?_
  obtain ⟨listed, live⟩ := lookup_eq_ok.mp there
  have other := leaf p k found.2 root
  simp only [lookup_eq_ok, OnDiskVolume.removed, inodes, pathMap, erase_eq_some]
  refine ⟨⟨other, listed⟩, ?_, live⟩
  rintro rfl
  exact other (named.unique _ _ _ listed here)

variable {c : Call} {r : Except FsError Unit}

/-- What `delete_directory` removes has nothing below it. -/
theorem PathTree.not_below_of_deleteDirectory (tree : v.PathTree)
    (removes : v.deleteDirectory path = (.ok (), v')) (q : String) (k : Nat)
    (found : v.pathMap[q]? = some k) : ¬LiesBelow path q := by
  rintro ⟨rest, split⟩
  obtain ⟨other, empty⟩ := children_of_deleteDirectory removes
  refine tree.not_below other empty rest k ?_
  rwa [← split, String.ofList_toList]

theorem PathTree.effect (tree : v.PathTree) (named : v.Named)
    (effect : Effect computeTag v c r v') (run : c.run computeTag v = some (r, v'))
    (fresh : v.FreshInode c) (parent : v.ParentExists c) : v'.PathTree := by
  cases effect with
  | refused | idle => exact tree
  | createdFile creatable | createdDirectory creatable =>
    obtain ⟨absolute, directory⟩ := parent creatable
    exact tree.created _ creatable.absent (fresh creatable) absolute directory
  | written admitted =>
    intro p k found
    rw [pathMap_written] at found
    refine tree.of_lookup found fun _ j inode there directory => ?_
    obtain ⟨listed, live⟩ := lookup_eq_ok.mp there
    rw [lookup_eq_ok, pathMap_written, inodes_written]
    refine ⟨listed, insert_eq_some.mpr (.inr ⟨?_, live⟩)⟩
    rintro rfl
    have same := some_inj.mp (live.symm.trans (lookup_eq_ok.mp admitted.found).2)
    rw [same, admitted.regular] at directory
    cases directory
  | ranOut => exact tree
  | deletedFile found regular =>
    refine tree.removed named (releases_foldl _ _).inodes (releases_foldl _ _).pathMap
      (lookup_eq_ok.mp found).1 _ fun p k listed root same => ?_
    obtain ⟨j, inode, there, directory⟩ := (tree p k listed).2 root
    rw [same, found] at there
    cases there
    rw [regular] at directory
    cases directory
  | deletedDirectory other found =>
    refine tree.removed named rfl rfl (lookup_eq_ok.mp found).1 _ fun p k listed _ same => ?_
    refine tree.not_below_of_deleteDirectory (some_inj.mp run) p k listed
      (liesBelow_of_parentPath ?_ same other)
    exact mem_of_mem_head? (tree p k listed).1

variable {totalBlocks : Nat} {calls : List Call} {v₀ : OnDiskVolume}

theorem pathTree_format (formatted : format totalBlocks = some v) : v.PathTree := by
  obtain ⟨bitmap, -, formatted⟩ := bind_eq_some_iff.mp formatted
  cases formatted
  intro p n found
  obtain ⟨rfl, -⟩ := insert_empty_eq_some.mp found
  exact ⟨by decide +kernel, fun other => absurd rfl other⟩

/-- After calls that take no inode number in use and create absolute paths in directories, the
parent of every path but the root is a directory, and a directory that can be removed has
nothing below it. -/
theorem path_tree_of_run (computeTag : TagFunction) (totalBlocks : Nat) (calls : List Call)
    (v₀ v : OnDiskVolume) (formatted : format totalBlocks = some v₀)
    (run : Run ((step computeTag).restrict fun v c => v.FreshInode c ∧ v.ParentExists c) v₀
      calls v) :
    v.PathTree ∧ ∀ path v', v.deleteDirectory path = (.ok (), v') →
      ∀ (q : String) (n : Nat), v.pathMap[q]? = some n → ¬LiesBelow path q := by
  have kept : (v.Inv computeTag ∧ v.Named) ∧ v.PathTree := by
    refine run.invariant (fun v => (v.Inv computeTag ∧ v.Named) ∧ v.PathTree)
      (fun m c m' kept taken => ?_)
      ⟨⟨inv_format formatted, named_format formatted⟩, pathTree_format formatted⟩
    obtain ⟨⟨inv, named⟩, tree⟩ := kept
    obtain ⟨⟨fresh, parent⟩, taken⟩ := taken
    obtain ⟨r, run, effect⟩ := step_effect inv taken
    exact ⟨⟨inv.effect effect, named.effect effect fresh⟩,
      tree.effect named effect run fresh parent⟩
  exact ⟨kept.2, fun path v' removes => kept.2.not_below_of_deleteDirectory removes⟩

instance : Decidable (v.IsDirectory path) :=
  decidable_of_iff ((v.lookup path).toOption.any (·.2.fileType = .directory) = true) (by
    unfold IsDirectory
    cases v.lookup path <;> simp [Except.toOption, Prod.ext_iff])

instance : Decidable (v.Creatable path) :=
  decidable_of_iff (byteLen path ≤ maxPathLen ∧ path ∉ v.pathMap ∧
      v.serializedInodeTableLen + inodeRecordFixedLen + byteLen path ≤ blockSize)
    ⟨fun ⟨short, absent, table⟩ => ⟨short, absent, table⟩,
      fun ok => ⟨ok.short, ok.absent, ok.table⟩⟩

instance (c : Call) : Decidable (v.FreshInode c ∧ v.ParentExists c) :=
  match c with
  | .createFile _ | .createDirectory _ => inferInstanceAs (Decidable ((_ → _) ∧ (_ → _ ∧ _)))
  | .writeFile .. | .deleteFile _ | .deleteDirectory _ => inferInstanceAs (Decidable (True ∧ True))

/-- A directory below another one, and a file in it that is deleted again. -/
def nested : List Call :=
  [.createDirectory "/a", .createDirectory "/a/b", .createFile "/a/b/f", .deleteFile "/a/b/f"]

theorem path_tree_of_run_nested : ∃ v₀ v v', format 8 = some v₀ ∧
    Run ((step zeroTag).restrict fun v c => v.FreshInode c ∧ v.ParentExists c) v₀ nested v ∧
    v.PathTree ∧ v.pathMap["/a/b"]? = some 3 ∧ v.deleteDirectory "/a/b" = (.ok (), v') ∧
    ∀ (q : String) (n : Nat), v.pathMap[q]? = some n → ¬LiesBelow "/a/b" q := by
  have executed : (format 8).any fun v₀ => (nested.foldlM
      (guarded (fun v (c : Call) => (c.run zeroTag v).map Prod.snd) fun v c =>
        v.FreshInode c ∧ v.ParentExists c) v₀).any fun v : OnDiskVolume =>
          v.pathMap["/a/b"]? = some 3 ∧ (v.deleteDirectory "/a/b").1 = .ok () := by
    decide +kernel
  obtain ⟨v₀, formatted, executed⟩ := (Option.any_eq_true _ _).mp executed
  obtain ⟨v, run, listed, removes⟩ :=
    Run.exists_of_any (fun _ _ _ => restrict_of_guarded) executed
  have tree := path_tree_of_run zeroTag 8 _ v₀ v formatted run
  have removed : v.deleteDirectory "/a/b" = (.ok (), _) := Prod.ext removes rfl
  exact ⟨v₀, v, _, formatted, run, tree.1, listed, removed, tree.2 "/a/b" _ removed⟩

/-- `/a/b/c` is created without `/a/b`, and `/a` is then removed although it lies below. -/
theorem path_tree_broken : ∃ v v', Reached zeroTag 8 [.createDirectory "/a",
      .createDirectory "/a/b/c"] v ∧ v.pathMap["/a/b/c"]? = some 3 ∧
    v.pathMap[parentPath "/a/b/c"]? = none ∧ v.deleteDirectory "/a" = (.ok (), v') ∧
    LiesBelow "/a" "/a/b/c" := by
  obtain ⟨v, reached, listed, orphan, removes⟩ : ∃ v, Reached zeroTag 8 [.createDirectory "/a",
      .createDirectory "/a/b/c"] v ∧ v.pathMap["/a/b/c"]? = some 3 ∧
      v.pathMap[parentPath "/a/b/c"]? = none ∧ (v.deleteDirectory "/a").1 = .ok () :=
    exists_reached (by decide +kernel)
  exact ⟨v, _, reached, listed, orphan, Prod.ext removes rfl, "b/c".toList, by decide +kernel⟩

end NexaCore.Fs.OnDiskVolume
