import NexaCore.Kernel.Elf.Proofs.PageBytes
import NexaCore.Kernel.Memory.Proofs.Mapping

/-!
# Loading the segments

What the loop over the load segments does to the address space. `Safe` holds in whatever state the
loop stops: the kernel half is translated as before and all stores are to tables of the tree or to
frames obtained since. `Loaded` also says which pages are mapped and how many frames they took,
and so when the loop ends (`loadAll_spec`).
-/

namespace NexaCore.Memory.PhysMem

variable {page f frame : Nat} {mem : PhysMem}

theorem word_setBytes_frame (word : Nat → Fin 512 → Nat) (addr : Nat) (bytes : List UInt8)
    (other : ∀ a, addr ≤ a → a < addr + bytes.length → a / frameBytes ≠ f) :
    setBytes word addr bytes f = word f := by
  induction bytes generalizing word addr with
  | nil => rfl
  | cons byte bytes ih =>
    rw [setBytes, ih]
    · have apart : f ≠ addr / frameBytes := Ne.symm (other addr le_rfl (by simp))
      simp [setByte, apart]
    · intro a lower upper
      exact other a (by omega) (by rw [List.length_cons]; omega)

structure Overwrites (mem mem' : PhysMem) (f : Nat) : Prop where
  others : ∀ x, x ≠ f → mem'.word x = mem.word x
  writes : mem.Writes mem' (·.Within f)

variable {mem mem' mem'' : PhysMem} {f : Nat}

theorem Overwrites.refl (mem : PhysMem) (f : Nat) : mem.Overwrites mem f :=
  ⟨fun _ _ => rfl, Writes.refl mem _⟩

theorem Overwrites.trans (first : mem.Overwrites mem' f) (second : mem'.Overwrites mem'' f) :
    mem.Overwrites mem'' f :=
  ⟨fun x other => (second.others x other).trans (first.others x other),
    first.writes.trans second.writes⟩

theorem overwrites_writeBytes (mem : PhysMem) {addr : Nat} {bytes : List UInt8}
    (within : (⟨addr, bytes.length⟩ : Store).Within f) :
    mem.Overwrites (mem.writeBytes addr bytes) f := by
  refine ⟨fun x other => word_setBytes_frame _ _ _ ?_, Writes.of_cons rfl within⟩
  rintro a lower upper rfl
  refine other (Nat.div_eq_of_lt_le ?_ ?_)
  · exact within.1.trans lower
  · exact upper.trans_le within.2

end NexaCore.Memory.PhysMem

namespace NexaCore.Elf

open Misc Memory Syscall List BitmapFrameAllocator RadixLayout

variable {N : Nat} {st₀ st st' : PhysState N} {root : Nat}

/-! ## Pages -/

theorem noFrameBits_pteFlags (elfFlags : Nat) : pteFlags elfFlags &&& frameMask = 0 := by
  unfold pteFlags
  split <;> split <;> decide

variable {bias pageBase pageIntra : Nat}

theorem validateSegmentSpan_ok {virtAddr memSize numPages : Nat}
    (valid : validateSegmentSpan virtAddr bias memSize =
      .ok (some (pageBase, pageIntra, numPages))) :
    pageBase = (virtAddr + bias) / 4096 * 4096 ∧ pageIntra = virtAddr % 4096 ∧
      pageBase + numPages * 4096 ≤ userHalfEnd := by
  unfold validateSegmentSpan at valid
  dsimp only at valid
  split_ifs at valid with _ _ _ _ _ below
  · cases valid
  · cases valid
    exact ⟨rfl, rfl, not_lt.mp below⟩

theorem overwrites_fillPage (mem : PhysMem) (aligned : frame % 2 ^ 12 = 0)
    (fileData : List UInt8) {plan : Nat × Nat × Nat} (fits : plan.1 + plan.2.2 ≤ 4096) :
    mem.Overwrites (fillPage mem frame fileData plan) (frame / frameBytes) := by
  obtain ⟨dstOff, fileStart, copyLen⟩ := plan
  -- a store to the page stays in the frame
  have store (mem : PhysMem) (off : Nat) (bytes : List UInt8) (inside : off + bytes.length ≤ 4096) :
      mem.Overwrites (mem.writeBytes (frame + off) bytes) (frame / frameBytes) := by
    apply mem.overwrites_writeBytes
    simp only [Store.Within, frameBytes] at *
    omega
  have keep (mem : PhysMem) (cond : Prop) [Decidable cond] (off : Nat) (bytes : List UInt8)
      (inside : cond → off + bytes.length ≤ 4096) :
      mem.Overwrites (if cond then mem.writeBytes (frame + off) bytes else mem)
        (frame / frameBytes) := by
    split
    · rename_i holds
      exact store mem off bytes (inside holds)
    · exact PhysMem.Overwrites.refl mem _
  unfold fillPage
  dsimp only at fits ⊢
  refine ((keep mem (0 < dstOff) 0 _ fun _ => ?_).trans (keep _ _ dstOff _ fun _ => ?_)).trans
    (keep _ _ _ _ fun _ => ?_)
  · simp only [length_replicate]
    omega
  · simp only [length_take]
    omega
  · simp only [length_replicate]
    omega

/-! ## Safe states -/

/-- The number of the page of an address; the walk ignores the bits `[63:48]`. -/
def pageOf (virt : Nat) : Nat := virt / 2 ^ 12 % 2 ^ 36

theorem pageOf_lt_iff (virt : Nat) : pageOf virt < 2 ^ 35 ↔ virt % 2 ^ 48 < userHalfEnd := by
  unfold pageOf userHalfEnd
  omega

theorem pageOf_page (user : page < 2 ^ 35) : pageOf (page * frameBytes) = page := by
  unfold pageOf frameBytes
  omega

def tablesOf (st : PhysState N) (root : Nat) : Set Nat :=
  layout.tables st.mem.word 3 (root / frameBytes)

/-- `st` is reached from `st₀` without harm: the tree is well formed, has grown by free
frames only, translates the kernel half as before, and all stores were to its tables
or to frames obtained since. -/
structure Safe (st₀ : PhysState N) (root : Nat) (st : PhysState N) : Prop where
  wellFormed : st.WellFormed root
  fewer : st.alloc.free ⊆ st₀.alloc.free
  tables : tablesOf st root ⊆ tablesOf st₀ root ∪ (st₀.alloc.free \ st.alloc.free)
  kernel : ∀ w, 2 ^ 35 ≤ pageOf w → st.mem.translateIn root w = st₀.mem.translateIn root w
  writes : st₀.mem.Writes st.mem
    (·.Permitted (tablesOf st₀ root) (st₀.alloc.free \ st.alloc.free))

theorem Safe.refl (wellFormed : st₀.WellFormed root) : Safe st₀ root st₀ where
  wellFormed := wellFormed
  fewer := subset_rfl
  tables := Set.subset_union_left
  kernel := fun _ _ => rfl
  writes := PhysMem.Writes.refl _ _

theorem Safe.allocFrame (safe : Safe st₀ root st) {alloc : BitmapFrameAllocator N}
    (allocated : st.alloc.allocFrame = some (frame, alloc)) :
    Safe st₀ root { st with alloc } := by
  obtain ⟨wellFormed, fewer, tables, kernel, writes⟩ := safe
  obtain ⟨-, left⟩ := free_allocFrame allocated wellFormed.addressable
  have subset : alloc.free ⊆ st.alloc.free := left ▸ Set.sdiff_subset
  have more : st₀.alloc.free \ st.alloc.free ⊆ st₀.alloc.free \ alloc.free :=
    Set.sdiff_subset_sdiff_right subset
  refine ⟨⟨wellFormed.aligned, wellFormed.distinct, ?_, ?_⟩, subset.trans fewer, ?_, kernel, ?_⟩
  · intro path f found isFree
    exact wellFormed.reserved path f found (subset isFree)
  · exact addressable_allocFrame allocated wellFormed.addressable
  · exact tables.trans (Set.union_subset_union_right _ more)
  · exact writes.mono fun s store => store.mono Set.subset_union_left more

/-- An insertion of a page keeps the translations of the other pages. -/
theorem translateIn_of_inserted {target : Nat → Nat} {result : Bool × PhysState N}
    (inserted : st.Inserted 3 root (page * frameBytes) target result)
    (user : page < 2 ^ 35) {w : Nat}
    (other : pageOf w ≠ page) : result.2.mem.translateIn root w = st.mem.translateIn root w := by
  rw [translateIn_eq_walk, translateIn_eq_walk, inserted.mapped.outside w ?_]
  intro samePage
  have same : pageOf (page * frameBytes) = pageOf w := (samePage_iff _ _).mp samePage
  rw [pageOf_page user] at same
  exact other same.symm

/-- `map_4k_into` for a page of the user half, whether it succeeds or not. -/
theorem Safe.map4kInto (safe : Safe st₀ root st) {flags : Nat} (user : page < 2 ^ 35)
    (address : FrameAddress frame) (noFrameBits : flags &&& frameMask = 0) :
    Safe st₀ root (st.map4kInto root (page * frameBytes) frame flags).2 := by
  obtain ⟨wellFormed, fewer, tables, kernel, writes⟩ := safe
  have inserted := wellFormed.inserted (page * frameBytes) address noFrameBits
  generalize st.map4kInto root (page * frameBytes) frame flags = result at *
  have mapped := inserted.mapped
  have more : st₀.alloc.free \ st.alloc.free ⊆ st₀.alloc.free \ result.2.alloc.free :=
    Set.sdiff_subset_sdiff_right mapped.free_subset
  refine ⟨inserted.wellFormed wellFormed.aligned, mapped.free_subset.trans fewer, ?_, ?_, ?_⟩
  · intro x inside
    obtain ⟨taken, old | new⟩ := mapped.tables x inside
    · exact (tables old).imp_right fun obtained => more obtained
    · exact .inr ⟨fewer new, taken⟩
  · intro w kernelHalf
    rw [translateIn_of_inserted inserted user (by omega), kernel w kernelHalf]
  · refine (writes.mono fun s store => store.mono Set.subset_union_left more).trans
      (inserted.writes.mono fun s store => store.mono ?_ (Set.sdiff_subset_sdiff_left fewer))
    intro x inside
    exact (tables inside).imp_right fun obtained => more obtained

theorem tables_agree (overwrites : st.mem.Overwrites mem f)
    (noTable : f ∉ tablesOf st root) :
    ∀ x ∈ layout.tables st.mem.word 3 (root / frameBytes), mem.word x = st.mem.word x := by
  intro x inside
  apply overwrites.others
  rintro rfl
  exact noTable inside

theorem Safe.overwrite (safe : Safe st₀ root st)
    (overwrites : st.mem.Overwrites mem f) (obtained : f ∈ st₀.alloc.free \ st.alloc.free)
    (noTable : f ∉ tablesOf st root) :
    Safe st₀ root { st with mem } ∧ (∀ path, layout.tableAt mem.word 3 (root / frameBytes) path =
        layout.tableAt st.mem.word 3 (root / frameBytes) path) ∧
      ∀ w, mem.translateIn root w = st.mem.translateIn root w := by
  obtain ⟨wellFormed, fewer, tables, kernel, writes⟩ := safe
  have agree := tables_agree overwrites noTable
  have paths := fun path => tableAt_congr agree path
  have walks : ∀ w, mem.translateIn root w = st.mem.translateIn root w := by
    intro w
    rw [translateIn_eq_walk, translateIn_eq_walk, walk_congr agree]
  have sameTables : tablesOf { st with mem } root = tablesOf st root :=
    tables_congr agree
  refine ⟨⟨⟨wellFormed.aligned, ?_, ?_, wellFormed.addressable⟩, fewer, ?_, ?_, ?_⟩, paths, walks⟩
  · intro p q f atP atQ
    rw [paths] at atP atQ
    exact wellFormed.distinct p q f atP atQ
  · intro path f found
    rw [paths] at found
    exact wellFormed.reserved path f found
  · rw [sameTables]
    exact tables
  · intro w kernelHalf
    rw [walks w, kernel w kernelHalf]
  · exact writes.trans (overwrites.writes.mono fun s within => .inr ⟨f, obtained, within⟩)

/-! ## Loaded pages -/

/-- The paths to the tables on the way to `pages`. -/
def spines (pages : List Nat) : Finset (List (Fin 512)) :=
  pages.toFinset.biUnion fun page => layout.spine 3 (page * frameBytes)

/-- The paths on the way to `pages` that lead to no table of the tree. -/
def missingTables (st : PhysState N) (root : Nat) (pages : List Nat) : Finset (List (Fin 512)) :=
  layout.missing st.mem.word 3 (root / frameBytes) (spines pages)

/-- The pages are distinct, and a frame is free for each of them and for each table on
the way to them that is missing. -/
def RoomFor (st : PhysState N) (root : Nat) (pages : List Nat) : Prop :=
  pages.Nodup ∧ pages.length + (missingTables st root pages).card ≤ st.alloc.free.ncard

theorem spines_append (pages rest : List Nat) :
    spines (pages ++ rest) = spines pages ∪ spines rest := by
  simp only [spines, toFinset_append, Finset.union_biUnion]

theorem spines_singleton (page : Nat) : spines [page] = layout.spine 3 (page * frameBytes) := by
  simp [spines]

theorem RoomFor.of_append {pages rest : List Nat} (fits : RoomFor st root (pages ++ rest)) :
    RoomFor st root pages := by
  obtain ⟨nodup, enough⟩ := fits
  have fewer : missingTables st root pages ⊆ missingTables st root (pages ++ rest) := by
    apply Finset.filter_subset_filter
    rw [spines_append]
    exact Finset.subset_union_left
  have card := Finset.card_le_card fewer
  rw [length_append] at enough
  exact ⟨(List.nodup_append.mp nodup).1, by omega⟩

/-- `st` is reached from `st₀` by loading `pages`: each of them is mapped to a frame of its
own, nothing else in the user half is mapped, and every frame that was taken holds one
of the pages or one of the tables on the way to them. -/
structure Loaded (st₀ : PhysState N) (root : Nat) (pages : List Nat) (st : PhysState N) : Prop
    extends Safe st₀ root st where
  inside : ∀ w, pageOf w < 2 ^ 35 → pageOf w ∈ pages →
    ∃ f ∈ st₀.alloc.free \ st.alloc.free, f ∉ tablesOf st root ∧
      st.mem.translateIn root w = some (f * frameBytes + w % 2 ^ 12)
  outside : ∀ w, pageOf w < 2 ^ 35 → pageOf w ∉ pages → st.mem.translateIn root w = none
  paths : ∀ path, (layout.tableAt st.mem.word 3 (root / frameBytes) path).isSome ↔
    (layout.tableAt st₀.mem.word 3 (root / frameBytes) path).isSome ∨ path ∈ spines pages
  nodup : pages.Nodup
  count : st.alloc.free.ncard + pages.length + (missingTables st₀ root pages).card =
    st₀.alloc.free.ncard

variable {pages : List Nat}

theorem Loaded.start (wellFormed : st₀.WellFormed root)
    (empty : ∀ w, pageOf w < 2 ^ 35 → st₀.mem.translateIn root w = none) :
    Loaded st₀ root [] st₀ where
  toSafe := Safe.refl wellFormed
  inside := nofun
  outside := fun w user _ => empty w user
  paths := by simp [spines]
  nodup := nodup_nil
  count := by simp [missingTables, missing, spines]

section

variable (loaded : Loaded st₀ root pages st)

include loaded

theorem Loaded.roomFor : RoomFor st₀ root pages :=
  ⟨loaded.nodup, by have := loaded.count; omega⟩

theorem Loaded.deep (user : page < 2 ^ 35) :
    layout.Deep st.mem.word 3 (root / frameBytes) (page * frameBytes) := by
  rw [RadixLayout.Deep, ← translateIn_eq_walk]
  by_cases listed : page ∈ pages
  · refine .inr ((loaded.paths _).mpr (.inr ?_))
    exact Finset.mem_biUnion.mpr ⟨page, List.mem_toFinset.mpr listed, path_mem_spine 3 _⟩
  · refine .inl (loaded.outside _ ?_ ?_) <;> rwa [pageOf_page user]

theorem Loaded.translateIn_page (user : page < 2 ^ 35) :
    st.mem.translateIn root (page * frameBytes) = none ↔ page ∉ pages := by
  constructor
  · intro unmapped listed
    obtain ⟨f, -, -, found⟩ := loaded.inside (page * frameBytes)
      (by rwa [pageOf_page user]) (by rwa [pageOf_page user])
    rw [unmapped] at found
    cases found
  · intro new
    exact loaded.outside _ (by rwa [pageOf_page user]) (by rwa [pageOf_page user])

/-- Stores in an obtained frame that is not a table keep the pages loaded. -/
theorem Loaded.overwrite (overwrites : st.mem.Overwrites mem f)
    (obtained : f ∈ st₀.alloc.free \ st.alloc.free) (noTable : f ∉ tablesOf st root) :
    Loaded st₀ root pages { st with mem } := by
  obtain ⟨safe, paths, walks⟩ := loaded.toSafe.overwrite overwrites obtained noTable
  have sameTables : tablesOf { st with mem } root = tablesOf st root :=
    tables_congr (tables_agree overwrites noTable)
  refine ⟨safe, ?_, ?_, ?_, loaded.nodup, loaded.count⟩
  · intro w user listed
    rw [sameTables, walks w]
    exact loaded.inside w user listed
  · intro w user new
    rw [walks w]
    exact loaded.outside w user new
  · intro path
    rw [paths]
    exact loaded.paths path

theorem Loaded.card_missingTables (page : Nat) :
    (missingTables st₀ root (pages ++ [page])).card =
      (missingTables st₀ root pages).card + (layout.missing st.mem.word 3 (root / frameBytes)
        (layout.spine 3 (page * frameBytes))).card := by
  rw [missingTables, spines_append, spines_singleton]
  exact card_missing_union loaded.paths

theorem Loaded.roomFor_append_iff (page : Nat) :
    RoomFor st₀ root (pages ++ [page]) ↔ page ∉ pages ∧
      1 + (layout.missing st.mem.word 3 (root / frameBytes)
        (layout.spine 3 (page * frameBytes))).card ≤ st.alloc.free.ncard := by
  have nodup : (pages ++ [page]).Nodup ↔ page ∉ pages := by
    rw [nodup_append_comm, singleton_append, nodup_cons]
    exact and_iff_left loaded.nodup
  have count := loaded.count
  rw [RoomFor, nodup, loaded.card_missingTables, length_append, length_singleton]
  refine and_congr_right fun _ => ?_
  omega

end

section Insert

variable (loaded : Loaded st₀ root pages st) {page frame : Nat} {alloc : BitmapFrameAllocator N}
  (user : page < 2 ^ 35) (allocated : st.alloc.allocFrame = some (frame, alloc))
  {result : Bool × PhysState N}
  (inserted : PhysState.Inserted { st with alloc } 3 root (page * frameBytes)
    (fun v => frame + v % 2 ^ 12) result)

include loaded allocated inserted

theorem Loaded.frame_obtained :
    frame / frameBytes ∈ st₀.alloc.free \ result.2.alloc.free ∧
      frame / frameBytes ∉ tablesOf result.2 root := by
  obtain ⟨wasFree, left⟩ :=
    free_allocFrame allocated loaded.wellFormed.addressable
  have mapped : layout.Mapped st.mem.word alloc.free 3 _ _ _ result.1 result.2.mem.word
      result.2.alloc.free := inserted.mapped
  have notFree : frame / frameBytes ∉ alloc.free := left ▸ fun isFree => isFree.2 rfl
  refine ⟨⟨loaded.fewer wasFree, fun isFree => notFree (mapped.free_subset isFree)⟩, ?_⟩
  exact mapped.not_mem_tables (fun inside => loaded.wellFormed.notFree _ inside wasFree) notFree

theorem Loaded.frame_kept (obtained : f ∈ st₀.alloc.free \ st.alloc.free)
    (noTable : f ∉ tablesOf st root) :
    f ∈ st₀.alloc.free \ result.2.alloc.free ∧ f ∉ tablesOf result.2 root := by
  obtain ⟨-, left⟩ := free_allocFrame allocated loaded.wellFormed.addressable
  have mapped : layout.Mapped st.mem.word alloc.free 3 _ _ _ result.1 result.2.mem.word
      result.2.alloc.free := inserted.mapped
  have notFree : f ∉ alloc.free := left ▸ fun isFree => obtained.2 isFree.1
  exact ⟨⟨obtained.1, fun isFree => notFree (mapped.free_subset isFree)⟩,
    mapped.not_mem_tables noTable notFree⟩

include user

/-- The insertion of a page succeeds exactly if there is room for it. -/
theorem Loaded.done_iff : result.1 = true ↔ RoomFor st₀ root (pages ++ [page]) := by
  have taken :=
    ncard_free_allocFrame allocated loaded.wellFormed.addressable
  have grown : layout.Grown st.mem.word alloc.free 3 _ _ result.1 result.2.mem.word
      result.2.alloc.free := inserted.grown (loaded.deep user)
  rw [grown.done_iff, loaded.roomFor_append_iff, ← translateIn_eq_walk,
    loaded.translateIn_page user, and_comm]
  refine and_congr_right fun _ => ?_
  omega

/-- Once a page is mapped to a frame of its own, it is one of the loaded pages. -/
theorem Loaded.of_inserted (safe : Safe st₀ root result.2) (success : result.1 = true) :
    Loaded st₀ root (pages ++ [page]) result.2 := by
  have addressable := loaded.wellFormed.addressable
  have address := frameAddress_allocFrame allocated addressable
  have other {w : Nat} (different : pageOf w ≠ page) :
      result.2.mem.translateIn root w = st.mem.translateIn root w :=
    translateIn_of_inserted inserted user different
  have grown : layout.Grown st.mem.word alloc.free 3 _ _ result.1 result.2.mem.word
      result.2.alloc.free := inserted.grown (loaded.deep user)
  refine ⟨safe, ?_, ?_, ?_, ((loaded.done_iff user allocated inserted).mp success).1, ?_⟩
  · intro w userHalf listed
    by_cases here : pageOf w = page
    · obtain ⟨obtained, noTable⟩ := loaded.frame_obtained allocated inserted
      refine ⟨frame / frameBytes, obtained, noTable, ?_⟩
      have samePage : layout.SamePage 3 (page * frameBytes) w := by
        rw [samePage_iff]
        exact (pageOf_page user).trans here.symm
      have whole : frame / frameBytes * frameBytes = frame :=
        Nat.div_mul_cancel (Nat.dvd_of_mod_eq_zero address.aligned)
      rw [translateIn_eq_walk, inserted.mapped.inside success w samePage, whole]
    · have old : pageOf w ∈ pages := by simpa [here] using listed
      obtain ⟨f, obtained, noTable, found⟩ := loaded.inside w userHalf old
      obtain ⟨obtained', noTable'⟩ := loaded.frame_kept allocated inserted obtained noTable
      exact ⟨f, obtained', noTable', (other here).trans found⟩
  · intro w userHalf new
    simp only [mem_append, mem_singleton, not_or] at new
    rw [other new.2, loaded.outside w userHalf new.1]
  · intro path
    rw [spines_append, spines_singleton, Finset.mem_union, grown.paths success path, ← or_assoc]
    exact or_congr_left (loaded.paths path)
  · have taken := ncard_free_allocFrame allocated addressable
    have frames := grown.count success
    have count := loaded.count
    rw [loaded.card_missingTables, length_append, length_singleton]
    omega

end Insert

/-! ## The loops -/

/-- Loading has ended in `st`, with success (`ok`) exactly if `pages` fit. -/
structure Ends (st₀ : PhysState N) (root : Nat) (pages : List Nat) (ok : Prop) (st : PhysState N) :
    Prop where
  safe : Safe st₀ root st
  ok_iff : ok ↔ RoomFor st₀ root pages
  loaded : ok → Loaded st₀ root pages st

theorem loadPage_ends (loaded : Loaded st₀ root pages st) (seg : LoadSegment) {pageI : Nat}
    (small : pageIntra < 4096) (user : page < 2 ^ 35)
    (virt : pageBase + pageI * 4096 = page * frameBytes) :
    Ends st₀ root (pages ++ [page]) ((loadPage root seg pageBase pageIntra pageI st).1 = none)
      (loadPage root seg pageBase pageIntra pageI st).2 := by
  rw [loadPage, virt]
  cases allocated : st.alloc.allocFrame with
  | none =>
    refine ⟨loaded.toSafe, iff_of_false (by simp) fun fits => ?_, nofun⟩
    have enough := ((loaded.roomFor_append_iff page).mp fits).2
    rw [free_eq_empty allocated, Set.ncard_empty] at enough
    omega
  | some taken =>
    obtain ⟨frame, alloc⟩ := taken
    have address :=
      frameAddress_allocFrame allocated loaded.wellFormed.addressable
    have noFrameBits := noFrameBits_pteFlags seg.flags
    have before := loaded.toSafe.allocFrame allocated
    have safe := before.map4kInto user address noFrameBits
    have inserted := before.wellFormed.inserted (page * frameBytes) address noFrameBits
    dsimp only
    generalize PhysState.map4kInto _ root (page * frameBytes) frame (pteFlags seg.flags) =
      result at *
    have fitsIff := loaded.done_iff user allocated inserted
    obtain ⟨obtained, noTable⟩ := loaded.frame_obtained allocated inserted
    obtain ⟨done, st'⟩ := result
    cases done with
    | false => exact ⟨safe, by simpa using fitsIff, nofun⟩
    | true =>
      have loaded' := loaded.of_inserted user allocated inserted safe rfl
      have filled := loaded'.overwrite (overwrites_fillPage st'.mem address.aligned seg.fileData
        (pageCopyPlan_bounds small seg.fileData.length pageI).1) obtained noTable
      exact ⟨filled.toSafe, by simpa using fitsIff, fun _ => filled⟩

theorem loadPages_ends (loaded : Loaded st₀ root pages st) (seg : LoadSegment)
    (aligned : pageBase % 4096 = 0) (small : pageIntra < 4096) {is : List Nat}
    (user : ∀ i ∈ is, pageBase / 4096 + i < 2 ^ 35) :
    Ends st₀ root (pages ++ is.map (pageBase / 4096 + ·))
      ((loadPages root seg pageBase pageIntra is st).1 = none)
      (loadPages root seg pageBase pageIntra is st).2 := by
  induction is generalizing pages st with
  | nil =>
    rw [map_nil, append_nil]
    exact ⟨loaded.toSafe, iff_of_true rfl loaded.roomFor, fun _ => loaded⟩
  | cons i is ih =>
    have virt : pageBase + i * 4096 = (pageBase / 4096 + i) * frameBytes := by
      unfold frameBytes
      omega
    have first := loadPage_ends loaded seg small (user i (.head _)) virt
    have more : pages ++ (i :: is).map (pageBase / 4096 + ·) =
        (pages ++ [pageBase / 4096 + i]) ++ is.map (pageBase / 4096 + ·) := by simp
    rw [loadPages, more]
    generalize loadPage root seg pageBase pageIntra i st = result at *
    obtain ⟨err, st'⟩ := result
    cases err with
    | some err =>
      refine ⟨first.safe, iff_of_false (by simp) fun fits => ?_, nofun⟩
      exact absurd (first.ok_iff.mpr fits.of_append) (by simp)
    | none => exact ih (first.loaded rfl) fun j listed => user j (.tail _ listed)

/-- The pages of a segment, if its span is valid. -/
def segmentPages (bias : Nat) (seg : LoadSegment) : Option (List Nat) :=
  match validateSegmentSpan seg.virtAddr bias seg.memSize with
  | .error _ => none
  | .ok none => some []
  | .ok (some (pageBase, _, numPages)) => some ((List.range numPages).map (pageBase / 4096 + ·))

variable {seg : LoadSegment}

theorem loadSegment_of_none (invalid : segmentPages bias seg = none) (root : Nat)
    (st : PhysState N) :
    ∃ err, loadSegment root bias seg st = (some err, st) := by
  unfold segmentPages at invalid
  unfold loadSegment
  cases span : validateSegmentSpan seg.virtAddr bias seg.memSize with
  | error err => exact ⟨err, rfl⟩
  | ok range => cases range <;> simp [span] at invalid

theorem loadSegment_ends (loaded : Loaded st₀ root pages st) {more : List Nat}
    (valid : segmentPages bias seg = some more) :
    Ends st₀ root (pages ++ more) ((loadSegment root bias seg st).1 = none)
      (loadSegment root bias seg st).2 := by
  unfold segmentPages at valid
  unfold loadSegment
  cases span : validateSegmentSpan seg.virtAddr bias seg.memSize with
  | error err => simp [span] at valid
  | ok range =>
    rw [span] at valid
    cases range with
    | none =>
      cases valid
      rw [append_nil]
      exact ⟨loaded.toSafe, iff_of_true rfl loaded.roomFor, fun _ => loaded⟩
    | some range =>
      obtain ⟨pageBase, pageIntra, numPages⟩ := range
      cases valid
      obtain ⟨start, intra, below⟩ := validateSegmentSpan_ok span
      refine loadPages_ends loaded seg (by omega) (by omega) fun i listed => ?_
      have bound := List.mem_range.mp listed
      unfold userHalfEnd at below
      omega

/-- The pages of the load segments of the program headers `is`; none if one of them is
refused. -/
def Elf64.pagesAt (elf : Elf64) : List Nat → Option (List Nat)
  | [] => some []
  | i :: is =>
      match elf.segmentAt i with
      | some none => elf.pagesAt is
      | some (some (.ok seg)) => do
          let here ← segmentPages elf.loadBias seg
          let rest ← elf.pagesAt is
          return here ++ rest
      | _ => none

/-- The loop over the load segments keeps the address space safe. It reaches its end
exactly if no segment is refused and their pages fit. -/
theorem loadAll_spec (elf : Elf64) (is : List Nat) (loaded : Loaded st₀ root pages st) :
    Safe st₀ root (elf.loadAll root is st).2 ∧
    ((elf.loadAll root is st).1 = some (.ok ()) ↔
      ∃ more, elf.pagesAt is = some more ∧ RoomFor st₀ root (pages ++ more)) ∧
    ∀ more, elf.pagesAt is = some more → (elf.loadAll root is st).1 = some (.ok ()) →
      Loaded st₀ root (pages ++ more) (elf.loadAll root is st).2 := by
  induction is generalizing pages st with
  | nil =>
    refine ⟨loaded.toSafe, iff_of_true rfl ⟨[], rfl, by simpa using loaded.roomFor⟩, ?_⟩
    rintro more ⟨⟩ -
    simpa [Elf64.loadAll] using loaded
  | cons i is ih =>
    rw [Elf64.loadAll, Elf64.pagesAt]
    rcases elf.segmentAt i with _ | _ | err | seg
    · exact ⟨loaded.toSafe, by simp, by simp⟩
    · exact ih loaded
    · exact ⟨loaded.toSafe, by simp, by simp⟩
    · dsimp only
      cases here : segmentPages elf.loadBias seg with
      | none =>
        obtain ⟨err, refused⟩ := loadSegment_of_none here root st
        rw [refused]
        exact ⟨loaded.toSafe, by simp, by simp⟩
      | some more =>
        have first := loadSegment_ends loaded here
        generalize loadSegment root elf.loadBias seg st = result at *
        obtain ⟨err, st'⟩ := result
        cases err with
        | some err =>
          refine ⟨first.safe, iff_of_false (by simp) ?_, by simp⟩
          rintro ⟨all, listed, fits⟩
          cases rest : elf.pagesAt is <;> simp [rest] at listed
          rw [← listed, ← append_assoc] at fits
          exact absurd (first.ok_iff.mpr fits.of_append) (by simp)
        | none =>
          obtain ⟨safe, okIff, after⟩ := ih (first.loaded rfl)
          refine ⟨safe, okIff.trans ?_, ?_⟩
          · cases elf.pagesAt is <;> simp [append_assoc]
          · intro all listed success
            cases rest : elf.pagesAt is <;> simp [rest] at listed
            rw [← listed, ← append_assoc]
            exact after _ rest success

end NexaCore.Elf
