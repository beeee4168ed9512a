import NexaCore.Kernel.Elf.Proofs.Isolation
import NexaCore.Kernel.Memory.Proofs.PageEntries

/-!
# The loaded image

After `map_and_load_into` has succeeded, the pages of the segments read as the file says and
nothing else in the user half is mapped. `ShowsAt` is what is known of one loaded page; loading
further pages keeps it, since they take other frames and other entries.
-/

namespace NexaCore.Elf

open Misc Memory Syscall List LoadSegment Nat RadixLayout BitmapFrameAllocator

variable {N : Nat} {st₀ st : PhysState N} {root : Nat} {pages : List Nat}

/-- The frame `f` is mapped as page `page`, by an entry with the given flags. -/
structure PlacedAt (root page flags f : Nat) (st : PhysState N) : Prop where
  noTable : f ∉ tablesOf st root
  notFree : f ∉ st.alloc.free
  translated : ∀ w, pageOf w = page →
    st.mem.translateIn root w = some (f * frameBytes + w % 2 ^ 12)
  entry : ∀ w, pageOf w = page →
    st.mem.leafEntry root w = some (setFrame (f * frameBytes) (flags ||| ptePresent))

/-- A page as it should be loaded: its number, the flags of its entry and its bytes. -/
structure PageImage where
  page : Nat
  flags : Nat
  byte : Nat → UInt8

/-- The frame `f` holds the page `p`. -/
structure ShowsAt (root : Nat) (p : PageImage) (f : Nat) (st : PhysState N) : Prop
    extends PlacedAt root p.page p.flags f st where
  bytes : ∀ off < frameBytes, st.mem.byteAt (f * frameBytes + off) = p.byte off

theorem frameNumber {off : Nat} (inside : off < frameBytes) (f : Nat) :
    (f * frameBytes + off) / frameBytes = f := by
  unfold frameBytes at *
  omega

variable {f g : Nat} {mem : PhysMem}

/-- Stores in a frame that is not a table keep the page in its place. -/
theorem PlacedAt.overwrite {page flags : Nat} (placed : PlacedAt root page flags f st)
    (overwrites : st.mem.Overwrites mem g) (noTable : g ∉ tablesOf st root) :
    PlacedAt root page flags f { st with mem } := by
  have agree := tables_agree overwrites noTable
  refine ⟨?_, placed.notFree, ?_, ?_⟩
  · have sameTables : tablesOf { st with mem } root = tablesOf st root :=
      tables_congr agree
    rw [sameTables]
    exact placed.noTable
  · intro w here
    rw [← placed.translated w here, translateIn_eq_walk, translateIn_eq_walk]
    exact walk_congr agree w
  · intro w here
    rw [← placed.entry w here, leafEntry_eq_walk, leafEntry_eq_walk]
    exact walk_entries_congr agree w

theorem ShowsAt.overwrite {p : PageImage} (shows : ShowsAt root p f st)
    (overwrites : st.mem.Overwrites mem g) (noTable : g ∉ tablesOf st root) (other : f ≠ g) :
    ShowsAt root p f { st with mem } := by
  refine ⟨shows.toPlacedAt.overwrite overwrites noTable, fun off inside => ?_⟩
  rw [← shows.bytes off inside]
  apply PhysMem.byteAt_congr
  rw [frameNumber inside]
  exact overwrites.others f other

section Insert

variable {page entry frame : Nat} {target : Nat → Nat} {alloc : BitmapFrameAllocator N}
  {result : Bool × PhysState N} (user : page < 2 ^ 35)

include user

theorem ShowsAt.mapped {p : PageImage} {f : Nat} (shows : ShowsAt root p f st)
    (fewer : alloc.free ⊆ st.alloc.free) (other : p.page ≠ page)
    (inserted : PhysState.Inserted { st with alloc } 3 root (page * frameBytes) target result)
    (entered : PhysState.Entered { st with alloc } 3 root (page * frameBytes) entry
      result) : ShowsAt root p f result.2 := by
  have mapped : layout.Mapped st.mem.word alloc.free 3 _ _ _ result.1 result.2.mem.word
      result.2.alloc.free := inserted.mapped
  have notFree : f ∉ alloc.free := fun isFree => shows.notFree (fewer isFree)
  refine ⟨⟨mapped.not_mem_tables shows.noTable notFree,
    fun isFree => notFree (mapped.free_subset isFree), ?_, ?_⟩, ?_⟩
  · intro w here
    rw [← shows.translated w here]
    exact translateIn_of_inserted inserted user (here.trans_ne other)
  · intro w here
    have apart : ¬layout.SamePage 3 (page * frameBytes) w := by
      rw [samePage_iff]
      intro same
      exact other (here.symm.trans (same.symm.trans (pageOf_page user)))
    rw [← shows.entry w here, leafEntry_eq_walk, leafEntry_eq_walk]
    exact entered.outside w apart
  · intro off inside
    rw [← shows.bytes off inside]
    apply PhysMem.byteAt_congr
    rw [frameNumber inside]
    exact mapped.frame f shows.noTable notFree

theorem placedAt_of_inserted {flags : Nat} (aligned : frame % 2 ^ 12 = 0)
    (inserted : st.Inserted 3 root (page * frameBytes) (fun v => frame + v % 2 ^ 12) result)
    (entered : st.Entered 3 root (page * frameBytes) (setFrame frame (flags ||| ptePresent)) result)
    (success : result.1 = true) (notFree : frame / frameBytes ∉ result.2.alloc.free)
    (noTable : frame / frameBytes ∉ tablesOf result.2 root) :
    PlacedAt root page flags (frame / frameBytes) result.2 := by
  have whole : frame / frameBytes * frameBytes = frame :=
    Nat.div_mul_cancel (Nat.dvd_of_mod_eq_zero aligned)
  have samePage {w : Nat} (here : pageOf w = page) : layout.SamePage 3 (page * frameBytes) w := by
    rw [samePage_iff]
    exact (pageOf_page user).trans here.symm
  refine ⟨noTable, notFree, fun w here => ?_, fun w here => ?_⟩
  · rw [translateIn_eq_walk, inserted.mapped.inside success w (samePage here), whole]
  · rw [leafEntry_eq_walk, entered.inside success w (samePage here), whole]

end Insert

/-- `st` is reached from `st₀` by loading `pages`, which are the pages `shown`. -/
structure Image (st₀ : PhysState N) (root : Nat) (pages : List Nat) (shown : Set PageImage)
    (st : PhysState N) : Prop extends Loaded st₀ root pages st where
  shows : ∀ p ∈ shown, p.page ∈ pages ∧ ∃ f, ShowsAt root p f st
  covered : ∀ page ∈ pages, ∃ p ∈ shown, p.page = page
  user : ∀ page ∈ pages, page < 2 ^ 35

variable {shown : Set PageImage}

/-- Page `pageI` of a segment whose first page starts at `pageBase`. -/
def pageImage (seg : LoadSegment) (pageBase pageIntra pageI : Nat) : PageImage where
  page := pageBase / 4096 + pageI
  flags := pteFlags seg.flags
  byte := pageByte seg.fileData pageIntra pageI

variable {pageBase pageIntra : Nat}

theorem Image.loadPage (image : Image st₀ root pages shown st) (seg : LoadSegment) {pageI : Nat}
    (aligned : pageBase % 4096 = 0) (small : pageIntra < 4096)
    (user : pageBase / 4096 + pageI < 2 ^ 35)
    (done : (loadPage root seg pageBase pageIntra pageI st).1 = none) :
    Image st₀ root (pages ++ [pageBase / 4096 + pageI])
      (insert (pageImage seg pageBase pageIntra pageI) shown)
      (loadPage root seg pageBase pageIntra pageI st).2 := by
  have virt : pageBase + pageI * 4096 = (pageBase / 4096 + pageI) * frameBytes := by
    unfold frameBytes
    omega
  have ends := loadPage_ends image.toLoaded seg small user virt
  have covered : ∀ page ∈ pages ++ [pageBase / 4096 + pageI],
      ∃ p ∈ insert (pageImage seg pageBase pageIntra pageI) shown, p.page = page := by
    intro page listed
    rcases mem_append.mp listed with old | last
    · obtain ⟨p, inside, number⟩ := image.covered page old
      exact ⟨p, Set.mem_insert_of_mem _ inside, number⟩
    · exact ⟨_, Set.mem_insert _ _, (mem_singleton.mp last).symm⟩
  have userPages : ∀ page ∈ pages ++ [pageBase / 4096 + pageI], page < 2 ^ 35 := by
    intro page listed
    rcases mem_append.mp listed with old | last
    · exact image.user page old
    · rwa [mem_singleton.mp last]
  refine ⟨ends.loaded done, ?_, covered, userPages⟩
  have new : pageBase / 4096 + pageI ∉ pages :=
    ((image.toLoaded.roomFor_append_iff _).mp (ends.ok_iff.mp done)).1
  unfold Elf.loadPage at done ⊢
  rw [virt] at done ⊢
  cases allocated : st.alloc.allocFrame with
  | none => simp [allocated] at done
  | some taken =>
    obtain ⟨frame, alloc⟩ := taken
    rw [allocated] at done
    have addressable := image.wellFormed.addressable
    have address := frameAddress_allocFrame allocated addressable
    obtain ⟨wasFree, left⟩ := free_allocFrame allocated addressable
    have fewer : alloc.free ⊆ st.alloc.free := left ▸ Set.sdiff_subset
    have before := image.toSafe.allocFrame allocated
    have inserted := before.wellFormed.inserted ((pageBase / 4096 + pageI) * frameBytes) address
      (noFrameBits_pteFlags seg.flags)
    have entered := before.wellFormed.entered (image.toLoaded.deep user) frame (pteFlags seg.flags)
    dsimp only at done ⊢
    generalize PhysState.map4kInto _ root ((pageBase / 4096 + pageI) * frameBytes) frame
      (pteFlags seg.flags) = result at *
    obtain ⟨obtained, noTable⟩ := image.toLoaded.frame_obtained allocated inserted
    obtain ⟨success, st'⟩ := result
    cases success with
    | false => cases done
    | true =>
      have fills := overwrites_fillPage st'.mem address.aligned seg.fileData
        (pageCopyPlan_bounds small seg.fileData.length pageI).1
      intro p listed
      rcases Set.mem_insert_iff.mp listed with rfl | old
      · have placed := (placedAt_of_inserted user address.aligned inserted entered rfl obtained.2
          noTable).overwrite fills noTable
        have whole : frame / frameBytes * frameBytes = frame :=
          Nat.div_mul_cancel (Nat.dvd_of_mod_eq_zero address.aligned)
        refine ⟨by simp [pageImage], frame / frameBytes, placed, fun off inside => ?_⟩
        rw [whole]
        exact byteAt_loadedPage st'.mem frame seg.fileData small inside pageI
      · obtain ⟨loadedBefore, f, shows⟩ := image.shows p old
        have otherPage : p.page ≠ pageBase / 4096 + pageI := fun same => new (same ▸ loadedBefore)
        have otherFrame : f ≠ frame / frameBytes := fun same => shows.notFree (same ▸ wasFree)
        refine ⟨mem_append_left _ loadedBefore, f, ?_⟩
        exact (shows.mapped user fewer otherPage inserted entered).overwrite fills noTable
          otherFrame

variable {is : List Nat}

theorem Image.loadPages (image : Image st₀ root pages shown st) (seg : LoadSegment)
    (aligned : pageBase % 4096 = 0) (small : pageIntra < 4096)
    (user : ∀ i ∈ is, pageBase / 4096 + i < 2 ^ 35)
    (done : (Elf.loadPages root seg pageBase pageIntra is st).1 = none) :
    ∃ more, Image st₀ root more (shown ∪ {p | ∃ i ∈ is, p = pageImage seg pageBase pageIntra i})
      (Elf.loadPages root seg pageBase pageIntra is st).2 := by
  induction is generalizing pages shown st with
  | nil => exact ⟨pages, by simpa [Elf.loadPages] using image⟩
  | cons i is ih =>
    rw [Elf.loadPages] at done ⊢
    have first := image.loadPage seg aligned small (user i (.head _))
    generalize Elf.loadPage root seg pageBase pageIntra i st = result at *
    obtain ⟨err, st'⟩ := result
    cases err with
    | some err => cases done
    | none =>
      obtain ⟨more, rest⟩ := ih (first rfl) (fun j listed => user j (.tail _ listed))
        done
      refine ⟨more, ?_⟩
      convert rest using 1
      ext p
      simp only [Set.mem_union, Set.mem_insert_iff, Set.mem_ofPred_eq, List.mem_cons,
        exists_eq_or_imp]
      tauto

/-- The pages of a segment: those from the start of the segment, rounded down, to its end,
rounded up. -/
def LoadSegment.HasPage (seg : LoadSegment) (bias page : Nat) : Prop :=
  (seg.virtAddr + bias) / 4096 ≤ page ∧ page < (seg.virtAddr + bias + seg.memSize + 4095) / 4096

/-- The byte of the image at an address of the pages of a segment: the file byte at that
offset from the start of the segment, and zero before the start and past the file bytes. -/
def LoadSegment.imageByte (seg : LoadSegment) (bias virt : Nat) : UInt8 :=
  if seg.virtAddr + bias ≤ virt then seg.fileData[virt - (seg.virtAddr + bias)]?.getD 0 else 0

/-- A page of a segment as it should be loaded. -/
def LoadSegment.image (seg : LoadSegment) (bias page : Nat) : PageImage where
  page := page
  flags := pteFlags seg.flags
  byte off := seg.imageByte bias (page * 4096 + off)

variable {seg : LoadSegment} {bias : Nat}

/-- The span that `validate_segment_span` accepts is that of the pages of the segment. -/
theorem hasPage_iff (aligned : bias % 4096 = 0) {range : Option (Nat × Nat × Nat)}
    (valid : validateSegmentSpan seg.virtAddr bias seg.memSize = .ok range) (page : Nat) :
    seg.HasPage bias page ↔ ∃ pageBase pageIntra numPages,
      range = some (pageBase, pageIntra, numPages) ∧
        ∃ i < numPages, page = pageBase / 4096 + i := by
  unfold validateSegmentSpan at valid
  dsimp only at valid
  unfold LoadSegment.HasPage
  split_ifs at valid with _ _ empty
  · cases valid
    simp only [reduceCtorEq, false_and, exists_false, iff_false]
    omega
  · cases valid
    simp only [Option.some.injEq, Prod.mk.injEq]
    constructor
    · rintro ⟨lower, upper⟩
      refine ⟨_, _, _, ⟨rfl, rfl, rfl⟩, page - (seg.virtAddr + bias) / 4096, ?_, ?_⟩ <;> omega
    · rintro ⟨_, _, _, ⟨rfl, rfl, rfl⟩, i, bound, rfl⟩
      omega

theorem pageImage_eq (aligned : bias % 4096 = 0) {numPages : Nat}
    (valid : validateSegmentSpan seg.virtAddr bias seg.memSize =
      .ok (some (pageBase, pageIntra, numPages))) (i : Nat) :
    pageImage seg pageBase pageIntra i = seg.image bias (pageBase / 4096 + i) := by
  have start : pageBase % 4096 = 0 ∧ seg.virtAddr + bias = pageBase + pageIntra := by
    obtain ⟨rfl, rfl, -⟩ := validateSegmentSpan_ok valid
    omega
  simp only [pageImage, image, PageImage.mk.injEq, true_and]
  funext off
  have address : (pageBase / 4096 + i) * 4096 + off = pageBase + (i * 4096 + off) := by omega
  have within : seg.virtAddr + bias ≤ pageBase + (i * 4096 + off) ↔ pageIntra ≤ i * 4096 + off := by
    omega
  have offset : pageBase + (i * 4096 + off) - (seg.virtAddr + bias) =
      i * 4096 + off - pageIntra := by omega
  simp only [pageByte, imageByte, address, within, offset]

theorem Image.loadSegment (image : Image st₀ root pages shown st) (aligned : bias % 4096 = 0)
    (seg : LoadSegment) (done : (loadSegment root bias seg st).1 = none) :
    ∃ more, Image st₀ root more (shown ∪ {p | ∃ page, seg.HasPage bias page ∧
      p = seg.image bias page}) (loadSegment root bias seg st).2 := by
  unfold Elf.loadSegment at done ⊢
  cases span : validateSegmentSpan seg.virtAddr bias seg.memSize with
  | error err => simp [span] at done
  | ok range =>
    rw [span] at done
    simp only [hasPage_iff aligned span]
    cases range with
    | none => exact ⟨pages, by simpa using image⟩
    | some range =>
      obtain ⟨pageBase, pageIntra, numPages⟩ := range
      obtain ⟨start, intra, below⟩ := validateSegmentSpan_ok span
      have user : ∀ i ∈ range numPages, pageBase / 4096 + i < 2 ^ 35 := by
        intro i listed
        have bound := mem_range.mp listed
        unfold userHalfEnd at below
        omega
      obtain ⟨more, loaded⟩ := image.loadPages seg (by omega) (by omega) user done
      refine ⟨more, ?_⟩
      convert loaded using 2
      ext p
      simp only [Set.mem_ofPred_eq, mem_range, pageImage_eq aligned span]
      constructor
      · rintro ⟨page, ⟨_, _, _, same, i, bound, rfl⟩, rfl⟩
        cases same
        exact ⟨i, bound, rfl⟩
      · rintro ⟨i, bound, rfl⟩
        exact ⟨_, ⟨_, _, _, rfl, i, bound, rfl⟩, rfl⟩

/-- The load segments of the file. -/
def Elf64.HasSegment (elf : Elf64) (seg : LoadSegment) : Prop :=
  ∃ i < elf.phnum, elf.segmentAt i = some (some (.ok seg))

theorem Elf64.loadBias_aligned (elf : Elf64) : elf.loadBias % 4096 = 0 := by
  unfold Elf64.loadBias
  split <;> rfl

theorem Image.loadAll (image : Image st₀ root pages shown st) (elf : Elf64)
    (done : (elf.loadAll root is st).1 = some (.ok ())) :
    ∃ more, Image st₀ root more
      (shown ∪ {p | ∃ i ∈ is, ∃ seg, elf.segmentAt i = some (some (.ok seg)) ∧
        ∃ page, seg.HasPage elf.loadBias page ∧ p = seg.image elf.loadBias page})
      (elf.loadAll root is st).2 := by
  induction is generalizing pages shown st with
  | nil => exact ⟨pages, by simpa [Elf64.loadAll] using image⟩
  | cons i is ih =>
    rw [Elf64.loadAll] at done ⊢
    rcases segment : elf.segmentAt i with _ | _ | err | seg
    · simp [segment] at done
    · rw [segment] at done
      simpa [segment] using ih image done
    · simp [segment] at done
    · rw [segment] at done
      dsimp only at done ⊢
      have first := image.loadSegment elf.loadBias_aligned seg
      generalize Elf.loadSegment root elf.loadBias seg st = result at *
      obtain ⟨err, st'⟩ := result
      cases err with
      | some err => cases done
      | none =>
        obtain ⟨between, loaded⟩ := first rfl
        obtain ⟨more, rest⟩ := ih loaded done
        refine ⟨more, ?_⟩
        convert rest using 1
        ext p
        simp only [Set.mem_union, Set.mem_ofPred_eq, List.mem_cons, exists_eq_or_imp, segment,
          Option.some.injEq, Except.ok.injEq, exists_eq_left']
        exact or_assoc.symm

/-! ## The whole call -/

/-- The rights in the entry of a loaded page are those of its segment. -/
theorem rights_pteFlags (frame elfFlags : Nat) :
    (isWritable (setFrame frame (pteFlags elfFlags ||| ptePresent)) = true ↔ elfFlags &&& pfW ≠ 0) ∧
    (isExecutable (setFrame frame (pteFlags elfFlags ||| ptePresent)) = true ↔
      elfFlags &&& pfX ≠ 0) := by
  have bit {b : Nat} (apart : frameMask &&& b = 0) :
      setFrame frame (pteFlags elfFlags ||| ptePresent) &&& b =
        (pteFlags elfFlags ||| ptePresent) &&& b := by
    rw [setFrame, Nat.and_or_distrib_right, Nat.and_assoc, apart, Nat.and_zero, Nat.zero_or]
  simp only [isWritable, isExecutable, decide_eq_true_eq]
  rw [bit (by decide), bit (by decide)]
  unfold pteFlags
  by_cases writable : elfFlags &&& pfW = 0 <;> by_cases executable : elfFlags &&& pfX = 0 <;>
    simp only [writable, executable, ne_eq, not_true_eq_false, not_false_eq_true, if_true,
      if_false] <;> decide

namespace Elf64

/-- The user half shows the load segments of the file: their pages are mapped and hold the
file bytes and zeros, nothing else is mapped, a page can only be written if its segment
can, and no page can be both written and executed. -/
structure Imaged (elf : Elf64) (root : Nat) (mem : PhysMem) : Prop where
  file : ∀ seg, elf.HasSegment seg → ∀ k < seg.fileData.length,
    mem.readByte root (seg.virtAddr + elf.loadBias + k) = seg.fileData[k]?
  zero : ∀ seg, elf.HasSegment seg → ∀ v, seg.HasPage elf.loadBias (v / 4096) →
    v < seg.virtAddr + elf.loadBias ∨ seg.virtAddr + elf.loadBias + seg.fileData.length ≤ v →
    mem.readByte root v = some 0
  mapped : ∀ v < userHalfEnd, (mem.translateIn root v).isSome ↔
    ∃ seg, elf.HasSegment seg ∧ seg.HasPage elf.loadBias (v / 4096)
  writable : ∀ seg, elf.HasSegment seg → ∀ v, seg.HasPage elf.loadBias (v / 4096) →
    ∃ e, mem.leafEntry root v = some e ∧ (isWritable e = true → seg.flags &&& pfW ≠ 0)
  exclusive : ∀ v < userHalfEnd, ∀ e, mem.leafEntry root v = some e →
    ¬(isWritable e = true ∧ isExecutable e = true)

/-- No load segment with a page asks to be both written and executed. -/
def SegmentsExclusive (elf : Elf64) : Prop :=
  ∀ seg, elf.HasSegment seg → (∃ page, seg.HasPage elf.loadBias page) →
    ¬(seg.flags &&& pfW ≠ 0 ∧ seg.flags &&& pfX ≠ 0)

/-- What a successful load without relocations leaves in the user half. -/
theorem image_of_load {elf : Elf64} {st : PhysState N} {root entry : Nat}
    (wellFormed : st.WellFormed root)
    (empty : ∀ w, w % 2 ^ 48 < userHalfEnd → st.mem.translateIn root w = none)
    (success : (elf.mapAndLoadInto root st).1 = some (.ok entry))
    (unrelocated : elf.loadBias ≠ 0 → (elf.relativeRelocs elf.loadBias).1 = []) :
    ∃ pages, Image st root pages {p | ∃ seg, elf.HasSegment seg ∧
      ∃ page, seg.HasPage elf.loadBias page ∧ p = seg.image elf.loadBias page}
      (elf.mapAndLoadInto root st).2 := by
  have start : Image st root [] ∅ st :=
    ⟨Loaded.start wellFormed fun w user => empty w ((pageOf_lt_iff w).mp user), by simp, by simp,
      by simp⟩
  have done : (elf.loadAll root (range elf.phnum) st).1 = some (.ok ()) := by
    unfold mapAndLoadInto at success
    generalize elf.loadAll root (range elf.phnum) st = result at success ⊢
    rcases result with ⟨_ | err | ⟨⟨⟩⟩, st'⟩
    · cases success
    · cases success
    · rfl
  obtain ⟨pages, image⟩ := start.loadAll elf done
  have state : (elf.mapAndLoadInto root st).2 = (elf.loadAll root (range elf.phnum) st).2 := by
    rw [mapAndLoadInto_state]
    split_ifs with applied
    · rw [unrelocated applied.2, foldl_nil]
    · rfl
  rw [state]
  refine ⟨pages, ?_⟩
  convert image using 1
  ext p
  simp only [HasSegment, Set.empty_union, Set.mem_ofPred_eq, mem_range]
  constructor
  · rintro ⟨seg, ⟨i, bound, found⟩, page⟩
    exact ⟨i, bound, seg, found, page⟩
  · rintro ⟨i, bound, seg, found, page⟩
    exact ⟨seg, ⟨i, bound, found⟩, page⟩

end Elf64

variable {elf : Elf64} {v : Nat}

section

variable (image : Image st₀ root pages {p | ∃ seg, elf.HasSegment seg ∧
  ∃ page, seg.HasPage elf.loadBias page ∧ p = seg.image elf.loadBias page} st)

include image

/-- What is read and which entry is found at an address of a loaded segment. -/
theorem Image.at_address (has : elf.HasSegment seg) (inside : seg.HasPage elf.loadBias (v / 4096)) :
    v < userHalfEnd ∧ st.mem.readByte root v = some (seg.imageByte elf.loadBias v) ∧
      ∃ frame, st.mem.leafEntry root v =
        some (setFrame frame (pteFlags seg.flags ||| ptePresent)) := by
  obtain ⟨listed, f, shows⟩ := image.shows _ ⟨seg, has, v / 4096, inside, rfl⟩
  have below : v / 4096 < 2 ^ 35 := image.user _ listed
  have here : pageOf v = v / 4096 := by
    unfold pageOf
    omega
  have small : v % 2 ^ 12 < frameBytes := mod_lt _ (by decide)
  refine ⟨?_, ?_, f * frameBytes, shows.entry v here⟩
  · unfold userHalfEnd
    omega
  · have address : v / 4096 * 4096 + v % 2 ^ 12 = v := by omega
    rw [PhysMem.readByte, shows.translated v here, Option.map_some, shows.bytes _ small]
    simp only [LoadSegment.image, address]

theorem Image.translateIn_isSome_iff (user : v < userHalfEnd) :
    (st.mem.translateIn root v).isSome ↔
      ∃ seg, elf.HasSegment seg ∧ seg.HasPage elf.loadBias (v / 4096) := by
  have here : pageOf v = v / 4096 ∧ v / 4096 < 2 ^ 35 := by
    unfold userHalfEnd at user
    unfold pageOf
    omega
  constructor
  · intro mapped
    by_contra uncovered
    have new : pageOf v ∉ pages := by
      intro listed
      obtain ⟨_, ⟨seg, has, page, inside, rfl⟩, number⟩ := image.covered _ listed
      have same : page = v / 4096 := number.trans here.1
      exact uncovered ⟨seg, has, same ▸ inside⟩
    rw [image.outside v (here.1 ▸ here.2) new] at mapped
    cases mapped
  · rintro ⟨seg, has, inside⟩
    obtain ⟨-, f, shows⟩ := image.shows _ ⟨seg, has, v / 4096, inside, rfl⟩
    rw [shows.translated v here.1]
    rfl

/-- A segment that asks to be written and executed gets both rights. -/
theorem Image.segmentsExclusive (imaged : elf.Imaged root st.mem) : elf.SegmentsExclusive := by
  rintro seg has ⟨page, inside⟩ ⟨writable, executable⟩
  have start : page * 4096 / 4096 = page := by omega
  obtain ⟨user, -, frame, entry⟩ := image.at_address has (start.symm ▸ inside)
  obtain ⟨mayWrite, mayExecute⟩ := rights_pteFlags frame seg.flags
  exact imaged.exclusive _ user _ entry ⟨mayWrite.mpr writable, mayExecute.mpr executable⟩

end

/-- Loading a file without relocations into a well-formed address space with an empty user
half, where it succeeds and no segment has more file bytes than memory, shows the image
of the file exactly if no segment asks to be both written and executed. -/
theorem load_imaged_iff {elf : Elf64} {st : PhysState N} {root entry : Nat}
    (wellFormed : st.WellFormed root)
    (empty : ∀ w, w % 2 ^ 48 < userHalfEnd → st.mem.translateIn root w = none)
    (success : (elf.mapAndLoadInto root st).1 = some (.ok entry))
    (unrelocated : elf.loadBias ≠ 0 → (elf.relativeRelocs elf.loadBias).1 = [])
    (sizes : ∀ seg, elf.HasSegment seg → seg.fileData.length ≤ seg.memSize) :
    elf.Imaged root (elf.mapAndLoadInto root st).2.mem ↔ elf.SegmentsExclusive := by
  obtain ⟨pages, image⟩ := Elf64.image_of_load wellFormed empty success unrelocated
  constructor
  · exact image.segmentsExclusive
  · intro exclusive
    refine ⟨?_, ?_, fun v user => image.translateIn_isSome_iff user, ?_, ?_⟩
    · intro seg has k bound
      have fits := sizes seg has
      have inside : seg.HasPage elf.loadBias ((seg.virtAddr + elf.loadBias + k) / 4096) := by
        unfold LoadSegment.HasPage
        omega
      rw [(image.at_address has inside).2.1, imageByte, if_pos (le_add_right _ _),
        Nat.add_sub_cancel_left, getElem?_eq_getElem bound]
      rfl
    · intro seg has v inside outside
      rw [(image.at_address has inside).2.1, imageByte]
      split
      · rw [getElem?_eq_none (by omega)]
        rfl
      · rfl
    · intro seg has v inside
      obtain ⟨-, -, frame, entry⟩ := image.at_address has inside
      exact ⟨_, entry, (rights_pteFlags frame seg.flags).1.mp⟩
    · rintro v user e entry ⟨writable, executable⟩
      have mapped : ((elf.mapAndLoadInto root st).2.mem.translateIn root v).isSome := by
        cases found : (elf.mapAndLoadInto root st).2.mem.translateIn root v with
        | none =>
          rw [leafEntry_eq_none found] at entry
          cases entry
        | some phys => rfl
      obtain ⟨seg, has, inside⟩ := (image.translateIn_isSome_iff user).mp mapped
      obtain ⟨-, -, frame, entry'⟩ := image.at_address has inside
      rw [entry'] at entry
      cases entry
      obtain ⟨mayWrite, mayExecute⟩ := rights_pteFlags frame seg.flags
      exact exclusive seg has ⟨_, inside⟩ ⟨mayWrite.mp writable, mayExecute.mp executable⟩

/-- A file with one segment, which holds the whole file at `0x1010` and zeros after it. -/
def segmentFile (flags : Nat) : Bytes where
  list := headerBytes 1 ++ toLeBytes 4 ptLoad ++ toLeBytes 4 flags ++ toLeBytes 8 0 ++
    toLeBytes 16 0x1010 ++ toLeBytes 8 120 ++ toLeBytes 16 2048
  bounded := by simp [headerBytes, length_toLeBytes, elfMagic]

theorem Elf64.HasSegment.eq_of_single {only : LoadSegment} (headers : elf.phnum = 1)
    (first : elf.segmentAt 0 = some (some (.ok only))) (has : elf.HasSegment seg) : seg = only := by
  obtain ⟨i, bound, found⟩ := has
  obtain rfl : i = 0 := by omega
  rw [first] at found
  cases found
  rfl

theorem segmentFile_facts (flags : Nat) (one : flags ∈ [pfW, pfW ||| pfX]) :
    ((headerOf (segmentFile flags)).mapAndLoadInto 0x1000 kernelState).1 = some (.ok 0x400000) ∧
    (headerOf (segmentFile flags)).loadBias = 0x400000 ∧
    ((headerOf (segmentFile flags)).relativeRelocs 0x400000).1 = [] ∧
    (headerOf (segmentFile flags)).phnum = 1 ∧
    (headerOf (segmentFile flags)).segmentAt 0 =
      some (some (.ok ⟨0x1010, (segmentFile flags).list, 2048, flags⟩)) := by
  revert flags
  decide +kernel

/-- A file with a writable segment is loaded as its image. -/
theorem load_imaged_iff_dataFile :
    ((headerOf (segmentFile pfW)).mapAndLoadInto 0x1000 kernelState).1 = some (.ok 0x400000) ∧
    (headerOf (segmentFile pfW)).Imaged 0x1000
      ((headerOf (segmentFile pfW)).mapAndLoadInto 0x1000 kernelState).2.mem := by
  obtain ⟨success, bias, relocs, headers, first⟩ := segmentFile_facts pfW (by decide)
  refine ⟨success, (load_imaged_iff wellFormed_kernelState userHalf_kernelState success
    (fun _ => bias ▸ relocs) ?_).mpr ?_⟩
  · intro seg has
    rw [has.eq_of_single headers first]
    decide +kernel
  · intro seg has _
    rw [has.eq_of_single headers first]
    decide

/-- A segment with `PF_W` and `PF_X` is mapped writable and executable. -/
theorem codeFile_not_imaged :
    parse (segmentFile (pfW ||| pfX)) = some (.ok (headerOf (segmentFile (pfW ||| pfX)))) ∧
    kernelState.WellFormed 0x1000 ∧
    (∀ w, w % 2 ^ 48 < userHalfEnd → kernelState.mem.translateIn 0x1000 w = none) ∧
    ((headerOf (segmentFile (pfW ||| pfX))).mapAndLoadInto 0x1000 kernelState).1 =
      some (.ok 0x400000) ∧
    ((headerOf (segmentFile (pfW ||| pfX))).relativeRelocs 0x400000).1 = [] ∧
    (∀ seg, (headerOf (segmentFile (pfW ||| pfX))).HasSegment seg →
      seg.fileData.length ≤ seg.memSize) ∧
    ¬(headerOf (segmentFile (pfW ||| pfX))).Imaged 0x1000
      ((headerOf (segmentFile (pfW ||| pfX))).mapAndLoadInto 0x1000 kernelState).2.mem := by
  have accepted : HeaderAccepted (segmentFile (pfW ||| pfX)) := by constructor <;> decide +kernel
  obtain ⟨success, bias, relocs, headers, first⟩ := segmentFile_facts (pfW ||| pfX) (by decide)
  refine ⟨parse_of_inside accepted (by decide +kernel), wellFormed_kernelState,
    userHalf_kernelState, success, relocs, ?_, fun imaged => ?_⟩
  · intro seg has
    rw [has.eq_of_single headers first]
    decide +kernel
  · obtain ⟨pages, image⟩ := Elf64.image_of_load wellFormed_kernelState userHalf_kernelState success
      fun _ => bias ▸ relocs
    refine image.segmentsExclusive imaged _ ⟨0, by omega, first⟩ ⟨0x401, ?_⟩ (by decide)
    rw [bias]
    exact ⟨by decide, by decide⟩

end NexaCore.Elf
