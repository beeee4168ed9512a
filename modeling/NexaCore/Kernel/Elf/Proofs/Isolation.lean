import NexaCore.Kernel.Elf.Proofs.Loading
import NexaCore.Kernel.Elf.Proofs.NoPanic

/-!
# Isolation of a loaded program

Loading the segments stores to the tables of the address space and to frames of the program only.
The relocations do not: their targets come from the file and are translated without a look at
their half, and the eight bytes may cross the end of a page. `load_isolated_iff` says when no
relocation does so.
-/

namespace NexaCore.Elf

open Memory Syscall List

namespace Elf64

variable {data : Bytes} {elf : Elf64}

/-! ## The relocations that are reached -/

/-- The scan reaches the relocations before the first entry that makes it panic. -/
theorem mem_scanRela {bias relaOff : Nat} (count i : Nat) (bound : (i + count) * 24 < 2 ^ 64)
    (r : Reloc) :
    r ∈ (scanRela data bias relaOff count i).1 ↔
      ∃ j, i ≤ j ∧ j < i + count ∧ (∀ k, i ≤ k → k ≤ j → EntryFits data bias relaOff k) ∧
        Relocates data (relaOff + j * 24) ∧ r = relocOf data bias (relaOff + j * 24) := by
  induction count generalizing i with
  | zero => simp [scanRela]; omega
  | succ count ih =>
    by_cases fits : EntryFits data bias relaOff i
    · have step : r ∈ (scanRela data bias relaOff (count + 1) i).1 ↔
          (Relocates data (relaOff + i * 24) ∧ r = relocOf data bias (relaOff + i * 24)) ∨
            r ∈ (scanRela data bias relaOff count (i + 1)).1 := by
        rw [scanRela, relaEntryAt_of_fits (by omega) fits]
        split_ifs with relocates <;> simp [relocates]
      rw [step, ih (i + 1) (by omega)]
      constructor
      · rintro (⟨relocates, rfl⟩ | ⟨j, lower, upper, earlier, relocates, rfl⟩)
        · refine ⟨i, le_rfl, by omega, fun k lower upper => ?_, relocates, rfl⟩
          rw [le_antisymm upper lower]
          exact fits
        · refine ⟨j, by omega, by omega, fun k lower upper => ?_, relocates, rfl⟩
          rcases eq_or_lt_of_le lower with rfl | later
          · exact fits
          · exact earlier k later upper
      · rintro ⟨j, lower, upper, earlier, relocates, rfl⟩
        rcases eq_or_lt_of_le lower with rfl | later
        · exact .inl ⟨relocates, rfl⟩
        · exact .inr ⟨j, later, by omega, fun k lower upper => earlier k (by omega) upper,
            relocates, rfl⟩
    · have panics : relaEntryAt data bias relaOff i = none :=
        (relaEntryAt_eq_none_iff (by omega)).mpr fits
      rw [scanRela, panics]
      refine iff_of_false (by simp) ?_
      rintro ⟨j, lower, upper, earlier, -⟩
      exact fits (earlier i le_rfl lower)

/-- The relocation `r` stands in the table of the file, and the scan gets to it. -/
structure Reached (elf : Elf64) (bias : Nat) (r : Reloc) : Prop where
  dynamic : elf.dynamic.1 ≠ 0 ∧ elf.dynamic.2 ≠ 0
  dynamicFits : elf.dynamic.1 + 16 < 2 ^ 64 ∧ elf.dynamic.1 + elf.dynamic.2 < 2 ^ 64
  rela : elf.rela.1 ≠ 0 ∧ elf.rela.2 ≠ 0
  entry : ∃ i < elf.rela.2 / 24, (∀ j ≤ i, EntryFits elf.data bias elf.rela.1 j) ∧
    Relocates elf.data (elf.rela.1 + i * 24) ∧ r = relocOf elf.data bias (elf.rela.1 + i * 24)

theorem Valid.mem_relativeRelocs (valid : elf.Valid) (bias : Nat) (r : Reloc) :
    r ∈ (elf.relativeRelocs bias).1 ↔ elf.Reached bias r := by
  rw [valid.relativeRelocs_eq]
  have size : elf.rela.2 < 2 ^ 64 := relaTable_lt _ _
  split_ifs with none fits empty
  · exact iff_of_false (by simp) fun reached => by have := reached.dynamic; omega
  · exact iff_of_false (by simp) fun reached => by have := reached.rela; omega
  · rw [mem_scanRela _ _ (by omega)]
    constructor
    · rintro ⟨i, -, bound, earlier, found⟩
      exact ⟨by omega, fits, by omega, i, by omega, fun j upper => earlier j j.zero_le upper, found⟩
    · rintro ⟨-, -, -, i, bound, earlier, found⟩
      exact ⟨i, i.zero_le, by omega, fun j _ upper => earlier j upper, found⟩
  · exact iff_of_false (by simp) fun reached => fits reached.dynamicFits

end Elf64

/-! ## Applying relocations -/

variable {N : Nat} {st₀ st : PhysState N} {root : Nat} {pages : List Nat}

/-- The relocation does no harm to an address space in which `pages` get loaded: a target
in the kernel half is not mapped, and a target in a loaded page has room for eight
bytes. -/
structure Confined (st : PhysState N) (root : Nat) (pages : List Nat) (r : Reloc) : Prop where
  kernel : userHalfEnd ≤ r.target % 2 ^ 48 → st.mem.translateIn root r.target = none
  user : r.target % 2 ^ 48 < userHalfEnd → r.target / 2 ^ 12 % 2 ^ 36 ∈ pages →
    r.target % frameBytes + 8 ≤ frameBytes

/-- The relocation `r`, applied in `st`, writes through a user address, to a frame obtained
since `st₀`, and not beyond the page of its target, if it writes at all. -/
def WritesOwnPage (st₀ : PhysState N) (root : Nat) (r : Reloc) (st : PhysState N) : Prop :=
  ∀ phys, st.mem.translateIn root r.target = some phys →
    r.target % 2 ^ 48 < userHalfEnd ∧ phys / frameBytes ∈ st₀.alloc.free \ st.alloc.free ∧
      phys % frameBytes + 8 ≤ frameBytes

/-- The relocations `rs`, each with the state that it is applied in. -/
def relocationSteps (root : Nat) : List Reloc → PhysState N → List (Reloc × PhysState N)
  | [], _ => []
  | r :: rs, st => (r, st) :: relocationSteps root rs (applyReloc root st r)

section

variable (loaded : Loaded st₀ root pages st)

include loaded

/-- A translated target lies in a loaded page or in the kernel half. -/
theorem Loaded.translateIn_cases (w : Nat) :
    (userHalfEnd ≤ w % 2 ^ 48 ∧ st.mem.translateIn root w = st₀.mem.translateIn root w) ∨
    (w % 2 ^ 48 < userHalfEnd ∧ pageOf w ∉ pages ∧ st.mem.translateIn root w = none) ∨
    (w % 2 ^ 48 < userHalfEnd ∧ pageOf w ∈ pages ∧
      ∃ f ∈ st₀.alloc.free \ st.alloc.free, f ∉ tablesOf st root ∧
        st.mem.translateIn root w = some (f * frameBytes + w % 2 ^ 12)) := by
  by_cases user : pageOf w < 2 ^ 35
  · have half := (pageOf_lt_iff w).mp user
    by_cases listed : pageOf w ∈ pages
    · exact .inr (.inr ⟨half, listed, loaded.inside w user listed⟩)
    · exact .inr (.inl ⟨half, listed, loaded.outside w user listed⟩)
  · have half : userHalfEnd ≤ w % 2 ^ 48 :=
      not_lt.mp fun below => user ((pageOf_lt_iff w).mpr below)
    exact .inl ⟨half, loaded.kernel w (not_lt.mp user)⟩

theorem Loaded.writesOwnPage_iff (r : Reloc) :
    WritesOwnPage st₀ root r st ↔ Confined st₀ root pages r := by
  rcases loaded.translateIn_cases r.target with ⟨half, same⟩ | ⟨half, new, unmapped⟩ |
    ⟨half, listed, f, obtained, -, found⟩
  · constructor
    · intro own
      refine ⟨fun _ => ?_, fun user => absurd user (not_lt.mpr half)⟩
      cases found : st₀.mem.translateIn root r.target with
      | none => rfl
      | some phys => exact absurd (own phys (same.trans found)).1 (not_lt.mpr half)
    · intro confined phys found
      rw [same, confined.kernel half] at found
      cases found
  · refine iff_of_true (fun phys found => ?_)
      ⟨fun kernel => absurd half (not_lt.mpr kernel), fun _ listed => absurd listed new⟩
    rw [unmapped] at found
    cases found
  · have frame : (f * frameBytes + r.target % 2 ^ 12) / frameBytes = f := by
      unfold frameBytes
      omega
    have offset : (f * frameBytes + r.target % 2 ^ 12) % frameBytes = r.target % frameBytes := by
      unfold frameBytes
      omega
    constructor
    · intro own
      refine ⟨fun kernel => absurd half (not_lt.mpr kernel), fun _ _ => ?_⟩
      rw [← offset]
      exact (own _ found).2.2
    · intro confined phys found'
      rw [found] at found'
      cases found'
      rw [frame, offset]
      exact ⟨half, obtained, confined.user half listed⟩

/-- A confined relocation writes to the frame of a loaded page, if it writes at all. -/
theorem Loaded.applyReloc {r : Reloc} (confined : Confined st₀ root pages r) :
    Loaded st₀ root pages (applyReloc root st r) := by
  unfold Elf.applyReloc
  rcases loaded.translateIn_cases r.target with ⟨half, same⟩ | ⟨half, new, unmapped⟩ |
    ⟨half, listed, f, obtained, noTable, found⟩
  · rw [same, confined.kernel half]
    exact loaded
  · rw [unmapped]
    exact loaded
  · rw [found]
    refine loaded.overwrite (PhysMem.overwrites_writeBytes _ ?_) obtained noTable
    have room := confined.user half listed
    rw [length_toLeBytes]
    simp only [Store.Within, frameBytes] at *
    omega

/-- The relocations all write to pages of the program exactly if they are confined. -/
theorem Loaded.relocationSteps_iff (rs : List Reloc) :
    (∀ step ∈ relocationSteps root rs st, WritesOwnPage st₀ root step.1 step.2) ↔
      ∀ r ∈ rs, Confined st₀ root pages r := by
  induction rs generalizing st with
  | nil => simp [relocationSteps]
  | cons r rs ih =>
    rw [relocationSteps, forall_mem_cons, forall_mem_cons, loaded.writesOwnPage_iff]
    exact and_congr_right fun confined => ih (loaded.applyReloc confined)

theorem Loaded.foldl_applyReloc {rs : List Reloc} (confined : ∀ r ∈ rs, Confined st₀ root pages r) :
    Loaded st₀ root pages (rs.foldl (Elf.applyReloc root) st) := by
  induction rs generalizing st with
  | nil => exact loaded
  | cons r rs ih =>
    rw [forall_mem_cons] at confined
    exact ih (loaded.applyReloc confined.1) confined.2

end

/-! ## The whole call -/

namespace Elf64

/-- The relocations that `map_and_load_into` applies, each with the state before it. -/
def relocations (elf : Elf64) (root : Nat) (st : PhysState N) : List (Reloc × PhysState N) :=
  match elf.loadAll root (List.range elf.phnum) st with
  | (some (.ok ()), st) =>
      if elf.loadBias ≠ 0 then relocationSteps root (elf.relativeRelocs elf.loadBias).1 st else []
  | _ => []

/-- `map_and_load_into` touches no memory that is not the program's: it maps nothing in
the kernel half, it stores to entries of the tables of the tree and to frames it has
obtained only, and no relocation writes through the kernel half, to another frame than
those obtained, or beyond the page of its target. -/
structure Isolated (elf : Elf64) (st : PhysState N) (root : Nat) : Prop where
  mappings : ∀ w, userHalfEnd ≤ w % 2 ^ 48 →
    (elf.mapAndLoadInto root st).2.mem.translateIn root w = st.mem.translateIn root w
  stores : st.mem.Writes (elf.mapAndLoadInto root st).2.mem (·.Permitted (tablesOf st root)
    (st.alloc.free \ (elf.mapAndLoadInto root st).2.alloc.free))
  relocations : ∀ step ∈ elf.relocations root st, WritesOwnPage st root step.1 step.2

/-- The pages of all load segments, if none is refused. -/
def allPages (elf : Elf64) : Option (List Nat) := elf.pagesAt (List.range elf.phnum)

/-- If the segments of a position-independent program can all be loaded, each relocation
that is reached is confined. -/
def RelocationsConfined (elf : Elf64) (st : PhysState N) (root : Nat) : Prop :=
  elf.loadBias ≠ 0 → ∀ pages, elf.allPages = some pages → RoomFor st root pages →
    ∀ r, elf.Reached elf.loadBias r → Confined st root pages r

theorem mapAndLoadInto_state (elf : Elf64) (root : Nat) (st : PhysState N) :
    (elf.mapAndLoadInto root st).2 =
      if (elf.loadAll root (range elf.phnum) st).1 = some (.ok ()) ∧ elf.loadBias ≠ 0 then
        (elf.relativeRelocs elf.loadBias).1.foldl (Elf.applyReloc root)
          (elf.loadAll root (range elf.phnum) st).2
      else (elf.loadAll root (range elf.phnum) st).2 := by
  unfold mapAndLoadInto
  rcases elf.loadAll root (range elf.phnum) st with ⟨_ | err | ⟨⟨⟩⟩, st'⟩
  · simp
  · simp
  · by_cases pie : elf.loadBias = 0
    · simp [pie]
    · simp only [pie, ne_eq, not_false_eq_true, if_true, and_self, applyRelativeRelocs]
      cases (elf.relativeRelocs elf.loadBias).2 <;> rfl

theorem relocations_eq (elf : Elf64) (root : Nat) (st : PhysState N) :
    elf.relocations root st =
      if (elf.loadAll root (range elf.phnum) st).1 = some (.ok ()) ∧ elf.loadBias ≠ 0 then
        relocationSteps root (elf.relativeRelocs elf.loadBias).1
          (elf.loadAll root (range elf.phnum) st).2
      else [] := by
  unfold relocations
  rcases elf.loadAll root (range elf.phnum) st with ⟨_ | err | ⟨⟨⟩⟩, st'⟩ <;> simp

end Elf64

theorem Safe.mappings (safe : Safe st₀ root st) (w : Nat) (kernel : userHalfEnd ≤ w % 2 ^ 48) :
    st.mem.translateIn root w = st₀.mem.translateIn root w :=
  safe.kernel w (not_lt.mp fun user => not_lt.mpr kernel ((pageOf_lt_iff w).mp user))

/-- Loading a file that `parse` accepts into a well-formed address space with an empty user
half is isolated exactly if the relocations that get applied are confined. -/
theorem load_isolated_iff {data : Bytes} {elf : Elf64} (parsed : parse data = some (.ok elf))
    {st : PhysState N} {root : Nat} (wellFormed : st.WellFormed root)
    (empty : ∀ w, w % 2 ^ 48 < userHalfEnd → st.mem.translateIn root w = none) :
    elf.Isolated st root ↔ elf.RelocationsConfined st root := by
  have valid := Elf64.valid_of_parse parsed
  have start : Loaded st root [] st :=
    Loaded.start wellFormed fun w user => empty w ((pageOf_lt_iff w).mp user)
  obtain ⟨safe, okIff, after⟩ := loadAll_spec elf (range elf.phnum) start
  by_cases applied : (elf.loadAll root (range elf.phnum) st).1 = some (.ok ()) ∧
      elf.loadBias ≠ 0
  · obtain ⟨pages, listed, fits⟩ := okIff.mp applied.1
    have loaded := after pages listed applied.1
    rw [nil_append] at loaded fits
    -- the condition, for the pages that the segments have
    have confinedIff : elf.RelocationsConfined st root ↔
        ∀ r ∈ (elf.relativeRelocs elf.loadBias).1, Confined st root pages r := by
      simp only [valid.mem_relativeRelocs]
      constructor
      · intro confined
        exact confined applied.2 pages listed fits
      · intro confined _ pages' listed' _
        rw [show elf.allPages = some pages from listed] at listed'
        cases listed'
        exact confined
    rw [confinedIff, ← loaded.relocationSteps_iff]
    constructor
    · intro isolated
      have steps := isolated.relocations
      rwa [elf.relocations_eq, if_pos applied] at steps
    · intro steps
      have final := (loaded.foldl_applyReloc (loaded.relocationSteps_iff _ |>.mp steps)).toSafe
      refine ⟨?_, ?_, ?_⟩
      · rw [elf.mapAndLoadInto_state, if_pos applied]
        exact final.mappings
      · rw [elf.mapAndLoadInto_state, if_pos applied]
        exact final.writes
      · rw [elf.relocations_eq, if_pos applied]
        exact steps
  · refine iff_of_true ⟨?_, ?_, ?_⟩ ?_
    · rw [elf.mapAndLoadInto_state, if_neg applied]
      exact safe.mappings
    · rw [elf.mapAndLoadInto_state, if_neg applied]
      exact safe.writes
    · rw [elf.relocations_eq, if_neg applied]
      nofun
    · intro pie pages listed fits
      exact absurd ⟨okIff.mpr ⟨pages, listed, fits⟩, pie⟩ applied

theorem userHalf_kernelState (w : Nat) (user : w % 2 ^ 48 < userHalfEnd) :
    kernelState.mem.translateIn 0x1000 w = none := by
  have index : virtIndex w .pml4 ≠ 256 := by
    intro same
    have value := congrArg Fin.val same
    rw [virtIndex_val] at value
    unfold userHalfEnd at user
    simp only [PageLevel.shift] at value
    have : ((256 : Fin 512) : Nat) = 256 := rfl
    omega
  have clear : kernelState.mem.entry 0x1000 (virtIndex w .pml4) = 0 := by
    simp [PhysMem.entry, kernelState, frameBytes, index]
  rw [PhysMem.translateIn, clear]
  rfl

/-- The header of a position-independent file, with its program headers right after it. -/
def headerBytes (phnum : Nat) : List UInt8 :=
  elfMagic ++ [2, 1, 1, 0] ++ toLeBytes 8 0 ++ toLeBytes 2 etDyn ++ toLeBytes 2 emX86_64 ++
    toLeBytes 12 1 ++ toLeBytes 8 64 ++ toLeBytes 14 0 ++ toLeBytes 2 56 ++ toLeBytes 2 phnum ++
    toLeBytes 6 0

def phdrBytes (pType pOffset pVaddr pFilesz pMemsz : Nat) : List UInt8 :=
  toLeBytes 4 pType ++ toLeBytes 4 pfW ++ toLeBytes 8 pOffset ++ toLeBytes 16 pVaddr ++
    toLeBytes 8 pFilesz ++ toLeBytes 16 pMemsz

def dynamicBytes (relaOff relaSz : Nat) : List UInt8 :=
  toLeBytes 8 dtRela ++ toLeBytes 8 relaOff ++ toLeBytes 8 dtRelasz ++ toLeBytes 8 relaSz ++
    toLeBytes 16 0

def relativeBytes (rOffset rAddend : Nat) : List UInt8 :=
  toLeBytes 8 rOffset ++ toLeBytes 8 rX86_64Relative ++ toLeBytes 8 rAddend

/-- A file with one page to load at `0x1000` and a relocation in that page. -/
def relocatedFile : Bytes where
  list := headerBytes 2 ++ phdrBytes ptLoad 0 0x1000 248 4096 ++ phdrBytes ptDynamic 176 0 48 48 ++
    dynamicBytes 224 24 ++ relativeBytes 0x1ff8 0x1000
  bounded := by
    simp [headerBytes, phdrBytes, dynamicBytes, relativeBytes, length_toLeBytes, elfMagic]

/-- A relocation in the last word of a loaded page is harmless. -/
theorem load_isolated_iff_relocatedFile :
    ((headerOf relocatedFile).relativeRelocs 0x400000).1 = [⟨0x401ff8, 0x401000⟩] ∧
    (headerOf relocatedFile).Isolated kernelState 0x1000 := by
  have accepted : HeaderAccepted relocatedFile := by constructor <;> decide +kernel
  have parsed := parse_of_inside accepted (by decide +kernel)
  have relocs : ((headerOf relocatedFile).relativeRelocs 0x400000).1 =
      [⟨0x401ff8, 0x401000⟩] := by decide +kernel
  have bias : (headerOf relocatedFile).loadBias = 0x400000 := by decide +kernel
  refine ⟨relocs, (load_isolated_iff parsed wellFormed_kernelState userHalf_kernelState).mpr ?_⟩
  intro _ pages _ _ r reached
  rw [bias, ← (Elf64.valid_of_parse parsed).mem_relativeRelocs, relocs, mem_singleton] at reached
  subst reached
  exact ⟨fun kernel => absurd kernel (by decide), fun _ _ => by decide⟩

/-- A file without load segments, whose only relocation has the start of the kernel half
as its target. -/
def hostileFile : Bytes where
  list := headerBytes 1 ++ phdrBytes ptDynamic 120 0 48 48 ++ dynamicBytes 168 24 ++
    relativeBytes (0xFFFF800000000000 - 0x400000) 0
  bounded := by
    simp [headerBytes, phdrBytes, dynamicBytes, relativeBytes, length_toLeBytes, elfMagic]

/-- A relocation is written to a frame of the kernel: loading `hostileFile` stores eight
bytes at the physical address that the start of the kernel half is mapped to. -/
theorem hostileFile_not_isolated :
    parse hostileFile = some (.ok (headerOf hostileFile)) ∧ kernelState.WellFormed 0x1000 ∧
    (∀ w, w % 2 ^ 48 < userHalfEnd → kernelState.mem.translateIn 0x1000 w = none) ∧
    ¬(headerOf hostileFile).Isolated kernelState 0x1000 := by
  have accepted : HeaderAccepted hostileFile := by constructor <;> decide +kernel
  have parsed := parse_of_inside accepted (by decide +kernel)
  refine ⟨parsed, wellFormed_kernelState, userHalf_kernelState, fun isolated => ?_⟩
  have headers : (headerOf hostileFile).phnum = 1 := by decide +kernel
  have bias : (headerOf hostileFile).loadBias = 0x400000 := by decide +kernel
  -- the only program header is `PT_DYNAMIC`, so that nothing is loaded
  have skipped : (headerOf hostileFile).segmentAt 0 = some none := by
    rw [(Elf64.valid_of_parse parsed).segmentAt_eq (by rw [headers]; norm_num), if_neg]
    decide +kernel
  have loaded : (headerOf hostileFile).loadAll 0x1000 (range (headerOf hostileFile).phnum)
      kernelState = (some (.ok ()), kernelState) := by
    rw [headers, show range 1 = [0] from rfl, Elf64.loadAll, skipped]
    rfl
  have relocs : ((headerOf hostileFile).relativeRelocs 0x400000).1 =
      [⟨0xFFFF800000000000, 0x400000⟩] := by decide +kernel
  have steps : (headerOf hostileFile).relocations 0x1000 kernelState =
      [(⟨0xFFFF800000000000, 0x400000⟩, kernelState)] := by
    rw [Elf64.relocations_eq, loaded, if_pos ⟨rfl, by rw [bias]; norm_num⟩, bias, relocs]
    rfl
  have own := isolated.relocations _ (steps ▸ mem_singleton_self _)
  exact absurd (own 0 (by decide +kernel)).1 (by decide)

end NexaCore.Elf
