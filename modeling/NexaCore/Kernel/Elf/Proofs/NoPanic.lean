import NexaCore.Kernel.Elf.Proofs.Fields

/-!
# When the ELF parser panics

The scans of the parser return a value, except where a field of the file makes a
sum leave `u64`. `Fits` lists those sums; `parser_total_iff` proves the list exact.
-/

namespace NexaCore.Elf

open Misc List Option Bytes

namespace Elf64

variable {elf : Elf64} {data : Bytes} {bias relaOff : Nat}

/-! ## Segments -/

theorem segmentsAt_isSome (is : List Nat) :
    (elf.segmentsAt is).isSome ↔ ∀ i ∈ is, (elf.segmentAt i).isSome := by
  induction is with
  | nil => simp [segmentsAt]
  | cons i is ih =>
    cases here : elf.segmentAt i with
    | none => simp [segmentsAt, here]
    | some item =>
      simp only [segmentsAt, here, forall_mem_cons, ← ih]
      cases elf.segmentsAt is <;> simp

theorem mem_segmentsAt {is : List Nat} {items : List (Except ElfError LoadSegment)}
    (yielded : elf.segmentsAt is = some items) {item : Except ElfError LoadSegment}
    (member : item ∈ items) : ∃ i ∈ is, elf.segmentAt i = some (some item) := by
  induction is generalizing items with
  | nil => simp_all [segmentsAt]
  | cons i is ih =>
    simp only [segmentsAt, Option.bind_eq_bind, Option.bind_eq_some_iff, Option.pure_def,
      Option.some.injEq] at yielded
    obtain ⟨head, here, rest, tail, rfl⟩ := yielded
    rcases List.mem_append.mp member with first | later
    · rw [Option.mem_toList.mp first] at here
      exact ⟨i, .head _, here⟩
    · obtain ⟨j, listed, there⟩ := ih tail later
      exact ⟨j, .tail _ listed, there⟩

theorem Valid.inside_of_segmentAt (valid : elf.Valid) {i : Nat} (bound : i < elf.phnum)
    {seg : LoadSegment} (yielded : elf.segmentAt i = some (some (.ok seg))) :
    ∃ off, off + seg.fileData.length ≤ elf.data.length ∧
      seg.fileData = elf.data.slice off seg.fileData.length := by
  rw [valid.segmentAt_eq bound] at yielded
  split at yielded
  · simp only [map_eq_some_iff, some.injEq, segmentItem] at yielded
    obtain ⟨stop, -, item⟩ := yielded
    split at item
    · cases item
      refine ⟨elf.pOffset i, ?_, ?_⟩
      · simp only [Bytes.slice, length_take, length_drop, Bytes.length] at *
        omega
      · simp only [Bytes.slice, length_take, length_drop, Bytes.length] at *
        congr 1
        omega
    · cases item
  · cases yielded

/-! ## Dynamic section -/

/-- The offset and the size of the dynamic section among the program headers `is`. -/
def dynamicOf (elf : Elf64) (is : List Nat) : Nat × Nat :=
  match is.find? (fun i => elf.pType i = ptDynamic) with
  | some i => (elf.pOffset i, elf.pFilesz i)
  | none => (0, 0)

theorem Valid.dynamicIn_eq (valid : elf.Valid) {is : List Nat} (bound : ∀ i ∈ is, i < elf.phnum) :
    elf.dynamicIn is = some (elf.dynamicOf is) := by
  induction is with
  | nil => rfl
  | cons i is ih =>
    have here : i < elf.phnum := bound i (.head _)
    have base {rel : Nat} (inside : rel ≤ 56) := valid.addU64_phdr here inside
    have rest := ih fun j listed => bound j (.tail _ listed)
    simp only [dynamicIn, rU32, rU64, valid.phdrBase_eq here,
      valid.read_pType here, valid.read_pOffset here, valid.read_pFilesz here,
      base (show 8 ≤ 56 by norm_num), base (show 32 ≤ 56 by norm_num), rest,
      Option.bind_eq_bind, Option.bind_some, Option.pure_def, Option.getD_some,
      Option.some.injEq, dynamicOf, List.find?_cons]
    by_cases found : elf.pType i = ptDynamic <;> simp [found]

/-- The tag and the value of the dynamic entry `k`; zero where the file ends before. -/
def dynEntry (data : Bytes) (dynOffset k : Nat) : Nat × Nat :=
  (data.field 8 (dynOffset + 16 * k), data.field 8 (dynOffset + 16 * k + 8))

/-- The dynamic entries among `ks` before the first null tag. -/
def dynEntries (data : Bytes) (dynOffset : Nat) (ks : List Nat) : List (Nat × Nat) :=
  (ks.map (dynEntry data dynOffset)).takeWhile fun entry => entry.1 ≠ 0

/-- The last `DT_RELA` and the last `DT_RELASZ` win. -/
def noteEntry (rela entry : Nat × Nat) : Nat × Nat :=
  (if entry.1 = dtRela then entry.2 else rela.1, if entry.1 = dtRelasz then entry.2 else rela.2)

/-- The offset and the size of the relocation table. -/
def relaTable (data : Bytes) (dynOffset dynSize : Nat) : Nat × Nat :=
  (dynEntries data dynOffset (List.range (dynSize / 16))).foldl noteEntry (0, 0)

/-- The loop from the entry `k` on. An entry that is not null lies in the file, so that
only the position of the first entry can be near the end of `u64`. -/
theorem scanDynamic_from {dynOffset dynSize : Nat} (fits : dynOffset + dynSize < 2 ^ 64)
    (turns k : Nat) (rela : Nat × Nat) (reached : dynOffset + 16 * k + 16 < 2 ^ 64)
    (enough : dynSize / 16 < turns + k) :
    scanDynamic data dynOffset dynSize turns (dynOffset + 16 * k) rela =
      some ((dynEntries data dynOffset (range' k (dynSize / 16 - k))).foldl noteEntry rela) := by
  induction turns generalizing k rela with
  | zero =>
    have done : dynSize / 16 - k = 0 := by omega
    simp [scanDynamic, dynEntries, done]
  | succ turns ih =>
    obtain ⟨relaOff, relaSz⟩ := rela
    have tag : data.read 8 (dynOffset + 16 * k) = some (data.field? 8 (dynOffset + 16 * k)) :=
      read_of_lt (by omega)
    have val : data.read 8 (dynOffset + 16 * k + 8) =
        some (data.field? 8 (dynOffset + 16 * k + 8)) := read_of_lt (by omega)
    simp only [scanDynamic, addU64_of_lt reached, addU64_of_lt fits, rU64,
      addU64_of_lt (show dynOffset + 16 * k + 8 < 2 ^ 64 by omega), tag, val,
      Option.bind_eq_bind, Option.bind_some, Option.pure_def, getD_field?]
    by_cases more : dynOffset + 16 * k + 16 ≤ dynOffset + dynSize
    · have left : dynSize / 16 - k = (dynSize / 16 - (k + 1)) + 1 := by omega
      rw [if_pos more, left, range'_succ]
      by_cases null : data.field 8 (dynOffset + 16 * k) = 0
      · simp [null, dynEntries, dynEntry]
      · have inFile : dynOffset + 16 * k + 8 ≤ data.length :=
          not_lt.mp fun outside => null (field_of_gt outside)
        have small := data.length_lt
        have next : dynOffset + 16 * k + 16 = dynOffset + 16 * (k + 1) := by ring
        rw [if_neg null, next, ih (k + 1) _ (by omega) (by omega)]
        simp [dynEntries, dynEntry, null, noteEntry]
    · have done : dynSize / 16 - k = 0 := by omega
      simp [more, done, dynEntries]

/-- The loop over the dynamic entries panics exactly when the position of the first entry
or the end of the section leaves `u64`. -/
theorem scanDynamic_eq (dynOffset dynSize : Nat) :
    scanDynamic data dynOffset dynSize (dynSize / 16 + 1) dynOffset (0, 0) =
      if dynOffset + 16 < 2 ^ 64 ∧ dynOffset + dynSize < 2 ^ 64 then
        some (relaTable data dynOffset dynSize)
      else none := by
  split_ifs with fits
  · have whole : scanDynamic data dynOffset dynSize (dynSize / 16 + 1) (dynOffset + 16 * 0) (0, 0) =
        _ := scanDynamic_from fits.2 _ 0 (0, 0) (by simpa using fits.1) (by omega)
    simpa [relaTable, range_eq_range'] using whole
  · rw [scanDynamic]
    by_cases first : dynOffset + 16 < 2 ^ 64
    · have whole : 2 ^ 64 ≤ dynOffset + dynSize := not_lt.mp fun h => fits ⟨first, h⟩
      simp [addU64_of_lt first, addU64_of_ge whole]
    · simp [addU64_of_ge (not_lt.mp first)]

/-! ## Relocation table -/

/-- The entry at `entOff` lies in the file and is of type `R_X86_64_RELATIVE`. -/
def Relocates (data : Bytes) (entOff : Nat) : Prop :=
  entOff + 24 ≤ data.length ∧ data.field 8 (entOff + 8) &&& 0xFFFFFFFF = rX86_64Relative

instance (data : Bytes) (entOff : Nat) : Decidable (Relocates data entOff) :=
  inferInstanceAs (Decidable (_ ∧ _))

def relocOf (data : Bytes) (bias entOff : Nat) : Reloc :=
  ⟨bias + data.field 8 entOff, bias + data.field 8 (entOff + 16)⟩

theorem relaEntry_eq {entOff : Nat} (fits : entOff + 8 < 2 ^ 64) :
    relaEntry data bias entOff =
      if Relocates data entOff then
        if (relocOf data bias entOff).target < 2 ^ 64 ∧ (relocOf data bias entOff).value < 2 ^ 64
        then some (some (relocOf data bias entOff)) else none
      else some none := by
  have small := data.length_lt
  have read (off : Nat) (room : off + 8 < 2 ^ 64) : data.rU64 off = some (data.field? 8 off) :=
    read_of_lt room
  simp only [relaEntry, read entOff fits, Option.bind_eq_bind, Option.bind_some, Option.pure_def]
  by_cases first : entOff + 8 ≤ data.length
  · simp only [field?_of_le first, addU64_of_lt (show entOff + 8 < 2 ^ 64 by omega),
      addU64_of_lt (show entOff + 16 < 2 ^ 64 by omega), Option.bind_some,
      read (entOff + 8) (by omega), read (entOff + 16) (by omega)]
    by_cases whole : entOff + 24 ≤ data.length
    · rw [field?_of_le (show entOff + 8 + 8 ≤ data.length by omega),
        field?_of_le (show entOff + 16 + 8 ≤ data.length by omega)]
      simp only [Relocates, whole, true_and, relocOf, ne_eq, ite_not]
      by_cases relative : data.field 8 (entOff + 8) &&& 0xFFFFFFFF = rX86_64Relative
      · rw [if_pos relative, if_pos relative]
        exact addU64_bind_addU64 _ _ _ _ fun target value => some (⟨target, value⟩ : Reloc)
      · rw [if_neg relative, if_neg relative]
    · have skipped : ¬Relocates data entOff := fun relocates => whole relocates.1
      rw [if_neg skipped, field?_of_gt (show data.length < entOff + 16 + 8 by omega)]
      cases data.field? 8 (entOff + 8) <;> rfl
  · have skipped : ¬Relocates data entOff := fun relocates => by have := relocates.1; omega
    rw [if_neg skipped, field?_of_gt (not_le.mp first)]

/-- The entry `i` of the relocation table can be read, and the sums of a relocation in it
stay in `u64`. -/
def EntryFits (data : Bytes) (bias relaOff i : Nat) : Prop :=
  relaOff + i * 24 + 8 < 2 ^ 64 ∧
    (Relocates data (relaOff + i * 24) →
      (relocOf data bias (relaOff + i * 24)).target < 2 ^ 64 ∧
        (relocOf data bias (relaOff + i * 24)).value < 2 ^ 64)

theorem relaEntryAt_of_fits {i : Nat} (index : i * 24 < 2 ^ 64)
    (fits : EntryFits data bias relaOff i) :
    relaEntryAt data bias relaOff i =
      some (if Relocates data (relaOff + i * 24) then some (relocOf data bias (relaOff + i * 24))
        else none) := by
  obtain ⟨room, sums⟩ := fits
  simp only [relaEntryAt, mulU64_of_lt index, bind_eq_bind, bind_some,
    addU64_of_lt (show relaOff + i * 24 < 2 ^ 64 by omega), relaEntry_eq room]
  split_ifs <;> simp_all

theorem relaEntryAt_eq_none_iff {i : Nat} (index : i * 24 < 2 ^ 64) :
    relaEntryAt data bias relaOff i = none ↔ ¬EntryFits data bias relaOff i := by
  refine ⟨fun panics fits => ?_, fun bad => ?_⟩
  · rw [relaEntryAt_of_fits index fits] at panics
    cases panics
  · simp only [relaEntryAt, mulU64_of_lt index, bind_eq_bind, bind_some, addU64]
    split
    · by_cases room : relaOff + i * 24 + 8 < 2 ^ 64
      · obtain ⟨relocates, sums⟩ := Classical.not_imp.mp fun sums => bad ⟨room, sums⟩
        rw [bind_some, relaEntry_eq room, if_pos relocates, if_neg sums]
      · simp [relaEntry, rU64, Bytes.read, addU64_of_ge (not_lt.mp room)]
    · rfl

theorem scanRela_panics_iff (count i : Nat) :
    (scanRela data bias relaOff count i).2 = true ↔
      ∃ j ∈ range' i count, relaEntryAt data bias relaOff j = none := by
  induction count generalizing i with
  | zero => simp [scanRela]
  | succ count ih =>
    rw [range'_succ, exists_mem_cons_iff, ← ih, scanRela]
    cases relaEntryAt data bias relaOff i with
    | none => simp
    | some item => cases item <;> simp

/-! ## The whole scan -/

def dynamic (elf : Elf64) : Nat × Nat := elf.dynamicOf (List.range elf.phnum)

def rela (elf : Elf64) : Nat × Nat := relaTable elf.data elf.dynamic.1 elf.dynamic.2

theorem foldl_noteEntry_lt {bound : Nat} (entries : List (Nat × Nat)) (rela : Nat × Nat)
    (start : rela.2 < bound) (values : ∀ entry ∈ entries, entry.2 < bound) :
    (entries.foldl noteEntry rela).2 < bound := by
  induction entries generalizing rela with
  | nil => exact start
  | cons entry entries ih =>
    refine ih _ ?_ fun later listed => values later (.tail _ listed)
    unfold noteEntry
    dsimp only
    split
    · exact values entry (.head _)
    · exact start

theorem relaTable_lt (dynOffset dynSize : Nat) : (relaTable data dynOffset dynSize).2 < 2 ^ 64 := by
  refine foldl_noteEntry_lt _ _ (by norm_num) fun entry listed => ?_
  obtain ⟨k, -, rfl⟩ := mem_map.mp (( takeWhile_prefix _).subset listed)
  exact data.field_lt 8 _

/-- The sums of the scan of the dynamic section and the relocation table stay in `u64`. -/
structure ScanFits (elf : Elf64) (bias : Nat) : Prop where
  dynamic : elf.dynamic.1 ≠ 0 → elf.dynamic.2 ≠ 0 →
    elf.dynamic.1 + 16 < 2 ^ 64 ∧ elf.dynamic.1 + elf.dynamic.2 < 2 ^ 64
  relocations : elf.dynamic.1 ≠ 0 → elf.dynamic.2 ≠ 0 → elf.rela.1 ≠ 0 → elf.rela.2 ≠ 0 →
    ∀ i < elf.rela.2 / 24, EntryFits elf.data bias elf.rela.1 i

/-- The scan of the relocation table panics exactly at an entry that does not fit. -/
theorem scanRela_returns_iff {relaSz : Nat} (size : relaSz < 2 ^ 64) :
    (scanRela data bias relaOff (relaSz / 24) 0).2 = false ↔
      ∀ i < relaSz / 24, EntryFits data bias relaOff i := by
  rw [← Bool.not_eq_true, scanRela_panics_iff, ← range_eq_range']
  constructor
  · intro returns i bound
    by_contra bad
    exact returns ⟨i, mem_range.mpr bound, (relaEntryAt_eq_none_iff (by omega)).mpr bad⟩
  · rintro fits ⟨i, listed, panics⟩
    have bound := mem_range.mp listed
    exact (relaEntryAt_eq_none_iff (by omega)).mp panics (fits i bound)

theorem Valid.relativeRelocs_eq (valid : elf.Valid) (bias : Nat) :
    elf.relativeRelocs bias =
      if elf.dynamic.1 = 0 ∨ elf.dynamic.2 = 0 then ([], false)
      else if elf.dynamic.1 + 16 < 2 ^ 64 ∧ elf.dynamic.1 + elf.dynamic.2 < 2 ^ 64 then
        if elf.rela.1 = 0 ∨ elf.rela.2 = 0 then ([], false)
        else scanRela elf.data bias elf.rela.1 (elf.rela.2 / 24) 0
      else ([], true) := by
  have found : elf.dynamicIn (range elf.phnum) = some elf.dynamic :=
    valid.dynamicIn_eq fun i listed => mem_range.mp listed
  have table : relaTable elf.data elf.dynamic.1 elf.dynamic.2 = elf.rela := rfl
  simp only [relativeRelocs, found, scanDynamic_eq, table]
  by_cases fits : elf.dynamic.1 + 16 < 2 ^ 64 ∧ elf.dynamic.1 + elf.dynamic.2 < 2 ^ 64
  · rw [if_pos fits, if_pos fits]
  · rw [if_neg fits, if_neg fits]

theorem Valid.relativeRelocs_returns_iff (valid : elf.Valid) (bias : Nat) :
    (elf.relativeRelocs bias).2 = false ↔ elf.ScanFits bias := by
  rw [valid.relativeRelocs_eq]
  have size : elf.rela.2 < 2 ^ 64 := relaTable_lt _ _
  split_ifs with none fits empty
  · exact iff_of_true rfl ⟨by tauto, by tauto⟩
  · exact iff_of_true rfl ⟨fun _ _ => fits, by tauto⟩
  · rw [scanRela_returns_iff size]
    exact ⟨fun entries => ⟨fun _ _ => fits, fun _ _ _ _ => entries⟩,
      fun scan => scan.relocations (by tauto) (by tauto) (by tauto) (by tauto)⟩
  · exact iff_of_false (by simp) fun scan => fits (scan.dynamic (by tauto) (by tauto))

end Elf64

/-! ## The whole parser -/

/-- The parser and the scans of its result return, and the segments that are yielded lie
in the file. -/
structure ParserTotal (data : Bytes) (bias : Nat) : Prop where
  parses : (parse data).isSome
  segments : ∀ elf, parse data = some (.ok elf) → ∃ items, elf.loadSegments = some items ∧
    ∀ seg, .ok seg ∈ items → ∃ off, off + seg.fileData.length ≤ data.length ∧
      seg.fileData = data.slice off seg.fileData.length
  entry : ∀ elf, parse data = some (.ok elf) → elf.entryPoint.isSome
  relocations : ∀ elf, parse data = some (.ok elf) → (elf.relativeRelocs bias).2 = false

/-- The sums over the fields of a parsed file stay in `u64`. -/
structure Elf64.Fits (elf : Elf64) (bias : Nat) : Prop where
  segments : ∀ i < elf.phnum, elf.pType i = ptLoad → elf.pOffset i + elf.pFilesz i < 2 ^ 64
  entry : elf.entry + elf.loadBias < 2 ^ 64
  scan : elf.ScanFits bias

/-- The sums over the fields of the file stay in `u64`. -/
def ParserFits (data : Bytes) (bias : Nat) : Prop :=
  HeaderAccepted data →
    phdrEnd data < 2 ^ 64 ∧ (phdrEnd data ≤ data.length → (headerOf data).Fits bias)

theorem parse_of_inside {data : Bytes} (accepted : HeaderAccepted data)
    (inside : phdrEnd data ≤ data.length) : parse data = some (.ok (headerOf data)) := by
  have small := data.length_lt
  unfold phdrEnd at inside
  rw [parse_of_accepted accepted, addU64_of_lt (by omega), bind_some, if_neg (not_lt.mpr inside)]

theorem Elf64.Valid.loadSegments_isSome {elf : Elf64} (valid : elf.Valid) :
    elf.loadSegments.isSome ↔
      ∀ i < elf.phnum, elf.pType i = ptLoad → elf.pOffset i + elf.pFilesz i < 2 ^ 64 := by
  simp only [loadSegments, segmentsAt_isSome, mem_range]
  refine forall₂_congr fun i bound => ?_
  rw [valid.segmentAt_eq bound, ← addU64_isSome]
  split <;> simp_all

/-- The parser returns on a file exactly when the sums over its fields stay in `u64`. -/
theorem parser_total_iff (data : Bytes) (bias : Nat) :
    ParserTotal data bias ↔ ParserFits data bias := by
  constructor
  · intro total accepted
    refine ⟨(parse_isSome_iff data).mp total.parses accepted, fun inside => ?_⟩
    have parsed := parse_of_inside accepted inside
    have valid := Elf64.valid_of_parse parsed
    obtain ⟨items, yielded, -⟩ := total.segments _ parsed
    exact {
      segments := valid.loadSegments_isSome.mp (by simp [yielded])
      entry := addU64_isSome.mp (total.entry _ parsed)
      scan := (valid.relativeRelocs_returns_iff bias).mp (total.relocations _ parsed) }
  · intro fits
    have parsedFits (elf : Elf64) (parsed : parse data = some (.ok elf)) :
        elf.data = data ∧ elf.Fits bias := by
      obtain ⟨accepted, rfl, inside⟩ := parse_eq_ok parsed
      exact ⟨rfl, (fits accepted).2 inside⟩
    refine ⟨(parse_isSome_iff data).mpr fun accepted => (fits accepted).1, ?_, ?_, ?_⟩
    · intro elf parsed
      have valid := Elf64.valid_of_parse parsed
      obtain ⟨rfl, sums⟩ := parsedFits elf parsed
      obtain ⟨items, yielded⟩ :=
        isSome_iff_exists.mp (valid.loadSegments_isSome.mpr sums.segments)
      refine ⟨items, yielded, fun seg member => ?_⟩
      obtain ⟨i, bound, here⟩ := Elf64.mem_segmentsAt yielded member
      exact valid.inside_of_segmentAt (mem_range.mp bound) here
    · intro elf parsed
      exact addU64_isSome.mpr (parsedFits elf parsed).2.entry
    · intro elf parsed
      exact ((Elf64.valid_of_parse parsed).relativeRelocs_returns_iff bias).mpr
        (parsedFits elf parsed).2.scan

/-- A header whose program header table starts at the last byte of the address space. -/
def wrappingHeader : Bytes where
  list := elfMagic ++ [2, 1, 1, 0] ++ List.replicate 8 0 ++ [2, 0, 62, 0] ++ List.replicate 12 0 ++
    List.replicate 8 0xff ++ List.replicate 14 0 ++ [56, 0, 1, 0] ++ List.replicate 6 0
  bounded := by decide

/-- `parse` panics on a file of 64 bytes. -/
theorem parse_panics_wrappingHeader : ¬ParserTotal wrappingHeader 0 := by
  have panics : parse wrappingHeader = none := by decide
  intro total
  have returns := total.parses
  rw [panics] at returns
  cases returns

end NexaCore.Elf
