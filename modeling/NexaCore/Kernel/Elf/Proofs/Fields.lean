import NexaCore.Kernel.Elf.Format

/-!
# What the parser reads

The checked reads of the parser against the fields of the file: when a read
panics, what `parse` accepts, and what one turn of each scan yields for a file
that `parse` has accepted.
-/

namespace NexaCore.Elf

open Misc Option Nat Bytes

variable {data : Bytes}

theorem leValue_lt (bs : List UInt8) : leValue bs < 256 ^ bs.length := by
  induction bs with
  | nil => simp [leValue]
  | cons b bs ih =>
    have byte := b.toNat_lt
    simp only [leValue, List.length_cons, pow_succ]
    omega

@[simp] theorem length_toLeBytes (width value : Nat) : (toLeBytes width value).length = width := by
  induction width generalizing value with
  | zero => rfl
  | succ width ih => rw [toLeBytes, List.length_cons, ih]

theorem leValue_toLeBytes {width value : Nat} (fits : value < 256 ^ width) :
    leValue (toLeBytes width value) = value := by
  induction width generalizing value with
  | zero =>
    rw [pow_zero] at fits
    rw [toLeBytes, leValue]
    omega
  | succ width ih =>
    rw [pow_succ] at fits
    have byte : (UInt8.ofNat (value % 256)).toNat = value % 256 := by simp
    rw [toLeBytes, leValue, byte, ih (by omega)]
    omega

namespace Bytes

/-- The little-endian field of `width` bytes at `off`, if it lies in the file. -/
def field? (data : Bytes) (width off : Nat) : Option Nat :=
  if off + width ≤ data.length then some (leValue (data.slice off width)) else none

/-- The field of `width` bytes at `off`; zero where it is not in the file. -/
def field (data : Bytes) (width off : Nat) : Nat := (data.field? width off).getD 0

variable {data : Bytes} {width off : Nat}

theorem length_lt (data : Bytes) : data.length < 2 ^ 63 := data.bounded

theorem field?_of_le (inside : off + width ≤ data.length) :
    data.field? width off = some (data.field width off) := by
  simp [field, field?, inside]

theorem getD_field? : (data.field? width off).getD 0 = data.field width off := by
  simp [field]

theorem field?_of_gt (outside : data.length < off + width) : data.field? width off = none :=
  if_neg (not_le.mpr outside)

theorem field_of_gt (outside : data.length < off + width) : data.field width off = 0 := by
  simp [field, field?_of_gt outside]

theorem field_lt (data : Bytes) (width off : Nat) : data.field width off < 256 ^ width := by
  unfold field field?
  split
  · have shorter : (data.slice off width).length ≤ width := by simp [slice]
    exact (leValue_lt _).trans_le (Nat.pow_le_pow_right (by norm_num) shorter)
  · exact Nat.pos_of_ne_zero (by simp)

theorem read_of_lt (fits : off + width < 2 ^ 64) :
    data.read width off = some (data.field? width off) := by
  simp only [read, addU64_of_lt fits, field?, bind_eq_bind, bind_some]
  split <;> rfl

theorem read_of_le (inside : off + width ≤ data.length) :
    data.read width off = some (some (data.field width off)) := by
  rw [read_of_lt (by have := data.length_lt; omega), field?_of_le inside]

end Bytes

/-- The checks of `parse` before the program header table is compared with the length. -/
structure HeaderAccepted (data : Bytes) : Prop where
  long : 64 ≤ data.length
  magic : data.slice 0 4 = elfMagic
  class64 : data.list[4]? = some elfClass64
  lsb : data.list[5]? = some elfData2Lsb
  type : data.field 2 16 = etExec ∨ data.field 2 16 = etDyn
  machine : data.field 2 18 = emX86_64
  phentsize : 56 ≤ data.field 2 54
  phoff : data.field 8 32 ≠ 0
  phnum : data.field 2 56 ≠ 0

/-- The end of the program header table, as a natural number. -/
def phdrEnd (data : Bytes) : Nat := data.field 8 32 + data.field 2 56 * data.field 2 54

/-- The record that `parse` builds. -/
def headerOf (data : Bytes) : Elf64 :=
  ⟨data, data.field 8 24, data.field 2 16, data.field 8 32, data.field 2 54, data.field 2 56⟩

/-- The fields of the header are read from a file that is long enough. -/
theorem Bytes.read_header (data : Bytes) (long : 64 ≤ data.length) {width off : Nat}
    (early : off + width ≤ 64) : data.read width off = some (some (data.field width off)) :=
  read_of_le (early.trans long)

theorem phdrSize_lt (data : Bytes) : data.field 2 56 * data.field 2 54 < 2 ^ 64 := by
  have count := data.field_lt 2 56
  have size := data.field_lt 2 54
  calc data.field 2 56 * data.field 2 54 < 256 ^ 2 * 256 ^ 2 := mul_lt_mul'' count size
    _ ≤ 2 ^ 64 := by norm_num

theorem parse_of_accepted (accepted : HeaderAccepted data) :
    parse data = (addU64 (data.field 8 32) (data.field 2 56 * data.field 2 54)).bind fun stop =>
      some (if data.length < stop then .error .tooShort else .ok (headerOf data)) := by
  obtain ⟨long, magic, class64, lsb, type, machine, phentsize, phoff, phnum⟩ := accepted
  have typed : ¬(data.field 2 16 ≠ etExec ∧ data.field 2 16 ≠ etDyn) := by tauto
  have table : ¬(data.field 2 54 < 56 ∨ data.field 8 32 = 0 ∨ data.field 2 56 = 0) := by omega
  have read (width off : Nat) (early : off + width ≤ 64) := data.read_header long early
  simp only [parse, not_lt.mpr long, magic, class64, lsb, rU16, rU64,
    read 2 16 (by norm_num), read 2 18 (by norm_num), read 8 24 (by norm_num),
    read 8 32 (by norm_num), read 2 54 (by norm_num), read 2 56 (by norm_num), typed, machine,
    table, mulU64_of_lt (phdrSize_lt data), ne_eq, not_true_eq_false, if_false,
    bind_eq_bind, bind_some, pure_def, headerOf]
  congr 1
  funext stop
  split <;> rfl

theorem parse_of_refused (refused : ¬HeaderAccepted data) :
    ∃ err, parse data = some (.error err) := by
  by_cases long : data.length < 64
  · exact ⟨.tooShort, by simp [parse, long]⟩
  · have read (width off : Nat) (early : off + width ≤ 64) :=
      data.read_header (not_lt.mp long) early
    simp only [parse, long, rU16, rU64,
      read 2 16 (by norm_num), read 2 18 (by norm_num), read 8 24 (by norm_num),
      read 8 32 (by norm_num), read 2 54 (by norm_num), read 2 56 (by norm_num), if_false,
      bind_eq_bind, bind_some, pure_def]
    split_ifs with magic class64 lsb type machine table
    all_goals first
      | exact ⟨_, rfl⟩
      | exact absurd ⟨not_lt.mp long, not_not.mp magic, not_not.mp class64, not_not.mp lsb,
          by tauto, not_not.mp machine, by omega, by omega, by omega⟩ refused

/-- `parse` panics exactly when the header passes its checks and the end of the program
header table leaves `u64`. -/
theorem parse_isSome_iff (data : Bytes) :
    (parse data).isSome ↔ (HeaderAccepted data → phdrEnd data < 2 ^ 64) := by
  by_cases accepted : HeaderAccepted data
  · simp only [parse_of_accepted accepted, accepted, true_imp_iff, phdrEnd, ← addU64_isSome]
    cases addU64 (data.field 8 32) (data.field 2 56 * data.field 2 54) <;> simp
  · obtain ⟨err, refused⟩ := parse_of_refused accepted
    simp [refused, accepted]

theorem parse_eq_ok {elf : Elf64} (parsed : parse data = some (.ok elf)) :
    HeaderAccepted data ∧ elf = headerOf data ∧ phdrEnd data ≤ data.length := by
  by_cases accepted : HeaderAccepted data
  · rw [parse_of_accepted accepted] at parsed
    by_cases fits : data.field 8 32 + data.field 2 56 * data.field 2 54 < 2 ^ 64
    · simp only [addU64_of_lt fits, bind_some, Option.some.injEq] at parsed
      split at parsed
      · cases parsed
      · cases parsed
        exact ⟨accepted, rfl, by unfold phdrEnd; omega⟩
    · simp [addU64_of_ge (not_lt.mp fits)] at parsed
  · obtain ⟨err, refused⟩ := parse_of_refused accepted
    rw [refused] at parsed
    cases parsed

namespace Elf64

/-- The program header table lies in the file and its entries have all their fields. -/
structure Valid (elf : Elf64) : Prop where
  phentsize : 56 ≤ elf.phentsize
  table : elf.phoff + elf.phnum * elf.phentsize ≤ elf.data.length

theorem valid_of_parse {elf : Elf64} (parsed : parse data = some (.ok elf)) : elf.Valid := by
  obtain ⟨accepted, rfl, inside⟩ := parse_eq_ok parsed
  exact ⟨accepted.phentsize, inside⟩

def phdr (elf : Elf64) (i : Nat) : Nat := elf.phoff + i * elf.phentsize

/-- The fields of the program header `i`. -/
def pType (elf : Elf64) (i : Nat) : Nat := elf.data.field 4 (elf.phdr i)

def pFlags (elf : Elf64) (i : Nat) : Nat := elf.data.field 4 (elf.phdr i + 4)

def pOffset (elf : Elf64) (i : Nat) : Nat := elf.data.field 8 (elf.phdr i + 8)

def pVaddr (elf : Elf64) (i : Nat) : Nat := elf.data.field 8 (elf.phdr i + 16)

def pFilesz (elf : Elf64) (i : Nat) : Nat := elf.data.field 8 (elf.phdr i + 32)

def pMemsz (elf : Elf64) (i : Nat) : Nat := elf.data.field 8 (elf.phdr i + 40)

variable {elf : Elf64} {i : Nat}

section

variable (valid : elf.Valid) (bound : i < elf.phnum)

include valid bound

theorem Valid.phdr_le : elf.phdr i + 56 ≤ elf.data.length := by
  have next : (i + 1) * elf.phentsize ≤ elf.phnum * elf.phentsize :=
    mul_le_mul_right _ bound
  rw [succ_mul] at next
  have size := valid.phentsize
  have table := valid.table
  unfold phdr
  omega

theorem Valid.phdrBase_eq : elf.phdrBase i = some (elf.phdr i) := by
  have inside := valid.phdr_le bound
  have small := elf.data.length_lt
  unfold phdr at inside
  simp only [phdrBase, mulU64_of_lt (show i * elf.phentsize < 2 ^ 64 by omega),
    bind_eq_bind, bind_some]
  exact addU64_of_lt (by omega)

theorem Valid.addU64_phdr {rel : Nat} (inside : rel ≤ 56) :
    addU64 (elf.phdr i) rel = some (elf.phdr i + rel) := by
  have table := valid.phdr_le bound
  have small := elf.data.length_lt
  exact addU64_of_lt (by omega)

theorem Valid.read_phdr {width rel : Nat} (inside : rel + width ≤ 56) :
    elf.data.read width (elf.phdr i + rel) =
      some (some (elf.data.field width (elf.phdr i + rel))) := by
  have table := valid.phdr_le bound
  exact read_of_le (by omega)

theorem Valid.read_pType : elf.data.read 4 (elf.phdr i) = some (some (elf.pType i)) :=
  valid.read_phdr bound (show 0 + 4 ≤ 56 by norm_num)

theorem Valid.read_pOffset : elf.data.read 8 (elf.phdr i + 8) = some (some (elf.pOffset i)) :=
  valid.read_phdr bound (by norm_num)

theorem Valid.read_pFilesz : elf.data.read 8 (elf.phdr i + 32) = some (some (elf.pFilesz i)) :=
  valid.read_phdr bound (by norm_num)

end

/-- The segment of the program header `i`, if its file image lies in the file. -/
def segmentItem (elf : Elf64) (i : Nat) : Except ElfError LoadSegment :=
  if elf.pOffset i + elf.pFilesz i ≤ elf.data.length then
    .ok ⟨elf.pVaddr i, elf.data.slice (elf.pOffset i) (elf.pFilesz i), elf.pMemsz i, elf.pFlags i⟩
  else .error .badPhdrs

theorem Valid.segmentAt_eq (valid : elf.Valid) (bound : i < elf.phnum) :
    elf.segmentAt i =
      if elf.pType i = ptLoad then
        (addU64 (elf.pOffset i) (elf.pFilesz i)).map fun _ => some (elf.segmentItem i)
      else some none := by
  have flags : elf.data.read 4 (elf.phdr i + 4) = some (some (elf.pFlags i)) :=
    valid.read_phdr bound (by norm_num)
  have vaddr : elf.data.read 8 (elf.phdr i + 16) = some (some (elf.pVaddr i)) :=
    valid.read_phdr bound (by norm_num)
  have memsz : elf.data.read 8 (elf.phdr i + 40) = some (some (elf.pMemsz i)) :=
    valid.read_phdr bound (by norm_num)
  have base {rel : Nat} (inside : rel ≤ 56) := valid.addU64_phdr bound inside
  simp only [segmentAt, rU32, rU64, valid.phdrBase_eq bound, flags, vaddr, memsz,
    valid.read_pType bound, valid.read_pOffset bound, valid.read_pFilesz bound,
    base (show 4 ≤ 56 by norm_num), base (show 8 ≤ 56 by norm_num),
    base (show 16 ≤ 56 by norm_num), base (show 32 ≤ 56 by norm_num),
    base (show 40 ≤ 56 by norm_num), bind_eq_bind, bind_some, pure_def]
  by_cases load : elf.pType i = ptLoad
  · by_cases fits : elf.pOffset i + elf.pFilesz i < 2 ^ 64
    · simp only [load, ne_eq, not_true_eq_false, if_true, if_false, addU64_of_lt fits,
        bind_some, map_some, segmentItem]
      split <;> rfl
    · simp only [load, ne_eq, not_true_eq_false, if_true, if_false,
        addU64_of_ge (not_lt.mp fits), bind_none, map_none]
  · simp [load]

end Elf64

end NexaCore.Elf
