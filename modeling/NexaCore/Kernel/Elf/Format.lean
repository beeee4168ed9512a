import NexaCore.Kernel.Basic
import NexaCore.Misc.Checked

/-!
# ELF64 parsing

Embedding of the parser of `nexacore-kernel/src/bare_metal/elf_loader.rs`: the header check
`parse`, the iteration over the `PT_LOAD` entries, and the scan of the dynamic section and the
relocation table. All profiles compile with overflow checks, so a sum that leaves `u64` is a panic
(`Checked`); a `usize` is a `u64`.
-/

namespace NexaCore.Elf

open Misc

/-- A byte slice. A Rust slice has at most `isize::MAX` bytes. -/
structure Bytes where
  list : List UInt8
  bounded : list.length < 2 ^ 63

/-- `from_le_bytes`. -/
def leValue : List UInt8 → Nat
  | [] => 0
  | b :: bs => b.toNat + 256 * leValue bs

/-- `to_le_bytes`, for a value of `width` bytes. -/
def toLeBytes : Nat → Nat → List UInt8
  | 0, _ => []
  | width + 1, value => UInt8.ofNat (value % 256) :: toLeBytes width (value / 256)

namespace Bytes

def length (data : Bytes) : Nat := data.list.length

/-- The bytes `off .. off + len`. -/
def slice (data : Bytes) (off len : Nat) : List UInt8 := (data.list.drop off).take len

/-- `r_u16`, `r_u32` and `r_u64` (`elf_loader.rs:61-74`) for their widths: the end of the
range is computed before `get` compares it with the length. -/
def read (data : Bytes) (width off : Nat) : Checked (Option Nat) := do
  let stop ← addU64 off width
  if stop ≤ data.length then return some (leValue (data.slice off width)) else return none

/-- `r_u16` (`elf_loader.rs:62-64`). -/
def rU16 (data : Bytes) (off : Nat) : Checked (Option Nat) := data.read 2 off

/-- `r_u32` (`elf_loader.rs:67-69`). -/
def rU32 (data : Bytes) (off : Nat) : Checked (Option Nat) := data.read 4 off

/-- `r_u64` (`elf_loader.rs:72-74`). -/
def rU64 (data : Bytes) (off : Nat) : Checked (Option Nat) := data.read 8 off

end Bytes

/-- `ElfError` (`elf_loader.rs:124-150`). -/
inductive ElfError where
  | tooShort
  | badMagic
  | notElf64
  | notLittleEndian
  | unsupportedMachine
  | unsupportedType
  | badPhdrs
  | outOfFrames
  | mappingFailed
  | segmentOutOfBounds
  deriving DecidableEq, Repr

/-- `ELF_MAGIC` and the constants beside it (`elf_loader.rs:42-48`). -/
def elfMagic : List UInt8 := [0x7f, 0x45, 0x4c, 0x46]

def elfClass64 : UInt8 := 2

def elfData2Lsb : UInt8 := 1

def etExec : Nat := 2

def etDyn : Nat := 3

def emX86_64 : Nat := 62

def ptLoad : Nat := 1

/-- The constants of `apply_relative_relocs` (`elf_loader.rs:476-479`). -/
def ptDynamic : Nat := 2

def dtRela : Nat := 7

def dtRelasz : Nat := 8

def rX86_64Relative : Nat := 8

/-- `LoadSegment` (`elf_loader.rs:158-167`). -/
structure LoadSegment where
  virtAddr : Nat
  fileData : List UInt8
  memSize : Nat
  flags : Nat
  deriving DecidableEq, Repr

/-- `Elf64` (`elf_loader.rs:248-255`). -/
structure Elf64 where
  data : Bytes
  entry : Nat
  eType : Nat
  phoff : Nat
  phentsize : Nat
  phnum : Nat

/-- A relocation to apply: `value` is stored at the virtual address `target`. -/
structure Reloc where
  target : Nat
  value : Nat
  deriving DecidableEq, Repr

/-- `Elf64::parse` (`elf_loader.rs:268-313`). -/
def parse (data : Bytes) : Checked (Except ElfError Elf64) := do
  if data.length < 64 then return .error .tooShort
  if data.slice 0 4 ≠ elfMagic then return .error .badMagic
  if data.list[4]? ≠ some elfClass64 then return .error .notElf64
  if data.list[5]? ≠ some elfData2Lsb then return .error .notLittleEndian
  let some eType ← data.rU16 16 | return .error .tooShort
  if eType ≠ etExec ∧ eType ≠ etDyn then return .error .unsupportedType
  let some eMachine ← data.rU16 18 | return .error .tooShort
  if eMachine ≠ emX86_64 then return .error .unsupportedMachine
  let some entry ← data.rU64 24 | return .error .tooShort
  let some phoff ← data.rU64 32 | return .error .tooShort
  let some phentsize ← data.rU16 54 | return .error .tooShort
  let some phnum ← data.rU16 56 | return .error .tooShort
  if phentsize < 56 ∨ phoff = 0 ∨ phnum = 0 then return .error .badPhdrs
  let size ← mulU64 phnum phentsize
  let stop ← addU64 phoff size
  if data.length < stop then return .error .tooShort
  return .ok ⟨data, entry, eType, phoff, phentsize, phnum⟩

namespace Elf64

/-- `load_bias` (`elf_loader.rs:330-332`). -/
def loadBias (elf : Elf64) : Nat := if elf.eType = etDyn then 0x400000 else 0

/-- `entry_point` (`elf_loader.rs:319-321`). -/
def entryPoint (elf : Elf64) : Checked Nat := addU64 elf.entry elf.loadBias

/-- `phoff + i * phentsize`. -/
def phdrBase (elf : Elf64) (i : Nat) : Checked Nat := do
  let off ← mulU64 i elf.phentsize
  addU64 elf.phoff off

/-- One turn of the loop of `SegIter::next` (`elf_loader.rs:189-237`) for the program
header `i`: the item it yields, or none for a header that is not `PT_LOAD`. -/
def segmentAt (elf : Elf64) (i : Nat) : Checked (Option (Except ElfError LoadSegment)) := do
  let base ← elf.phdrBase i
  let some pType ← elf.data.rU32 base | return some (.error .badPhdrs)
  if pType ≠ ptLoad then return none
  let some pFlags ← elf.data.rU32 (← addU64 base 4) | return some (.error .badPhdrs)
  let some pOffset ← elf.data.rU64 (← addU64 base 8) | return some (.error .badPhdrs)
  let some pVaddr ← elf.data.rU64 (← addU64 base 16) | return some (.error .badPhdrs)
  let some pFilesz ← elf.data.rU64 (← addU64 base 32) | return some (.error .badPhdrs)
  let some pMemsz ← elf.data.rU64 (← addU64 base 40) | return some (.error .badPhdrs)
  let stop ← addU64 pOffset pFilesz
  if stop ≤ elf.data.length then
    return some (.ok ⟨pVaddr, elf.data.slice pOffset pFilesz, pMemsz, pFlags⟩)
  else return some (.error .badPhdrs)

/-- The items that `SegIter` yields for the program headers `is`. -/
def segmentsAt (elf : Elf64) : List Nat → Checked (List (Except ElfError LoadSegment))
  | [] => return []
  | i :: is => do
      let item ← elf.segmentAt i
      let rest ← elf.segmentsAt is
      return item.toList ++ rest

/-- `load_segments` (`elf_loader.rs:335-343`), run to its end. -/
def loadSegments (elf : Elf64) : Checked (List (Except ElfError LoadSegment)) :=
  elf.segmentsAt (List.range elf.phnum)

/-- The search for `PT_DYNAMIC` (`elf_loader.rs:481-503`) among the program headers `is`:
`dyn_offset` and `dyn_size`. -/
def dynamicIn (elf : Elf64) : List Nat → Checked (Nat × Nat)
  | [] => return (0, 0)
  | i :: is => do
      let base ← elf.phdrBase i
      if (← elf.data.rU32 base) = some ptDynamic then
        let dynOffset := (← elf.data.rU64 (← addU64 base 8)).getD 0
        let dynSize := (← elf.data.rU64 (← addU64 base 32)).getD 0
        return (dynOffset, dynSize)
      else elf.dynamicIn is

/-- The loop over the dynamic entries (`elf_loader.rs:504-521`): `rela_off` and
`rela_sz`. The loop makes at most `dyn_size / 16` full turns, which bounds the
recursion. -/
def scanDynamic (data : Bytes) (dynOffset dynSize : Nat) :
    Nat → Nat → Nat × Nat → Checked (Nat × Nat)
  | 0, _, rela => return rela
  | turns + 1, pos, (relaOff, relaSz) => do
      let next ← addU64 pos 16
      let stop ← addU64 dynOffset dynSize
      if next ≤ stop then
        let tag := (← data.rU64 pos).getD 0
        let val := (← data.rU64 (← addU64 pos 8)).getD 0
        if tag = 0 then return (relaOff, relaSz)
        else
          scanDynamic data dynOffset dynSize turns next
            (if tag = dtRela then val else relaOff, if tag = dtRelasz then val else relaSz)
      else return (relaOff, relaSz)

/-- One turn of the loop over the relocation table (`elf_loader.rs:536-554`): the
relocation of the entry at `entOff`, or none if the entry is skipped. -/
def relaEntry (data : Bytes) (bias entOff : Nat) : Checked (Option Reloc) := do
  let some rOffset ← data.rU64 entOff | return none
  let some rInfo ← data.rU64 (← addU64 entOff 8) | return none
  let some rAddend ← data.rU64 (← addU64 entOff 16) | return none
  if rInfo &&& 0xFFFFFFFF ≠ rX86_64Relative then return none
  let target ← addU64 bias rOffset
  let value ← addU64 bias rAddend
  return some ⟨target, value⟩

/-- The entry `i` of the relocation table (`elf_loader.rs:535-554`). -/
def relaEntryAt (data : Bytes) (bias relaOff i : Nat) : Checked (Option Reloc) := do
  let entOff ← addU64 relaOff (← mulU64 i 24)
  relaEntry data bias entOff

/-- The loop over `count` entries of the relocation table from the entry `i` on: the
relocations it reaches, and whether it ends in a panic. It reads the file only, so
that the stores it makes are left to the caller. -/
def scanRela (data : Bytes) (bias relaOff : Nat) : Nat → Nat → List Reloc × Bool
  | 0, _ => ([], false)
  | count + 1, i =>
      match relaEntryAt data bias relaOff i with
      | none => ([], true)
      | some none => scanRela data bias relaOff count (i + 1)
      | some (some reloc) =>
          let (relocs, panics) := scanRela data bias relaOff count (i + 1)
          (reloc :: relocs, panics)

/-- The scan of `apply_relative_relocs` (`elf_loader.rs:469-566`). -/
def relativeRelocs (elf : Elf64) (bias : Nat) : List Reloc × Bool :=
  match elf.dynamicIn (List.range elf.phnum) with
  | none => ([], true)
  | some (dynOffset, dynSize) =>
      if dynOffset = 0 ∨ dynSize = 0 then ([], false)
      else
        match scanDynamic elf.data dynOffset dynSize (dynSize / 16 + 1) dynOffset (0, 0) with
        | none => ([], true)
        | some (relaOff, relaSz) =>
            if relaOff = 0 ∨ relaSz = 0 then ([], false)
            else scanRela elf.data bias relaOff (relaSz / 24) 0

end Elf64

end NexaCore.Elf
