import NexaCore.Kernel.Elf.Format
import NexaCore.Kernel.Memory.Paging
import NexaCore.Kernel.Syscall.UserAccess

/-!
# Loading a program

Embedding of `map_and_load_into` and `apply_relative_relocs`
(`nexacore-kernel/src/bare_metal/elf_loader.rs`) over physical memory and the frame allocator. The
direct map makes a pointer `frame + phys_offset` the physical address `frame`. A panic keeps the
memory reached; the file is not part of it.
-/

namespace NexaCore.Memory.PhysMem

theorem wordIndex_lt (addr : Nat) : addr % frameBytes / 8 < 512 := by
  unfold frameBytes
  omega

/-- A byte of a frame, in the little-endian order of its words. -/
def setByte (word : Nat → Fin 512 → Nat) (addr : Nat) (byte : UInt8) : Nat → Fin 512 → Nat :=
  let frame := addr / frameBytes
  let idx : Fin 512 := ⟨addr % frameBytes / 8, wordIndex_lt addr⟩
  let old := word frame idx
  let unit := 256 ^ (addr % 8)
  Function.update word frame (Function.update (word frame) idx
    (old / (256 * unit) * (256 * unit) + byte.toNat * unit + old % unit))

/-- The bytes from `addr` on. -/
def setBytes (word : Nat → Fin 512 → Nat) : Nat → List UInt8 → Nat → Fin 512 → Nat
  | _, [] => word
  | addr, byte :: bytes => setBytes (setByte word addr byte) (addr + 1) bytes

/-- A store of `bytes` from the physical address `addr` on: `write_bytes`,
`copy_nonoverlapping` and `ptr::write` of the loader. -/
def writeBytes (mem : PhysMem) (addr : Nat) (bytes : List UInt8) : PhysMem where
  word := setBytes mem.word addr bytes
  stores := ⟨addr, bytes.length⟩ :: mem.stores

end NexaCore.Memory.PhysMem

namespace NexaCore.Elf

open Misc Memory Syscall List

variable {N : Nat}

/-- `PF_X` and `PF_W` (`elf_loader.rs:51-53`). -/
def pfX : Nat := 1

def pfW : Nat := 2

/-- `pte_flags` (`elf_loader.rs:583-593`). -/
def pteFlags (elfFlags : Nat) : Nat :=
  let f := ptePresent ||| pteUser
  let f := if elfFlags &&& pfW ≠ 0 then f ||| pteWritable else f
  if elfFlags &&& pfX = 0 then f ||| pteNoExec else f

/-- `validate_segment_span` (`elf_loader.rs:608-636`): the first page, the offset of the
segment in it and the number of pages. -/
def validateSegmentSpan (virtAddr bias memSize : Nat) :
    Except ElfError (Option (Nat × Nat × Nat)) :=
  let segStart := virtAddr + bias
  if 2 ^ 64 ≤ segStart then .error .segmentOutOfBounds
  else
    let pageBase := segStart / 4096 * 4096
    let pageIntra := virtAddr % 4096
    let totalMem := pageIntra + memSize
    if 2 ^ 64 ≤ totalMem then .error .segmentOutOfBounds
    else
      let numPages := (totalMem + 4095) / 4096
      if numPages = 0 then .ok none
      else if 2 ^ 64 ≤ numPages * 4096 then .error .segmentOutOfBounds
      else
        let segEnd := pageBase + numPages * 4096
        if 2 ^ 64 ≤ segEnd then .error .segmentOutOfBounds
        else if userHalfEnd < segEnd then .error .segmentOutOfBounds
        else .ok (some (pageBase, pageIntra, numPages))

/-- `page_copy_plan` (`elf_loader.rs:99-116`). -/
def pageCopyPlan (pageIntra fileLen pageI : Nat) : Nat × Nat × Nat :=
  if pageI = 0 then (pageIntra, 0, min fileLen (4096 - pageIntra))
  else
    let fileStart := pageI * 4096 - pageIntra
    if fileLen ≤ fileStart then (0, fileLen, 0)
    else (0, fileStart, min (fileLen - fileStart) 4096)

/-- The stores to the frame of a page (`elf_loader.rs:433-450`): zeros before the file
bytes, the file bytes, zeros after them. -/
def fillPage (mem : PhysMem) (frame : Nat) (fileData : List UInt8) (plan : Nat × Nat × Nat) :
    PhysMem :=
  let (dstOff, fileStart, copyLen) := plan
  let mem := if 0 < dstOff then mem.writeBytes frame (replicate dstOff 0) else mem
  let mem :=
    if 0 < copyLen then mem.writeBytes (frame + dstOff) ((fileData.drop fileStart).take copyLen)
    else mem
  let written := dstOff + copyLen
  if written < 4096 then mem.writeBytes (frame + written) (replicate (4096 - written) 0)
  else mem

/-- One turn of the loop over the pages of a segment (`elf_loader.rs:407-451`), with the
error that ends it. -/
def loadPage (root : Nat) (seg : LoadSegment) (pageBase pageIntra pageI : Nat)
    (st : PhysState N) : Option ElfError × PhysState N :=
  match st.alloc.allocFrame with
  | none => (some .outOfFrames, st)
  | some (frame, alloc) =>
      match { st with alloc }.map4kInto root (pageBase + pageI * 4096) frame
          (pteFlags seg.flags) with
      | (false, st) => (some .mappingFailed, st)
      | (true, st) =>
          let plan := pageCopyPlan pageIntra seg.fileData.length pageI
          (none, { st with mem := fillPage st.mem frame seg.fileData plan })

/-- The loop over the pages of a segment. -/
def loadPages (root : Nat) (seg : LoadSegment) (pageBase pageIntra : Nat) :
    List Nat → PhysState N → Option ElfError × PhysState N
  | [], st => (none, st)
  | pageI :: rest, st =>
      match loadPage root seg pageBase pageIntra pageI st with
      | (some err, st) => (some err, st)
      | (none, st) => loadPages root seg pageBase pageIntra rest st

/-- The body of the loop over the segments (`elf_loader.rs:394-452`). -/
def loadSegment (root bias : Nat) (seg : LoadSegment) (st : PhysState N) :
    Option ElfError × PhysState N :=
  match validateSegmentSpan seg.virtAddr bias seg.memSize with
  | .error err => (some err, st)
  | .ok none => (none, st)
  | .ok (some (pageBase, pageIntra, numPages)) =>
      loadPages root seg pageBase pageIntra (range numPages) st

/-- A store of the value of a relocation (`elf_loader.rs:555-564`). -/
def applyReloc (root : Nat) (st : PhysState N) (reloc : Reloc) : PhysState N :=
  match st.mem.translateIn root reloc.target with
  | none => st
  | some phys => { st with mem := st.mem.writeBytes phys (toLeBytes 8 reloc.value) }

namespace Elf64

/-- The loop over the load segments (`elf_loader.rs:391-452`) for the program headers
`is`: a panic, an error, or the end of the loop. -/
def loadAll (elf : Elf64) (root : Nat) :
    List Nat → PhysState N → Checked (Except ElfError Unit) × PhysState N
  | [], st => (some (.ok ()), st)
  | i :: is, st =>
      match elf.segmentAt i with
      | none => (none, st)
      | some none => elf.loadAll root is st
      | some (some (.error err)) => (some (.error err), st)
      | some (some (.ok seg)) =>
          match loadSegment root elf.loadBias seg st with
          | (some err, st) => (some (.error err), st)
          | (none, st) => elf.loadAll root is st

/-- `apply_relative_relocs` (`elf_loader.rs:469-566`), and whether it returns. -/
def applyRelativeRelocs (elf : Elf64) (root bias : Nat) (st : PhysState N) :
    Checked Unit × PhysState N :=
  let (relocs, panics) := elf.relativeRelocs bias
  (if panics then none else some (), relocs.foldl (applyReloc root) st)

/-- `map_and_load_into` (`elf_loader.rs:380-464`). -/
def mapAndLoadInto (elf : Elf64) (root : Nat) (st : PhysState N) :
    Checked (Except ElfError Nat) × PhysState N :=
  match elf.loadAll root (range elf.phnum) st with
  | (none, st) => (none, st)
  | (some (.error err), st) => (some (.error err), st)
  | (some (.ok ()), st) =>
      let bias := elf.loadBias
      let (returned, st) :=
        if bias ≠ 0 then elf.applyRelativeRelocs root bias st else (some (), st)
      match returned with
      | none => (none, st)
      | some () => ((addU64 elf.entry bias).map .ok, st)

end Elf64

end NexaCore.Elf
