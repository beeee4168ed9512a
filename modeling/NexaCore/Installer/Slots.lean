import NexaCore.Misc.Attempt
import NexaCore.Misc.Blocks

/-!
# A/B slots and the image write

The boot-control block of `nexacore-installer/src/ab.rs` and the image write of `slotwrite.rs`. A
block device is any type with the four operations below; each may fail and may change the device.
Every operation is logged and uses up one unit of a budget, which can cut a write off.
-/

namespace NexaCore.Installer

open Misc

/-- `MAX_PRIORITY` (`ab.rs:23`). -/
def maxPriority : Nat := 15

/-- `MAX_TRIES` (`ab.rs:25`). -/
def maxTries : Nat := 7

/-- `Slot` (`ab.rs:29-34`). -/
inductive Slot
  | a
  | b
  deriving DecidableEq

/-- `Slot::other` (`ab.rs:39-44`). -/
def Slot.other : Slot → Slot
  | .a => .b
  | .b => .a

/-- `SlotInfo` (`ab.rs:93-100`). -/
structure SlotInfo where
  priority : Nat
  triesRemaining : Nat
  successful : Bool
  deriving DecidableEq

/-- `SlotInfo::is_bootable` (`ab.rs:106-108`). -/
def SlotInfo.isBootable (info : SlotInfo) : Bool :=
  0 < info.priority && (info.successful || 0 < info.triesRemaining)

/-- `AbState` (`ab.rs:113-115`). -/
structure AbState where
  slot : Slot → SlotInfo

namespace AbState

/-- The write through `slot_mut` (`ab.rs:152-158`). -/
def setSlot (state : AbState) (slot : Slot) (info : SlotInfo) : AbState :=
  ⟨Function.update state.slot slot info⟩

/-- `AbState::new` (`ab.rs:126-141`). -/
def new : AbState :=
  ⟨fun
    | .a => ⟨maxPriority, 0, true⟩
    | .b => ⟨0, 0, false⟩⟩

/-- `AbState::boot_slot` (`ab.rs:163-178`). -/
def bootSlot (state : AbState) : Option Slot :=
  match (state.slot .a).isBootable, (state.slot .b).isBootable with
  | true, true => if (state.slot .b).priority > (state.slot .a).priority then some .b else some .a
  | true, false => some .a
  | false, true => some .b
  | false, false => none

/-- `AbState::target_slot` (`ab.rs:181-184`). -/
def targetSlot (state : AbState) : Slot := (state.bootSlot.getD .a).other

/-- `AbState::begin_update` (`ab.rs:187-194`). -/
def beginUpdate (state : AbState) (target : Slot) : AbState := state.setSlot target ⟨0, 0, false⟩

/-- `AbState::finish_update` (`ab.rs:198-208`). -/
def finishUpdate (state : AbState) (target : Slot) : AbState :=
  let previous := state.slot target.other
  (state.setSlot target.other
    { previous with priority := min previous.priority (maxPriority - 1) }).setSlot target
      ⟨maxPriority, maxTries, false⟩

/-- `AbState::record_boot` (`ab.rs:214-221`). -/
def recordBoot (state : AbState) (slot : Slot) : AbState :=
  let info := state.slot slot
  if info.successful then state
  else state.setSlot slot { info with triesRemaining := info.triesRemaining - 1 }

/-- `AbState::mark_successful` (`ab.rs:224-230`). -/
def markSuccessful (state : AbState) (slot : Slot) : AbState :=
  state.setSlot slot ⟨maxPriority, 0, true⟩

end AbState

/-- `BLOCK_SIZE` (`nexacore-fs/src/v3/mod.rs:35`). -/
def blockSize : Nat := 4096

abbrev Block := List UInt8

/-- The `V3Error`s a device fails with. -/
inductive DeviceError
  | blockOutOfRange
  | io
  deriving DecidableEq

/-- `BlockDevice` (`nexacore-fs/src/v3/blockdev.rs:20-55`) without the superblock generation. -/
structure BlockDevice (D : Type) where
  blockCount : D → Nat
  readBlock : D → Nat → Except DeviceError Block × D
  writeBlock : D → Nat → Block → Except DeviceError Unit × D
  flush : D → Except DeviceError Unit × D

/-- How an image write ends early: by a `SlotWriteError` (`slotwrite.rs:41-56`), or cut off. -/
inductive Stop
  | imageTooLarge (imageLen slotCapacity : Nat)
  | slotInUse
  | device (e : DeviceError)
  | verifyMismatch
  | cut
  deriving DecidableEq

inductive Op
  | write (index : Nat) (block : Block)
  | flush
  | read (index : Nat) (answer : Except DeviceError Block)

structure Flash (D : Type) where
  dev : D
  state : AbState
  budget : Nat
  log : List Op := []

namespace Flash

variable {D α : Type}

/-- Issues one device operation; its error is the caller's (`?`). -/
def issue (flash : Flash D) (call : D → Except DeviceError α × D)
    (op : Except DeviceError α → Op) : Except Stop α × Flash D :=
  match flash.budget with
  | 0 => (.error .cut, flash)
  | budget + 1 =>
    let answered := call flash.dev
    (answered.1.mapError .device,
      { flash with dev := answered.2, budget, log := flash.log ++ [op answered.1] })

end Flash

/-- `block_from_chunk` (`slotwrite.rs:29-37`). -/
def blockFromChunk (chunk : List UInt8) : Block :=
  chunk ++ .replicate (blockSize - chunk.length) 0

/-- The number of chunks of `image.chunks(BLOCK_SIZE)`. -/
def chunkCount (image : List UInt8) : Nat := (image.length + (blockSize - 1)) / blockSize

/-- The chunk `index` of `image.chunks(BLOCK_SIZE)`, padded. -/
def imageBlock (image : List UInt8) (index : Nat) : Block :=
  blockFromChunk (blockAt blockSize image index)

section Write

variable {D : Type} (device : BlockDevice D) (image : List UInt8)

/-- The write loop (`slotwrite.rs:121-123`). -/
def writeBlocks : List Nat → Flash D → Except Stop Unit × Flash D
  | [], flash => (.ok (), flash)
  | index :: rest, flash =>
    andThen (flash.issue (device.writeBlock · index (imageBlock image index))
      fun _ => .write index (imageBlock image index)) fun _ flash => writeBlocks rest flash

/-- The read-back loop (`slotwrite.rs:127-133`). -/
def verifyBlocks : List Nat → Flash D → Except Stop Unit × Flash D
  | [], flash => (.ok (), flash)
  | index :: rest, flash =>
    andThen (flash.issue (device.readBlock · index) (.read index)) fun read flash =>
      if read ≠ imageBlock image index then (.error .verifyMismatch, flash)
      else verifyBlocks rest flash

/-- `write_image_to_slot` (`slotwrite.rs:100-142`). -/
def writeImageToSlot (slot : Slot) (flash : Flash D) : Except Stop Unit × Flash D :=
  if flash.state.bootSlot = some slot then (.error .slotInUse, flash)
  else
    let flash := { flash with state := flash.state.beginUpdate slot }
    let capacity := min (device.blockCount flash.dev * blockSize) (2 ^ 64 - 1)
    if image.length > capacity then (.error (.imageTooLarge image.length capacity), flash)
    else
      andThen (writeBlocks device image (List.range (chunkCount image)) flash) fun _ flash =>
        andThen (flash.issue device.flush fun _ => .flush) fun _ flash =>
          verifyBlocks device image (List.range (chunkCount image)) flash

end Write

end NexaCore.Installer
