import NexaCore.Installer.Slots

/-!
# The image write is atomic with respect to booting

The boot-control block changes once, before the first device operation, so that at every point at
which the write can stop it is the old one or the one with the target disabled.
-/

namespace NexaCore.Installer

open Misc Function List

/-! ## The boot choice -/

namespace AbState

variable {state : AbState} {slot target : Slot} {info : SlotInfo}

@[simp] theorem slot_setSlot_self : (state.setSlot slot info).slot slot = info :=
  update_self ..

theorem slot_setSlot_of_ne (other : slot ≠ target) :
    (state.setSlot target info).slot slot = state.slot slot :=
  update_of_ne other ..

theorem other_ne (slot : Slot) : slot.other ≠ slot := by cases slot <;> decide

theorem other_other (slot : Slot) : slot.other.other = slot := by cases slot <;> rfl

theorem eq_other_of_ne (other : slot ≠ target) : slot = target.other := by
  cases slot <;> cases target <;> first | rfl | exact absurd rfl other

theorem bootable_of_bootSlot (chosen : state.bootSlot = some slot) :
    (state.slot slot).isBootable = true := by
  cases a : (state.slot .a).isBootable <;> cases b : (state.slot .b).isBootable <;>
    cases slot <;> simp_all [bootSlot]

theorem bootSlot_of_only (bootable : (state.slot slot).isBootable = true)
    (other : (state.slot slot.other).isBootable = false) : state.bootSlot = some slot := by
  cases slot <;> simp_all [bootSlot, Slot.other]

theorem beginUpdate_not_bootable : ((state.beginUpdate target).slot target).isBootable = false := by
  rw [beginUpdate, slot_setSlot_self]
  rfl

/-- Disabling a slot that is not the chosen one does not change the choice. -/
theorem bootSlot_beginUpdate (chosen : state.bootSlot = some slot) (other : slot ≠ target) :
    (state.beginUpdate target).bootSlot = some slot := by
  refine bootSlot_of_only ?_ ?_
  · rw [beginUpdate, slot_setSlot_of_ne other]
    exact bootable_of_bootSlot chosen
  · rw [← eq_other_of_ne other.symm]
    exact beginUpdate_not_bootable

end AbState

/-! ## The device operations -/

section Loops

variable {D : Type} (device : BlockDevice D) (image : List UInt8)

theorem issue_state {α : Type} (flash : Flash D) (call : D → Except DeviceError α × D)
    (op : Except DeviceError α → Op) : (flash.issue call op).2.state = flash.state := by
  unfold Flash.issue
  split <;> rfl

theorem writeBlocks_state (indices : List Nat) (flash : Flash D) :
    (writeBlocks device image indices flash).2.state = flash.state := by
  induction indices generalizing flash with
  | nil => rfl
  | cons index rest ih =>
    exact andThen_state (P := fun after : Flash D => after.state = flash.state) (issue_state ..)
      fun _ _ => (ih _).trans (issue_state ..)

theorem verifyBlocks_state (indices : List Nat) (flash : Flash D) :
    (verifyBlocks device image indices flash).2.state = flash.state := by
  induction indices generalizing flash with
  | nil => rfl
  | cons index rest ih =>
    refine andThen_state (P := fun after : Flash D => after.state = flash.state) (issue_state ..)
      fun _ _ => ?_
    split
    · exact issue_state ..
    · exact (ih _).trans (issue_state ..)

theorem issue_ok {α : Type} {flash : Flash D} {call : D → Except DeviceError α × D}
    {op : Except DeviceError α → Op} {value : α} (success : (flash.issue call op).1 = .ok value) :
    (call flash.dev).1 = .ok value ∧ (flash.issue call op).2.dev = (call flash.dev).2 ∧
      (flash.issue call op).2.log = flash.log ++ [op (.ok value)] := by
  unfold Flash.issue at success ⊢
  split at success
  · cases success
  · dsimp only at success ⊢
    cases answer : (call flash.dev).1 with
    | error e => rw [answer] at success; cases success
    | ok given =>
      rw [answer] at success
      cases success
      exact ⟨rfl, rfl, rfl⟩

/-- A verification that succeeded read every block, and every answer was the image's block. -/
theorem verifyBlocks_ok {indices : List Nat} {flash : Flash D}
    (success : (verifyBlocks device image indices flash).1 = .ok ()) :
    (verifyBlocks device image indices flash).2.log =
        flash.log ++ indices.map (fun index => .read index (.ok (imageBlock image index))) ∧
      ((∀ dev index, (device.readBlock dev index).2 = dev) →
        (verifyBlocks device image indices flash).2.dev = flash.dev ∧
          ∀ index ∈ indices, (device.readBlock flash.dev index).1 =
            .ok (imageBlock image index)) := by
  induction indices generalizing flash with
  | nil => simp [verifyBlocks]
  | cons index rest ih =>
    obtain ⟨read, first, second, last⟩ := of_andThen_ok success
    obtain ⟨answered, device', logged⟩ := issue_ok first
    rw [verifyBlocks, last]
    by_cases same : read = imageBlock image index
    · rw [if_neg (not_not.mpr same)] at second ⊢
      obtain ⟨log, quiet⟩ := ih second
      refine ⟨by rw [log, logged, same]; simp, fun pure => ?_⟩
      have kept := device'.trans (pure ..)
      obtain ⟨dev, blocks⟩ := quiet pure
      rw [kept] at dev blocks
      exact ⟨dev, forall_mem_cons.mpr ⟨same ▸ answered, blocks⟩⟩
    · rw [if_pos same] at second
      cases second

theorem writeBlocks_reads (indices : List Nat) (flash : Flash D) (reads : Op → Option Block)
    (silent : ∀ index block, reads (.write index block) = none) :
    (writeBlocks device image indices flash).2.log.filterMap reads = flash.log.filterMap reads := by
  have issued : ∀ (flash : Flash D) (call : D → Except DeviceError Unit × D) index block,
      (flash.issue call fun _ => .write index block).2.log.filterMap reads =
        flash.log.filterMap reads := by
    intro flash call index block
    unfold Flash.issue
    split
    · rfl
    · simp [silent]
  induction indices generalizing flash with
  | nil => rfl
  | cons index rest ih =>
    exact andThen_state
      (P := fun after : Flash D => after.log.filterMap reads = flash.log.filterMap reads)
      (issued ..) fun _ _ => (ih _).trans (issued ..)

end Loops

/-! ## The image on the device -/

theorem flatMap_blockAt {α : Type} (size : Nat) (buffer : List α) (count : Nat) :
    (range count).flatMap (blockAt size buffer) = buffer.take (count * size) := by
  induction count with
  | zero => simp
  | succ count ih =>
    rw [range_succ, flatMap_append, ih, Nat.succ_mul, take_add]
    simp [blockAt]

/-- The padded image. -/
def padded (image : List UInt8) : List UInt8 :=
  image ++ .replicate (chunkCount image * blockSize - image.length) 0

theorem imageBlock_eq (image : List UInt8) {index : Nat} (below : index < chunkCount image) :
    imageBlock image index = blockAt blockSize (padded image) index := by
  have start : index * blockSize < image.length := by
    unfold chunkCount at below
    unfold blockSize at *
    omega
  have room : (index + 1) * blockSize ≤ chunkCount image * blockSize :=
    Nat.mul_le_mul_right _ below
  have last : chunkCount image * blockSize - image.length < blockSize := by
    unfold chunkCount blockSize
    omega
  rw [Nat.succ_mul] at room
  unfold imageBlock blockFromChunk padded blockAt
  rw [drop_append_of_le_length start.le, take_append, take_replicate]
  congr 2
  simp only [length_take, length_drop]
  omega

theorem flatMap_imageBlock (image : List UInt8) :
    (range (chunkCount image)).flatMap (imageBlock image) = padded image := by
  have blocks : (range (chunkCount image)).flatMap (imageBlock image) =
      (range (chunkCount image)).flatMap (blockAt blockSize (padded image)) :=
    flatMap_congr fun index inside => imageBlock_eq image (mem_range.mp inside)
  rw [blocks, flatMap_blockAt, take_of_length_le]
  have fits : image.length ≤ chunkCount image * blockSize := by
    unfold chunkCount blockSize
    omega
  rw [padded, length_append, length_replicate]
  omega

/-! ## The write -/

def Op.readBack : Op → Option Block
  | .read _ (.ok block) => some block
  | _ => none

section Atomic

variable {D : Type} (device : BlockDevice D) (image : List UInt8) (slot : Slot)

/-- The boot-control block is the old one only where the slot is in use. -/
theorem writeImageToSlot_state (flash : Flash D) :
    (writeImageToSlot device image slot flash).2.state =
      if flash.state.bootSlot = some slot then flash.state
      else flash.state.beginUpdate slot := by
  unfold writeImageToSlot
  by_cases inUse : flash.state.bootSlot = some slot
  · rw [if_pos inUse, if_pos inUse]
  · rw [if_neg inUse, if_neg inUse]
    dsimp only
    split
    · rfl
    · refine andThen_state (P := fun after : Flash D => after.state = _)
        (writeBlocks_state ..) fun _ _ => ?_
      refine andThen_state (P := fun after : Flash D => after.state = _)
        ((issue_state ..).trans (writeBlocks_state ..)) fun _ _ => ?_
      exact (verifyBlocks_state ..).trans ((issue_state ..).trans (writeBlocks_state ..))

theorem writeImageToSlot_ok {flash : Flash D} (fresh : flash.log = [])
    (success : (writeImageToSlot device image slot flash).1 = .ok ()) :
    (writeImageToSlot device image slot flash).2.log.filterMap Op.readBack =
        (range (chunkCount image)).map (imageBlock image) ∧
      ((∀ dev index, (device.readBlock dev index).2 = dev) → ∀ index < chunkCount image,
        (device.readBlock (writeImageToSlot device image slot flash).2.dev index).1 =
          .ok (imageBlock image index)) := by
  unfold writeImageToSlot at success ⊢
  by_cases inUse : flash.state.bootSlot = some slot
  · rw [if_pos inUse] at success
    cases success
  rw [if_neg inUse] at success ⊢
  dsimp only at success ⊢
  split at success
  · cases success
  rename_i fits
  rw [if_neg fits]
  obtain ⟨_, -, second, last⟩ := of_andThen_ok success
  obtain ⟨_, flushed, third, last'⟩ := of_andThen_ok second
  obtain ⟨-, -, logged⟩ := issue_ok flushed
  obtain ⟨log, quiet⟩ := verifyBlocks_ok device image third
  have written := writeBlocks_reads device image (range (chunkCount image))
    { flash with state := flash.state.beginUpdate slot } Op.readBack fun _ _ => rfl
  rw [last, last']
  constructor
  · rw [log, logged, filterMap_append, filterMap_append, written, fresh]
    simp [Op.readBack, filterMap_map, comp_def]
  · intro pure index below
    obtain ⟨dev, blocks⟩ := quiet pure
    rw [dev]
    exact blocks index (mem_range.mpr below)

/-- Wherever an image write stops, by its result or cut off by its budget: the boot choice is what
it was, a target that was written to is disabled, a slot in use is left alone, and success means
that the image was read back (and is what a device whose reads are pure still gives). -/
theorem writeImageToSlot_atomic (dev : D) (state : AbState) (budget : Nat) :
    (∀ chosen, state.bootSlot = some chosen →
      (writeImageToSlot device image slot ⟨dev, state, budget, []⟩).2.state.bootSlot =
        some chosen) ∧
    (∀ index block, .write index block ∈
        (writeImageToSlot device image slot ⟨dev, state, budget, []⟩).2.log →
      ((writeImageToSlot device image slot ⟨dev, state, budget, []⟩).2.state.slot slot).isBootable =
        false) ∧
    (state.bootSlot = some slot →
      (writeImageToSlot device image slot ⟨dev, state, budget, []⟩).2 = ⟨dev, state, budget, []⟩) ∧
    ((writeImageToSlot device image slot ⟨dev, state, budget, []⟩).1 = .ok () →
      ((writeImageToSlot device image slot ⟨dev, state, budget, []⟩).2.log.filterMap
        Op.readBack).flatten = padded image ∧
      ((∀ dev index, (device.readBlock dev index).2 = dev) → ∀ index < chunkCount image,
        (device.readBlock (writeImageToSlot device image slot ⟨dev, state, budget, []⟩).2.dev
          index).1 = .ok (blockAt blockSize (padded image) index))) := by
  have inUse : state.bootSlot = some slot →
      (writeImageToSlot device image slot ⟨dev, state, budget, []⟩).2 =
        ⟨dev, state, budget, []⟩ := fun chosen => by
    rw [writeImageToSlot, if_pos chosen]
  refine ⟨fun chosen choice => ?_, fun index block issued => ?_, inUse, fun success => ?_⟩
  · rw [writeImageToSlot_state]
    split
    · exact choice
    · rename_i free
      refine AbState.bootSlot_beginUpdate choice fun same => free ?_
      rw [← same]
      exact choice
  · rw [writeImageToSlot_state]
    split
    · rename_i chosen
      rw [inUse chosen] at issued
      cases issued
    · exact AbState.beginUpdate_not_bootable
  · obtain ⟨reads, quiet⟩ := writeImageToSlot_ok device image slot rfl success
    refine ⟨?_, fun pure index below => ?_⟩
    · rw [reads, ← flatMap_def, flatMap_imageBlock]
    · rw [quiet pure index below, imageBlock_eq image below]

end Atomic

end NexaCore.Installer
