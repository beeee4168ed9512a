import NexaCore.Kernel.Memory.Paging
import NexaCore.Misc.BitField
import NexaCore.Misc.RadixTable

/-!
# Page-table entries

The bits of an entry as arithmetic, and the four paging levels as a radix layout:
`translate_in` is the walk of that layout.
-/

namespace NexaCore.Memory

open Misc

theorem isPresent_eq (e : Nat) : isPresent e = e.testBit 0 :=
  Bool.eq_iff_iff.mpr (decide_eq_true_iff.trans (and_bit_ne_zero e 0))

theorem isHuge_eq (e : Nat) : isHuge e = e.testBit 7 :=
  Bool.eq_iff_iff.mpr (decide_eq_true_iff.trans (and_bit_ne_zero e 7))

theorem physAddr_eq (e : Nat) : physAddr e = e / 2 ^ 12 % 2 ^ 40 * 2 ^ 12 := and_field e 12 40

theorem and_huge2mFrameMask (e : Nat) : e &&& huge2mFrameMask = e / 2 ^ 21 % 2 ^ 31 * 2 ^ 21 :=
  and_field e 21 31

theorem and_huge2mFrameMask_eq (e : Nat) :
    e &&& huge2mFrameMask = physAddr e / 2 ^ 21 * 2 ^ 21 := by
  rw [and_huge2mFrameMask, physAddr_eq]
  omega

theorem and_huge1gFrameMask (e : Nat) : e &&& huge1gFrameMask = e / 2 ^ 30 % 2 ^ 22 * 2 ^ 30 :=
  and_field e 30 22

theorem and_huge2mOffsetMask (v : Nat) : v &&& huge2mOffsetMask = v % 2 ^ 21 :=
  Nat.and_two_pow_sub_one_eq_mod v 21

theorem and_huge1gOffsetMask (v : Nat) : v &&& huge1gOffsetMask = v % 2 ^ 30 :=
  Nat.and_two_pow_sub_one_eq_mod v 30

theorem and_pageOffsetMask (v : Nat) : v &&& 0xFFF = v % 2 ^ 12 :=
  Nat.and_two_pow_sub_one_eq_mod v 12

theorem virtIndex_val (virt : Nat) (level : PageLevel) :
    (virtIndex virt level).val = virt / 2 ^ level.shift % 2 ^ 9 := by
  rw [← Nat.shiftRight_eq_div_pow]
  exact Nat.and_two_pow_sub_one_eq_mod _ 9

/-- The address of a frame that an entry can hold. -/
structure FrameAddress (frame : Nat) : Prop where
  aligned : frame % 2 ^ 12 = 0
  bounded : frame < 2 ^ 52

theorem frameAddress_physAddr (e : Nat) : FrameAddress (physAddr e) := by
  rw [physAddr_eq]
  constructor <;> omega

theorem physAddr_of_frameAddress {frame : Nat} (address : FrameAddress frame) :
    physAddr frame = frame := by
  obtain ⟨aligned, bounded⟩ := address
  rw [physAddr_eq]
  omega

/-- The frame that was stored is read back, if the flags leave its bits alone. -/
theorem physAddr_setFrame {frame flags : Nat} (address : FrameAddress frame)
    (noFrameBits : flags &&& frameMask = 0) : physAddr (setFrame frame flags) = frame := by
  calc physAddr (setFrame frame flags)
      = (frame &&& frameMask &&& frameMask) ||| (flags &&& frameMask) :=
        Nat.and_or_distrib_right _ _ _
    _ = physAddr frame := by rw [noFrameBits, Nat.and_assoc, Nat.and_self, Nat.or_zero]; rfl
    _ = frame := physAddr_of_frameAddress address

theorem testBit_setFrame {frame flags k : Nat} (low : k < 12) :
    (setFrame frame flags).testBit k = flags.testBit k := by
  have clear : frameMask.testBit k = false := by interval_cases k <;> decide
  simp [setFrame, clear]

theorem isPresent_setFrame (frame flags : Nat) :
    isPresent (setFrame frame flags) = isPresent flags := by
  rw [isPresent_eq, isPresent_eq, testBit_setFrame (by decide)]

theorem isHuge_setFrame (frame flags : Nat) : isHuge (setFrame frame flags) = isHuge flags := by
  rw [isHuge_eq, isHuge_eq, testBit_setFrame (by decide)]

/-- The x86-64 tables, from the page table (level 0) to the PML4 (level 3). A frame is
given by its number. -/
def layout : RadixLayout Nat (Fin 512) Nat Nat Nat where
  decode
    | 0, e => if isPresent e then .leaf fun v => physAddr e + (v &&& 0xFFF) else .absent
    | 1, e =>
        if isPresent e then
          if isHuge e then .leaf fun v => (e &&& huge2mFrameMask) + (v &&& huge2mOffsetMask)
          else .table (physAddr e / frameBytes)
        else .absent
    | 2, e =>
        if isPresent e then
          if isHuge e then .leaf fun v => (e &&& huge1gFrameMask) + (v &&& huge1gOffsetMask)
          else .table (physAddr e / frameBytes)
        else .absent
    | _, e => if isPresent e then .table (physAddr e / frameBytes) else .absent
  index
    | 0, v => virtIndex v .pt
    | 1, v => virtIndex v .pd
    | 2, v => virtIndex v .pdpt
    | _, v => virtIndex v .pml4

theorem translateIn_eq_walk (mem : PhysMem) (root virt : Nat) :
    mem.translateIn root virt = layout.walk mem.word 3 (root / frameBytes) virt := by
  unfold PhysMem.translateIn PhysMem.entry
  simp only [RadixLayout.walk, layout]
  cases isPresent (mem.word (root / frameBytes) (virtIndex virt .pml4)) with
  | false => rfl
  | true =>
    simp only [Bool.not_true, Bool.false_eq_true, if_false, if_true]
    generalize physAddr (mem.word (root / frameBytes) (virtIndex virt .pml4)) = pdpt
    cases isPresent (mem.word (pdpt / frameBytes) (virtIndex virt .pdpt)) with
    | false => rfl
    | true =>
      simp only [Bool.not_true, Bool.false_eq_true, if_false, if_true]
      cases isHuge (mem.word (pdpt / frameBytes) (virtIndex virt .pdpt)) with
      | true => rfl
      | false =>
        simp only [Bool.false_eq_true, if_false]
        generalize physAddr (mem.word (pdpt / frameBytes) (virtIndex virt .pdpt)) = pd
        cases isPresent (mem.word (pd / frameBytes) (virtIndex virt .pd)) with
        | false => rfl
        | true =>
          simp only [Bool.not_true, Bool.false_eq_true, if_false, if_true]
          cases isHuge (mem.word (pd / frameBytes) (virtIndex virt .pd)) with
          | true => rfl
          | false =>
            simp only [Bool.false_eq_true, if_false]
            generalize physAddr (mem.word (pd / frameBytes) (virtIndex virt .pd)) = pt
            cases isPresent (mem.word (pt / frameBytes) (virtIndex virt .pt)) <;> rfl

/-- Two addresses are in the same page exactly if their bits `[47:12]` agree. -/
theorem samePage_iff (v w : Nat) :
    layout.SamePage 3 v w ↔ v / 2 ^ 12 % 2 ^ 36 = w / 2 ^ 12 % 2 ^ 36 := by
  have indices : layout.SamePage 3 v w ↔
      virtIndex v .pt = virtIndex w .pt ∧ virtIndex v .pd = virtIndex w .pd ∧
        virtIndex v .pdpt = virtIndex w .pdpt ∧ virtIndex v .pml4 = virtIndex w .pml4 := by
    constructor
    · intro page
      exact ⟨page 0 (by decide), page 1 (by decide), page 2 (by decide), page 3 (by decide)⟩
    · rintro ⟨pt, pd, pdpt, pml4⟩ k bound
      interval_cases k
      · exact pt
      · exact pd
      · exact pdpt
      · exact pml4
  rw [indices]
  simp only [Fin.ext_iff, virtIndex_val, PageLevel.shift]
  omega

end NexaCore.Memory
