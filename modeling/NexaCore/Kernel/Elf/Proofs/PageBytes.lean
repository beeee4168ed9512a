import NexaCore.Kernel.Elf.Loader
import NexaCore.Misc.Digits

/-!
# The bytes of a page

What `page_copy_plan` and the three stores of `map_and_load_into` leave in a frame: page
`i` of a segment holds the part of the file that its addresses select, and zeros elsewhere.
-/

namespace NexaCore.Memory.PhysMem

open Misc

def byteAt (mem : PhysMem) (phys : Nat) : UInt8 :=
  UInt8.ofNat (mem.word (phys / frameBytes) ⟨phys % frameBytes / 8, wordIndex_lt phys⟩ /
    256 ^ (phys % 8) % 256)

def readByte (mem : PhysMem) (root virt : Nat) : Option UInt8 :=
  (mem.translateIn root virt).map mem.byteAt

theorem byteAt_congr {mem mem' : PhysMem} {phys : Nat}
    (same : mem'.word (phys / frameBytes) = mem.word (phys / frameBytes)) :
    mem'.byteAt phys = mem.byteAt phys := by
  simp only [byteAt, same]

theorem byteAt_setByte (mem : PhysMem) (stores : List Store) (addr phys : Nat) (byte : UInt8) :
    byteAt { word := setByte mem.word addr byte, stores } phys =
      if phys = addr then byte else mem.byteAt phys := by
  have small : byte.toNat < 256 := byte.toNat_lt
  by_cases frame : phys / frameBytes = addr / frameBytes
  · by_cases index : phys % frameBytes / 8 = addr % frameBytes / 8
    · -- the same word: the digits of a number in base 256
      have word : setByte mem.word addr byte (phys / frameBytes)
          ⟨phys % frameBytes / 8, wordIndex_lt phys⟩ =
            replaceDigit 256 (mem.word (phys / frameBytes)
              ⟨phys % frameBytes / 8, wordIndex_lt phys⟩) (addr % 8) byte.toNat := by
        simp [setByte, replaceDigit, frame, index]
      simp only [byteAt, word]
      by_cases here : phys = addr
      · rw [if_pos here, here, digit_replaceDigit_self small]
        exact UInt8.ofNat_toNat
      · have other : phys % 8 ≠ addr % 8 := by
          unfold frameBytes at frame index
          omega
        rw [if_neg here, digit_replaceDigit_of_ne small _ other]
    · have apart : phys ≠ addr := fun same => index (by rw [same])
      rw [if_neg apart]
      simp [byteAt, setByte, frame, index]
  · have apart : phys ≠ addr := fun same => frame (by rw [same])
    rw [if_neg apart]
    simp [byteAt, setByte, frame]

theorem byteAt_writeBytes (mem : PhysMem) (addr phys : Nat) (bytes : List UInt8) :
    (mem.writeBytes addr bytes).byteAt phys =
      if addr ≤ phys then bytes[phys - addr]?.getD (mem.byteAt phys) else mem.byteAt phys := by
  induction bytes generalizing mem addr with
  | nil =>
    have unchanged : (mem.writeBytes addr []).byteAt phys = mem.byteAt phys := byteAt_congr rfl
    simp [unchanged]
  | cons byte bytes ih =>
    have first : (mem.writeBytes addr (byte :: bytes)).byteAt phys =
        (({ word := setByte mem.word addr byte, stores := [] } : PhysMem).writeBytes (addr + 1)
          bytes).byteAt phys := byteAt_congr rfl
    rw [first, ih, byteAt_setByte]
    rcases Nat.lt_trichotomy phys addr with below | rfl | above
    · rw [if_neg (by omega), if_neg (by omega), if_neg (by omega)]
    · simp
    · obtain ⟨k, rfl⟩ := Nat.exists_eq_add_of_lt above
      rw [if_pos (by omega), if_neg (by omega), if_pos (by omega),
        show addr + k + 1 - (addr + 1) = k by omega, show addr + k + 1 - addr = k + 1 by omega,
        List.getElem?_cons_succ]

end NexaCore.Memory.PhysMem

namespace NexaCore.Elf

open Memory

/-- The byte at offset `off` of page `pageI` of a segment whose file bytes start at
`pageIntra` in its first page. -/
def pageByte (fileData : List UInt8) (pageIntra pageI off : Nat) : UInt8 :=
  if pageIntra ≤ pageI * 4096 + off then fileData[pageI * 4096 + off - pageIntra]?.getD 0 else 0

theorem pageCopyPlan_bounds {pageIntra : Nat} (small : pageIntra < 4096) (fileLen pageI : Nat) :
    (pageCopyPlan pageIntra fileLen pageI).1 + (pageCopyPlan pageIntra fileLen pageI).2.2 ≤ 4096 ∧
    (pageCopyPlan pageIntra fileLen pageI).2.1 + (pageCopyPlan pageIntra fileLen pageI).2.2 ≤
      fileLen := by
  simp only [pageCopyPlan]
  split_ifs <;> dsimp only <;> omega

theorem byteAt_writeBytes_if (mem : PhysMem) (cond : Prop) [Decidable cond] (addr phys : Nat)
    (bytes : List UInt8) :
    (if cond then mem.writeBytes addr bytes else mem).byteAt phys =
      if cond ∧ addr ≤ phys then bytes[phys - addr]?.getD (mem.byteAt phys)
      else mem.byteAt phys := by
  by_cases holds : cond
  · simp only [holds, if_true, true_and, mem.byteAt_writeBytes]
  · simp only [holds, if_false, false_and]

/-- The three stores leave the file bytes at their place and zeros around them. -/
theorem byteAt_fillPage (mem : PhysMem) (frame : Nat) (fileData : List UInt8)
    {plan : Nat × Nat × Nat} {off : Nat} (fits : plan.1 + plan.2.2 ≤ 4096)
    (available : plan.2.1 + plan.2.2 ≤ fileData.length) (inside : off < 4096) :
    (fillPage mem frame fileData plan).byteAt (frame + off) =
      if plan.1 ≤ off ∧ off < plan.1 + plan.2.2 then fileData[plan.2.1 + (off - plan.1)]?.getD 0
      else 0 := by
  obtain ⟨dstOff, fileStart, copyLen⟩ := plan
  dsimp only at fits available ⊢
  simp only [fillPage, byteAt_writeBytes_if]
  by_cases file : dstOff ≤ off ∧ off < dstOff + copyLen
  · -- the second store is the last one to this byte
    have index : frame + off - (frame + dstOff) = off - dstOff := by omega
    rw [if_pos file, if_neg (by omega), if_pos (by omega), index, List.getElem?_take,
      if_pos (by omega), List.getElem?_drop, List.getElem?_eq_getElem (by omega)]
    rfl
  · rw [if_neg file]
    by_cases before : off < dstOff
    · rw [if_neg (by omega), if_neg (by omega), if_pos (by omega), List.getElem?_replicate,
        if_pos (by omega)]
      rfl
    · rw [if_pos (by omega), List.getElem?_replicate, if_pos (by omega)]
      rfl

/-- Page `pageI` of a segment, as it is left by `map_and_load_into`. -/
theorem byteAt_loadedPage (mem : PhysMem) (frame : Nat) (fileData : List UInt8)
    {pageIntra off : Nat} (small : pageIntra < 4096) (inside : off < 4096) (pageI : Nat) :
    (fillPage mem frame fileData (pageCopyPlan pageIntra fileData.length pageI)).byteAt
      (frame + off) = pageByte fileData pageIntra pageI off := by
  have bounds := pageCopyPlan_bounds small fileData.length pageI
  rw [byteAt_fillPage mem frame fileData bounds.1 bounds.2 inside, pageByte]
  clear bounds
  -- past the file bytes of the plan the file has ended, or the page has
  by_cases first : pageI = 0
  · subst first
    simp only [pageCopyPlan, if_true, Nat.zero_mul, Nat.zero_add]
    by_cases start : pageIntra ≤ off
    · by_cases file : off < pageIntra + min fileData.length (4096 - pageIntra)
      · rw [if_pos ⟨start, file⟩, if_pos start]
      · rw [if_neg (fun within => file within.2), if_pos start, List.getElem?_eq_none (by omega)]
        rfl
    · rw [if_neg (fun within => start within.1), if_neg start]
  · have start : pageIntra ≤ pageI * 4096 + off := by omega
    rw [if_pos start]
    simp only [pageCopyPlan, first, if_false]
    by_cases ended : fileData.length ≤ pageI * 4096 - pageIntra
    · have past : fileData.length ≤ pageI * 4096 + off - pageIntra :=
        ended.trans (Nat.sub_le_sub_right (Nat.le_add_right _ _) _)
      rw [if_pos ended, List.getElem?_eq_none past]
      simp
    · rw [if_neg ended]
      by_cases file : off < min (fileData.length - (pageI * 4096 - pageIntra)) 4096
      · rw [if_pos (by simpa using file)]
        congr 2
        dsimp only
        omega
      · rw [if_neg (by simpa using file), List.getElem?_eq_none (by omega)]
        rfl

end NexaCore.Elf
