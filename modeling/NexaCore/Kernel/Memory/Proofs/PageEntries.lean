import NexaCore.Kernel.Memory.Proofs.Mapping
import NexaCore.Misc.RadixEntries

/-!
# The entries of mapped pages

The entry that maps a 4 KiB page, which carries its access rights. Where no huge page is
split, `map_4k_into` stores the entry of its page and keeps the entries of all others.
-/

namespace NexaCore.Memory

open Misc RadixLayout

def isWritable (entry : Nat) : Bool := entry &&& pteWritable ≠ 0

def isExecutable (entry : Nat) : Bool := entry &&& pteNoExec = 0

/-- The entry of the page table that the walk of `translate_in` ends at. The entries above
it can restrict the rights it gives but not extend them. -/
def PhysMem.leafEntry (mem : PhysMem) (root virt : Nat) : Option Nat :=
  let pml4e := mem.entry root (virtIndex virt .pml4)
  if !isPresent pml4e then none
  else
    let pdpte := mem.entry (physAddr pml4e) (virtIndex virt .pdpt)
    if !isPresent pdpte || isHuge pdpte then none
    else
      let pde := mem.entry (physAddr pdpte) (virtIndex virt .pd)
      if !isPresent pde || isHuge pde then none
      else
        let pte := mem.entry (physAddr pde) (virtIndex virt .pt)
        if !isPresent pte then none else some pte

theorem leafEntry_eq_walk (mem : PhysMem) (root virt : Nat) :
    mem.leafEntry root virt = layout.entries.walk mem.word 3 (root / frameBytes) virt := by
  unfold PhysMem.leafEntry PhysMem.entry
  simp only [walk, entries, layout]
  cases isPresent (mem.word (root / frameBytes) (virtIndex virt .pml4)) with
  | false => rfl
  | true =>
    simp only [Bool.not_true, Bool.false_eq_true, if_false, if_true, Slot.entry]
    generalize physAddr (mem.word (root / frameBytes) (virtIndex virt .pml4)) = pdpt
    cases isPresent (mem.word (pdpt / frameBytes) (virtIndex virt .pdpt)) with
    | false => rfl
    | true =>
      cases isHuge (mem.word (pdpt / frameBytes) (virtIndex virt .pdpt)) with
      | true => rfl
      | false =>
        simp only [Bool.not_true, Bool.false_eq_true, Bool.or_false, if_false, if_true]
        generalize physAddr (mem.word (pdpt / frameBytes) (virtIndex virt .pdpt)) = pd
        cases isPresent (mem.word (pd / frameBytes) (virtIndex virt .pd)) with
        | false => rfl
        | true =>
          cases isHuge (mem.word (pd / frameBytes) (virtIndex virt .pd)) with
          | true => rfl
          | false =>
            simp only [Bool.not_true, Bool.false_eq_true, Bool.or_false, if_false, if_true]
            generalize physAddr (mem.word (pd / frameBytes) (virtIndex virt .pd)) = pt
            cases isPresent (mem.word (pt / frameBytes) (virtIndex virt .pt)) <;> rfl

theorem leafEntry_eq_none {mem : PhysMem} {root virt : Nat}
    (unmapped : mem.translateIn root virt = none) : mem.leafEntry root virt = none := by
  rw [translateIn_eq_walk] at unmapped
  rw [leafEntry_eq_walk]
  exact walk_entries_eq_none unmapped

namespace PhysState

variable {N : Nat} {st : PhysState N} {table virt flags level : Nat}

/-- The insertion of `entry` for the page of `virt` below the table `table`. -/
def Entered (st : PhysState N) (level table virt entry : Nat) (result : Bool × PhysState N) :
    Prop :=
  layout.entries.Mapped st.mem.word st.alloc.free level (table / frameBytes) virt (fun _ => entry)
    result.1 result.2.mem.word result.2.alloc.free

theorem entered_mapLeaf {phys : Nat} (rooted : st.Rooted 0 table) :
    st.Entered 0 table virt (setFrame phys (flags ||| ptePresent))
      (st.mapLeaf table (layout.index 0 virt) phys flags) := by
  have read : ∀ e, isPresent e = true → layout.entries.decode 0 e = .leaf fun _ => e := by
    intro e present
    obtain ⟨reach, leaf⟩ := decode_leaf present
    simp only [entries, leaf, Slot.entry, if_true]
  refine mapped_mapLeaf rfl (rooted.reserved _ rfl) (fun e present => ?_) (read _ ?_)
  · simp [read e present]
  · rw [isPresent_setFrame, isPresent_or]

/-- One step of `map_4k_into` and the insertion below it, if the walk for `virt` does not
end above the lowest level. -/
theorem Stepped.entered {entry g : Nat} {st' : PhysState N} {result : Bool × PhysState N}
    (rooted : st.Rooted (level + 1) table) (step : st.Stepped level table virt g st')
    (deep : layout.Deep st.mem.word (level + 1) (table / frameBytes) virt)
    (below : layout.Deep st'.mem.word level (g / frameBytes) virt →
      st'.Entered level g virt entry result) :
    st.Entered (level + 1) table virt entry result := by
  have descent := step.descent
  -- the step finds a table or builds an empty one; in both cases the walk goes on
  have next : (st.slotAt level table virt = .table (g / frameBytes) ∨
      st.slotAt level table virt = .absent ∧
        ∀ k, layout.decode level (st'.mem.word (g / frameBytes) k) = .absent) ∧
      layout.Deep st'.mem.word level (g / frameBytes) virt := by
    rcases step.growth with ⟨slot, -⟩ | ⟨-, -, ⟨reach, leaf⟩ | ⟨slot, empty⟩⟩
    · exact ⟨.inl slot, (deep.below slot).congr fun x inside =>
        descent.sibling_kept rooted.separated rooted.reserved slot inside⟩
    · exact absurd leaf (deep.not_leaf reach)
    · exact ⟨.inr ⟨slot, empty⟩, .inl (walk_of_absent (empty _))⟩
  exact RadixLayout.Mapped.lift (separated_entries.mpr rooted.separated)
    (by rw [tables_entries]; exact rooted.reserved)
    (descent.entries rooted.separated rooted.reserved next.1) (below next.2)

/-- `map_4k_into` stores the entry of the page and keeps the others. -/
theorem WellFormed.entered {root : Nat} (wellFormed : st.WellFormed root)
    (deep : layout.Deep st.mem.word 3 (root / frameBytes) virt) (phys flags : Nat) :
    st.Entered 3 root virt (setFrame phys (flags ||| ptePresent))
      (st.map4kInto root virt phys flags) :=
  map4kInto_induction (P := fun level st table result =>
      layout.Deep st.mem.word level (table / frameBytes) virt →
        st.Entered level table virt (setFrame phys (flags ||| ptePresent)) result)
    (fun rooted _ _ _ => .refused (separated_entries.mpr rooted.separated)
      (by rw [tables_entries]; exact rooted.reserved) nofun)
    (fun rooted step below deep => step.entered rooted deep below)
    (fun rooted _ => entered_mapLeaf rooted) wellFormed.rooted deep

end PhysState

end NexaCore.Memory
