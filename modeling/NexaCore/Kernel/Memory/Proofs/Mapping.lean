import NexaCore.Kernel.Memory.Proofs.Descent
import NexaCore.Misc.RadixGrowth

/-!
# Mapping a page

`map_4k_into` steps down the tables of an address and stores one entry in the lowest
one. The whole call is an insertion into the tree (`Inserted`): it redirects the page
of the address and changes no other translation.
-/

namespace NexaCore.Memory

open Misc RadixLayout

namespace PhysState

variable {N : Nat} {st : PhysState N} {table virt flags level : Nat}

variable {phys : Nat}

/-- The last step of `map_4k_into` is the insertion into the lowest table, for every layout
that reads the stored entry as `target`. -/
theorem mapped_mapLeaf {P : Type} {L : RadixLayout Nat (Fin 512) Nat Nat P} {target : Nat → P}
    (index : L.index 0 virt = layout.index 0 virt) (notFree : table / frameBytes ∉ st.alloc.free)
    (present : ∀ e, isPresent e = true → L.decode 0 e ≠ .absent)
    (stored : L.decode 0 (setFrame phys (flags ||| ptePresent)) = .leaf target) :
    L.Mapped st.mem.word st.alloc.free 0 (table / frameBytes) virt target
      (st.mapLeaf table (layout.index 0 virt) phys flags).1
      (st.mapLeaf table (layout.index 0 virt) phys flags).2.mem.word
      (st.mapLeaf table (layout.index 0 virt) phys flags).2.alloc.free := by
  unfold mapLeaf
  split
  · rename_i mapped
    refine RadixLayout.Mapped.refused trivial ?_ fun _ => ?_
    · rintro x rfl
      exact notFree
    · rw [index]
      exact present _ mapped
  · refine RadixLayout.Mapped.leaf notFree ?_ ?_ ?_
    · rw [index, setEntry, PhysMem.word_setEntry_self]
      exact stored
    · intro j other
      exact st.mem.word_setEntry_index table (index ▸ other) _
    · intro x other
      exact st.mem.word_setEntry_frame table other _ _

theorem isPresent_or (flags : Nat) : isPresent (flags ||| ptePresent) = true := by
  rw [isPresent_eq, Nat.testBit_or]
  exact Bool.or_true _

/-- The insertion of a page below the table `table` of the given level: what it does to
the tree, what it stores, and how many frames it takes if no huge page is on the way. -/
structure Inserted (st : PhysState N) (level table virt : Nat) (target : Nat → Nat)
    (result : Bool × PhysState N) : Prop where
  mapped : layout.Mapped st.mem.word st.alloc.free level (table / frameBytes) virt target result.1
    result.2.mem.word result.2.alloc.free
  addressable : result.2.alloc.Addressable
  writes : st.mem.Writes result.2.mem (·.Permitted
    (layout.tables st.mem.word level (table / frameBytes)) (st.alloc.free \ result.2.alloc.free))
  grown : layout.Deep st.mem.word level (table / frameBytes) virt →
    layout.Grown st.mem.word st.alloc.free level (table / frameBytes) virt result.1
      result.2.mem.word result.2.alloc.free

theorem inserted_mapLeaf (rooted : st.Rooted 0 table) (address : FrameAddress phys)
    (noFrameBits : flags &&& frameMask = 0) :
    st.Inserted 0 table virt (fun v => phys + v % 2 ^ 12)
      (st.mapLeaf table (layout.index 0 virt) phys flags) := by
  have flagBits : (flags ||| ptePresent) &&& frameMask = 0 := by
    rw [Nat.and_or_distrib_right, noFrameBits]
    decide
  refine ⟨mapped_mapLeaf rfl (rooted.reserved _ rfl) (fun e present => ?_)
    (decode_page address flagBits (isPresent_or flags)), ?_, ?_, ?_⟩
  · obtain ⟨reach, leaf⟩ := decode_leaf present
    simp [leaf]
  · unfold mapLeaf
    split <;> exact rooted.addressable
  · unfold mapLeaf
    split
    · exact PhysMem.Writes.refl _ _
    · exact (st.mem.writes_setEntry rooted.aligned _ _).mono fun _ entry => .inl ⟨_, rfl, entry⟩
  · intro _
    have onlyRoot : layout.missing st.mem.word 0 (table / frameBytes) (layout.spine 0 virt) =
        ∅ := by
      simp [missing, spine, tableAt_nil]
    have unmapped : layout.walk st.mem.word 0 (table / frameBytes) virt = none ↔
        isPresent (st.mem.entry table (layout.index 0 virt)) = false := by
      cases present : isPresent (st.mem.entry table (layout.index 0 virt)) with
      | false => exact iff_of_true (walk_of_absent (decode_absent present)) rfl
      | true =>
        obtain ⟨reach, leaf⟩ := decode_leaf present
        have slot : layout.decode 0 (st.mem.word (table / frameBytes) (layout.index 0 virt)) =
            .leaf reach := leaf
        exact iff_of_false (by simp [walk_of_leaf slot]) (by simp)
    refine ⟨?_, fun _ path => ?_, fun _ => ?_⟩
    · rw [unmapped, onlyRoot, mapLeaf]
      cases isPresent (st.mem.entry table (layout.index 0 virt)) <;> simp
    · cases path <;> simp [tableAt, spine]
    · rw [onlyRoot, mapLeaf]
      split <;> rfl

variable {target : Nat → Nat}

/-- One step of `map_4k_into` and the insertion below it. -/
theorem Stepped.inserted {g : Nat} {st' : PhysState N} {result : Bool × PhysState N}
    (rooted : st.Rooted (level + 1) table) (step : st.Stepped level table virt g st')
    (inserted : st'.Inserted level g virt target result) :
    st.Inserted (level + 1) table virt target result := by
  have separated := rooted.separated
  have reserved := rooted.reserved
  have descent := step.descent
  have mapped := inserted.mapped
  refine ⟨RadixLayout.Mapped.lift separated reserved descent mapped, inserted.addressable, ?_, ?_⟩
  · have obtained : st.alloc.free \ st'.alloc.free ⊆ st.alloc.free \ result.2.alloc.free :=
      Set.sdiff_subset_sdiff_right mapped.free_subset
    refine (step.writes.mono fun s store => store.mono ?_ obtained).trans
      (inserted.writes.mono fun s store => store.mono ?_
        (Set.sdiff_subset_sdiff_left descent.free_subset))
    · rintro x rfl
      exact .inl (mem_tables_self _)
    · intro x inside
      obtain ⟨taken, wasFree | ⟨h, slot, old⟩⟩ := descent.tables x inside
      · exact .inr ⟨wasFree, fun left => taken (mapped.free_subset left)⟩
      · exact .inl (tables_child slot old)
  · intro deep
    rcases step.growth with ⟨slot, same⟩ | ⟨wasFree, fewer, ⟨reach, leaf⟩ | ⟨slot, empty⟩⟩
    · have agree : ∀ x ∈ layout.tables st.mem.word level (g / frameBytes),
          st'.mem.word x = st.mem.word x :=
        fun x inside => descent.sibling_kept separated reserved slot inside
      exact RadixLayout.Grown.of_old separated reserved descent mapped
        (inserted.grown ((deep.below slot).congr agree)) slot same
    · exact absurd leaf (deep.not_leaf reach)
    · exact RadixLayout.Grown.of_fresh separated reserved descent mapped
        (inserted.grown (.inl (walk_of_absent (empty _))))
        (BitmapFrameAllocator.free_finite _) slot wasFree fewer empty

variable {root : Nat}

/-- The tree below the PML4 at `root`: distinct paths lead to distinct tables and none
of them is free in the allocator, whose frames are frames of physical memory. -/
structure WellFormed (st : PhysState N) (root : Nat) : Prop where
  aligned : root % 2 ^ 12 = 0
  distinct : ∀ p q f, layout.tableAt st.mem.word 3 (root / frameBytes) p = some f →
    layout.tableAt st.mem.word 3 (root / frameBytes) q = some f → p = q
  reserved : ∀ p f, layout.tableAt st.mem.word 3 (root / frameBytes) p = some f →
    f ∉ st.alloc.free
  addressable : st.alloc.Addressable

namespace WellFormed

variable (wellFormed : st.WellFormed root)

include wellFormed

theorem separated :
    layout.Separated st.mem.word 3 (root / frameBytes) :=
  separated_iff.mpr wellFormed.distinct

theorem notFree :
    ∀ x ∈ layout.tables st.mem.word 3 (root / frameBytes), x ∉ st.alloc.free := by
  intro x inside
  obtain ⟨path, found⟩ := mem_tables_iff.mp inside
  exact wellFormed.reserved path x found

theorem rooted : st.Rooted 3 root :=
  ⟨wellFormed.separated, wellFormed.notFree, wellFormed.addressable, wellFormed.aligned⟩

/-- `map_4k_into` on a well-formed tree is an insertion. -/
theorem inserted (virt : Nat) (address : FrameAddress phys)
    (noFrameBits : flags &&& frameMask = 0) :
    st.Inserted 3 root virt (fun v => phys + v % 2 ^ 12) (st.map4kInto root virt phys flags) :=
  map4kInto_induction (P := fun level st table result => st.Inserted level table virt _ result)
    (fun rooted empty noTable => ⟨.refused rooted.separated rooted.reserved nofun,
      rooted.addressable, .refl _ _, fun _ => .refused empty noTable⟩)
    (fun rooted step inserted => step.inserted rooted inserted)
    (fun rooted => inserted_mapLeaf rooted address noFrameBits) wellFormed.rooted

end WellFormed

theorem Inserted.wellFormed {result : Bool × PhysState N}
    (inserted : st.Inserted 3 root virt target result) (aligned : root % 2 ^ 12 = 0) :
    result.2.WellFormed root := by
  refine ⟨aligned, separated_iff.mp inserted.mapped.separated, ?_,
    inserted.addressable⟩
  intro path f found
  exact (inserted.mapped.tables f (mem_tables_iff.mpr ⟨path, found⟩)).1

/-- `map_4k_into` on a well-formed tree. If it returns true, the page of `virt`, which is
the addresses that agree with it in the bits `[47:12]`, is mapped to `phys` and every
other address is translated as before; if it returns false, every address is. The
tree stays well formed. -/
theorem map4k_redirects_page {root : Nat} (wellFormed : st.WellFormed root) (virt phys flags : Nat)
    (aligned : phys % 2 ^ 12 = 0) (bounded : phys < 2 ^ 52)
    (noFrameBits : flags &&& frameMask = 0) :
    let result := st.map4kInto root virt phys flags
    (result.1 = true →
      (∀ v, v / 2 ^ 12 % 2 ^ 36 = virt / 2 ^ 12 % 2 ^ 36 →
        result.2.mem.translateIn root v = some (phys + (v &&& 0xFFF))) ∧
      ∀ w, w / 2 ^ 12 % 2 ^ 36 ≠ virt / 2 ^ 12 % 2 ^ 36 →
        result.2.mem.translateIn root w = st.mem.translateIn root w) ∧
    (result.1 = false → ∀ w, result.2.mem.translateIn root w = st.mem.translateIn root w) ∧
    result.2.WellFormed root := by
  intro result
  have inserted := wellFormed.inserted virt ⟨aligned, bounded⟩ noFrameBits
  have mapped := inserted.mapped
  simp only [translateIn_eq_walk]
  refine ⟨fun success => ⟨fun v page => ?_, fun w other => ?_⟩, fun failure w => ?_,
    inserted.wellFormed wellFormed.aligned⟩
  · rw [and_pageOffsetMask]
    exact mapped.inside success v ((samePage_iff virt v).mpr page.symm)
  · exact mapped.outside w fun page => other ((samePage_iff virt w).mp page).symm
  · exact mapped.failed failure w

end PhysState

/-- An address space with an empty user half: entry 256 of the PML4 in frame 1 leads to the table in
frame 2, which maps the first GiB of physical memory. The frames from 3 on are free. -/
def kernelState : PhysState 1 where
  mem :=
    { word := fun f i => if f = 1 ∧ i = 256 then 0x2003 else if f = 2 ∧ i = 0 then 0x83 else 0
      stores := [] }
  alloc := { bitmap := #v[7#64], base := 0, totalFrames := 61, freeFrames := 61 }

theorem tables_kernelState {p : List (Fin 512)} {f : Nat}
    (found : layout.tableAt kernelState.mem.word 3 (0x1000 / frameBytes) p = some f) :
    (p = [] ∧ f = 1) ∨ (p = [256] ∧ f = 2) := by
  rcases p with _ | ⟨i, p⟩
  · cases found
    exact .inl ⟨rfl, rfl⟩
  · obtain ⟨g, slot, below⟩ := tableAt_cons.mp found
    by_cases here : i = 256
    · subst here
      obtain rfl : 2 = g := by
        have table : layout.decode 3 (kernelState.mem.word (0x1000 / frameBytes) 256) =
            .table 2 := rfl
        simpa [table] using slot
      rcases p with _ | ⟨j, p⟩
      · cases below
        exact .inr ⟨rfl, rfl⟩
      · obtain ⟨h, slot, -⟩ := tableAt_cons.mp below
        by_cases first : j = 0
        · subst first
          cases slot
        · have clear : kernelState.mem.word 2 j = 0 := by simp [kernelState, first]
          rw [clear, decode_absent (show isPresent 0 = false by decide)] at slot
          cases slot
    · have clear : kernelState.mem.word (0x1000 / frameBytes) i = 0 := by
        simp [kernelState, frameBytes, here]
      rw [clear, decode_absent (show isPresent 0 = false by decide)] at slot
      cases slot

theorem wellFormed_kernelState : kernelState.WellFormed 0x1000 := by
  refine ⟨by decide, ?_, ?_, ⟨by decide, by decide⟩⟩
  · intro p q f atP atQ
    rcases tables_kernelState atP with ⟨rfl, rfl⟩ | ⟨rfl, rfl⟩ <;>
      rcases tables_kernelState atQ with ⟨rfl, same⟩ | ⟨rfl, same⟩ <;> first | rfl | cases same
  · rintro p f found ⟨idx, clear, number⟩
    have index : idx = f := by simpa [kernelState] using number.symm
    subst index
    rcases tables_kernelState found with ⟨-, rfl⟩ | ⟨-, rfl⟩ <;> revert clear <;> decide

namespace PhysState

/-- A page in the middle of a huge page is redirected, and the one after it is not. -/
theorem map4k_redirects_page_huge :
    (kernelState.map4kInto 0x1000 0xFFFF800000400000 0x9000 ptePresent).1 = true ∧
    kernelState.mem.translateIn 0x1000 0xFFFF800000400123 = some 0x400123 ∧
    (kernelState.map4kInto 0x1000 0xFFFF800000400000 0x9000 ptePresent).2.mem.translateIn 0x1000
      0xFFFF800000400123 = some 0x9123 ∧
    (kernelState.map4kInto 0x1000 0xFFFF800000400000 0x9000 ptePresent).2.mem.translateIn 0x1000
      0xFFFF800000401123 = some 0x401123 := by
  have mapped : (kernelState.map4kInto 0x1000 0xFFFF800000400000 0x9000 ptePresent).1 = true := by
    decide +kernel
  obtain ⟨redirected, -⟩ := map4k_redirects_page wellFormed_kernelState 0xFFFF800000400000 0x9000
    ptePresent (by decide) (by decide) (by decide)
  obtain ⟨inside, outside⟩ := redirected mapped
  refine ⟨mapped, by decide, inside _ (by decide), ?_⟩
  rw [outside _ (by decide)]
  decide

/-- The walk ignores the bits `[63:48]`: mapping `0x400000` also maps the address that
differs from it in bit 48 only, which lies in another page. -/
theorem map4k_aliases_high_bits :
    kernelState.WellFormed 0x1000 ∧ 0x9000 % 2 ^ 12 = 0 ∧ ptePresent &&& frameMask = 0 ∧
    (kernelState.map4kInto 0x1000 0x400000 0x9000 ptePresent).1 = true ∧
    (0x400000 + 2 ^ 48) / 2 ^ 12 ≠ 0x400000 / 2 ^ 12 ∧
    (kernelState.map4kInto 0x1000 0x400000 0x9000 ptePresent).2.mem.translateIn 0x1000
      (0x400000 + 2 ^ 48) ≠ kernelState.mem.translateIn 0x1000 (0x400000 + 2 ^ 48) := by
  exact ⟨wellFormed_kernelState, by decide, by decide, by decide, by decide, by decide⟩

end PhysState

end NexaCore.Memory
