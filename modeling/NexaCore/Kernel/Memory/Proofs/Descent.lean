import NexaCore.Kernel.Memory.Proofs.Allocation
import NexaCore.Kernel.Memory.Proofs.Stores

/-!
# Stepping down the tables

`map_4k_into` steps down the tables of an address, building and splitting tables on
its way. Each step is a `Descent` of the radix layout (`descends_descend`).
-/

namespace NexaCore.Memory

open Misc BitmapFrameAllocator RadixLayout Function Nat PhysMem Option

namespace PhysMem

variable (mem : PhysMem) (table : Nat) {flags e : Nat}

@[simp] theorem word_setEntry_self (idx : Fin 512) (value : Nat) :
    (mem.setEntry table idx value).word (table / frameBytes) idx = value := by
  simp [setEntry]

theorem word_setEntry_index {idx j : Fin 512} (other : j ≠ idx) (value : Nat) :
    (mem.setEntry table idx value).word (table / frameBytes) j =
      mem.word (table / frameBytes) j := by
  simp [setEntry, other]

theorem word_setEntry_frame {f : Nat} (other : f ≠ table / frameBytes) (idx : Fin 512)
    (value : Nat) : (mem.setEntry table idx value).word f = mem.word f := by
  simp [setEntry, other]

@[simp] theorem word_zeroTable_self (k : Fin 512) :
    (mem.zeroTable table).word (table / frameBytes) k = 0 := by
  simp [zeroTable]

theorem word_foldl_fillEntry (child : Fin 512 → Option Nat) (ks : List (Fin 512)) :
    (ks.foldl (fillEntry table child) mem).word = update mem.word (table / frameBytes) fun k =>
      if k ∈ ks then (child k).getD (mem.word (table / frameBytes) k)
      else mem.word (table / frameBytes) k := by
  induction ks generalizing mem with
  | nil => simp
  | cons head ks ih =>
    rw [List.foldl_cons, ih, fillEntry]
    cases entry : child head with
    | none =>
      congr 1
      funext k
      by_cases here : k = head <;> simp [here, entry]
    | some value =>
      simp only [setEntry, update_idem, update_self]
      congr 1
      funext k
      by_cases here : k = head <;> simp [here, entry]

theorem word_split (child : Fin 512 → Option Nat) :
    ((mem.zeroTable table).fillTable table child).word =
      update mem.word (table / frameBytes) fun k => (child k).getD 0 := by
  rw [fillTable, word_foldl_fillEntry]
  simp [zeroTable]

end PhysMem

structure LinkFlags (flags : Nat) : Prop where
  present : isPresent flags = true
  plain : isHuge flags = false
  noFrameBits : flags &&& frameMask = 0

theorem linkFlags_intermediate (flags : Nat) : LinkFlags (intermediateFlags flags) := by
  unfold intermediateFlags
  split <;> constructor <;> decide

theorem linkFlags_split (flags : Nat) (user : Bool) :
    LinkFlags (if user then intermediateFlags flags ||| pteUser else intermediateFlags flags) := by
  unfold intermediateFlags
  split <;> split <;> constructor <;> decide

/-- A present entry above the page tables links a table, unless its PS bit counts
and is set. -/
theorem decode_table {level : Nat} (present : isPresent e = true)
    (plain : isHuge e = false ∨ 2 ≤ level) :
    layout.decode (level + 1) e = .table (physAddr e / frameBytes) := by
  match level, plain with
  | 0, .inl plain => simp [layout, present, plain]
  | 1, .inl plain => simp [layout, present, plain]
  | _ + 2, _ => simp [layout, present]

theorem decode_link {frame : Nat} (level : Nat) (address : FrameAddress frame)
    (link : LinkFlags flags) :
    layout.decode (level + 1) (setFrame frame flags) = .table (frame / frameBytes) := by
  rw [decode_table (by rw [isPresent_setFrame, link.present])
    (.inl (by rw [isHuge_setFrame, link.plain])), physAddr_setFrame address link.noFrameBits]

theorem decode_leaf (present : isPresent e = true) : ∃ reach, layout.decode 0 e = .leaf reach :=
  ⟨fun v => physAddr e + (v &&& 0xFFF), by simp [layout, present]⟩

theorem decode_absent {level : Nat} (absent : isPresent e = false) :
    layout.decode level e = .absent := by
  match level with
  | 0 => simp [layout, absent]
  | 1 => simp [layout, absent]
  | 2 => simp [layout, absent]
  | _ + 3 => simp [layout, absent]

theorem decode_page {phys : Nat} (address : FrameAddress phys)
    (noFrameBits : flags &&& frameMask = 0) (present : isPresent flags = true) :
    layout.decode 0 (setFrame phys flags) = .leaf fun v => phys + v % 2 ^ 12 := by
  have stored := physAddr_setFrame address noFrameBits
  simp only [layout, isPresent_setFrame, present, if_true, stored]
  congr 1
  funext v
  rw [and_pageOffsetMask]

theorem decode_huge {frame : Nat} (address : FrameAddress frame)
    (aligned : frame % 2 ^ 21 = 0) (noFrameBits : flags &&& frameMask = 0)
    (present : isPresent flags = true)
    (huge : isHuge flags = true) :
    layout.decode 1 (setFrame frame flags) = .leaf fun v => frame + v % 2 ^ 21 := by
  have stored := physAddr_setFrame address noFrameBits
  have hugeFrame : setFrame frame flags &&& huge2mFrameMask = frame := by
    rw [and_huge2mFrameMask_eq, stored]
    exact Nat.div_mul_cancel (dvd_of_mod_eq_zero aligned)
  simp only [layout, isPresent_setFrame, present, isHuge_setFrame, huge, if_true, hugeFrame]
  congr 1
  funext v
  rw [and_huge2mOffsetMask]

/-- The entries of a split page table send the addresses of a 2 MiB page where it sent
them. -/
theorem decode_pteOf2m (pde : Nat) {skip k : Fin 512} (kept : k ≠ skip) :
    ∃ e, PhysState.pteOf2m pde skip k = some e ∧
      layout.decode 0 e = .leaf fun v => (pde &&& huge2mFrameMask) + k * 2 ^ 12 + v % 2 ^ 12 := by
  refine ⟨_, if_neg kept, decode_page ?_ ?_ ?_⟩
  · have := k.isLt
    rw [and_huge2mFrameMask]
    constructor <;> omega
  · rw [and_or_distrib_right, and_or_distrib_right, Nat.and_assoc pde,
      and_and_of_disjoint pde (by decide), and_and_of_disjoint pde (by decide)]
    decide
  · rw [isPresent_eq, testBit_or]
    exact Bool.or_true _

/-- The entries of a split page directory send the addresses of a 1 GiB page where it
sent them. -/
theorem decode_pdeOf1g (pdpte : Nat) (k : Fin 512) :
    ∃ e, PhysState.pdeOf1g pdpte k = some e ∧
      layout.decode 1 e = .leaf fun v => (pdpte &&& huge1gFrameMask) + k * 2 ^ 21 + v % 2 ^ 21 := by
  refine ⟨_, rfl, decode_huge ?_ ?_ ?_ ?_ ?_⟩
  · have := k.isLt
    rw [and_huge1gFrameMask]
    constructor <;> omega
  · rw [and_huge1gFrameMask]
    omega
  · rw [and_or_distrib_right, and_or_distrib_right, and_or_distrib_right,
      and_and_of_disjoint pdpte (by decide), and_and_of_disjoint pdpte (by decide)]
    decide
  · rw [isPresent_eq, testBit_or, testBit_or _ ptePresent]
    simp [ptePresent]
  · rw [isHuge_eq, testBit_or]
    exact Bool.or_true _

namespace PhysState

variable {N : Nat} {st st' : PhysState N} {table frame virt flags level : Nat}
  {alloc : BitmapFrameAllocator N}

/-- What a step of `map_4k_into` from the table at `level + 1` does with a PS=1 entry. -/
def splitAt (virt : Nat) : Nat → Option (Nat → PhysState N → Option (Nat × PhysState N))
  | 0 => some (split2mPde (virtIndex virt .pt))
  | 1 => some split1gPdpte
  | _ => none

/-- The entry of `virt` in the table at `level + 1`. -/
abbrev slotAt (st : PhysState N) (level table virt : Nat) : Slot Nat Nat Nat :=
  layout.decode (level + 1) (st.mem.word (table / frameBytes) (layout.index (level + 1) virt))

/-- A step of `map_4k_into` from `table` to the table `g` below it, with what it stores
and whether it takes a frame. -/
structure Stepped (st : PhysState N) (level table virt g : Nat) (st' : PhysState N) : Prop where
  descent : layout.Descent st.mem.word st.alloc.free level (table / frameBytes) virt st'.mem.word
    st'.alloc.free (g / frameBytes)
  addressable : st'.alloc.Addressable
  aligned : g % 2 ^ 12 = 0
  writes : st.mem.Writes st'.mem
    (·.Permitted {table / frameBytes} (st.alloc.free \ st'.alloc.free))
  growth : (st.slotAt level table virt = .table (g / frameBytes) ∧
      st'.alloc.free = st.alloc.free) ∨
    (g / frameBytes ∈ st.alloc.free ∧ st'.alloc.free = st.alloc.free \ {g / frameBytes} ∧
      ((∃ reach, st.slotAt level table virt = .leaf reach) ∨
        st.slotAt level table virt = .absent ∧
        ∀ k, layout.decode level (st'.mem.word (g / frameBytes) k) = .absent))

/-- The outcomes of a step of `map_4k_into`: no frame is free for the next table, and
nothing has changed, or it is a step down the tree. -/
inductive Descends (st : PhysState N) (level table virt : Nat) :
    Option Nat × PhysState N → Prop
  | exhausted (empty : st.alloc.free = ∅) (noTable : ∀ g, st.slotAt level table virt ≠ .table g) :
      Descends st level table virt (none, st)
  | stepped {g : Nat} {st' : PhysState N} (step : st.Stepped level table virt g st') :
      Descends st level table virt (some g, st')

/-- The tree below the table `table` of the given level is separated and its tables are not
free in the allocator, whose frames are frames of physical memory. -/
structure Rooted (st : PhysState N) (level table : Nat) : Prop where
  separated : layout.Separated st.mem.word level (table / frameBytes)
  reserved : ∀ x ∈ layout.tables st.mem.word level (table / frameBytes), x ∉ st.alloc.free
  addressable : st.alloc.Addressable
  aligned : table % 2 ^ 12 = 0

section Descend

variable (virt flags : Nat) (rooted : st.Rooted (level + 1) table)

include rooted

/-- The step to a new table: `mem` is the memory in which the table has been built, and
`tableFlags` links it. -/
theorem stepped_fresh (allocated : st.alloc.allocFrame = some (frame, alloc)) {tableFlags : Nat}
    (link : LinkFlags tableFlags) {mem : PhysMem}
    (built : st.mem.Writes mem (·.Within (frame / frameBytes)))
    (frameOnly : ∀ f, f ≠ frame / frameBytes → mem.word f = st.mem.word f)
    (flat : ∀ k h, layout.decode level (mem.word (frame / frameBytes) k) ≠ .table h)
    (reach : ∀ w, layout.index (level + 1) w = layout.index (level + 1) virt →
      (layout.decode level (mem.word (frame / frameBytes) (layout.index level w))).reach w =
          (st.slotAt level table virt).reach w ∨
        (level = 0 ∧ layout.index 0 w = layout.index 0 virt ∧
          layout.decode 0 (mem.word (frame / frameBytes) (layout.index 0 virt)) = .absent))
    (slot : (∃ reach, st.slotAt level table virt = .leaf reach) ∨
      st.slotAt level table virt = .absent ∧
        ∀ k, layout.decode level (mem.word (frame / frameBytes) k) = .absent) :
    st.Stepped level table virt frame
      { mem := mem.setEntry table (layout.index (level + 1) virt) (setFrame frame tableFlags),
        alloc } := by
  obtain ⟨wasFree, fewer⟩ := free_allocFrame allocated rooted.addressable
  have address := frameAddress_allocFrame allocated rooted.addressable
  have apart : frame / frameBytes ≠ table / frameBytes := by
    intro same
    rw [same] at wasFree
    exact rooted.reserved _ (mem_tables_self _) wasFree
  have content := mem.word_setEntry_frame table apart (layout.index (level + 1) virt)
    (setFrame frame tableFlags)
  have taken : frame / frameBytes ∉ alloc.free := by
    rw [fewer]
    exact fun inside => inside.2 rfl
  have old : ∀ h, st.slotAt level table virt ≠ .table h := by
    rcases slot with ⟨_, leaf⟩ | ⟨absent, -⟩
    · simp [leaf]
    · simp [absent]
  refine ⟨.of_fresh wasFree taken (fewer ▸ Set.sdiff_subset) ?_ ?_ ?_ ?_ old ?_,
    addressable_allocFrame allocated rooted.addressable, address.aligned, ?_,
    .inr ⟨wasFree, fewer, ?_⟩⟩
  · rw [word_setEntry_self]
    exact decode_link level address link
  · intro j other
    rw [mem.word_setEntry_index table other, frameOnly _ (Ne.symm apart)]
  · intro x notTable notFrame
    rw [mem.word_setEntry_frame table notTable, frameOnly x notFrame]
  · intro k h
    rw [content]
    exact flat k h
  · rw [content]
    exact reach
  · exact (built.mono fun _ within => .inr ⟨_, ⟨wasFree, taken⟩, within⟩).trans
      ((mem.writes_setEntry rooted.aligned _ _).mono fun _ entry => .inl ⟨_, rfl, entry⟩)
  · rw [content]
    exact slot

/-- The step from a huge entry, by a split into the pages of the entries `child`. The word of the
target page in a lowest table stays clear. -/
theorem descends_huge {child : Fin 512 → Option Nat} {tableFlags shift base : Nat}
    (link : LinkFlags tableFlags)
    (slot : st.slotAt level table virt = .leaf fun v => base + v % 2 ^ (shift + 9))
    (index : ∀ w, (layout.index level w).val = w / 2 ^ shift % 2 ^ 9)
    (entries : ∀ k, (level = 0 ∧ k = layout.index 0 virt ∧ child k = none) ∨ ∃ e, child k = some e ∧
        layout.decode level e = .leaf fun v => base + k * 2 ^ shift + v % 2 ^ shift) :
    st.Descends level table virt (match st.split child with
      | none => (none, st)
      | some (frame, st) =>
          (some frame, st.setEntry table (layout.index (level + 1) virt)
            (setFrame frame tableFlags))) := by
  unfold split allocTable
  cases allocated : st.alloc.allocFrame with
  | none => exact .exhausted (free_eq_empty allocated) (by simp [slot])
  | some result =>
    obtain ⟨frame, alloc⟩ := result
    have aligned := (frameAddress_allocFrame allocated rooted.addressable).aligned
    have built := (st.mem.writes_zeroTable aligned).trans
      ((st.mem.zeroTable frame).writes_fillTable aligned child)
    simp only [setEntry]
    refine .stepped (stepped_fresh virt rooted allocated link built (fun f other => ?_)
      (fun k h linked => ?_) (fun w _ => ?_) (.inl ⟨_, slot⟩))
    · rw [word_split, update_of_ne other]
    · rw [word_split, update_self] at linked
      rcases entries k with ⟨-, -, none⟩ | ⟨e, some, leaf⟩
      · rw [none, getD_none, decode_absent (by decide)] at linked
        cases linked
      · rw [some, getD_some, leaf] at linked
        cases linked
    · simp only [word_split, update_self]
      rcases entries (layout.index level w) with ⟨rfl, target, none⟩ | ⟨e, some, leaf⟩
      · rw [← target, none]
        exact .inr ⟨rfl, rfl, decode_absent (by decide)⟩
      · refine .inl ?_
        rw [some, getD_some, leaf, slot, Slot.reach, Slot.reach, index, pow_add,
          mod_mul, mul_comm, add_assoc, add_comm (_ * _)]

theorem descends_absent
    (absent : isPresent (st.mem.entry table (layout.index (level + 1) virt)) = false) :
    st.Descends level table virt (match st.allocTable with
      | none => (none, st)
      | some (frame, st) =>
          (some frame, st.setEntry table (layout.index (level + 1) virt)
            (setFrame frame (intermediateFlags flags)))) := by
  have slot : st.slotAt level table virt = .absent := decode_absent absent
  unfold allocTable
  cases allocated : st.alloc.allocFrame with
  | none => exact .exhausted (free_eq_empty allocated) (by simp [slot])
  | some result =>
    obtain ⟨frame, alloc⟩ := result
    have aligned := (frameAddress_allocFrame allocated rooted.addressable).aligned
    have zero : ∀ k, layout.decode level ((st.mem.zeroTable frame).word (frame / frameBytes) k) =
        .absent := by
      intro k
      rw [word_zeroTable_self]
      exact decode_absent (by decide)
    refine .stepped (stepped_fresh virt rooted allocated (linkFlags_intermediate flags)
      (st.mem.writes_zeroTable aligned) (fun f other => by simp [PhysMem.zeroTable, other])
      (fun k h => by rw [zero]; nofun) (fun w _ => .inl ?_) (.inr ⟨slot, zero⟩))
    rw [zero, slot]

/-- The step from an entry that links a table, which is rewritten if its table is needed
by a user page for the first time. -/
theorem descends_linked
    (entry : e = st.mem.entry table (layout.index (level + 1) virt)) (present : isPresent e = true)
    (plain : isHuge e = false ∨ 2 ≤ level) :
    st.Descends level table virt (if isUser flags && !isUser e then
        (some (physAddr e), st.setEntry table (layout.index (level + 1) virt)
          (setFrame (physAddr e) (intermediateFlags flags)))
      else (some (physAddr e), st)) := by
  have slot : st.slotAt level table virt = .table (physAddr e / frameBytes) := by
    have same : st.mem.word (table / frameBytes) (layout.index (level + 1) virt) = e := entry.symm
    rw [slotAt, same]
    exact decode_table present plain
  have address := frameAddress_physAddr e
  split
  · refine .stepped ⟨.of_table rooted.separated rooted.reserved slot ?_
      (fun j other => st.mem.word_setEntry_index table other _)
      (fun x other => st.mem.word_setEntry_frame table other _ _), rooted.addressable,
      address.aligned, ?_, .inl ⟨slot, rfl⟩⟩
    · rw [setEntry, word_setEntry_self]
      exact decode_link level address (linkFlags_intermediate flags)
    · exact (st.mem.writes_setEntry rooted.aligned _ _).mono fun _ entry => .inl ⟨_, rfl, entry⟩
  · exact .stepped ⟨.of_table rooted.separated rooted.reserved slot slot (fun _ _ => rfl)
      fun _ _ => rfl, rooted.addressable, address.aligned, PhysMem.Writes.refl _ _,
      .inl ⟨slot, rfl⟩⟩

/-- Each of the three steps of `map_4k_into` is a step down the tree, or finds no free
frame for the next table and changes nothing. -/
theorem descends_descend :
    st.Descends level table virt
      (st.descend table (layout.index (level + 1) virt) flags (splitAt virt level)) := by
  unfold descend
  generalize entry : st.mem.entry table (layout.index (level + 1) virt) = e
  cases present : isPresent e with
  | false =>
    simp only [present, Bool.false_eq_true, if_false]
    exact descends_absent virt flags rooted (entry ▸ present)
  | true =>
    simp only [present, if_true]
    -- a PS bit that counts makes the step a split; else the entry links a table
    by_cases plain : isHuge e = false ∨ 2 ≤ level
    · have linked := descends_linked virt flags rooted entry.symm present plain
      match level, plain with
      | 0, .inl plain => simpa only [splitAt, plain] using linked
      | 1, .inl plain => simpa only [splitAt, plain] using linked
      | _ + 2, _ => exact linked
    · obtain ⟨huge, low⟩ := not_or.mp plain
      simp only [Bool.not_eq_false] at huge
      match level, low with
      | 0, _ =>
        have slot : st.slotAt 0 table virt =
            .leaf fun v => (e &&& huge2mFrameMask) + v % 2 ^ (12 + 9) := by
          rw [slotAt, ← PhysMem.entry, entry]
          simp only [layout, present, huge, if_true, and_huge2mOffsetMask, reduceAdd]
        simp only [splitAt, huge, split2mPde, zero_add]
        refine descends_huge virt rooted (linkFlags_split flags (isUser e)) slot
          (fun w => virtIndex_val w .pt) fun k => ?_
        by_cases target : k = virtIndex virt .pt
        · exact .inl ⟨rfl, target, if_pos target⟩
        · exact .inr (decode_pteOf2m e target)
      | 1, _ =>
        have slot : st.slotAt 1 table virt =
            .leaf fun v => (e &&& huge1gFrameMask) + v % 2 ^ (21 + 9) := by
          rw [slotAt, ← PhysMem.entry, entry]
          simp only [layout, present, huge, if_true, and_huge1gOffsetMask, reduceAdd]
        simp only [splitAt, huge, split1gPdpte, reduceAdd]
        exact descends_huge virt rooted (linkFlags_split flags (isUser e)) slot
          (fun w => virtIndex_val w .pd) fun k => .inr (decode_pdeOf1g e k)
      | _ + 2, low => exact absurd (le_add_left 2 _) low

end Descend

theorem Stepped.rooted {g : Nat} (step : st.Stepped level table virt g st') : st'.Rooted level g :=
  ⟨step.descent.separated, fun x inside => (step.descent.tables x inside).1, step.addressable,
    step.aligned⟩

/-- What holds of a `map_4k_into` that gives up or ends with the last step, and is carried up
the steps, holds of the whole call. -/
theorem map4kInto_induction {P : Nat → PhysState N → Nat → Bool × PhysState N → Prop}
    {virt phys root : Nat}
    (exhausted : ∀ {level table} {st : PhysState N}, st.Rooted (level + 1) table →
      st.alloc.free = ∅ → (∀ g, st.slotAt level table virt ≠ .table g) →
      P (level + 1) st table (false, st))
    (stepped : ∀ {level table g} {st st' : PhysState N} {result}, st.Rooted (level + 1) table →
      st.Stepped level table virt g st' → P level st' g result → P (level + 1) st table result)
    (last : ∀ {table} {st : PhysState N}, st.Rooted 0 table →
      P 0 st table (st.mapLeaf table (layout.index 0 virt) phys flags))
    (rooted : st.Rooted 3 root) : P 3 st root (st.map4kInto root virt phys flags) := by
  -- The steps of the source name the index and the split of their level.
  have descend : ∀ {level table} {st : PhysState N} {result} (call),
      st.descend table (layout.index (level + 1) virt) flags (splitAt virt level) = call →
      st.Rooted (level + 1) table → (∀ st', call = (none, st') → result = (false, st')) →
      (∀ g st', call = (some g, st') → st'.Rooted level g → P level st' g result) →
      P (level + 1) st table result := by
    intro level table st result call called rooted none some
    have descends := descends_descend virt flags rooted
    rw [called] at descends
    cases descends with
    | exhausted empty noTable => exact none _ rfl ▸ exhausted rooted empty noTable
    | stepped step => exact stepped rooted step (some _ _ rfl step.rooted)
  unfold map4kInto
  refine descend (st.descend root (virtIndex virt .pml4) flags none) rfl rooted
    (fun _ none => by rw [none]) fun pdpt st found rooted => ?_
  simp only [found]
  refine descend (st.descend pdpt (virtIndex virt .pdpt) flags (some split1gPdpte)) rfl rooted
    (fun _ none => by rw [none]) fun pd st found rooted => ?_
  simp only [found]
  refine descend (st.descend pd (virtIndex virt .pd) flags
    (some (split2mPde (virtIndex virt .pt)))) rfl rooted
    (fun _ none => by rw [none]) fun pt st found rooted => ?_
  simp only [found]
  exact last rooted

end PhysState

end NexaCore.Memory
