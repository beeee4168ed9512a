import NexaCore.Kernel.Memory.FrameAllocator

/-!
# Page tables

Embedding of the 4-level page-table code of `nexacore-kernel/src/bare_metal/paging.rs`. Physical
memory is a map from frame numbers to the 512 words of a frame; the direct map makes
`table_ptr(phys)` the frame of `phys`. A memory also keeps the byte ranges that were stored to.
-/

namespace NexaCore.Memory

open Function

/-- A store to the `len` bytes from the physical address `addr`. -/
structure Store where
  addr : Nat
  len : Nat
  deriving DecidableEq, Repr

/-- Physical memory: the words of each frame, and the stores made so far, the last
one first. -/
structure PhysMem where
  word : Nat → Fin 512 → Nat
  stores : List Store

/-- The flag bits of an entry (`paging.rs:45-55`). -/
def ptePresent : Nat := 1 <<< 0

def pteWritable : Nat := 1 <<< 1

def pteUser : Nat := 1 <<< 2

def pteHuge : Nat := 1 <<< 7

def pteNoExec : Nat := 1 <<< 63

/-- `HUGE_1G_FRAME_MASK` and the masks beside it (`paging.rs:68-74`). -/
def huge1gFrameMask : Nat := 0x000FFFFFC0000000

def huge1gOffsetMask : Nat := 0x000000003FFFFFFF

def huge2mFrameMask : Nat := 0x000FFFFFFFE00000

def huge2mOffsetMask : Nat := 0x00000000001FFFFF

/-- The frame bits `[51:12]` of an entry. -/
def frameMask : Nat := 0x000FFFFFFFFFF000

/-- `PageTableEntry::is_present` (`paging.rs:92-94`). -/
def isPresent (entry : Nat) : Bool := entry &&& ptePresent ≠ 0

/-- The test `e.0 & PTE_HUGE != 0`. -/
def isHuge (entry : Nat) : Bool := entry &&& pteHuge ≠ 0

/-- The test `e.0 & PTE_USER != 0`. -/
def isUser (entry : Nat) : Bool := entry &&& pteUser ≠ 0

/-- `PageTableEntry::phys_addr` (`paging.rs:101-103`). -/
def physAddr (entry : Nat) : Nat := entry &&& frameMask

/-- The value that `PageTableEntry::set_frame` stores (`paging.rs:108-110`). -/
def setFrame (frame flags : Nat) : Nat := (frame &&& frameMask) ||| flags

/-- `PageLevel` (`paging.rs:168-177`). -/
inductive PageLevel where
  | pml4
  | pdpt
  | pd
  | pt
  deriving DecidableEq, Repr

/-- The shift of `virt_index`. -/
def PageLevel.shift : PageLevel → Nat
  | .pml4 => 39
  | .pdpt => 30
  | .pd => 21
  | .pt => 12

/-- `virt_index` (`paging.rs:189-197`). -/
def virtIndex (virt : Nat) (level : PageLevel) : Fin 512 :=
  ⟨(virt >>> level.shift) &&& 0x1FF, Nat.lt_of_le_of_lt Nat.and_le_right (by decide)⟩

namespace PhysMem

/-- `(*table_ptr(table)).entry(idx)`. -/
def entry (mem : PhysMem) (table : Nat) (idx : Fin 512) : Nat :=
  mem.word (table / frameBytes) idx

def setEntry (mem : PhysMem) (table : Nat) (idx : Fin 512) (value : Nat) : PhysMem where
  word := update mem.word (table / frameBytes)
    (update (mem.word (table / frameBytes)) idx value)
  stores := ⟨table + 8 * idx, 8⟩ :: mem.stores

/-- `zero_table` (`paging.rs:772-775`). -/
def zeroTable (mem : PhysMem) (table : Nat) : PhysMem where
  word := update mem.word (table / frameBytes) fun _ => 0
  stores := ⟨table, frameBytes⟩ :: mem.stores

/-- One turn of the loop `while k < 512` of the two splits: stores the entry that
`child` gives for the index `k`. -/
def fillEntry (table : Nat) (child : Fin 512 → Option Nat) (mem : PhysMem) (k : Fin 512) :
    PhysMem :=
  match child k with
  | none => mem
  | some value => mem.setEntry table k value

/-- The loop of the two splits. -/
def fillTable (mem : PhysMem) (table : Nat) (child : Fin 512 → Option Nat) : PhysMem :=
  (List.finRange 512).foldl (fillEntry table child) mem

/-- `translate_in` (`paging.rs:252-284`). -/
def translateIn (mem : PhysMem) (root virt : Nat) : Option Nat :=
  let pml4e := mem.entry root (virtIndex virt .pml4)
  if !isPresent pml4e then none
  else
    let pdpte := mem.entry (physAddr pml4e) (virtIndex virt .pdpt)
    if !isPresent pdpte then none
    else if isHuge pdpte then some ((pdpte &&& huge1gFrameMask) + (virt &&& huge1gOffsetMask))
    else
      let pde := mem.entry (physAddr pdpte) (virtIndex virt .pd)
      if !isPresent pde then none
      else if isHuge pde then some ((pde &&& huge2mFrameMask) + (virt &&& huge2mOffsetMask))
      else
        let pte := mem.entry (physAddr pde) (virtIndex virt .pt)
        if !isPresent pte then none else some (physAddr pte + (virt &&& 0xFFF))

end PhysMem

/-- The state that mapping works on: physical memory and the frame allocator. -/
structure PhysState (N : Nat) where
  mem : PhysMem
  alloc : BitmapFrameAllocator N

/-- The flags of the intermediate entries that `map_4k_into` writes
(`paging.rs:468-472`). -/
def intermediateFlags (flags : Nat) : Nat :=
  if isUser flags then ptePresent ||| pteWritable ||| pteUser else ptePresent ||| pteWritable

namespace PhysState

variable {N : Nat}

/-- A frame from the allocator, zeroed. -/
def allocTable (st : PhysState N) : Option (Nat × PhysState N) :=
  match st.alloc.allocFrame with
  | none => none
  | some (frame, alloc) => some (frame, { mem := st.mem.zeroTable frame, alloc })

def setEntry (st : PhysState N) (table : Nat) (idx : Fin 512) (value : Nat) : PhysState N :=
  { st with mem := st.mem.setEntry table idx value }

/-- A split: a new table whose entries reproduce the range of a huge page. -/
def split (st : PhysState N) (child : Fin 512 → Option Nat) : Option (Nat × PhysState N) :=
  match st.allocTable with
  | none => none
  | some (frame, st) => some (frame, { st with mem := st.mem.fillTable frame child })

/-- The entries that `split_2m_pde` writes (`paging.rs:629-631`, `paging.rs:639-651`). -/
def pteOf2m (pde : Nat) (skipIdx k : Fin 512) : Option Nat :=
  let hugeFrame := pde &&& huge2mFrameMask
  let childFlags :=
    (pde &&& 0xFFF &&& (u64Max ^^^ pteHuge)) ||| (pde &&& pteNoExec) ||| ptePresent
  if k = skipIdx then none else some (setFrame (hugeFrame + k * 0x1000) childFlags)

/-- `split_2m_pde` (`paging.rs:622-653`). -/
def split2mPde (skipIdx : Fin 512) (pde : Nat) (st : PhysState N) : Option (Nat × PhysState N) :=
  st.split (pteOf2m pde skipIdx)

/-- The entries that `split_1g_pdpte` writes (`paging.rs:677-680`, `paging.rs:688-698`). -/
def pdeOf1g (pdpte : Nat) (k : Fin 512) : Option Nat :=
  let hugeFrame := pdpte &&& huge1gFrameMask
  let childFlags := (pdpte &&& 0xFFF) ||| (pdpte &&& pteNoExec) ||| ptePresent ||| pteHuge
  some (setFrame (hugeFrame + k * 0x200000) childFlags)

/-- `split_1g_pdpte` (`paging.rs:668-700`). -/
def split1gPdpte (pdpte : Nat) (st : PhysState N) : Option (Nat × PhysState N) :=
  st.split (pdeOf1g pdpte)

/-- The three steps of `map_4k_into` from a table to the one below it
(`paging.rs:474-595`). `split` says what the step does with a PS=1 entry; the
first one does not look at that bit. -/
def descend (st : PhysState N) (table : Nat) (idx : Fin 512) (flags : Nat)
    (split : Option (Nat → PhysState N → Option (Nat × PhysState N))) :
    Option Nat × PhysState N :=
  let e := st.mem.entry table idx
  if isPresent e then
    match split, isHuge e with
    | some split, true =>
        match split e st with
        | none => (none, st)
        | some (frame, st) =>
            let tableFlags :=
              if isUser e then intermediateFlags flags ||| pteUser else intermediateFlags flags
            (some frame, st.setEntry table idx (setFrame frame tableFlags))
    | _, _ =>
        if isUser flags && !isUser e then
          (some (physAddr e),
            st.setEntry table idx (setFrame (physAddr e) (intermediateFlags flags)))
        else (some (physAddr e), st)
  else
    match st.allocTable with
    | none => (none, st)
    | some (frame, st) =>
        (some frame, st.setEntry table idx (setFrame frame (intermediateFlags flags)))

/-- The end of `map_4k_into` (`paging.rs:597-604`). -/
def mapLeaf (st : PhysState N) (table : Nat) (idx : Fin 512) (phys flags : Nat) :
    Bool × PhysState N :=
  if isPresent (st.mem.entry table idx) then (false, st)
  else (true, st.setEntry table idx (setFrame phys (flags ||| ptePresent)))

/-- `map_4k_into` (`paging.rs:452-605`). -/
def map4kInto (st : PhysState N) (root virt phys flags : Nat) : Bool × PhysState N :=
  match st.descend root (virtIndex virt .pml4) flags none with
  | (none, st) => (false, st)
  | (some pdpt, st) =>
      match st.descend pdpt (virtIndex virt .pdpt) flags (some split1gPdpte) with
      | (none, st) => (false, st)
      | (some pd, st) =>
          match st.descend pd (virtIndex virt .pd) flags
              (some (split2mPde (virtIndex virt .pt))) with
          | (none, st) => (false, st)
          | (some pt, st) => st.mapLeaf pt (virtIndex virt .pt) phys flags

end PhysState

end NexaCore.Memory
