import NexaCore.Misc.Checked
import NexaCore.Misc.Run

/-!
# The slab heap

Embedding of `SlabHeap` (`nexacore-kernel/src/bare_metal/heap.rs`): nine lists of free blocks by
size class, a list of free runs of pages, and a cursor for fresh blocks. The lists are intrusive,
so the heap holds the words of the arena by address; it uses those at the start of a block and
eight bytes further, which never overlap. Interrupts are masked, so a compare-exchange loop is a
load and a store. The null pointer is the address 0.
-/

namespace NexaCore.Heap

open Misc Function

/-- `UNINIT` and `NULL_LINK` (`heap.rs:62`, `462`). -/
def uninit : Nat := 0

def nullLink : Nat := 0

/-- `ptr::null_mut()`. -/
def null : Nat := 0

/-- `SIZE_CLASSES` (`heap.rs:423`). -/
def sizeClasses : List Nat := [16, 32, 64, 128, 256, 512, 1024, 2048, 4096]

/-- `NUM_SIZE_CLASSES` (`heap.rs:426`). -/
def numSizeClasses : Nat := sizeClasses.length

/-- `MAX_SMALL_BYTES` (`heap.rs:432`). -/
def maxSmallBytes : Nat := 4096

/-- `PAGE_BYTES` (`heap.rs:439`). -/
def pageBytes : Nat := 4096

/-- `LARGE_RUN_MIN` (`heap.rs:448`). -/
def largeRunMin : Nat := 2 * pageBytes

/-- `core::alloc::Layout`: the alignment is a power of two, and the size rounded up to it
does not exceed `isize::MAX`. -/
structure Layout where
  size : Nat
  align : Nat
  isPowerOfTwo : ∃ k, align = 2 ^ k
  fits : size + (align - 1) < 2 ^ 63
  deriving DecidableEq

/-- `checked_add` on `usize`. -/
def checkedAdd (a b : Nat) : Option Nat := if a + b < 2 ^ 64 then some (a + b) else none

/-- `!(align - 1)`. -/
def alignMask (align : Nat) : Nat := 2 ^ 64 - 1 - (align - 1)

/-- `align_up` (`heap.rs:195-201`). -/
def alignUp (addr align : Nat) : Nat := (addr + (align - 1)) % 2 ^ 64 &&& alignMask align

/-- `page_round_up` (`heap.rs:454-457`). -/
def pageRoundUp (size : Nat) : Option Nat :=
  (checkedAdd size (pageBytes - 1)).map (· &&& alignMask pageBytes)

/-- `size_class_index` (`heap.rs:483-499`). -/
def sizeClassIndex (size align : Nat) : Option Nat :=
  let need := if size > align then size else align
  if need > maxSmallBytes then none else sizeClasses.findIdx? (need ≤ ·)

/-- `size_class_bytes` (`heap.rs:507-509`). -/
def sizeClassBytes (idx : Nat) : Option Nat := sizeClasses[idx]?

/-- `SlabHeap` (`heap.rs:519-536`) with the words of the memory. -/
structure SlabHeap where
  base : Nat
  next : Nat
  endAddr : Nat
  freeLists : Vector Nat numSizeClasses
  largeFree : Nat
  words : Nat → Nat

namespace SlabHeap

/-- A heap after `new` and `init` (`heap.rs:545-609`). -/
def init (base len : Nat) (words : Nat → Nat) : Checked SlabHeap :=
  match checkedAdd base len with
  | none => none
  | some endAddr =>
      some
        { base, next := base, endAddr, words, largeFree := nullLink
          freeLists := Vector.replicate numSizeClasses nullLink }

/-- `push_free` (`heap.rs:670-695`). -/
def pushFree (h : SlabHeap) (idx block : Nat) : SlabHeap :=
  match h.freeLists[idx]? with
  | none => h
  | some current =>
      { h with
        words := update h.words block current
        freeLists := h.freeLists.setIfInBounds idx block }

/-- `pop_free` (`heap.rs:724-747`). -/
def popFree (h : SlabHeap) (idx : Nat) : Option (Nat × SlabHeap) :=
  match h.freeLists[idx]? with
  | none => none
  | some current =>
      if current = nullLink then none
      else some (current, { h with freeLists := h.freeLists.setIfInBounds idx (h.words current) })

/-- `carve` (`heap.rs:757-779`). -/
def carve (h : SlabHeap) (size align : Nat) : Option (Nat × SlabHeap) :=
  if h.endAddr = uninit then none
  else
    let aligned := alignUp h.next align
    match checkedAdd aligned size with
    | none => none
    | some newNext =>
        if newNext > h.endAddr then none else some (aligned, { h with next := newNext })

/-- The loop that threads the blocks of a slab after the first (`heap.rs:808-819`). -/
def threadBlocks (h : SlabHeap) (idx cls run blocks : Nat) : SlabHeap :=
  (List.range' 1 (blocks - 1)).foldl (fun h k => h.pushFree idx (run + k * cls)) h

/-- One turn of the loop of `refill_class` (`heap.rs:805-825`). -/
def refillWith (h : SlabHeap) (idx cls blocks : Nat) : Option (Nat × SlabHeap) :=
  match h.carve (cls * blocks) cls with
  | none => none
  | some (run, h) => some (run, h.threadBlocks idx cls run blocks)

/-- `refill_class` (`heap.rs:796-827`). -/
def refillClass (h : SlabHeap) (idx : Nat) : Nat × SlabHeap :=
  match sizeClassBytes idx with
  | none => (null, h)
  | some cls =>
      let n := pageBytes / cls
      let want := if n = 0 then 1 else n
      match h.refillWith idx cls want with
      | some refilled => refilled
      | none =>
          if want = 1 then (null, h)
          else (h.refillWith idx cls 1).getD (null, h)

/-- `push_large_run` (`heap.rs:922-944`). -/
def pushLargeRun (h : SlabHeap) (addr size : Nat) : SlabHeap :=
  { h with
    words := update (update h.words addr h.largeFree) (addr + 8) size
    largeFree := addr }

/-- What the search for a run stops at: the predecessor's link slot, which is null for the
head, the run, its link and its size. -/
structure FoundRun where
  prevSlot : Nat
  cur : Nat
  curNext : Nat
  curSize : Nat
  deriving DecidableEq, Repr

/-- The search of `take_large_run` (`heap.rs:960-971`, `992-996`), with a bound on its turns;
`some none` is the end of the list. -/
def findRun (words : Nat → Nat) (need : Nat) : Nat → Nat → Nat → Checked (Option FoundRun)
  | 0, _, _ => none
  | turns + 1, prevSlot, cur =>
      if cur = nullLink then some none
      else
        let curNext := words cur
        let curSize := words (cur + 8)
        if curSize ≥ need then some (some ⟨prevSlot, cur, curNext, curSize⟩)
        else findRun words need turns cur curNext

/-- `take_large_run` (`heap.rs:960-997`). A list has fewer runs than the arena has bytes. -/
def takeLargeRun (h : SlabHeap) (need : Nat) : Checked (Nat × SlabHeap) := do
  match ← findRun h.words need (h.endAddr + 1) null h.largeFree with
  | none => return (null, h)
  | some found =>
      let h :=
        if found.prevSlot = null then { h with largeFree := found.curNext }
        else { h with words := update h.words found.prevSlot found.curNext }
      let remainder := found.curSize - need
      if remainder ≥ largeRunMin then
        let rest ← addU64 found.cur need
        return (found.cur, h.pushLargeRun rest remainder)
      else if remainder = pageBytes then
        let rest ← addU64 found.cur need
        return (found.cur, h.pushFree 8 rest)
      else return (found.cur, h)

/-- `allocate` (`heap.rs:847-877`). -/
def allocate (h : SlabHeap) (layout : Layout) : Checked (Nat × SlabHeap) :=
  if h.endAddr = uninit then some (null, h)
  else
    match sizeClassIndex layout.size layout.align with
    | some idx => some ((h.popFree idx).getD (h.refillClass idx))
    | none =>
        if layout.align > pageBytes then some (null, h)
        else
          match pageRoundUp layout.size with
          | none => some (null, h)
          | some runBytes => do
              let (reused, h) ← h.takeLargeRun runBytes
              if reused ≠ null then return (reused, h)
              else return (h.carve runBytes pageBytes).getD (null, h)

/-- `free` (`heap.rs:896-913`). -/
def free (h : SlabHeap) (ptr : Nat) (layout : Layout) : SlabHeap :=
  if ptr = null then h
  else
    match sizeClassIndex layout.size layout.align with
    | some idx => h.pushFree idx ptr
    | none =>
        if layout.align ≤ pageBytes then
          match pageRoundUp layout.size with
          | none => h
          | some runBytes => h.pushLargeRun ptr runBytes
        else h

end SlabHeap

/-! ## The heap and its users -/

/-- The heap with the live blocks: the pointers handed out and not yet freed, with the
layouts they were requested with. -/
structure System where
  heap : SlabHeap
  live : List (Nat × Layout)

/-- What can happen to a heap: calls of its users, who free live pointers with their own
layouts, and stores of the users to the bytes of live blocks. A store of a byte gives new
values to the eight words that contain it. -/
inductive Action where
  | allocate (layout : Layout)
  | free (ptr : Nat) (layout : Layout)
  | write (address : Nat) (values : Nat → Nat)

namespace System

/-- A fresh heap over the `len` bytes from `base` on. -/
def init (base len : Nat) (words : Nat → Nat) : Checked System :=
  (SlabHeap.init base len words).map (⟨·, []⟩)

def next (s : System) : Action → Option System
  | .allocate layout =>
      (s.heap.allocate layout).map fun result =>
        ⟨result.2, if result.1 = null then s.live else (result.1, layout) :: s.live⟩
  | .free ptr layout =>
      if (ptr, layout) ∈ s.live then
        some ⟨s.heap.free ptr layout, s.live.erase (ptr, layout)⟩
      else none
  | .write address values =>
      if ∃ e ∈ s.live, e.1 ≤ address ∧ address < e.1 + e.2.size then
        some { s with
          heap := { s.heap with
            words := fun word =>
              if word ≤ address ∧ address < word + 8 then values word else s.heap.words word } }
      else none

def step : Lts System Action := .ofPartial next

end System

end NexaCore.Heap
