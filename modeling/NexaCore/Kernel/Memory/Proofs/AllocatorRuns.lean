import NexaCore.Kernel.Memory.Proofs.Allocation
import NexaCore.Misc.Run

/-!
# Runs of the frame allocator

Every call changes a set of bits of the bitmap and keeps `free_frames` at the number of clear
bits. A frame that `alloc_frame` has returned is not returned again before a call releases it.
`frame_idx` takes every address below `base` for frame 0; the result is about the runs in which no
call changes the bit of a frame outside the range it names.
-/

namespace NexaCore.Memory.BitmapFrameAllocator

open Misc Function List Option Nat Bool

variable {N : Nat} {a a' : BitmapFrameAllocator N}

/-! ## Bits -/

theorem used_of_capacity_le {k : Nat} (beyond : capacity N ≤ k) : a.used k = true := by
  have outside : ¬k / framesPerWord < N :=
    not_lt.mpr ((le_div_iff_mul_le (by decide)).mpr beyond)
  rw [used, dif_neg outside]

variable {i : Nat}

theorem testBit_eq (below : i < capacity N) : a.testBit i below = a.used i := by
  have inRange : i / framesPerWord < N := word_lt below
  rw [used, dif_pos inRange]
  rfl

variable {value : Bool}

theorem used_setBit (below : i < capacity N) (stored : a'.bitmap = (a.setBit i below).bitmap) :
    a'.used = update a.used i true := by
  refine used_set ⟨_, word_lt below⟩ stored rfl fun b inWord => ?_
  by_cases same : b = i % framesPerWord
  · subst same
    simp [wordBit, inWord]
  · simp [wordBit, same, BitVec.getLsbD_twoPow, Ne.symm same]

theorem used_clearBit (below : i < capacity N) (stored : a'.bitmap = (a.clearBit i below).bitmap) :
    a'.used = update a.used i false := by
  refine used_set ⟨_, word_lt below⟩ stored rfl fun b inWord => ?_
  by_cases same : b = i % framesPerWord
  · subst same
    simp [wordBit]
  · simp [wordBit, same, inWord]

/-! ## What a call changes -/

/-- `free_frames` is the number of clear bits. -/
def Counted (a : BitmapFrameAllocator N) : Prop := a.freeFrames = clearCount a.used (capacity N)

/-- The frames of `is` that are frames of the allocator get the bit `value`; all other
bits are kept. -/
structure Rewrites (a a' : BitmapFrameAllocator N) (is : List Nat) (value : Bool) : Prop where
  base : a'.base = a.base
  listed : ∀ k, k < capacity N → k ∈ is → a'.used k = value
  kept : ∀ k, k ∉ is → a'.used k = a.used k
  counted : a.Counted → a'.Counted

theorem Rewrites.refl (a : BitmapFrameAllocator N) {is : List Nat}
    (already : ∀ k, k < capacity N → k ∈ is → a.used k = value) : a.Rewrites a is value :=
  ⟨rfl, already, fun _ _ => rfl, id⟩

/-- One more frame in front, whose bit is stored or has the value already. -/
theorem Rewrites.cons {m : BitmapFrameAllocator N} {i : Nat} {is : List Nat} {value : Bool}
    (rest : m.Rewrites a' is value) (fresh : i ∉ is) (base : m.base = a.base)
    (bits : m.used = update a.used i value) (counted : a.Counted → m.Counted) :
    a.Rewrites a' (i :: is) value := by
  refine ⟨rest.base.trans base, ?_, ?_, fun h => rest.counted (counted h)⟩
  · intro k below mem
    rcases mem_cons.mp mem with rfl | mem
    · rw [rest.kept k fresh, bits, update_self]
    · exact rest.listed k below mem
  · intro k other
    have apart : k ≠ i := fun same => other (same ▸ mem_cons_self)
    have absent : k ∉ is := fun mem => other (mem_cons_of_mem i mem)
    rw [rest.kept k absent, bits, update_of_ne apart]

theorem Counted.clear (counted : a.Counted) (below : i < capacity N) (used : a.used i = true)
    (bits : a'.used = update a.used i false) (count : a'.freeFrames = a.freeFrames + 1) :
    a'.Counted := by
  rw [Counted, bits, clearCount_clear below used, count, counted]

theorem Counted.set (counted : a.Counted) (below : i < capacity N) (clear : a.used i = false)
    (bits : a'.used = update a.used i true) (count : a'.freeFrames = a.freeFrames - 1) :
    a'.Counted := by
  have taken := clearCount_set below clear
  rw [Counted, bits, count, counted]
  omega

variable {first n : Nat}

/-- An ascending list of frames that starts beyond the capacity names no frame. -/
theorem Rewrites.beyond (past : ¬first < capacity N) : a.Rewrites a (range' first n) value := by
  apply Rewrites.refl
  intro k below mem
  have := (mem_range'_1.mp mem).1
  omega

theorem freeLoop_beyond (past : ¬first < capacity N) : a.freeLoop (range' first n) = some a := by
  cases n with
  | zero => rfl
  | succ n => rw [range'_succ, freeLoop, dif_neg past]

theorem useLoop_beyond (past : ¬first < capacity N) : a.useLoop (range' first n) = a := by
  cases n with
  | zero => rfl
  | succ n => rw [range'_succ, useLoop, dif_neg past]

theorem rewrites_freeLoop (freed : a.freeLoop (range' first n) = some a') :
    a.Rewrites a' (range' first n) false := by
  induction n generalizing first a with
  | zero =>
    cases freed
    exact Rewrites.refl _ (by simp)
  | succ n ih =>
    rw [range'_succ, freeLoop] at freed
    have fresh : first ∉ range' (first + 1) n := by simp
    split at freed
    · rename_i below
      rw [range'_succ]
      split at freed
      · rename_i set
        rw [testBit_eq below] at set
        obtain ⟨totalFrames, -, freed⟩ := bind_eq_some_iff.mp freed
        obtain ⟨freeFrames, sum, freed⟩ := bind_eq_some_iff.mp freed
        exact Rewrites.cons (ih freed) fresh rfl (used_clearBit below rfl) fun counted =>
          counted.clear below set (used_clearBit below rfl) (addU64_eq_some sum)
      · rename_i clear
        rw [testBit_eq below, not_eq_true] at clear
        exact Rewrites.cons (ih freed) fresh rfl (by rw [← clear, update_eq_self]) id
    · cases freed
      exact Rewrites.beyond ‹_›

theorem rewrites_useLoop (first n : Nat) :
    a.Rewrites (a.useLoop (range' first n)) (range' first n) true := by
  induction n generalizing first a with
  | zero => exact Rewrites.refl a (by simp)
  | succ n ih =>
    have fresh : first ∉ range' (first + 1) n := by simp
    by_cases below : first < capacity N
    · rw [range'_succ, useLoop, dif_pos below]
      split
      · rename_i set
        rw [testBit_eq below] at set
        exact Rewrites.cons (ih _) fresh rfl (by rw [← set, update_eq_self]) id
      · rename_i clear
        rw [testBit_eq below, not_eq_true] at clear
        exact Rewrites.cons (ih _) fresh rfl (used_setBit below rfl) fun counted =>
          counted.set below clear (used_setBit below rfl) rfl
    · rw [useLoop_beyond below]
      exact Rewrites.beyond below

variable {addr : Nat}

theorem allocFrame_eq_none : a.allocFrame = none ↔ ∀ i, i < capacity N → a.used i = true := by
  constructor
  · intro exhausted i below
    by_contra clear
    have mem : a.base / frameBytes + i ∈ a.free := ⟨i, by simpa using clear, rfl⟩
    rw [free_eq_empty exhausted] at mem
    exact mem
  · intro full
    cases allocated : a.allocFrame with
    | none => rfl
    | some result =>
      obtain ⟨addr, m⟩ := result
      obtain ⟨i, below, first, -⟩ := allocFrame_firstClear allocated
      have clear := first.clear
      rw [full i below] at clear
      cases clear

/-! ## Calls -/

/-- A call with the answer it gives. -/
inductive Event where
  | markRangeFree (start size : Nat)
  | markRangeUsed (start size : Nat)
  | allocFrame (answer : Option Nat)
  | freeFrame (addr : Nat) (answer : Bool)
  deriving DecidableEq, Repr

def step : Lts (BitmapFrameAllocator N) Event
  | a, .markRangeFree start size, a' => a.markRangeFree start size = some a'
  | a, .markRangeUsed start size, a' => a.markRangeUsed start size = a'
  | a, .allocFrame answer, a' => a.allocFrameU64 = some (answer, a')
  | a, .freeFrame addr answer, a' => a.freeFrame addr = some (answer, a')

/-- The frames whose bits the call may change. -/
def frames (a : BitmapFrameAllocator N) : Event → List Nat
  | .markRangeFree start size =>
      frameRange (a.frameIdx (start / frameBytes * frameBytes)) (size / frameBytes)
  | .markRangeUsed start size =>
      frameRange (a.frameIdx (start / frameBytes * frameBytes))
        ((size + (frameBytes - 1)) / frameBytes)
  | .allocFrame answer => (answer.map fun addr => (addr - a.base) / frameBytes).toList
  | .freeFrame addr answer => if answer then [a.frameIdx addr] else []

/-- The bit that the call gives them. -/
def Event.bit : Event → Bool
  | .markRangeFree _ _ => false
  | .markRangeUsed _ _ => true
  | .allocFrame _ => true
  | .freeFrame _ _ => false

variable {answer : Option Nat}

theorem allocFrame_cases (taken : a.allocFrameU64 = some (answer, a')) :
    (answer = none ∧ a' = a ∧ ∀ i, i < capacity N → a.used i = true) ∨
    ∃ i, i < capacity N ∧ FirstClear a.used i ∧ answer = some (a.base + i * frameBytes) ∧
      a'.base = a.base ∧ a'.used = update a.used i true ∧
      a'.freeFrames = a.freeFrames - 1 := by
  unfold allocFrameU64 at taken
  split at taken
  · rename_i exhausted
    cases taken
    exact .inl ⟨rfl, rfl, allocFrame_eq_none.mp exhausted⟩
  · rename_i addr m allocated
    split at taken
    · cases taken
      obtain ⟨i, below, first, rfl, rest⟩ := allocFrame_firstClear allocated
      exact .inr ⟨i, below, first, rfl, rest⟩
    · cases taken

theorem frames_allocFrame (a : BitmapFrameAllocator N) (i : Nat) :
    a.frames (.allocFrame (some (a.base + i * frameBytes))) = [i] := by
  simp only [frames, map_some, toList_some]
  rw [Nat.add_sub_cancel_left, Nat.mul_div_cancel _ (by decide)]

theorem rewrites_allocFrame (taken : a.allocFrameU64 = some (answer, a')) :
    a.Rewrites a' (a.frames (.allocFrame answer)) true := by
  rcases allocFrame_cases taken with ⟨rfl, rfl, -⟩ | ⟨i, below, first, rfl, base, bits, count⟩
  · exact Rewrites.refl _ (by simp [frames])
  · rw [frames_allocFrame]
    refine Rewrites.cons (Rewrites.refl _ ?_) not_mem_nil base bits fun counted =>
      counted.set below first.clear bits count
    simp

theorem freeFrame_cases {answer : Bool} (freed : a.freeFrame addr = some (answer, a')) :
    (answer = false ∧ a' = a) ∨
    (answer = true ∧ addr % frameBytes = 0 ∧ ∃ below : a.frameIdx addr < capacity N,
      a.used (a.frameIdx addr) = true ∧
      a' = { a.clearBit (a.frameIdx addr) below with freeFrames := a.freeFrames + 1 }) := by
  unfold freeFrame at freed
  split at freed
  · cases freed
    exact .inl ⟨rfl, rfl⟩
  · rename_i aligned
    simp only at freed
    split at freed
    · rename_i below
      split at freed
      · rename_i set
        obtain ⟨freeFrames, sum, returned⟩ := bind_eq_some_iff.mp freed
        cases returned
        rw [addU64_eq_some sum]
        exact .inr ⟨rfl, not_not.mp aligned, below, testBit_eq below ▸ set, rfl⟩
      · cases freed
        exact .inl ⟨rfl, rfl⟩
    · cases freed
      exact .inl ⟨rfl, rfl⟩

theorem rewrites_freeFrame {answer : Bool} (freed : a.freeFrame addr = some (answer, a')) :
    a.Rewrites a' (a.frames (.freeFrame addr answer)) false := by
  rcases freeFrame_cases freed with ⟨rfl, rfl⟩ | ⟨rfl, -, below, set, rfl⟩
  · exact Rewrites.refl _ (by simp [frames])
  · refine Rewrites.cons (Rewrites.refl _ ?_) not_mem_nil rfl (used_clearBit below rfl)
      fun counted => counted.clear below set (used_clearBit below rfl) rfl
    simp

variable {e : Event}

theorem rewrites_step (taken : step a e a') : a.Rewrites a' (a.frames e) e.bit := by
  cases e with
  | markRangeFree start size => exact rewrites_freeLoop taken
  | markRangeUsed start size =>
    cases taken
    exact rewrites_useLoop _ _
  | allocFrame answer => exact rewrites_allocFrame taken
  | freeFrame addr answer => exact rewrites_freeFrame taken

theorem mem_frames_of_ne (taken : step a e a') (changed : a'.used i ≠ a.used i) :
    i < capacity N ∧ i ∈ a.frames e ∧ a'.used i = e.bit := by
  have effect := rewrites_step taken
  have listed : i ∈ a.frames e := by
    by_contra other
    exact changed (effect.kept i other)
  have below : i < capacity N := by
    by_contra beyond
    rw [used_of_capacity_le (not_lt.mp beyond), used_of_capacity_le (not_lt.mp beyond)] at changed
    exact changed rfl
  exact ⟨below, listed, effect.listed i below listed⟩

/-- The frame `i` meets the `len` bytes from the address `start`. -/
def Meets (a : BitmapFrameAllocator N) (i start len : Nat) : Prop :=
  a.base + i * frameBytes < start + len ∧ start < a.base + i * frameBytes + frameBytes

/-- The call names every frame whose bit it changes. -/
def NamesFrames (a : BitmapFrameAllocator N) : Event → Prop
  | .markRangeFree start size =>
      let aligned := start / frameBytes * frameBytes
      let count := size / frameBytes
      ∀ i ∈ frameRange (a.frameIdx aligned) count, i < capacity N → a.used i = true →
        a.Meets i aligned (count * frameBytes)
  | .markRangeUsed start size =>
      let aligned := start / frameBytes * frameBytes
      let count := (size + (frameBytes - 1)) / frameBytes
      ∀ i ∈ frameRange (a.frameIdx aligned) count, i < capacity N → a.used i = false →
        a.Meets i aligned (count * frameBytes)
  | .freeFrame addr _ =>
      addr % frameBytes = 0 → a.frameIdx addr < capacity N → a.used (a.frameIdx addr) = true →
        a.Meets (a.frameIdx addr) addr 1
  | .allocFrame _ => True

/-- The call releases the frame at `frame`. -/
def Event.Releases (frame : Nat) : Event → Prop
  | .markRangeFree start size =>
      frame < start / frameBytes * frameBytes + size / frameBytes * frameBytes ∧
        start / frameBytes * frameBytes < frame + frameBytes
  | .freeFrame addr answer => answer = true ∧ frame ≤ addr ∧ addr < frame + frameBytes
  | _ => False

/-- The call takes the frame at `frame` into use. -/
def Event.Takes (frame : Nat) : Event → Prop
  | .markRangeUsed start size =>
      frame < start / frameBytes * frameBytes +
          (size + (frameBytes - 1)) / frameBytes * frameBytes ∧
        start / frameBytes * frameBytes < frame + frameBytes
  | .allocFrame answer => answer = some frame
  | _ => False

theorem releases_of_lost (taken : step.restrict NamesFrames a e a') (before : a.used i = true)
    (after : a'.used i = false) :
    e.Releases (a.base + i * frameBytes) := by
  obtain ⟨names, taken⟩ := taken
  obtain ⟨below, listed, bit⟩ := mem_frames_of_ne taken (by rw [before, after]; decide)
  rw [after] at bit
  cases e with
  | markRangeFree start size => exact names i listed below before
  | markRangeUsed | allocFrame => cases bit
  | freeFrame addr answer =>
    rcases freeFrame_cases taken with ⟨rfl, -⟩ | ⟨rfl, aligned, inRange, set, -⟩
    · simp [frames] at listed
    · have index : i = a.frameIdx addr := by simpa [frames] using listed
      subst index
      obtain ⟨lower, upper⟩ := names aligned inRange set
      exact ⟨rfl, le_of_lt_succ lower, upper⟩

theorem takes_of_gained (taken : step.restrict NamesFrames a e a') (before : a.used i = false)
    (after : a'.used i = true) : e.Takes (a.base + i * frameBytes) := by
  obtain ⟨names, taken⟩ := taken
  obtain ⟨below, listed, bit⟩ := mem_frames_of_ne taken (by rw [before, after]; decide)
  rw [after] at bit
  cases e with
  | markRangeFree start size => cases bit
  | markRangeUsed start size => exact names i listed below before
  | allocFrame answer =>
    rcases allocFrame_cases taken with ⟨rfl, -⟩ | ⟨k, -, -, rfl, -⟩
    · simp [frames] at listed
    · rw [frames_allocFrame, mem_singleton] at listed
      rw [listed]
      rfl
  | freeFrame addr answer => cases bit

/-! ## Runs -/

/-- `alloc_frame` returns nothing if no bit is clear, and else the lowest free frame,
whose bit is the only one that changes. -/
def AllocatesLowest (a : BitmapFrameAllocator N) : Prop :=
  ((∃ a', a.allocFrameU64 = some (none, a')) ↔ ∀ i, i < capacity N → a.used i = true) ∧
  ∀ i, i < capacity N → FirstClear a.used i →
    ∃ a', a.allocFrameU64 = some (some (a.base + i * frameBytes), a') ∧
      a'.used = update a.used i true

/-- The address of the lowest free frame is a `u64`. -/
def LowestFits (a : BitmapFrameAllocator N) : Prop :=
  ∀ i, i < capacity N → FirstClear a.used i → a.base + i * frameBytes < 2 ^ 64

theorem allocatesLowest_iff (a : BitmapFrameAllocator N) : a.AllocatesLowest ↔ a.LowestFits := by
  constructor
  · rintro ⟨-, lowest⟩ i below first
    obtain ⟨a', allocated, -⟩ := lowest i below first
    unfold allocFrameU64 at allocated
    split at allocated
    · cases allocated
    · split at allocated
      · cases allocated
        assumption
      · cases allocated
  · intro fits
    refine ⟨⟨?_, fun full => ⟨a, ?_⟩⟩, fun i below first => ?_⟩
    · rintro ⟨a', exhausted⟩
      rcases allocFrame_cases exhausted with ⟨-, -, full⟩ | ⟨i, -, -, impossible, -⟩
      · exact full
      · cases impossible
    · rw [allocFrameU64, allocFrame_eq_none.mpr full]
    · cases allocated : a.allocFrame with
      | none =>
        have set := allocFrame_eq_none.mp allocated i below
        rw [first.clear] at set
        cases set
      | some result =>
        obtain ⟨addr, a'⟩ := result
        obtain ⟨j, -, second, rfl, -, bits, -⟩ := allocFrame_firstClear allocated
        obtain rfl := first.unique second
        refine ⟨a', ?_, bits⟩
        rw [allocFrameU64, allocated]
        exact if_pos (fits i below first)

theorem counted_new (base : Nat) : (new base : BitmapFrameAllocator N).Counted := by
  have full : ∀ i, i < capacity N → (new base : BitmapFrameAllocator N).used i = true := by
    intro i below
    have inRange : i / framesPerWord < N := word_lt below
    have place : i % framesPerWord < 64 := mod_lt _ (by decide)
    rw [used, dif_pos inRange]
    simp only [new, Vector.getElem_replicate]
    rw [BitVec.getLsbD_allOnes, decide_eq_true place]
  exact (clearCount_eq_zero.mpr full).symm

theorem base_of_run {events : List Event} (run : Run (step.restrict NamesFrames) a events a') :
    a'.base = a.base :=
  run.invariant (fun m => m.base = a.base)
    (fun _ _ _ same taken => (rewrites_step taken.2).base.trans same) rfl

variable {mid : List Event} {m m' : BitmapFrameAllocator N}

/-- A bit that differs between two states of a run changes in one of its calls. -/
theorem exists_change {value : Bool} (run : Run (step.restrict NamesFrames) m mid m')
    (first : m.used i = value) (last : m'.used i ≠ value) :
    ∃ e ∈ mid, ∃ before after : BitmapFrameAllocator N,
      step.restrict NamesFrames before e after ∧ before.base = m.base ∧
      before.used i = value ∧ after.used i = !value := by
  obtain ⟨e, mem, before, after, taken, held, gone⟩ :=
    run.exists_lost (fun s => s.base = m.base → s.used i = value) (fun _ => first)
      (by simp [base_of_run run, last])
  obtain ⟨located, change⟩ := Classical.not_imp.mp gone
  have kept : before.base = m.base := (rewrites_step taken.2).base ▸ located
  exact ⟨e, mem, before, after, taken, kept, held kept, eq_not.mpr change⟩

theorem released_between {frame : Nat} (first : step a (.allocFrame (some frame)) m)
    (run : Run (step.restrict NamesFrames) m mid m')
    (second : step m' (.allocFrame (some frame)) a') : ∃ e ∈ mid, e.Releases frame := by
  rcases allocFrame_cases first with ⟨impossible, -⟩ | ⟨i, -, -, address, base, bits, -⟩
  · cases impossible
  rcases allocFrame_cases second with ⟨impossible, -⟩ | ⟨j, -, free, same, -⟩
  · cases impossible
  cases address
  have index : j = i := by
    rw [some_inj, base_of_run run, base, add_left_cancel_iff] at same
    exact (eq_of_mul_eq_mul_right (by decide) same).symm
  subst index
  have set : m.used j = true := by rw [bits, update_self]
  obtain ⟨e, mem, before, after, taken, kept, held, clear⟩ :=
    exists_change run set (by simp [free.clear])
  refine ⟨e, mem, ?_⟩
  rw [← base, ← kept]
  exact releases_of_lost taken held clear

/-! ## Frees and allocations -/

instance (frame : Nat) (e : Event) : Decidable (e.Takes frame) :=
  match e with
  | .markRangeUsed _ _ => inferInstanceAs (Decidable (_ ∧ _))
  | .allocFrame _ => inferInstanceAs (Decidable (_ = _))
  | .markRangeFree _ _ | .freeFrame _ _ => inferInstanceAs (Decidable False)

/-- The call gives the frame at `frame` back through `free_frame`. -/
def Event.frees (frame : Nat) : Event → Bool
  | .freeFrame addr answer => answer && frame ≤ addr && addr < frame + frameBytes
  | _ => false

/-- The last call that took the frame at `frame` into use is an `alloc_frame`. -/
def AllocatedLast (frame : Nat) (history : List Event) : Prop :=
  history.reverse.find? (·.Takes frame) = some (.allocFrame (some frame))

/-- `free_frame` gives the frame at `frame` back only where `alloc_frame` took it into use, not
`mark_range_used` and not the fresh allocator. -/
def FreesAllocated (frame : Nat) (events : List Event) : Prop :=
  ∀ k < events.length, ∀ e ∈ events[k]?, e.frees frame = true →
    AllocatedLast frame (events.take k)

theorem FreesAllocated.concat {frame : Nat} {events : List Event}
    (freed : FreesAllocated frame (events ++ [e])) :
    FreesAllocated frame events ∧ (e.frees frame = true → AllocatedLast frame events) := by
  constructor
  · intro k inside e' found frees
    have last := freed k (by simp; omega) e' (by rwa [getElem?_append_left inside]) frees
    rwa [take_append_of_le_length inside.le] at last
  · intro frees
    simpa using freed events.length (by simp) e (by simp) frees

variable {frame : Nat}

/-- A frame that `free_frame` gives back was in use and is free now. -/
theorem used_of_frees (taken : step.restrict NamesFrames a e a')
    (address : a.base + i * frameBytes = frame) (frees : e.frees frame = true) :
    a.used i = true ∧ a'.used i = false := by
  cases e with
  | markRangeFree | markRangeUsed | allocFrame => cases frees
  | freeFrame addr answer =>
    obtain ⟨⟨rfl, lower⟩, upper⟩ : (answer = true ∧ frame ≤ addr) ∧ addr < frame + frameBytes := by
      simpa [Event.frees] using frees
    rcases freeFrame_cases taken.2 with ⟨impossible, -⟩ | ⟨-, aligned, below, used, rfl⟩
    · cases impossible
    have index : i = a.frameIdx addr := by
      obtain ⟨first, last⟩ := taken.1 aligned below used
      simp only [frameBytes] at address first last upper
      omega
    subst index
    exact ⟨used, (congrFun (used_clearBit below rfl) _).trans (update_self _ _ _)⟩

/-- A frame has been freed at most as often as allocated, and less often while an allocation of
it is in use. -/
theorem frees_le_allocations {base : Nat} {events : List Event}
    (run : Run (step.restrict NamesFrames) (new base) events a)
    (address : base + i * frameBytes = frame) (freed : FreesAllocated frame events) :
    events.countP (·.frees frame) ≤ events.count (.allocFrame (some frame)) ∧
      (a.used i = true → AllocatedLast frame events →
        events.countP (·.frees frame) < events.count (.allocFrame (some frame))) := by
  generalize start : (new base : BitmapFrameAllocator N) = fresh at run
  induction run with
  | nil => exact ⟨le_rfl, fun _ last => by cases last⟩
  | @snoc m a' events e earlier taken ih =>
    have located : m.base + i * frameBytes = frame := by
      rw [base_of_run earlier, ← start]
      exact address
    obtain ⟨before, freed⟩ := freed.concat
    obtain ⟨fewer, held⟩ := ih before
    rw [countP_append, countP_singleton, count_append, count_singleton]
    by_cases allocates : e = .allocFrame (some frame)
    · have kept : e.frees frame = false := by rw [allocates]; rfl
      rw [if_neg (by simp [kept]), if_pos (by simpa using allocates)]
      exact ⟨by omega, fun _ _ => by omega⟩
    have others : (e == .allocFrame (some frame)) = false := by simpa using allocates
    by_cases frees : e.frees frame = true
    · obtain ⟨used, clear⟩ := used_of_frees taken located frees
      have fewer := held used (freed frees)
      rw [if_pos frees, others, clear]
      exact ⟨fewer, fun impossible => by cases impossible⟩
    · rw [if_neg frees, others]
      refine ⟨fewer, fun used last => ?_⟩
      have untaken : ¬e.Takes frame := by
        intro takes
        rw [AllocatedLast, reverse_concat', find?_cons_of_pos (by simpa using takes)] at last
        exact allocates (some_inj.mp last)
      rw [AllocatedLast, reverse_concat', find?_cons_of_neg (by simpa using untaken)] at last
      have already : m.used i = true := by
        by_contra clear
        exact untaken (located ▸ takes_of_gained taken (by simpa using clear) used)
      exact held already last

/-- In every run from a fresh allocator whose calls name the frames they change: `free_frames`
counts the clear bits, `alloc_frame` returns the lowest free frame exactly if its address is below
`2 ^ 64`, a frame is released between two allocations, and `free_frame` gives it back at most once
per allocation, where it only gives back what `alloc_frame` took. -/
theorem frame_allocator_sound (N base : Nat) (events : List Event) (a : BitmapFrameAllocator N)
    (run : Run (step.restrict NamesFrames) (new base) events a) :
    a.Counted ∧ (a.AllocatesLowest ↔ a.LowestFits) ∧
    (∀ pre mid post frame,
      events = pre ++ .allocFrame (some frame) :: (mid ++ .allocFrame (some frame) :: post) →
      ∃ e ∈ mid, e.Releases frame) ∧
    (∀ i, FreesAllocated (base + i * frameBytes) events →
      events.countP (·.frees (base + i * frameBytes)) ≤
        events.count (.allocFrame (some (base + i * frameBytes)))) := by
  have counted : a.Counted :=
    run.invariant Counted (fun _ _ _ held taken => (rewrites_step taken.2).counted held)
      (counted_new base)
  refine ⟨counted, allocatesLowest_iff a, ?_, fun i freed => (frees_le_allocations run rfl freed).1⟩
  rintro pre mid post frame rfl
  obtain ⟨_, -, rest⟩ := run.split
  obtain ⟨m, first, rest⟩ := rest.uncons
  obtain ⟨m', between, rest⟩ := rest.split
  obtain ⟨_, second, -⟩ := rest.uncons
  exact released_between first.2 between second.2

/-- The call executed, if its answer is the one given. -/
def next (a : BitmapFrameAllocator N) : Event → Option (BitmapFrameAllocator N)
  | .markRangeFree start size => a.markRangeFree start size
  | .markRangeUsed start size => some (a.markRangeUsed start size)
  | .allocFrame answer =>
      a.allocFrameU64.bind fun (given, a') => if given = answer then some a' else none
  | .freeFrame addr answer =>
      (a.freeFrame addr).bind fun (given, a') => if given = answer then some a' else none

theorem step_of_next (a : BitmapFrameAllocator N) (e : Event) (a' : BitmapFrameAllocator N)
    (executed : a.next e = some a') : step a e a' := by
  cases e with
  | markRangeFree start size => exact executed
  | markRangeUsed start size => exact some_inj.mp executed
  | allocFrame answer | freeFrame addr answer =>
    obtain ⟨⟨given, m⟩, returned, kept⟩ := bind_eq_some_iff.mp executed
    obtain ⟨rfl, rfl⟩ : given = answer ∧ m = a' := by simpa using kept
    exact returned

instance (a : BitmapFrameAllocator N) (i start len : Nat) : Decidable (a.Meets i start len) :=
  inferInstanceAs (Decidable (_ ∧ _))

instance (a : BitmapFrameAllocator N) (e : Event) : Decidable (a.NamesFrames e) :=
  match e with
  | .markRangeFree _ _ => inferInstanceAs (Decidable (∀ i ∈ _, _ → _ → _))
  | .markRangeUsed _ _ => inferInstanceAs (Decidable (∀ i ∈ _, _ → _ → _))
  | .freeFrame _ _ => inferInstanceAs (Decidable (_ → _ → _ → _))
  | .allocFrame _ => inferInstanceAs (Decidable True)

/-- The calls of a run that frees what it allocated, and tries to free it twice. -/
def reuse : List Event :=
  [.markRangeFree 0x100000 0x2000, .allocFrame (some 0x100000), .freeFrame 0x100000 true,
    .freeFrame 0x100000 false, .allocFrame (some 0x100000)]

theorem frame_allocator_sound_reuse :
    ∃ a : BitmapFrameAllocator 1, Run (step.restrict NamesFrames) (new 0x100000) reuse a ∧
      a.Counted ∧
      (∃ e ∈ [Event.freeFrame 0x100000 true, .freeFrame 0x100000 false], e.Releases 0x100000) ∧
      FreesAllocated 0x100000 reuse ∧ reuse.countP (·.frees 0x100000) = 1 ∧
      reuse.countP (·.frees 0x100000) ≤ reuse.count (.allocFrame (some 0x100000)) := by
  have run : Run (step.restrict NamesFrames) (new 0x100000 : BitmapFrameAllocator 1) reuse _ :=
    Run.of_foldlM (fun a e a' taken => (restrict_of_guarded taken).imp id (step_of_next a e a'))
      (rfl : reuse.foldlM (guarded next NamesFrames) (new 0x100000) = some _)
  have freed : FreesAllocated 0x100000 reuse := by unfold FreesAllocated AllocatedLast; decide
  obtain ⟨counted, -, released, once⟩ := frame_allocator_sound 1 0x100000 reuse _ run
  exact ⟨_, run, counted, released [.markRangeFree 0x100000 0x2000] _ [] 0x100000 rfl,
    freed, rfl, once 0 freed⟩

/-- `free_frame(0)` below the base `0x100000` releases the frame at the base, which is then
allocated a second time. -/
def belowBase : List Event :=
  [.markRangeFree 0x100000 0x1000, .allocFrame (some 0x100000), .freeFrame 0 true,
    .allocFrame (some 0x100000)]

/-- A second frame at the end of the address space, whose address `alloc_frame` cannot
return. -/
def addressEnd : List Event :=
  [.markRangeFree 0xfffffffffffff000 0x2000, .allocFrame (some 0xfffffffffffff000)]

theorem frame_allocated_twice :
    (∃ a : BitmapFrameAllocator 1, Run step (new 0x100000) belowBase a ∧
      ¬∃ e ∈ [Event.freeFrame 0 true], e.Releases 0x100000) ∧
    (∃ a : BitmapFrameAllocator 1, Run step (new 0xfffffffffffff000) addressEnd a ∧
      a.used 1 = false ∧ a.allocFrameU64 = none) ∧
    ∃ a : BitmapFrameAllocator 1, Run step (new 0x100000) [.freeFrame 0x100000 true] a := by
  refine ⟨?_, ?_, ?_⟩
  · refine ⟨_, Run.of_foldlM step_of_next (rfl : belowBase.foldlM next (new 0x100000) = some _), ?_⟩
    rintro ⟨e, mem, releases⟩
    obtain rfl := mem_singleton.mp mem
    exact absurd releases.2.1 (by decide)
  · exact ⟨_, Run.of_foldlM step_of_next
      (rfl : addressEnd.foldlM next (new 0xfffffffffffff000) = some _), rfl,
      isNone_iff_eq_none.mp (by decide +kernel)⟩
  · exact ⟨_, Run.single (step_of_next _ (.freeFrame 0x100000 true) _ rfl)⟩

end NexaCore.Memory.BitmapFrameAllocator
