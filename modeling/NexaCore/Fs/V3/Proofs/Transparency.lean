import NexaCore.Fs.V3.Proofs.Cache

/-!
# Buffered writes are not lost

Runs of calls on a block cache over a device whose writes may fail. A failed eviction takes
its victim out of the cache and loses it; in every run in which the device takes the victims,
whatever else fails, a read returns the latest write.
-/

namespace NexaCore.Fs.V3

open Misc Std BlockDevice Nat List

inductive Call where
  | read (index : Nat)
  | write (index : Nat) (data : Block)
  | writeback
  | sync
  | commit (sb : SuperblockV3)

/-- A call with what it returned; a read also returns a block. -/
abbrev Event := Call × Except V3Error (Option Block)

namespace BlockCache

section Calls

variable {D : Type} [BlockDevice D] (keyedHash : MacKey → List UInt8 → Hash) (key : MacKey)

def perform (c : BlockCache D) : Call → Except V3Error (Option Block) × BlockCache D
  | .read index => ((c.read index).1.map some, (c.read index).2)
  | .write index data => ((c.write index data).1.map fun _ => none, (c.write index data).2)
  | .writeback => (c.writeback.1.map fun _ => none, c.writeback.2)
  | .sync => (c.sync.1.map fun _ => none, c.sync.2)
  | .commit sb =>
      ((c.commitSuperblock keyedHash sb key).1.map fun _ => none,
        (c.commitSuperblock keyedHash sb key).2)

def step : Lts (BlockCache D) Event := fun c event c' =>
  c.perform keyedHash key event.1 = (event.2, c')

/-- The device takes the block that the call has to evict. -/
def Accepted (c : BlockCache D) : Call → Prop
  | .read index =>
      (∃ data, BlockDevice.readBlock c.dev index = .ok data) → c.EvictionAccepted index
  | .write index _ => index < BlockDevice.blockCount c.dev → c.EvictionAccepted index
  | _ => True

end Calls

/-- What a read of the block `i` may return after one more event. -/
def allowedAfter (i : Nat) (allowed : List Block) : Event → List Block
  | (.write index data, .ok _) => if index = i then [data] else allowed
  | (.write index data, .error _) => if index = i then data :: allowed else allowed
  | _ => allowed

/-- What a read of the block `i` may return: the data of the latest write that succeeded, or
the initial contents, or the data of a failed write after it. -/
def allowed (initial : Nat → Block) (events : List Event) (i : Nat) : List Block :=
  events.foldl (allowedAfter i) [initial i]

variable {keyedHash : MacKey → List UInt8 → Hash} {key : MacKey}
variable {D : Type} [BlockDevice D] [ContentDevice D] {c c' : BlockCache D}

open ContentDevice (content)

structure Sound (c : BlockCache D) : Prop where
  coherent : c.Coherent
  bounded : c.entries.size ≤ c.capacity

/-- What is shown of the block `i` after one more event: a write that succeeded changes it. -/
def shownAfter (i : Nat) (shown : Block) : Event → Block
  | (.write index data, .ok _) => if index = i then data else shown
  | _ => shown

theorem shownAfter_mem {i : Nat} {shown : Block} {blocks : List Block} (held : shown ∈ blocks)
    (event : Event) : shownAfter i shown event ∈ allowedAfter i blocks event := by
  obtain ⟨call, result⟩ := event
  cases call with
  | write index data =>
    cases result with
    | error e =>
      rw [shownAfter, allowedAfter]
      · split
        · exact .tail _ held
        · exact held
      · intro index data value same
        cases same
    | ok value =>
      rw [shownAfter, allowedAfter]
      split
      · exact mem_singleton_self data
      · exact held
  | read | writeback | sync | commit => exact held

theorem Sound.of_steady (sound : c.Sound) (steady : Steady c c')
    (size : c'.entries.size ≤ c.entries.size) : c'.Sound :=
  ⟨steady.coherent, size.trans (sound.bounded.trans_eq steady.capacity.symm)⟩

/-- One call shows the same blocks, with a successful write applied. -/
theorem perform_sound (keyedHash : MacKey → List UInt8 → Hash) (key : MacKey) (sound : c.Sound)
    {call : Call} (accepted : c.Accepted call) :
    (c.perform keyedHash key call).2.Sound ∧
      (c.perform keyedHash key call).2.capacity = c.capacity ∧
      ∀ i, ¬IsSlot i → (c.perform keyedHash key call).2.view i =
        shownAfter i (c.view i) (call, (c.perform keyedHash key call).1) := by
  cases call with
  | read index =>
    obtain ⟨steady, size⟩ := read_steady sound.coherent sound.bounded accepted
    exact ⟨⟨steady.coherent, size.trans_eq steady.capacity.symm⟩, steady.capacity, steady.view⟩
  | write index data =>
    rw [perform]
    by_cases inside : index < blockCount c.dev
    · obtain ⟨ok, coherent, view, capacity, size⟩ :=
        write_buffered sound.coherent data sound.bounded inside (accepted inside)
      refine ⟨⟨coherent, size.trans_eq capacity.symm⟩, capacity, fun i other => ?_⟩
      rw [ok, view i other]
      simp only [Except.map, shownAfter, eq_comm]
    · rw [write_of_ge (Nat.not_lt.mp inside)]
      exact ⟨sound, rfl, fun _ _ => rfl⟩
  | writeback =>
    obtain ⟨steady, size⟩ := writeback_steady sound.coherent
    exact ⟨sound.of_steady steady size.le, steady.capacity, steady.view⟩
  | sync =>
    obtain ⟨steady, size⟩ := sync_steady sound.coherent
    exact ⟨sound.of_steady steady size.le, steady.capacity, steady.view⟩
  | commit sb =>
    obtain ⟨steady, size⟩ := commitSuperblock_steady sound.coherent sb key
    exact ⟨sound.of_steady steady size.le, steady.capacity, steady.view⟩

/-- The invariant of the runs in which the device takes the victims. -/
theorem run_sound {dev : D} {capacity : Nat} {events : List Event}
    (run : Run ((step keyedHash key).restrict fun c event => c.Accepted event.1)
      (new dev capacity) events c) :
    c.Sound ∧ c.capacity = max capacity 1 ∧
      ∀ i, ¬IsSlot i → c.view i ∈ allowed (content dev) events i := by
  induction run with
  | nil =>
    refine ⟨⟨coherent_new dev capacity, ?_⟩, rfl, fun i _ => ?_⟩
    · rw [new, ExtTreeMap.size_empty]
      exact zero_le _
    · rw [view_of_none (by simp [new])]
      exact mem_singleton_self _
  | snoc before taken ih =>
    obtain ⟨sound, size, shown⟩ := ih
    obtain ⟨accepted, performed⟩ := taken
    rename_i event
    obtain ⟨sound', capacity', view'⟩ := perform_sound keyedHash key sound accepted
    rw [step] at performed
    rw [performed] at sound' capacity' view'
    refine ⟨sound', capacity'.trans size, fun i other => ?_⟩
    rw [view' i other, allowed, foldl_append]
    exact shownAfter_mem (shown i other) event

/-! ## Evictions that fail -/

omit [ContentDevice D] in
/-- A failed eviction leaves its victim in the dirty set without a copy. -/
theorem evictToCapacity_lost {protect v : Nat} {e : CacheEntry} {err : V3Error}
    (exact : c.DirtyExact) (full : c.capacity < c.entries.size)
    (chosen : c.victim protect = some v) (found : c.entries[v]? = some e) (changed : e.dirty = true)
    (refused : (writeBlock c.dev v e.data).1 = .error err) :
    (c.evictToCapacity protect).1 = .error err ∧ ¬(c.evictToCapacity protect).2.DirtyExact := by
  obtain ⟨fuel, turns⟩ := exists_eq_succ_of_ne_zero (ne_of_gt (zero_lt_of_lt full))
  rw [evictToCapacity, turns, evictLoop_succ full chosen, dropVictim_of_dirty found changed,
    onDevice, refused, andThen_error, andThen_error]
  refine ⟨rfl, fun exact' => ?_⟩
  obtain ⟨e', found', -⟩ := (exact' v).mp ((exact v).mpr ⟨e, found, changed⟩)
  rw [getElem?_erase_eq, if_pos rfl] at found'
  cases found'

omit [ContentDevice D] in
/-- A block that needs room is inserted, and its eviction keeps the dirty set exact only where
the device takes the victim. -/
theorem accepted_of_dirtyExact {index clock : Nat} {e : CacheEntry} {dirty : ExtTreeSet Nat}
    (inserted : DirtyExact { c with entries := c.entries.insert index e, dirty, clock })
    (exact : (evictToCapacity { c with entries := c.entries.insert index e, dirty, clock }
        index).2.DirtyExact) : c.EvictionAccepted index := by
  intro absent full v e' chosen found changed
  cases outcome : (writeBlock c.dev v e'.data).1 with
  | ok u => rfl
  | error err =>
    have size : (c.entries.insert index e).size = c.entries.size + 1 := by
      simp [size_insert_eq, absent]
    have other := (victim_mem chosen).1
    have crowded : c.capacity < (c.entries.insert index e).size :=
      (lt_succ_of_le full).trans_eq size.symm
    have copy : (c.entries.insert index e)[v]? = some e' := by
      rw [getElem?_insert_eq, if_neg other, found]
    have lost := evictToCapacity_lost inserted crowded
      ((victim_insert absent dirty clock).trans chosen) copy changed outcome
    exact absurd exact lost.2

/-- A call keeps the dirty set exact exactly when the device takes its victim. -/
theorem perform_dirtyExact_iff (keyedHash : MacKey → List UInt8 → Hash) (key : MacKey)
    (sound : c.Sound) (call : Call) :
    (c.perform keyedHash key call).2.DirtyExact ↔ c.Accepted call := by
  refine ⟨fun exact => ?_,
    fun accepted => (perform_sound keyedHash key sound accepted).1.coherent.exact⟩
  cases call with
  | read index =>
    rintro ⟨data, loaded⟩
    intro absent
    have load := sound.coherent.steady_load c.tick.clock c.tick.clock absent
    rw [perform, read_miss absent loaded] at exact
    obtain rfl : data = content c.dev index := ContentDevice.read_ok loaded
    rw [andThen_keep fun _ _ => rfl] at exact
    exact accepted_of_dirtyExact load.coherent.exact exact absent
  | write index data =>
    intro inside
    rw [perform, write_of_lt data inside] at exact
    exact accepted_of_dirtyExact
      (coherent_buffered sound.coherent index c.tick.clock c.tick.clock data).exact exact
  | writeback | sync | commit => trivial

/-- In every run in which the device takes the victims of evictions, whatever else fails, a
read returns the latest write, the dirty set is exact and the cache keeps its capacity;
a further call keeps the dirty set exact exactly when its victim is taken. -/
theorem cache_transparent (keyedHash : MacKey → List UInt8 → Hash) (key : MacKey) (dev : D)
    (capacity : Nat) {events : List Event} {c : BlockCache D}
    (run : Run ((step keyedHash key).restrict fun c event => c.Accepted event.1)
      (new dev capacity) events c) :
    (∀ i data, ¬IsSlot i → (c.read i).1 = .ok data → data ∈ allowed (content dev) events i) ∧
      c.DirtyExact ∧ c.entries.size ≤ c.capacity ∧ c.capacity = max capacity 1 ∧
      ∀ call, (c.perform keyedHash key call).2.DirtyExact ↔ c.Accepted call := by
  obtain ⟨sound, size, shown⟩ := run_sound run
  refine ⟨fun i data other success => ?_, sound.coherent.exact, sound.bounded, size,
    perform_dirtyExact_iff keyedHash key sound⟩
  rw [read_ok success]
  exact shown i other

/-! ## A device that fails -/

/-- A device whose writes fail as a list says. -/
structure FlakyDevice where
  blocks : Nat → Block
  failures : List Bool

instance : BlockDevice FlakyDevice where
  blockCount _ := 8
  readBlock d i := if i < 8 then .ok (d.blocks i) else .error .blockOutOfRange
  writeBlock d i block :=
    if d.failures.headD false then (.error .io, { d with failures := d.failures.tail })
    else (.ok (), { blocks := Function.update d.blocks i block, failures := d.failures.tail })
  flush d := (.ok (), d)
  commitRoot d _ := (.ok (), d)
  committedGeneration _ := 0

instance : ContentDevice FlakyDevice where
  content := FlakyDevice.blocks
  read_ok {d i block} read := by
    simp only [BlockDevice.readBlock] at read
    split at read
    · exact (Except.ok.inj read).symm
    · cases read
  write_ok {d i block} written := by
    simp only [BlockDevice.writeBlock] at written ⊢
    split at written
    · cases written
    · rename_i sound
      rw [if_neg sound]
  write_error {d i block e} failed := by
    simp only [BlockDevice.writeBlock] at failed ⊢
    split at failed
    · rename_i fails
      rw [if_pos fails]
    · cases failed
  flush _ := rfl
  commitRoot _ _ := rfl

def onesBlock : Block := Vector.replicate blockSize 1

def sampleMac (_key : MacKey) (_bytes : List UInt8) : Hash := defaultHash

/-- A cache over zeros on a device whose first write fails. -/
def flakyCache (capacity : Nat) : BlockCache FlakyDevice :=
  new ⟨fun _ => zeroBlock, [true]⟩ capacity

/-- The same after a write of block 2. -/
def bufferedCache (capacity : Nat) : BlockCache FlakyDevice :=
  ((flakyCache capacity).perform sampleMac defaultHash (.write 2 onesBlock)).2

theorem onesBlock_ne_zeroBlock : onesBlock ≠ zeroBlock := by
  intro same
  exact absurd (congrArg (fun block : Block => block.toList.head?) same) (by decide +kernel)

theorem step_perform {c : BlockCache FlakyDevice} {call : Call}
    {result : Except V3Error (Option Block)}
    (returned : (c.perform sampleMac defaultHash call).1 = result) :
    step sampleMac defaultHash c (call, result) (c.perform sampleMac defaultHash call).2 :=
  Prod.ext returned rfl

/-- A write-back that fails and a read after it, with the device taking every victim. -/
theorem cache_transparent_flakyCache :
    ∃ c, Run ((step sampleMac defaultHash).restrict fun c event => c.Accepted event.1)
      (flakyCache 2)
        [(.write 2 onesBlock, .ok none), (.writeback, .error .io)] c ∧
      (c.read 2).1 = .ok onesBlock ∧
      onesBlock ∈ allowed (fun _ => zeroBlock)
        [(.write 2 onesBlock, .ok none), (.writeback, .error .io)] 2 ∧ c.DirtyExact := by
  have accepted : (flakyCache 2).Accepted (.write 2 onesBlock) :=
    fun _ _ full => absurd full (by decide +kernel)
  have buffered : step sampleMac defaultHash (flakyCache 2) (.write 2 onesBlock, .ok none)
      (bufferedCache 2) := step_perform (by decide +kernel)
  have failed : step sampleMac defaultHash (bufferedCache 2) (.writeback, .error .io)
      ((bufferedCache 2).perform sampleMac defaultHash .writeback).2 :=
    step_perform (by decide +kernel)
  have run : Run ((step sampleMac defaultHash).restrict fun c event => c.Accepted event.1)
      (flakyCache 2) ([(.write 2 onesBlock, .ok none)] ++ [(.writeback, .error .io)])
      ((bufferedCache 2).perform sampleMac defaultHash .writeback).2 :=
    (Run.single ⟨accepted, buffered⟩).snoc ⟨trivial, failed⟩
  have transparent := cache_transparent sampleMac defaultHash
    (⟨fun _ => zeroBlock, [true]⟩ : FlakyDevice) 2 run
  exact ⟨_, run, rfl, transparent.1 2 onesBlock (by decide) rfl, transparent.2.1⟩

/-- A write of block 2 succeeds; its eviction by a write of block 3 fails, and a later read of
block 2 returns the initial contents. -/
theorem failed_eviction_loses_write :
    ∃ c, Run (step sampleMac defaultHash) (flakyCache 1)
        [(.write 2 onesBlock, .ok none), (.write 3 onesBlock, .error .io)] c ∧
      (c.read 2).1 = .ok zeroBlock ∧
      zeroBlock ∉ allowed (fun _ => zeroBlock)
        [(.write 2 onesBlock, .ok none), (.write 3 onesBlock, .error .io)] 2 ∧ ¬c.DirtyExact := by
  have buffered : step sampleMac defaultHash (flakyCache 1) (.write 2 onesBlock, .ok none)
      (bufferedCache 1) := step_perform (by decide +kernel)
  have failed : step sampleMac defaultHash (bufferedCache 1) (.write 3 onesBlock, .error .io)
      ((bufferedCache 1).perform sampleMac defaultHash (.write 3 onesBlock)).2 :=
    step_perform (by decide +kernel)
  have run := (Run.single buffered).snoc failed
  refine ⟨_, run, rfl, ?_, fun exact => ?_⟩
  · rw [show allowed (fun _ => zeroBlock) [(.write 2 onesBlock, .ok none),
      (.write 3 onesBlock, .error .io)] 2 = [onesBlock] from rfl, mem_singleton]
    exact onesBlock_ne_zeroBlock.symm
  · obtain ⟨e, found, -⟩ := (exact 2).mp (by decide +kernel)
    have absent : ((bufferedCache 1).perform sampleMac defaultHash
        (.write 3 onesBlock)).2.entries[2]? = none := by decide +kernel
    rw [absent] at found
    cases found

end BlockCache

end NexaCore.Fs.V3
