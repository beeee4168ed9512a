import NexaCore.Fs.V3.Superblock

/-!
# The block cache

Embedding of `BlockCache` (`nexacore-fs/src/v3/cache.rs`): an LRU write-back cache over any
block device. A call returns its result and the cache after it.
-/

namespace NexaCore.Fs.V3

open Misc Std BlockDevice

/-- `CacheEntry` (`cache.rs:38-42`). -/
structure CacheEntry where
  data : Block
  dirty : Bool
  lastUsed : Nat
  deriving DecidableEq

/-- `BlockCache` (`cache.rs:53-59`). -/
structure BlockCache (D : Type) where
  dev : D
  entries : ExtTreeMap Nat CacheEntry
  dirty : ExtTreeSet Nat
  capacity : Nat
  clock : Nat

namespace BlockCache

variable {D : Type}

/-- `BlockCache::new` (`cache.rs:65-73`). -/
def new (dev : D) (capacity : Nat) : BlockCache D :=
  { dev, entries := ∅, dirty := ∅, capacity := max capacity 1, clock := 0 }

/-- `tick` (`cache.rs:137-140`), whose result is the clock after it. -/
def tick (c : BlockCache D) : BlockCache D := { c with clock := min (c.clock + 1) (2 ^ 64 - 1) }

/-- The least recently used entry other than `protect`; of several the one with the lowest
block number. -/
def victim (c : BlockCache D) (protect : Nat) : Option Nat :=
  ((c.entries.toList.filter fun p => p.1 ≠ protect).argmin fun p => p.2.lastUsed).map Prod.fst

variable [BlockDevice D]

def onDevice {α : Type} (c : BlockCache D) (call : D → Except V3Error α × D) :
    Except V3Error α × BlockCache D :=
  ((call c.dev).1, { c with dev := (call c.dev).2 })

/-- The body of the loop of `evict_to_capacity` (`cache.rs:153-159`): the victim leaves the
cache before it is written back. -/
def dropVictim (c : BlockCache D) (victim : Nat) : Except V3Error Unit × BlockCache D :=
  match c.entries[victim]? with
  | none => (.ok (), c)
  | some entry =>
      let removed := { c with entries := c.entries.erase victim }
      if entry.dirty then
        andThen (removed.onDevice fun dev => writeBlock dev victim entry.data)
          fun _ c => (.ok (), { c with dirty := c.dirty.erase victim })
      else (.ok (), removed)

/-- The loop of `evict_to_capacity` (`cache.rs:145-160`); each turn removes an entry. -/
def evictLoop (protect : Nat) : Nat → BlockCache D → Except V3Error Unit × BlockCache D
  | 0, c => (.ok (), c)
  | fuel + 1, c =>
      if c.capacity < c.entries.size then
        match c.victim protect with
        | none => (.ok (), c)
        | some victim => andThen (c.dropVictim victim) fun _ c => evictLoop protect fuel c
      else (.ok (), c)

/-- `evict_to_capacity` (`cache.rs:144-162`). -/
def evictToCapacity (c : BlockCache D) (protect : Nat) : Except V3Error Unit × BlockCache D :=
  evictLoop protect c.entries.size c

/-- `read` (`cache.rs:170-190`). -/
def read (c : BlockCache D) (index : Nat) : Except V3Error Block × BlockCache D :=
  let c := c.tick
  match c.entries[index]? with
  | some entry =>
      (.ok entry.data,
        { c with entries := c.entries.insert index { entry with lastUsed := c.clock } })
  | none =>
      match readBlock c.dev index with
      | .error e => (.error e, c)
      | .ok data =>
          let entry := { data, dirty := false, lastUsed := c.clock }
          andThen (({ c with entries := c.entries.insert index entry }).evictToCapacity index)
            fun _ c => (.ok data, c)

/-- `write` (`cache.rs:198-223`). -/
def write (c : BlockCache D) (index : Nat) (data : Block) : Except V3Error Unit × BlockCache D :=
  if blockCount c.dev ≤ index then (.error .blockOutOfRange, c)
  else
    let c := c.tick
    let entry := { data, dirty := true, lastUsed := c.clock }
    evictToCapacity { c with
      entries := c.entries.insert index entry
      dirty := c.dirty.insert index } index

/-- The loop of `writeback` (`cache.rs:235-244`). -/
def writebackLoop : List Nat → Nat → BlockCache D → Except V3Error Nat × BlockCache D
  | [], written, c => (.ok written, c)
  | index :: pending, written, c =>
      match c.entries[index]? with
      | some entry =>
          if entry.dirty then
            andThen (c.onDevice fun dev => writeBlock dev index entry.data) fun _ c =>
              writebackLoop pending (min (written + 1) (2 ^ 64 - 1))
                { c with
                  entries := c.entries.insert index { entry with dirty := false }
                  dirty := c.dirty.erase index }
          else writebackLoop pending written { c with dirty := c.dirty.erase index }
      | none => writebackLoop pending written { c with dirty := c.dirty.erase index }

/-- `writeback` (`cache.rs:232-246`): the dirty blocks in ascending order. -/
def writeback (c : BlockCache D) : Except V3Error Nat × BlockCache D :=
  writebackLoop c.dirty.toList 0 c

/-- `sync` (`cache.rs:254-258`). -/
def sync (c : BlockCache D) : Except V3Error Nat × BlockCache D :=
  andThen c.writeback fun written c =>
  andThen (c.onDevice flush) fun _ c => (.ok written, c)

/-- `commit_superblock` (`cache.rs:269-275`): the barrier, then the root commit. -/
def commitSuperblock (keyedHash : MacKey → List UInt8 → Hash) (c : BlockCache D)
    (sb : SuperblockV3) (key : MacKey) : Except V3Error Unit × BlockCache D :=
  andThen c.writeback fun _ c =>
  andThen (c.onDevice flush) fun _ c =>
  c.onDevice fun dev => commit keyedHash dev sb key

end BlockCache

end NexaCore.Fs.V3
