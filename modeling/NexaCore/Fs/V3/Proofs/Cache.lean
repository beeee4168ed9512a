import NexaCore.Fs.V3.Cache
import NexaCore.Misc.MapFold
import NexaCore.Misc.Run

/-!
# The cache shows the blocks that were written

A device has contents; a successful operation changes them as it says, a failed one leaves them
alone. The cache shows for each block its resident copy or else the contents of the device. In a
coherent cache the dirty set is exact and clean copies agree with the device, so dropping a clean
copy, or a dirty one that the device took, changes nothing shown.
-/

namespace NexaCore.Fs.V3

open Misc Std Function SuperblockV3 BlockDevice ExtTreeMap List

/-- A device with contents: a failed operation leaves them unchanged. -/
class ContentDevice (D : Type) [BlockDevice D] where
  content : D → Nat → Block
  read_ok : ∀ {d : D} {i : Nat} {block : Block},
    BlockDevice.readBlock d i = .ok block → block = content d i
  write_ok : ∀ {d : D} {i : Nat} {block : Block}, (BlockDevice.writeBlock d i block).1 = .ok () →
    content (BlockDevice.writeBlock d i block).2 = update (content d) i block
  write_error : ∀ {d : D} {i : Nat} {block : Block} {e : V3Error},
    (BlockDevice.writeBlock d i block).1 = .error e →
      content (BlockDevice.writeBlock d i block).2 = content d
  flush : ∀ d : D, content (BlockDevice.flush d).2 = content d
  commitRoot : ∀ (d : D) (g : UInt64), content (BlockDevice.commitRoot d g).2 = content d

/-- The blocks of the two superblocks. -/
def IsSlot (i : Nat) : Prop := i = slotA ∨ i = slotB

instance (i : Nat) : Decidable (IsSlot i) := inferInstanceAs (Decidable (_ ∨ _))

theorem isSlot_slotForGeneration (g : UInt64) : IsSlot (slotForGeneration g) := by
  have parity : slotForGeneration g = g.toNat % 2 := by
    rw [slotForGeneration, UInt64.toNat_and]
    exact Nat.and_one_is_mod g.toNat
  rw [parity, IsSlot, slotA, slotB]
  omega

namespace BlockCache

section Selection

variable {D : Type} {c : BlockCache D}

theorem victim_mem {protect v : Nat} (chosen : c.victim protect = some v) :
    v ≠ protect ∧ ∃ e, c.entries[v]? = some e := by
  obtain ⟨⟨key, e⟩, least, rfl⟩ := Option.map_eq_some_iff.mp chosen
  have held := argmin_mem least
  rw [filter_toList_ne, mem_toList_iff_getElem?_eq_some, erase_eq_some] at held
  exact ⟨held.1, e, held.2⟩

theorem exists_victim (protect : Nat) (two : 2 ≤ c.entries.size) :
    ∃ v, c.victim protect = some v := by
  rw [victim, filter_toList_ne]
  cases least : (c.entries.erase protect).toList.argmin fun p => p.2.lastUsed with
  | some p => exact ⟨p.1, rfl⟩
  | none =>
    have empty := congrArg length (argmin_eq_none.mp least)
    rw [length_toList, size_erase, length_nil] at empty
    split at empty <;> omega

variable {index : Nat}

/-- Which block is evicted does not depend on the copy that was just made. -/
theorem victim_insert {e : CacheEntry} (absent : c.entries[index]? = none)
    (dirty : ExtTreeSet Nat) (clock : Nat) :
    victim { c with entries := c.entries.insert index e, dirty, clock } index = c.victim index := by
  rw [victim, victim, filter_toList_ne, filter_toList_ne, erase_insert_of_none absent,
    erase_of_none absent]

@[simp] theorem tick_entries : c.tick.entries = c.entries := rfl

theorem size_insert_eq (e : CacheEntry) : (c.entries.insert index e).size =
    if c.entries[index]?.isSome then c.entries.size else c.entries.size + 1 := by
  rw [size_insert, ← contains_eq_isSome_getElem?]

/-- The dirty set holds exactly the resident blocks whose dirty flag is set. -/
def DirtyExact (c : BlockCache D) : Prop :=
  ∀ i, i ∈ c.dirty ↔ ∃ e, c.entries[i]? = some e ∧ e.dirty = true

variable {dirty : ExtTreeSet Nat} {i : Nat}

theorem mem_dirty_insert : i ∈ dirty.insert index ↔ i = index ∨ i ∈ dirty := by
  rw [ExtTreeSet.mem_insert, Std.compare_eq_iff_eq]
  exact or_congr_left eq_comm

theorem mem_dirty_erase : i ∈ dirty.erase index ↔ i ≠ index ∧ i ∈ dirty := by
  rw [ExtTreeSet.mem_erase, ne_eq, Std.compare_eq_iff_eq]
  exact and_congr_left' (not_congr eq_comm)

end Selection

section Calls

variable {D : Type} [BlockDevice D] {c : BlockCache D} {index protect v : Nat} {e : CacheEntry}
  {data : Block}

theorem dropVictim_of_clean (found : c.entries[v]? = some e) (fresh : e.dirty = false) :
    c.dropVictim v = (.ok (), { c with entries := c.entries.erase v }) := by
  simp only [dropVictim, found, fresh, Bool.false_eq_true, ↓reduceIte]

theorem dropVictim_of_dirty (found : c.entries[v]? = some e) (changed : e.dirty = true) :
    c.dropVictim v = andThen (onDevice { c with entries := c.entries.erase v }
          fun dev => writeBlock dev v e.data)
        fun _ c => (.ok (), { c with dirty := c.dirty.erase v }) := by
  simp only [dropVictim, found, changed, ↓reduceIte]

theorem evictLoop_of_le (fits : c.entries.size ≤ c.capacity) (fuel : Nat) :
    evictLoop protect fuel c = (.ok (), c) := by
  cases fuel with
  | zero => rfl
  | succ fuel => rw [evictLoop, if_neg (Nat.not_lt.mpr fits)]

theorem evictLoop_succ (full : c.capacity < c.entries.size) (chosen : c.victim protect = some v)
    (fuel : Nat) :
    evictLoop protect (fuel + 1) c =
      andThen (c.dropVictim v) fun _ c => evictLoop protect fuel c := by
  rw [evictLoop, if_pos full, chosen]

theorem read_hit (found : c.entries[index]? = some e) :
    c.read index = (.ok e.data, { c.tick with
      entries := c.entries.insert index { e with lastUsed := c.tick.clock } }) := by
  simp only [read, tick_entries, found]

theorem read_failed {e : V3Error} (absent : c.entries[index]? = none)
    (failed : readBlock c.dev index = .error e) :
    c.read index = (.error e, c.tick) := by
  have same : readBlock c.tick.dev index = .error e := failed
  simp only [read, tick_entries, absent, same]

theorem read_miss (absent : c.entries[index]? = none)
    (loaded : readBlock c.dev index = .ok data) :
    c.read index =
      andThen (evictToCapacity { c with
        entries := c.entries.insert index ⟨data, false, c.tick.clock⟩
        clock := c.tick.clock } index)
        fun _ c => (.ok data, c) := by
  have same : readBlock c.tick.dev index = .ok data := loaded
  simp only [read, tick_entries, absent, same]
  rfl

theorem write_of_ge (outside : blockCount c.dev ≤ index) :
    c.write index data = (.error .blockOutOfRange, c) := by
  rw [write, if_pos outside]

theorem write_of_lt (data : Block) (inside : index < blockCount c.dev) :
    c.write index data =
      evictToCapacity { c with
        entries := c.entries.insert index ⟨data, true, c.tick.clock⟩
        dirty := c.dirty.insert index
        clock := c.tick.clock } index := by
  rw [write, if_neg (Nat.not_le.mpr inside)]
  rfl

end Calls

variable {D : Type} [BlockDevice D] [ContentDevice D] {c c' : BlockCache D}

open ContentDevice (content)

/-- What a read of the block shows. -/
def view (c : BlockCache D) (i : Nat) : Block :=
  (c.entries[i]?.map CacheEntry.data).getD (content c.dev i)

variable {i : Nat} {e : CacheEntry}

theorem view_of_some (found : c.entries[i]? = some e) : c.view i = e.data := by
  rw [view, found]
  rfl

theorem view_of_none (absent : c.entries[i]? = none) : c.view i = content c.dev i := by
  rw [view, absent]
  rfl

/-- The dirty set is exact and clean copies agree with the device. -/
structure Coherent (c : BlockCache D) : Prop where
  exact : c.DirtyExact
  clean : ∀ {i e}, ¬IsSlot i → c.entries[i]? = some e → e.dirty = false → e.data = content c.dev i
  positive : 1 ≤ c.capacity

/-- A step after which the cache is coherent and shows the same blocks. -/
structure Steady (c c' : BlockCache D) : Prop where
  coherent : c'.Coherent
  view : ∀ i, ¬IsSlot i → c'.view i = c.view i
  capacity : c'.capacity = c.capacity

theorem Coherent.refl (coherent : c.Coherent) : Steady c c := ⟨coherent, fun _ _ => rfl, rfl⟩

theorem Steady.trans {c'' : BlockCache D} (first : Steady c c') (second : Steady c' c'') :
    Steady c c'' :=
  ⟨second.coherent, fun i other => (second.view i other).trans (first.view i other),
    second.capacity.trans first.capacity⟩

variable {dev : D}

theorem Coherent.steady_dev (coherent : c.Coherent)
    (same : ∀ i, ¬IsSlot i → content dev i = content c.dev i) : Steady c { c with dev } where
  coherent :=
    { exact := coherent.exact
      clean := fun other found fresh => (coherent.clean other found fresh).trans (same _ other).symm
      positive := coherent.positive }
  view i other := by
    rw [view, view, same i other]
  capacity := rfl

theorem coherent_new (dev : D) (capacity : Nat) : (new dev capacity).Coherent where
  exact i := by simp [new]
  clean _ found _ := by simp [new] at found
  positive := le_max_right _ _

/-! ## Eviction -/

variable {v : Nat}

theorem Coherent.changeAt (coherent : c.Coherent) (v : Nat) (capacity : c'.capacity = c.capacity)
    (others : ∀ i, i ≠ v → c'.entries[i]? = c.entries[i]? ∧ (i ∈ c'.dirty ↔ i ∈ c.dirty) ∧
      content c'.dev i = content c.dev i)
    (exact : v ∈ c'.dirty ↔ ∃ e, c'.entries[v]? = some e ∧ e.dirty = true)
    (clean : ¬IsSlot v → ∀ e, c'.entries[v]? = some e → e.dirty = false →
      e.data = content c'.dev v) :
    c'.Coherent ∧ ∀ i, i ≠ v → c'.view i = c.view i := by
  refine ⟨⟨fun i => ?_, fun {i e} other found fresh => ?_, capacity ▸ coherent.positive⟩,
    fun i apart => ?_⟩
  · by_cases same : i = v
    · exact same ▸ exact
    · rw [(others i same).1, (others i same).2.1, coherent.exact]
  · by_cases same : i = v
    · subst same
      exact clean other e found fresh
    · rw [(others i same).1] at found
      rw [(others i same).2.2, coherent.clean other found fresh]
  · rw [view, view, (others i apart).1, (others i apart).2.2]

theorem Steady.of_changeAt
    (changed : c'.Coherent ∧ ∀ i, i ≠ v → c'.view i = c.view i)
    (capacity : c'.capacity = c.capacity)
    (view : ¬IsSlot v → c'.view v = c.view v) : Steady c c' := by
  refine ⟨changed.1, fun i other => ?_, capacity⟩
  by_cases here : i = v
  · subst here
    exact view other
  · exact changed.2 i here

theorem Coherent.steady_erase (coherent : c.Coherent) (found : c.entries[v]? = some e)
    (fresh : e.dirty = false) :
    Steady c { c with entries := c.entries.erase v } := by
  have gone : (c.entries.erase v)[v]? = none := by rw [getElem?_erase_eq, if_pos rfl]
  refine .of_changeAt (coherent.changeAt v rfl (fun i apart => ?_) ?_ (by simp)) rfl fun other => ?_
  · simp [getElem?_erase_eq, apart]
  · rw [coherent.exact]
    simp [found, fresh]
  · rw [view_of_some found, view_of_none gone]
    exact (coherent.clean other found fresh).symm

theorem Coherent.steady_evict (coherent : c.Coherent) (found : c.entries[v]? = some e)
    (taken : content dev = update (content c.dev) v e.data) :
    Steady c { c with dev, entries := c.entries.erase v, dirty := c.dirty.erase v } := by
  have gone : (c.entries.erase v)[v]? = none := by rw [getElem?_erase_eq, if_pos rfl]
  refine .of_changeAt (coherent.changeAt v rfl (fun i apart => ?_) ?_ (by simp)) rfl fun _ => ?_
  · simp [getElem?_erase_eq, taken, apart, apart.symm]
  · simp
  · rw [view_of_some found, view_of_none gone, taken, update_self]

theorem dropVictim_steady (coherent : c.Coherent) (found : c.entries[v]? = some e)
    (accepted : e.dirty = true → (writeBlock c.dev v e.data).1 = .ok ()) :
    (c.dropVictim v).1 = .ok () ∧ Steady c (c.dropVictim v).2 ∧
      (c.dropVictim v).2.entries = c.entries.erase v := by
  cases flag : e.dirty with
  | true =>
    have ok := accepted flag
    rw [dropVictim_of_dirty found flag, onDevice, ok, andThen_ok]
    exact ⟨rfl, coherent.steady_evict found (ContentDevice.write_ok ok), rfl⟩
  | false =>
    rw [dropVictim_of_clean found flag]
    exact ⟨rfl, coherent.steady_erase found flag, rfl⟩

variable {protect : Nat}

/-- With at most one block too many, eviction shows the same blocks where the device takes the
victim. -/
theorem evictToCapacity_steady (coherent : c.Coherent) (size : c.entries.size ≤ c.capacity + 1)
    (accepted : c.capacity < c.entries.size → ∀ v e, c.victim protect = some v →
      c.entries[v]? = some e → e.dirty = true → (writeBlock c.dev v e.data).1 = .ok ()) :
    (c.evictToCapacity protect).1 = .ok () ∧ Steady c (c.evictToCapacity protect).2 ∧
      (c.evictToCapacity protect).2.entries.size ≤ c.capacity := by
  rw [evictToCapacity]
  by_cases full : c.capacity < c.entries.size
  · obtain ⟨fuel, turns⟩ := Nat.exists_eq_succ_of_ne_zero (Nat.ne_of_gt (Nat.zero_lt_of_lt full))
    have positive := coherent.positive
    obtain ⟨v, chosen⟩ := exists_victim protect (show 2 ≤ c.entries.size by omega)
    obtain ⟨-, e, found⟩ := victim_mem chosen
    obtain ⟨ok, steady, entries⟩ :=
        dropVictim_steady coherent found (accepted full v e chosen found)
    have smaller : (c.dropVictim v).2.entries.size ≤ (c.dropVictim v).2.capacity := by
      have held : c.entries.contains v = true := by
        rw [contains_eq_isSome_getElem?, found]
        rfl
      rw [entries, size_erase, if_pos held, steady.capacity]
      omega
    rw [turns, evictLoop_succ full chosen]
    generalize c.dropVictim v = dropped at ok steady smaller
    obtain ⟨result, c'⟩ := dropped
    obtain rfl : result = .ok () := ok
    rw [andThen_ok, evictLoop_of_le smaller]
    exact ⟨rfl, steady, steady.capacity ▸ smaller⟩
  · rw [evictLoop_of_le (Nat.not_lt.mp full)]
    exact ⟨rfl, coherent.refl, Nat.not_lt.mp full⟩

/-! ## The calls -/

/-- When the call needs room for the block, the device takes the block that has to leave. -/
def EvictionAccepted (c : BlockCache D) (index : Nat) : Prop :=
  c.entries[index]? = none → c.capacity ≤ c.entries.size → ∀ v e, c.victim index = some v →
    c.entries[v]? = some e → e.dirty = true → (BlockDevice.writeBlock c.dev v e.data).1 = .ok ()

variable {index : Nat}

variable {clock : Nat}

/-- A cache with a block inserted has at most one too many, and the device takes the victim. -/
theorem evictToCapacity_insert {dirty : ExtTreeSet Nat} (bounded : c.entries.size ≤ c.capacity)
    (accepted : c.EvictionAccepted index) (coherent : Coherent
      { c with entries := c.entries.insert index e, dirty, clock }) :
    let inserted : BlockCache D :=
      { c with entries := c.entries.insert index e, dirty, clock }
    (inserted.evictToCapacity index).1 = .ok () ∧
      Steady inserted (inserted.evictToCapacity index).2 ∧
      (inserted.evictToCapacity index).2.entries.size ≤ c.capacity := by
  intro inserted
  cases here : c.entries[index]? with
  | none =>
    have size : inserted.entries.size = c.entries.size + 1 := by
      simp [inserted, size_insert_eq, here]
    have few : inserted.entries.size ≤ inserted.capacity + 1 :=
      size.trans_le (Nat.add_le_add_right bounded 1)
    refine evictToCapacity_steady coherent few fun full v e' chosen found => ?_
    have room : c.capacity ≤ c.entries.size := Nat.lt_succ_iff.mp (full.trans_eq size)
    rw [victim_insert here] at chosen
    rw [getElem?_insert_eq, if_neg (victim_mem chosen).1] at found
    exact accepted here room v e' chosen found
  | some old =>
    have size : inserted.entries.size = c.entries.size := by simp [inserted, size_insert_eq, here]
    have fits : inserted.entries.size ≤ inserted.capacity := size.trans_le bounded
    exact evictToCapacity_steady coherent (Nat.le_succ_of_le fits)
      fun full => absurd full (Nat.not_lt.mpr fits)

/-- A copy of a block takes the place of one with the same data and flag. -/
theorem Coherent.steady_touch (coherent : c.Coherent) {lastUsed : Nat}
    (found : c.entries[index]? = some e) :
    Steady c { c with entries := c.entries.insert index { e with lastUsed }, clock } := by
  refine .of_changeAt (coherent.changeAt index rfl (fun i apart => ?_) ?_ ?_) rfl fun _ => ?_
  · simp [getElem?_insert_eq, apart]
  · rw [coherent.exact]
    simp [found]
  · simpa using fun other fresh => coherent.clean other found fresh
  · rw [view_of_some found, view_of_some getElem?_insert_self]

theorem Coherent.steady_load (coherent : c.Coherent) (clock lastUsed : Nat)
    (absent : c.entries[index]? = none) :
    Steady c { c with
      entries := c.entries.insert index ⟨content c.dev index, false, lastUsed⟩
      clock } := by
  refine .of_changeAt (coherent.changeAt index rfl (fun i apart => ?_) ?_ (by simp)) rfl fun _ => ?_
  · simp [getElem?_insert_eq, apart]
  · rw [coherent.exact]
    simp [absent]
  · rw [view_of_none absent, view_of_some getElem?_insert_self]

variable {data : Block}

theorem read_ok (success : (c.read index).1 = .ok data) : data = c.view index := by
  cases here : c.entries[index]? with
  | some e =>
    rw [read_hit here] at success
    rw [view_of_some here]
    exact (Except.ok.inj success).symm
  | none =>
    rw [view_of_none here]
    cases loaded : readBlock c.dev index with
    | error e =>
      rw [read_failed here loaded] at success
      cases success
    | ok block =>
      rw [read_miss here loaded] at success
      obtain ⟨-, -, same, -⟩ := of_andThen_ok success
      rw [← Except.ok.inj same]
      exact ContentDevice.read_ok loaded

theorem read_steady (coherent : c.Coherent) (bounded : c.entries.size ≤ c.capacity)
    (accepted : (∃ data, readBlock c.dev index = .ok data) → c.EvictionAccepted index) :
    Steady c (c.read index).2 ∧ (c.read index).2.entries.size ≤ c.capacity := by
  cases here : c.entries[index]? with
  | some e =>
    rw [read_hit here]
    exact ⟨coherent.steady_touch here, by simpa [size_insert_eq, here] using bounded⟩
  | none =>
    cases loaded : readBlock c.dev index with
    | error e =>
      rw [read_failed here loaded]
      exact ⟨⟨⟨coherent.exact, coherent.clean, coherent.positive⟩, fun _ _ => rfl, rfl⟩, bounded⟩
    | ok block =>
      rw [read_miss here loaded]
      obtain rfl : block = content c.dev index := ContentDevice.read_ok loaded
      have load := coherent.steady_load c.tick.clock c.tick.clock here
      obtain ⟨ok, steady, size⟩ :=
          evictToCapacity_insert bounded (accepted ⟨_, loaded⟩) load.coherent
      refine ⟨?_, ?_⟩
      · exact andThen_state (P := Steady c) (load.trans steady) fun _ _ => load.trans steady
      · exact andThen_state (P := fun c' : BlockCache D => c'.entries.size ≤ c.capacity) size
          fun _ _ => size

theorem coherent_buffered (coherent : c.Coherent) (index clock lastUsed : Nat) (data : Block) :
    Coherent { c with
      entries := c.entries.insert index ⟨data, true, lastUsed⟩
      dirty := c.dirty.insert index
      clock } := by
  refine And.left (coherent.changeAt index rfl (fun i apart => ?_) ?_ (by simp))
  · simp [getElem?_insert_eq, apart, apart.symm]
  · simp

section

variable (coherent : c.Coherent)

include coherent

/-- A write inside the device is buffered: the cache shows its data and no other change. -/
theorem write_buffered (data : Block) (bounded : c.entries.size ≤ c.capacity)
    (inside : index < blockCount c.dev) (accepted : c.EvictionAccepted index) :
    (c.write index data).1 = .ok () ∧ (c.write index data).2.Coherent ∧
      (∀ i, ¬IsSlot i → (c.write index data).2.view i = if i = index then data else c.view i) ∧
      (c.write index data).2.capacity = c.capacity ∧
      (c.write index data).2.entries.size ≤ c.capacity := by
  rw [write_of_lt data inside]
  obtain ⟨ok, steady, size⟩ := evictToCapacity_insert bounded accepted
    (coherent_buffered coherent index c.tick.clock c.tick.clock data)
  refine ⟨ok, steady.coherent, fun i other => ?_, steady.capacity, size⟩
  refine (steady.view i other).trans ?_
  rw [view, view, getElem?_insert_eq]
  split <;> rfl

theorem Coherent.steady_written (found : c.entries[index]? = some e)
    (taken : content dev = update (content c.dev) index e.data) :
    Steady c { c with
      dev
      entries := c.entries.insert index { e with dirty := false }
      dirty := c.dirty.erase index } := by
  refine .of_changeAt (coherent.changeAt index rfl (fun i apart => ?_) ?_ ?_) rfl fun _ => ?_
  · simp [getElem?_insert_eq, taken, apart, apart.symm]
  · simp
  · simp [taken]
  · rw [view_of_some found, view_of_some getElem?_insert_self]

theorem Coherent.steady_forget (fresh : ∀ e, c.entries[index]? = some e → e.dirty = false) :
    Steady c { c with dirty := c.dirty.erase index } where
  coherent :=
    { exact := fun i => by
        rw [mem_dirty_erase, coherent.exact i]
        refine and_iff_right_of_imp ?_
        rintro ⟨e, found, changed⟩ rfl
        rw [fresh e found] at changed
        cases changed
      clean := coherent.clean
      positive := coherent.positive }
  view _ _ := rfl
  capacity := rfl

/-- What one turn of the loop of `writeback` does, and what is left for the next. -/
theorem writebackLoop_cons (index : Nat) (pending : List Nat) (written : Nat) :
    (∃ e, (writebackLoop (index :: pending) written c).1 = .error e ∧
        Steady c (writebackLoop (index :: pending) written c).2 ∧
        (writebackLoop (index :: pending) written c).2.entries = c.entries) ∨
      ∃ c' written', writebackLoop (index :: pending) written c =
        writebackLoop pending written' c' ∧
        Steady c c' ∧ c'.entries.size = c.entries.size ∧ c'.dirty = c.dirty.erase index := by
  cases here : c.entries[index]? with
  | none =>
    refine .inr ⟨{ c with dirty := c.dirty.erase index }, written, ?_,
      coherent.steady_forget (by simp [here]), rfl, rfl⟩
    rw [writebackLoop, here]
  | some e =>
    cases flag : e.dirty with
    | false =>
      refine .inr ⟨{ c with dirty := c.dirty.erase index }, written, ?_,
        coherent.steady_forget (by simp [here, flag]), rfl, rfl⟩
      simp only [writebackLoop, here, flag, Bool.false_eq_true, ↓reduceIte]
    | true =>
      have turn : writebackLoop (index :: pending) written c =
          andThen (c.onDevice fun dev => writeBlock dev index e.data) fun _ c =>
            writebackLoop pending (min (written + 1) (2 ^ 64 - 1))
              { c with
                entries := c.entries.insert index { e with dirty := false }
                dirty := c.dirty.erase index } := by
        simp only [writebackLoop, here, flag, ↓reduceIte]
      rw [turn, onDevice]
      cases outcome : (writeBlock c.dev index e.data).1 with
      | error err =>
        refine .inl ⟨err, rfl, coherent.steady_dev fun i _ => ?_, rfl⟩
        rw [ContentDevice.write_error outcome]
      | ok u =>
        refine .inr ⟨_, _, andThen_ok .., coherent.steady_written here
          (ContentDevice.write_ok outcome), by simp [size_insert_eq, here], rfl⟩

/-- Writing back changes nothing that is shown, also where the device fails on the way. -/
theorem writebackLoop_steady (pending : List Nat) (written : Nat) :
    Steady c (writebackLoop pending written c).2 ∧
      (writebackLoop pending written c).2.entries.size = c.entries.size := by
  induction pending generalizing c written with
  | nil => exact ⟨coherent.refl, rfl⟩
  | cons index pending ih =>
    rcases writebackLoop_cons coherent index pending written with
      ⟨e, -, steady, same⟩ | ⟨c', written', eq, steady, size, -⟩
    · exact ⟨steady, congrArg size same⟩
    · rw [eq]
      obtain ⟨later, size'⟩ := ih steady.coherent written'
      exact ⟨steady.trans later, size'.trans size⟩

theorem writeback_steady : Steady c c.writeback.2 ∧ c.writeback.2.entries.size = c.entries.size :=
  writebackLoop_steady coherent _ _

end

variable {total : Nat}

/-- After a loop that ended without an error none of its blocks is dirty. -/
theorem writebackLoop_ok (coherent : c.Coherent) {pending : List Nat} {written : Nat}
    (success : (writebackLoop pending written c).1 = .ok total)
    (left : i ∈ (writebackLoop pending written c).2.dirty) : i ∈ c.dirty ∧ i ∉ pending := by
  induction pending generalizing c written with
  | nil => exact ⟨left, not_mem_nil⟩
  | cons index pending ih =>
    rcases writebackLoop_cons coherent index pending written with
      ⟨e, failed, -, -⟩ | ⟨c', written', eq, steady, -, dirty⟩
    · rw [failed] at success
      cases success
    · rw [eq] at success left
      obtain ⟨still, absent⟩ := ih steady.coherent success left
      rw [dirty, mem_dirty_erase] at still
      exact ⟨still.2, not_mem_cons_of_ne_of_not_mem still.1 absent⟩

theorem writeback_ok (coherent : c.Coherent) (success : c.writeback.1 = .ok total) (i : Nat) :
    i ∉ c.writeback.2.dirty := by
  intro left
  obtain ⟨listed, absent⟩ := writebackLoop_ok coherent success left
  exact absent (ExtTreeSet.mem_toList.mpr listed)

theorem Coherent.steady_flush (coherent : c.Coherent) : Steady c (c.onDevice flush).2 :=
  coherent.steady_dev fun i _ => congrFun (ContentDevice.flush c.dev) i

theorem sync_steady (coherent : c.Coherent) :
    Steady c c.sync.2 ∧ c.sync.2.entries.size = c.entries.size := by
  obtain ⟨steady, size⟩ := writeback_steady coherent
  have flushed := steady.trans steady.coherent.steady_flush
  rw [sync]
  refine andThen_state (P := fun c' => Steady c c' ∧ c'.entries.size = c.entries.size)
    ⟨steady, size⟩ fun _ _ => ?_
  exact andThen_state (P := fun c' => Steady c c' ∧ c'.entries.size = c.entries.size)
    ⟨flushed, size⟩ fun _ _ => ⟨flushed, size⟩

end BlockCache

variable {keyedHash : MacKey → List UInt8 → Hash} {D : Type} [BlockDevice D] [ContentDevice D]

open ContentDevice (content)

theorem content_commit (dev : D) (sb : SuperblockV3) (key : MacKey) {i : Nat} (other : ¬IsSlot i) :
    content (commit keyedHash dev sb key).2 i = content dev i := by
  have written : content (writeBlock dev
      (slotForGeneration sb.generation) (sb.encode keyedHash key)).2 i = content dev i := by
    cases outcome : (writeBlock dev
      (slotForGeneration sb.generation) (sb.encode keyedHash key)).1 with
    | error e => rw [ContentDevice.write_error outcome]
    | ok u =>
      rw [ContentDevice.write_ok outcome, update_of_ne]
      rintro rfl
      exact other (isSlot_slotForGeneration _)
  rw [commit]
  refine andThen_state (P := fun d => content d i = content dev i) written fun _ _ => ?_
  have flushed := (congrFun (ContentDevice.flush (writeBlock dev
    (slotForGeneration sb.generation) (sb.encode keyedHash key)).2) i).trans written
  refine andThen_state (P := fun d => content d i = content dev i) flushed fun _ _ => ?_
  exact (congrFun (ContentDevice.commitRoot _ _) i).trans flushed

namespace BlockCache

variable {c c' : BlockCache D}

theorem commitSuperblock_steady (coherent : c.Coherent) (sb : SuperblockV3) (key : MacKey) :
    Steady c (c.commitSuperblock keyedHash sb key).2 ∧
      (c.commitSuperblock keyedHash sb key).2.entries.size = c.entries.size := by
  obtain ⟨steady, size⟩ := writeback_steady coherent
  have flushed := steady.trans steady.coherent.steady_flush
  rw [commitSuperblock]
  refine andThen_state (P := fun c' => Steady c c' ∧ c'.entries.size = c.entries.size)
    ⟨steady, size⟩ fun _ _ => ?_
  refine andThen_state (P := fun c' => Steady c c' ∧ c'.entries.size = c.entries.size)
    ⟨flushed, size⟩ fun _ _ => ?_
  exact ⟨flushed.trans (flushed.coherent.steady_dev fun i other => content_commit _ sb key other),
    size⟩

end BlockCache

end NexaCore.Fs.V3
