import NexaCore.Fs.V3.Proofs.CrashDevice
import NexaCore.Fs.V3.Proofs.DeviceRules

/-!
# Crash safety of the commit protocol

Between two calls the disk is settled, and the blocks that the cache may still write are not
those of the committed generation. Every call keeps this invariant, and every disk on its way
is settled or, during a commit, committing.
-/

namespace NexaCore.Fs.V3

open Misc Std BlockCache Function List SuperblockV3 BufferedDisk CrashDevice Ledger BlockDevice

variable {keyedHash : MacKey → List UInt8 → Hash} {key : MacKey} {l : Ledger}
  {disk : BufferedDisk Block}

/-! ## The calls -/

/-- A block that may be written to the device: no slot, inside the device, and not one of the
committed generation. -/
def Rewritable (l : Ledger) (count v : Nat) : Prop := ¬IsSlot v ∧ v < count ∧ l.stable v = none

/-- A device with settled disks only. -/
structure Tracked (keyedHash : MacKey → List UInt8 → Hash) (key : MacKey) (l : Ledger) (count : Nat)
    (d : CrashDevice) : Prop where
  count : d.count = count
  settled : Settled keyedHash key l d.disk
  trace : ∀ disk ∈ d.trace, Settled keyedHash key l disk

variable {count : Nat} {d : CrashDevice}

theorem Tracked.after (tracked : Tracked keyedHash key l count d)
    (settled : Settled keyedHash key l disk) : Tracked keyedHash key l count (d.after disk) where
  count := tracked.count
  settled := settled
  trace other held := by
    rcases List.mem_append.mp held with before | last
    · exact tracked.trace other before
    · rw [List.mem_singleton.mp last]
      exact settled

variable {v : Nat} {block : Block}

theorem writeBlock_accepted (rewritable : Rewritable l count v)
    (tracked : Tracked keyedHash key l count d) :
    writeBlock d v block = (.ok (), d.after (d.disk.write v block)) :=
  writeBlock_of_lt (rewritable.2.1.trans_eq tracked.count.symm)

theorem Tracked.write (rewritable : Rewritable l count v)
    (tracked : Tracked keyedHash key l count d) :
    Tracked keyedHash key l count (writeBlock d v block).2 := by
  rw [writeBlock_accepted rewritable tracked]
  exact tracked.after (tracked.settled.write rewritable.1 rewritable.2.2 block)

/-- The invariant of the protocol between two calls. -/
structure Intact (keyedHash : MacKey → List UInt8 → Hash) (key : MacKey)
    (c : BlockCache CrashDevice) (l : Ledger) : Prop where
  sound : c.Sound
  slots : 2 ≤ c.dev.count
  settled : Settled keyedHash key l c.dev.disk
  ordered : Ordered l
  dirty : ∀ i ∈ c.dirty, Rewritable l c.dev.count i
  latest : ∀ i data, l.latest i = some data → ¬IsSlot i ∧ c.view i = data
  stable : ∀ i data, l.stable i = some data → l.latest i = some data

variable {c : BlockCache CrashDevice}

namespace Intact

variable (intact : Intact keyedHash key c l)

include intact

theorem changed {v : Nat} {e : CacheEntry} (found : c.entries[v]? = some e)
    (flag : e.dirty = true) : Rewritable l c.dev.count v :=
  intact.dirty v ((intact.sound.coherent.exact v).mpr ⟨e, found, flag⟩)

theorem tracked_started : Tracked keyedHash key l c.dev.count (started c).dev :=
  ⟨rfl, intact.settled, forall_mem_nil _⟩

theorem start : Intact keyedHash key (started c) l where
  sound :=
    have steady : Steady c (started c) := intact.sound.coherent.steady_dev fun _ _ => rfl
    ⟨steady.coherent, intact.sound.bounded⟩
  slots := intact.slots
  settled := intact.settled
  ordered := intact.ordered
  dirty := intact.dirty
  latest := intact.latest
  stable := intact.stable

theorem accepted (call : Call) : c.Accepted call := by
  have eviction : ∀ index, c.EvictionAccepted index := by
    intro index _ _ v e _ found flag
    exact congrArg Prod.fst (writeBlock_of_lt (intact.changed found flag).2.1)
  cases call with
  | read index | write index => exact fun _ => eviction index
  | writeback | sync | commit => trivial

variable (tracked : Tracked keyedHash key l c.dev.count c.dev)

include tracked

/-- What writing back does: nothing is dirty any more, and the disk stays settled. -/
theorem writeback :
    (∃ total, c.writeback.1 = .ok total) ∧ (∀ i, i ∉ c.writeback.2.dirty) ∧
      Tracked keyedHash key l c.dev.count c.writeback.2.dev := by
  obtain ⟨after, total, ok⟩ := writebackLoop_dev c.dirty.toList 0
    (fun d v block rewritable tracked => Tracked.write rewritable tracked)
    (fun d v block rewritable tracked => congrArg Prod.fst (writeBlock_accepted rewritable tracked))
    (fun v e found flag => intact.changed found flag) tracked
  exact ⟨⟨total, ok⟩, writeback_ok intact.sound.coherent ok, after⟩

variable {call : Call} (plain : ∀ sb, call ≠ .commit sb)

include plain

theorem tracked_perform :
    Tracked keyedHash key l c.dev.count (c.perform keyedHash key call).2.dev := by
  have closed : ∀ d v block, Rewritable l c.dev.count v → Tracked keyedHash key l c.dev.count d →
      Tracked keyedHash key l c.dev.count (writeBlock d v block).2 :=
    fun d v block rewritable tracked => Tracked.write rewritable tracked
  cases call with
  | read index => exact read_dev closed (fun v e found flag => intact.changed found flag) tracked
  | write index data =>
    exact write_dev closed (fun v e found flag => intact.changed found flag) tracked
  | writeback => exact (intact.writeback tracked).2.2
  | sync =>
    obtain ⟨-, -, after⟩ := intact.writeback tracked
    have flushed := after.after after.settled.flush
    refine andThen_state (P := fun c' : BlockCache CrashDevice =>
      Tracked keyedHash key l c.dev.count c'.dev) after fun _ _ => ?_
    exact andThen_state (P := fun c' : BlockCache CrashDevice =>
      Tracked keyedHash key l c.dev.count c'.dev) flushed fun _ _ => flushed
  | commit sb => exact absurd rfl (plain sb)

/-- A block that is dirty after the call was dirty before or is written by it. -/
theorem dirty_perform {i : Nat} (left : i ∈ (c.perform keyedHash key call).2.dirty) :
    i ∈ c.dirty ∨ ∃ data, call = .write i data ∧ i < c.dev.count ∧
      (c.perform keyedHash key call).1 = .ok none := by
  cases call with
  | read index => exact .inl (read_dirty left)
  | write index data =>
    rcases write_dirty left with ⟨rfl, inside⟩ | before
    · have ok := (write_buffered intact.sound.coherent data intact.sound.bounded inside
        (intact.accepted (.write i data) inside)).1
      exact .inr ⟨data, rfl, inside, congrArg (Except.map fun _ => none) ok⟩
    · exact .inl before
  | writeback => exact absurd left ((intact.writeback tracked).2.1 i)
  | sync =>
    have clean := (intact.writeback tracked).2.1
    refine absurd left ?_
    refine andThen_state (P := fun c' : BlockCache CrashDevice => i ∉ c'.dirty) (clean i)
      fun _ _ => ?_
    exact andThen_state (P := fun c' : BlockCache CrashDevice => i ∉ c'.dirty) (clean i)
      fun _ _ => clean i
  | commit sb => exact absurd rfl (plain sb)

end Intact

/-! ## The ledger -/

namespace Ledger

theorem latest_write (i j : Nat) (data : Block) (value : Option Block) :
    (l.after (.write i data, .ok value)).latest j = if j = i then some data else l.latest j :=
  update_apply ..

theorem stable_write (i j : Nat) (data : Block) (value : Option Block) :
    (l.after (.write i data, .ok value)).stable j = if j = i then none else l.stable j :=
  update_apply ..

variable {j : Nat} {data : Block}

theorem latest_after {shown : Block} (known : ∀ data, l.latest j = some data → shown = data)
    (event : Event) (entered : (l.after event).latest j = some data) :
    shownAfter j shown event = data := by
  obtain ⟨call, _ | value⟩ := event
  · cases call <;> exact known data entered
  · cases call with
    | write i written =>
      rw [latest_write] at entered
      rw [shownAfter]
      split at entered
      · rename_i same
        rw [if_pos same.symm]
        exact Option.some_inj.mp entered
      · rename_i other
        rw [if_neg fun same => other same.symm]
        exact known data entered
    | read | writeback | sync | commit => exact known data entered

theorem latest_after_cases (event : Event) (entered : (l.after event).latest j = some data) :
    l.latest j = some data ∨ ∃ written, event.1 = .write j written := by
  obtain ⟨call, _ | value⟩ := event
  · cases call <;> exact .inl entered
  · cases call with
    | write i written =>
      by_cases same : j = i
      · subst same
        exact .inr ⟨written, rfl⟩
      · rw [latest_write, if_neg same] at entered
        exact .inl entered
    | read | writeback | sync | commit => exact .inl entered

theorem stable_latest_after (known : ∀ i data, l.stable i = some data → l.latest i = some data)
    (event : Event) (stable : (l.after event).stable j = some data) :
    (l.after event).latest j = some data := by
  obtain ⟨call, _ | value⟩ := event
  · cases call <;> exact known j data stable
  · cases call with
    | write i written =>
      by_cases same : j = i
      · rw [stable_write, if_pos same] at stable
        cases stable
      · rw [stable_write, if_neg same] at stable
        rw [latest_write, if_neg same]
        exact known j data stable
    | commit sb => exact stable
    | read | writeback | sync => exact known j data stable

/-- A call other than a commit takes at most a block off the stable ones. -/
theorem after_plain {call : Call} (plain : ∀ sb, call ≠ .commit sb)
    (result : Except V3Error (Option Block)) :
    (l.after (call, result)).committed = l.committed ∧ (l.after (call, result)).issued = l.issued ∧
      ∀ i, (l.after (call, result)).stable i = l.stable i ∨
        (l.after (call, result)).stable i = none := by
  cases call with
  | write i data =>
    cases result with
    | error e => exact ⟨rfl, rfl, fun _ => .inl rfl⟩
    | ok value =>
      refine ⟨rfl, rfl, fun j => ?_⟩
      rw [stable_write]
      split
      · exact .inr rfl
      · exact .inl rfl
  | read | writeback | sync => exact ⟨rfl, rfl, fun _ => .inl rfl⟩
  | commit sb => exact absurd rfl (plain sb)

end Ledger

variable {l' : Ledger}

theorem Settled.of_stable (settled : Settled keyedHash key l disk)
    (committed : l'.committed = l.committed) (issued : l'.issued = l.issued)
    (fewer : ∀ i, l'.stable i = l.stable i ∨ l'.stable i = none) :
    Settled keyedHash key l' disk where
  pending p held := by
    obtain ⟨other, none⟩ := settled.pending p held
    refine ⟨other, ?_⟩
    rcases fewer p.1 with same | gone
    · exact same.trans none
    · exact gone
  root sb last := settled.root sb (committed ▸ last)
  authentic i isSlot := issued ▸ settled.authentic i isSlot
  stable i data stable := by
    rcases fewer i with same | gone
    · exact settled.stable i data (same.symm.trans stable)
    · rw [gone] at stable
      cases stable

variable {call : Call}

theorem Intact.plain (intact : Intact keyedHash key c l)
    (tracked : Tracked keyedHash key l c.dev.count c.dev) (allowed : l.Allowed call)
    (plain : ∀ sb, call ≠ .commit sb) :
    Intact keyedHash key (c.perform keyedHash key call).2
      (l.after (call, (c.perform keyedHash key call).1)) := by
  obtain ⟨sound, -, view⟩ := perform_sound keyedHash key intact.sound (intact.accepted call)
  have after := intact.tracked_perform tracked plain
  have slots : 2 ≤ (c.perform keyedHash key call).2.dev.count :=
      intact.slots.trans_eq after.count.symm
  obtain ⟨committed, issued, fewer⟩ := l.after_plain plain (c.perform keyedHash key call).1
  refine
    { sound, slots
      settled := after.settled.of_stable committed issued fewer
      ordered := ?_
      dirty := fun i held => ?_
      latest := fun i data entered => ?_
      stable := fun i data => stable_latest_after intact.stable _ }
  · rw [Ordered, committed, issued]
    exact intact.ordered
  · rw [after.count]
    rcases intact.dirty_perform tracked plain held with before | ⟨data, rfl, inside, ok⟩
    · obtain ⟨other, inside, none⟩ := intact.dirty i before
      exact ⟨other, inside, (fewer i).elim (fun same => same.trans none) id⟩
    · rw [ok]
      exact ⟨allowed, inside, (stable_write ..).trans (if_pos rfl)⟩
  · have other : ¬IsSlot i := by
      rcases latest_after_cases _ entered with before | ⟨written, rfl⟩
      · exact (intact.latest i data before).1
      · exact allowed
    refine ⟨other, ?_⟩
    rw [view i other]
    exact latest_after (fun data before => (intact.latest i data before).2) _ entered

/-! ## The commit -/

/-- The device after a root commit. -/
def committedDevice (keyedHash : MacKey → List UInt8 → Hash) (key : MacKey) (d : CrashDevice)
    (sb : SuperblockV3) : CrashDevice :=
  let slot := d.disk.write (slotForGeneration sb.generation) (sb.encode keyedHash key)
  { ((d.after slot).after slot.flush).after slot.flush with committed := sb.generation }

variable {sb : SuperblockV3}

theorem commit_eq (inside : slotForGeneration sb.generation < d.count) :
    commit keyedHash d sb key = (.ok (), committedDevice keyedHash key d sb) := by
  rw [commit, writeBlock_of_lt inside]
  rfl

theorem slotForGeneration_lt {count : Nat} (slots : 2 ≤ count) (g : UInt64) :
    slotForGeneration g < count := by
  rcases isSlot_slotForGeneration g with slot | slot
  · rw [slot]
    exact Nat.lt_of_lt_of_le (by decide) slots
  · rw [slot]
    exact Nat.lt_of_lt_of_le (by decide) slots

theorem commitSuperblock_eq {total : Nat} (ok : c.writeback.1 = .ok total)
    (slots : 2 ≤ c.writeback.2.dev.count) :
    c.commitSuperblock keyedHash sb key = (.ok (), { c.writeback.2 with
      dev := committedDevice keyedHash key
        (c.writeback.2.dev.after c.writeback.2.dev.disk.flush) sb }) := by
  rw [commitSuperblock]
  generalize c.writeback = written at ok slots ⊢
  obtain ⟨result, c'⟩ := written
  obtain rfl : result = .ok total := ok
  have inside : slotForGeneration sb.generation < (c'.dev.after c'.dev.disk.flush).count :=
    slotForGeneration_lt slots _
  exact congrArg (fun r : Except V3Error Unit × CrashDevice => (r.1, { c' with dev := r.2 }))
    (commit_eq inside)

theorem view_of_not_dirty (coherent : c.Coherent) {i : Nat} (other : ¬IsSlot i)
    (clean : i ∉ c.dirty) :
    c.view i = c.dev.disk.content i := by
  cases here : c.entries[i]? with
  | none => exact view_of_none here
  | some e =>
    have fresh : e.dirty = false := by
      cases flag : e.dirty with
      | false => rfl
      | true => exact absurd ((coherent.exact i).mpr ⟨e, here, flag⟩) clean
    rw [view_of_some here]
    exact coherent.clean other here fresh

theorem Settled.committing (settled : Settled keyedHash key l disk) (flushed : disk.pending = [])
    (latest : ∀ i data, l.latest i = some data → ¬IsSlot i ∧ disk.durable i = data) :
    Committing keyedHash key l sb
      (disk.write (slotForGeneration sb.generation) (sb.encode keyedHash key)) where
  pending p held := by
    rcases mem_pending_write held with before | last
    · rw [flushed] at before
      exact absurd before not_mem_nil
    · exact last
  root := settled.root
  authentic i isSlot := (settled.authentic i isSlot).mono (subset_cons_self _ _)
  latest := latest

/-- The contents of a disk that has the new slot in its buffer only. -/
theorem content_slot_write (keyedHash : MacKey → List UInt8 → Hash) (key : MacKey)
    (sb : SuperblockV3) (flushed : disk.pending = []) (i : Nat) :
    (disk.write (slotForGeneration sb.generation) (sb.encode keyedHash key)).content i =
      if i = slotForGeneration sb.generation then sb.encode keyedHash key
      else disk.durable i := by
  rw [content_write, update_apply, content, flushed]
  rfl

theorem Settled.committing_flush (settled : Settled keyedHash key l disk)
    (flushed : disk.pending = []) (allowed : l.Allowed (.commit sb))
    (latest : ∀ i data, l.latest i = some data → ¬IsSlot i ∧ disk.durable i = data) :
    Committing keyedHash key l sb (disk.write (slotForGeneration sb.generation)
      (sb.encode keyedHash key)).flush where
  pending p held := absurd held not_mem_nil
  root last committed := by
    refine (content_slot_write keyedHash key sb flushed _).trans ?_
    rw [if_neg (slotForGeneration_ne (allowed last committed))]
    exact settled.root last committed
  authentic i isSlot := by
    change Authentic keyedHash key (sb :: l.issued) (content _ i)
    rw [content_slot_write keyedHash key sb flushed i]
    split
    · exact authentic_encode (.head _)
    · exact (settled.authentic i isSlot).mono (subset_cons_self _ _)
  latest i data entered := by
    obtain ⟨other, durable⟩ := latest i data entered
    have elsewhere : i ≠ slotForGeneration sb.generation := by
      rintro rfl
      exact other (isSlot_slotForGeneration _)
    refine ⟨other, (content_slot_write keyedHash key sb flushed i).trans ?_⟩
    rw [if_neg elsewhere]
    exact durable

theorem Committing.settled (committing : Committing keyedHash key l sb disk)
    (flushed : disk.pending = [])
    (slot : disk.durable (slotForGeneration sb.generation) = sb.encode keyedHash key)
    (value : Option Block) : Settled keyedHash key (l.after (.commit sb, .ok value)) disk where
  pending p held := by
    rw [flushed] at held
    exact absurd held not_mem_nil
  root last committed := by
    obtain rfl : sb = last := Option.some_inj.mp committed
    exact slot
  authentic := committing.authentic
  stable i data entered := (committing.latest i data entered).2

theorem Ordered.commit (ordered : Ordered l) (allowed : l.Allowed (.commit sb))
    (value : Option Block) : Ordered (l.after (.commit sb, .ok value)) :=
  fun _ held => ⟨sb, rfl, (List.mem_cons.mp held).imp_right (ordered.lt_next allowed)⟩

/-- A commit keeps the invariant, and leaves settled and committing disks only. -/
theorem Intact.commit (intact : Intact keyedHash key c l)
    (tracked : Tracked keyedHash key l c.dev.count c.dev) (allowed : l.Allowed (.commit sb)) :
    (c.perform keyedHash key (.commit sb)).1 = .ok none ∧
      Intact keyedHash key (c.perform keyedHash key (.commit sb)).2
        (l.after (.commit sb, .ok none)) ∧
      ∀ disk ∈ (c.perform keyedHash key (.commit sb)).2.dev.trace,
        Settled keyedHash key l disk ∨ Committing keyedHash key l sb disk := by
  obtain ⟨sound, -, view⟩ := perform_sound keyedHash key intact.sound (intact.accepted (.commit sb))
  obtain ⟨⟨total, ok⟩, clean, after⟩ := intact.writeback tracked
  have slots : 2 ≤ c.writeback.2.dev.count := intact.slots.trans_eq after.count.symm
  have steady := (writeback_steady intact.sound.coherent).1
  -- Behind the barrier every block is durable as the cache shows it.
  have barrier := after.settled.flush
  have latest : ∀ i data, l.latest i = some data →
      ¬IsSlot i ∧ c.writeback.2.dev.disk.flush.durable i = data := by
    intro i data entered
    obtain ⟨other, shown⟩ := intact.latest i data entered
    refine ⟨other, ?_⟩
    rw [← shown, ← steady.view i other]
    exact (view_of_not_dirty steady.coherent other (clean i)).symm
  have slot : Committing keyedHash key l sb _ := barrier.committing rfl latest
  have last := barrier.committing_flush rfl allowed latest
  rw [perform, commitSuperblock_eq ok slots] at sound view ⊢
  refine ⟨rfl, ?_, ?_⟩
  · refine
      { sound, slots
        settled := last.settled rfl ?_ none
        ordered := intact.ordered.commit allowed none
        dirty := fun i held => absurd held (clean i)
        latest := fun i data entered => ?_
        stable := fun i data => Ledger.stable_latest_after intact.stable _ }
    · exact (content_slot_write keyedHash key sb rfl _).trans (if_pos rfl)
    · obtain ⟨other, shown⟩ := intact.latest i data entered
      exact ⟨other, (view i other).trans shown⟩
  · intro disk held
    simp only [committedDevice, CrashDevice.after, mem_append, mem_singleton] at held
    rcases held with (((before | rfl) | rfl) | rfl) | rfl
    · exact .inl (after.trace disk before)
    · exact .inl barrier
    · exact .inr slot
    · exact .inr last
    · exact .inr last

/-! ## Runs -/

theorem Formatted.intact (formatted : Formatted keyedHash key d l) (capacity : Nat) :
    Intact keyedHash key (new d capacity) l where
  sound := ⟨coherent_new d capacity, by rw [new, ExtTreeMap.size_empty]; exact Nat.zero_le _⟩
  slots := formatted.slots
  settled :=
    { pending := fun p held => by
        rw [new, formatted.flushed] at held
        exact absurd held not_mem_nil
      root := formatted.root
      authentic := formatted.authentic
      stable := fun i data stable => by
        rw [formatted.stable] at stable
        cases stable }
  ordered x held := by
    cases last : l.committed with
    | none => exact absurd (formatted.fresh last ▸ held) not_mem_nil
    | some sb => exact ⟨sb, rfl, formatted.newest sb last x held⟩
  dirty i held := absurd held ExtTreeSet.not_mem_empty
  latest i data latest := by
    rw [formatted.latest] at latest
    cases latest
  stable i data stable := by
    rw [formatted.stable] at stable
    cases stable

theorem Intact.step (intact : Intact keyedHash key c l) (allowed : l.Allowed call) :
    Intact keyedHash key ((started c).perform keyedHash key call).2
      (l.after (call, ((started c).perform keyedHash key call).1)) := by
  by_cases commits : ∃ sb, call = .commit sb
  · obtain ⟨sb, rfl⟩ := commits
    obtain ⟨ok, after, -⟩ := intact.start.commit intact.tracked_started allowed
    rwa [ok]
  · exact intact.start.plain intact.tracked_started allowed fun sb commit => commits ⟨sb, commit⟩

/-- At every crash point of a call the disk is settled, or committing during a commit. -/
theorem Intact.crashPoint (intact : Intact keyedHash key c l) (allowed : l.Allowed call)
    (point : disk ∈ crashPoints keyedHash key c call) :
    Settled keyedHash key l disk ∨ ∃ sb, call = .commit sb ∧
      Committing keyedHash key l sb disk := by
  rcases List.mem_cons.mp point with rfl | within
  · exact .inl intact.settled
  · by_cases commits : ∃ sb, call = .commit sb
    · obtain ⟨sb, rfl⟩ := commits
      obtain ⟨-, -, points⟩ := intact.start.commit intact.tracked_started allowed
      exact (points disk within).imp_right fun committing => ⟨sb, rfl, committing⟩
    · have after := intact.start.tracked_perform intact.tracked_started
        fun sb commit => commits ⟨sb, commit⟩
      exact .inl (after.trace disk within)

theorem run_intact {capacity : Nat} {events : List Event}
    (formatted : Formatted keyedHash key d l)
    (run : Run ((protocol keyedHash key).restrict fun s event => s.2.Allowed event.1)
      (new d capacity, l) events (c, l')) : Intact keyedHash key c l' := by
  refine Run.invariant (fun s => Intact keyedHash key s.1 s.2) ?_ run (formatted.intact capacity)
  rintro ⟨c, l⟩ event ⟨c', l'⟩ intact ⟨allowed, performed, entered⟩
  have after := intact.step allowed
  rw [performed] at after
  rw [entered]
  exact after

/-- At a crash between any two device operations of any call of any run, whatever happens to
the buffered writes, mounting returns the superblock whose commit returned last or the one
being committed, and the blocks of its generation are there. -/
theorem commit_crash_safe (keyedHash : MacKey → List UInt8 → Hash) (key : MacKey) {d : CrashDevice}
    {start l : Ledger} {capacity : Nat} {events : List Event} {c : BlockCache CrashDevice}
    (formatted : Formatted keyedHash key d start)
    (run : Run ((protocol keyedHash key).restrict fun s event => s.2.Allowed event.1)
      (new d capacity, start) events (c, l))
    {call : Call} (allowed : l.Allowed call) {disk : BufferedDisk Block}
    (point : disk ∈ crashPoints keyedHash key c call) {image : Nat → Block}
    (crashed : Crashed (Torn keyedHash key (l.issuedBy call)) disk.pending disk.durable
      image) :
    (mount keyedHash (rebooted c.dev.count image) key = mounted l.committed ∧
        ∀ i data, l.stable i = some data → image i = data) ∨
      ∃ sb, call = .commit sb ∧ mount keyedHash (rebooted c.dev.count image) key = .ok sb ∧
        ∀ i data, l.latest i = some data → image i = data := by
  have intact := run_intact formatted run
  rcases intact.crashPoint allowed point with settled | ⟨sb, rfl, committing⟩
  · exact .inl (settled.crash intact.ordered intact.slots crashed)
  · obtain ⟨old | new, blocks⟩ := committing.crash intact.ordered allowed intact.slots crashed
    · exact .inl ⟨old, fun i data stable => blocks i data (intact.stable i data stable)⟩
    · exact .inr ⟨sb, rfl, new, blocks⟩

/-! ## A crash during a commit -/

def sampleSuperblock (generation : UInt64) : SuperblockV3 :=
  { generation, totalBlocks := 8, rootDirInode := 1, merkleRoot := defaultHash, keyEpoch := 0,
    freeBlocks := 4, inodeCount := 1, allocMapBlock := 2, snapshotTableBlock := 0 }

/-- A device of eight zero blocks. -/
def blankDevice : CrashDevice :=
  { disk := ⟨fun _ => zeroBlock, []⟩, count := 8, committed := 0, trace := [] }

def blankLedger : Ledger :=
  { committed := none, issued := [], latest := fun _ => none, stable := fun _ => none }

/-- The cache over the blank device after a write of block 2 and the commit of generation 4. -/
def sampleCache : BlockCache CrashDevice :=
  ((started ((started (new blankDevice 2)).perform sampleMac defaultHash
    (.write 2 onesBlock)).2).perform sampleMac defaultHash (.commit (sampleSuperblock 4))).2

def sampleLedger : Ledger :=
  (blankLedger.after (.write 2 onesBlock, .ok none)).after (.commit (sampleSuperblock 4), .ok none)

theorem formatted_blankDevice : Formatted sampleMac defaultHash blankDevice blankLedger where
  slots := by decide
  flushed := rfl
  root sb committed := by cases committed
  newest sb committed := by cases committed
  fresh _ := rfl
  authentic i _ x found := by
    have corrupt : decode sampleMac zeroBlock defaultHash = .error .corrupt :=
      if_pos (by decide +kernel)
    rw [show blankDevice.disk.durable i = zeroBlock from rfl, corrupt] at found
    cases found
  latest _ := rfl
  stable _ := rfl

/-- The slot of generation 5 is written and lost: generation 4 is mounted with its block. -/
theorem commit_crash_safe_lost :
    Run ((protocol sampleMac defaultHash).restrict fun s event => s.2.Allowed event.1)
        (new blankDevice 2, blankLedger)
        [(.write 2 onesBlock, .ok none), (.commit (sampleSuperblock 4), .ok none)]
        (sampleCache, sampleLedger) ∧
      ∃ disk ∈ crashPoints sampleMac defaultHash sampleCache (.commit (sampleSuperblock 5)),
        disk.pending.length = 1 ∧ disk.durable 2 = onesBlock ∧
        (mount sampleMac (rebooted 8 disk.durable) defaultHash = .ok (sampleSuperblock 4) ∨
          mount sampleMac (rebooted 8 disk.durable) defaultHash = .ok (sampleSuperblock 5)) := by
  refine (fun run => ⟨run, ?_⟩) <| .cons (m := (((started (new blankDevice 2)).perform sampleMac
    defaultHash (.write 2 onesBlock)).2, blankLedger.after (.write 2 onesBlock, .ok none)))
    ⟨show ¬IsSlot 2 by decide, Prod.ext (by decide +kernel) rfl, rfl⟩
    (.single ⟨by rintro _ ⟨⟩, Prod.ext (by decide +kernel) rfl, rfl⟩)
  have allowed : sampleLedger.Allowed (.commit (sampleSuperblock 5)) := by
    intro last committed
    cases committed
    decide
  let slot := (started sampleCache).writeback.2.dev.disk.flush.write
    (slotForGeneration 5) ((sampleSuperblock 5).encode sampleMac defaultHash)
  have point : slot ∈ crashPoints sampleMac defaultHash sampleCache
      (.commit (sampleSuperblock 5)) := by
    have ok : (started sampleCache).writeback.1 = .ok 0 := by decide +kernel
    have slots : 2 ≤ (started sampleCache).writeback.2.dev.count := by decide +kernel
    have after : (started sampleCache).commitSuperblock sampleMac (sampleSuperblock 5) defaultHash =
      _ := commitSuperblock_eq ok slots
    refine .tail _ ?_
    change slot ∈ ((started sampleCache).commitSuperblock sampleMac (sampleSuperblock 5)
      defaultHash).2.dev.trace
    rw [after]
    refine mem_append_left _ (mem_append_left _ ?_)
    exact mem_append_right _ (mem_singleton_self _)
  have lost : Crashed (Torn sampleMac defaultHash
      (sampleLedger.issuedBy (.commit (sampleSuperblock 5)))) slot.pending slot.durable
        slot.durable :=
    .lost (.done _)
  have safe := commit_crash_safe sampleMac defaultHash formatted_blankDevice run allowed point lost
  refine ⟨slot, point, rfl, ?_, ?_⟩
  · rcases safe with ⟨-, stable⟩ | ⟨-, -, -, latest⟩
    · exact stable 2 onesBlock rfl
    · exact latest 2 onesBlock rfl
  · rcases safe with ⟨old, -⟩ | ⟨sb, same, new, -⟩
    · exact .inl old
    · cases same
      exact .inr new

end NexaCore.Fs.V3
