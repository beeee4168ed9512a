import NexaCore.Fs.V3.Proofs.Transparency
import NexaCore.Fs.V3.Proofs.Superblock
import NexaCore.Misc.BufferedDisk

/-!
# Disks at a crash

A device with a volatile write buffer records its disk after each operation, and a ledger keeps
what a run has written and committed. A disk is *settled* when the committed superblock and the
blocks of its generation are durable and no slot is in the buffer, and *committing* when all
blocks of the new generation are durable and only its slot is in the buffer. Mounting what a crash
leaves of a settled disk finds the committed superblock; of a committing one, that or the new one.
-/

namespace NexaCore.Fs.V3

open Misc SuperblockV3 BufferedDisk UInt64 List BlockDevice Function

/-! ## The device -/

/-- A device with a write buffer; `trace` holds the disk after each operation of a call. -/
structure CrashDevice where
  disk : BufferedDisk Block
  count : Nat
  committed : UInt64
  trace : List (BufferedDisk Block)

/-- The device after an operation that leaves the disk as given. -/
def CrashDevice.after (d : CrashDevice) (disk : BufferedDisk Block) : CrashDevice :=
  { d with disk, trace := d.trace ++ [disk] }

instance : BlockDevice CrashDevice where
  blockCount d := d.count
  readBlock d i := if i < d.count then .ok (d.disk.content i) else .error .blockOutOfRange
  writeBlock d i block :=
    if i < d.count then (.ok (), d.after (d.disk.write i block)) else (.error .blockOutOfRange, d)
  flush d := (.ok (), d.after d.disk.flush)
  commitRoot d generation := (.ok (), { d.after d.disk with committed := generation })
  committedGeneration d := d.committed

namespace CrashDevice

variable {d : CrashDevice} {i : Nat} {block : Block}

theorem writeBlock_of_lt (inside : i < d.count) :
    writeBlock d i block = (.ok (), d.after (d.disk.write i block)) := if_pos inside

theorem writeBlock_of_ge (outside : d.count ≤ i) :
    writeBlock d i block = (.error .blockOutOfRange, d) :=
  if_neg (Nat.not_lt.mpr outside)

instance : ContentDevice CrashDevice where
  content d := d.disk.content
  read_ok {d i block} read := by
    simp only [BlockDevice.readBlock] at read
    split at read
    · exact (Except.ok.inj read).symm
    · cases read
  write_ok {d i block} written := by
    by_cases inside : i < d.count
    · rw [writeBlock_of_lt inside]
      exact content_write block
    · rw [writeBlock_of_ge (Nat.not_lt.mp inside)] at written
      cases written
  write_error {d i block e} failed := by
    by_cases inside : i < d.count
    · rw [writeBlock_of_lt inside] at failed
      cases failed
    · rw [writeBlock_of_ge (Nat.not_lt.mp inside)]
  flush _ := rfl
  commitRoot _ _ := rfl

end CrashDevice

/-- The device that comes up with the contents a crash has left. -/
def rebooted (count : Nat) (image : Nat → Block) : CrashDevice :=
  { disk := ⟨image, []⟩, count, committed := 0, trace := [] }

/-! ## What is written and committed -/

/-- What a run has written and committed: the latest superblock whose commit returned, all
superblocks encoded so far, the latest write to each block, and the writes from before the
latest commit to blocks not written again since. -/
structure Ledger where
  committed : Option SuperblockV3
  issued : List SuperblockV3
  latest : Nat → Option Block
  stable : Nat → Option Block

namespace Ledger

def after (l : Ledger) : Event → Ledger
  | (.write i data, .ok _) =>
      { l with latest := update l.latest i (some data), stable := update l.stable i none }
  | (.commit sb, .ok _) =>
      { l with committed := some sb, issued := sb :: l.issued, stable := l.latest }
  | (.commit sb, .error _) => { l with issued := sb :: l.issued }
  | _ => l

/-- Calls of the protocol: slots are not written through the cache, and generations are
committed one after the other. -/
def Allowed (l : Ledger) : Call → Prop
  | .write i _ => ¬IsSlot i
  | .commit sb => ∀ last, l.committed = some last →
      sb.generation.toNat = last.generation.toNat + 1
  | _ => True

/-- The superblocks encoded when a call has begun. -/
def issuedBy (l : Ledger) : Call → List SuperblockV3
  | .commit sb => sb :: l.issued
  | _ => l.issued

end Ledger

variable (keyedHash : MacKey → List UInt8 → Hash) (key : MacKey)

/-- The block authenticates only if it is the encoding of one of the superblocks. -/
def Authentic (issued : List SuperblockV3) (block : Block) : Prop :=
  ∀ x, decode keyedHash block key = .ok x → x ∈ issued ∧ block = x.encode keyedHash key

/-- What a torn write may leave: anything, but in a slot nothing that authenticates without
having been encoded. -/
def Torn (issued : List SuperblockV3) (i : Nat) (block : Block) : Prop :=
  IsSlot i → Authentic keyedHash key issued block

def started (c : BlockCache CrashDevice) : BlockCache CrashDevice :=
  { c with dev := { c.dev with trace := [] } }

def protocol : Lts (BlockCache CrashDevice × Ledger) Event := fun s event s' =>
  (started s.1).perform keyedHash key event.1 = (event.2, s'.1) ∧ s'.2 = s.2.after event

/-- The disk before a call and after each device operation of it. -/
def crashPoints (c : BlockCache CrashDevice) (call : Call) : List (BufferedDisk Block) :=
  c.dev.disk :: ((started c).perform keyedHash key call).2.dev.trace

/-- A volume at the beginning of a run: nothing is buffered, both slots are there and hold
nothing that authenticates except superblocks encoded before, the latest of them committed. -/
structure Formatted (d : CrashDevice) (l : Ledger) : Prop where
  slots : 2 ≤ d.count
  flushed : d.disk.pending = []
  root : ∀ sb, l.committed = some sb →
    d.disk.durable (slotForGeneration sb.generation) = sb.encode keyedHash key
  newest : ∀ sb, l.committed = some sb → ∀ x ∈ l.issued, x = sb ∨ x.generation < sb.generation
  fresh : l.committed = none → l.issued = []
  authentic : ∀ i, IsSlot i → Authentic keyedHash key l.issued (d.disk.durable i)
  latest : ∀ i, l.latest i = none
  stable : ∀ i, l.stable i = none

/-- What mounting returns where nothing but the committed superblock is found. -/
def mounted : Option SuperblockV3 → Except V3Error SuperblockV3
  | some sb => .ok sb
  | none => .error .noValidSuperblock

variable {keyedHash : MacKey → List UInt8 → Hash} {key : MacKey}

/-! ## Mounting -/

/-- The better of what was found and a further slot. -/
def better (best : Option SuperblockV3) : Except V3Error SuperblockV3 → Option SuperblockV3
  | .ok sb => if best.all fun b => b.generation < sb.generation then some sb else best
  | .error _ => best

variable {count : Nat}

theorem mount_rebooted (slots : 2 ≤ count) (image : Nat → Block) :
    mount keyedHash (rebooted count image) key =
      mounted (better (better none (decode keyedHash (image slotA) key))
        (decode keyedHash (image slotB) key)) := by
  have turn : ∀ best slot, slot < count → mountSlot keyedHash (rebooted count image) key best slot =
        .ok (better best (decode keyedHash (image slot) key)) := by
    intro best slot inside
    have read : readBlock (rebooted count image) slot = .ok (image slot) := if_pos inside
    simp only [mountSlot, read, bind, Except.bind]
    cases decode keyedHash (image slot) key with
    | ok | error => rfl
  have first := turn none slotA (Nat.lt_of_lt_of_le (by decide) slots)
  have second := turn (better none (decode keyedHash (image slotA) key)) slotB
    (Nat.lt_of_lt_of_le (by decide) slots)
  simp only [mount, foldlM_cons, foldlM_nil, first, bind, Except.bind, second, pure, Except.pure]
  cases better (better none (decode keyedHash (image slotA) key))
    (decode keyedHash (image slotB) key) with
  | some sb => rfl
  | none => rfl

theorem better_eq {target best : Option SuperblockV3} {found : Except V3Error SuperblockV3}
    (held : target = best ∨ ∃ sb, target = some sb ∧ found = .ok sb)
    (bestNewest : ∀ x, best = some x →
      ∃ sb, target = some sb ∧ (x = sb ∨ x.generation < sb.generation))
    (foundNewest : ∀ x, found = .ok x →
      ∃ sb, target = some sb ∧ (x = sb ∨ x.generation < sb.generation)) :
    better best found = target := by
  cases found with
  | error e =>
    rcases held with held | ⟨sb, -, held⟩
    · exact held.symm
    · cases held
  | ok x =>
    obtain ⟨sb, rfl, newest⟩ := foundNewest x rfl
    rw [better]
    cases best with
    | none =>
      rcases held with held | ⟨sb, held, found⟩
      · cases held
      · rw [held, Except.ok.inj found]
        rfl
    | some b =>
      obtain ⟨sb', same, oldest⟩ := bestNewest b rfl
      cases same
      simp only [Option.all_some, decide_eq_true_eq]
      rcases oldest with rfl | older
      · rcases newest with rfl | older'
        · rw [if_neg (UInt64.lt_irrefl _)]
        · rw [if_neg (UInt64.lt_asymm older')]
      · rcases held with held | ⟨sb, held, found⟩
        · cases held
          exact absurd older (UInt64.lt_irrefl _)
        · cases held
          cases found
          rw [if_pos older]

variable {image : Nat → Block} {sb : SuperblockV3}

/-- Mounting finds the newest of the superblocks that authenticate. -/
theorem mount_eq_mounted (target : Option SuperblockV3) (slots : 2 ≤ count)
    (held : ∀ sb, target = some sb → ∃ i, IsSlot i ∧ image i = sb.encode keyedHash key)
    (newest : ∀ j, IsSlot j → ∀ x, decode keyedHash (image j) key = .ok x →
      ∃ sb, target = some sb ∧ (x = sb ∨ x.generation < sb.generation)) :
    mount keyedHash (rebooted count image) key = mounted target := by
  rw [mount_rebooted slots, better_eq ?_ (fun x first => ?_) (newest slotB (.inr rfl))]
  · cases target with
    | none =>
      cases here : decode keyedHash (image slotA) key with
      | ok x =>
        obtain ⟨sb, none, -⟩ := newest slotA (.inl rfl) x here
        cases none
      | error e => exact .inl rfl
    | some sb =>
      obtain ⟨i, isSlot, slot⟩ := held sb rfl
      have found : decode keyedHash (image i) key = .ok sb := by
        rw [slot, decode_encode]
      rcases isSlot with rfl | rfl
      · rw [found]
        exact .inl rfl
      · exact .inr ⟨sb, rfl, found⟩
  · cases here : decode keyedHash (image slotA) key with
    | error e =>
      rw [here] at first
      cases first
    | ok y =>
      rw [here] at first
      cases first
      exact newest slotA (.inl rfl) _ here

/-! ## Settled disks -/

/-- The committed generation is durable, and no write to a slot or to one of its blocks is
buffered. -/
structure Settled (keyedHash : MacKey → List UInt8 → Hash) (key : MacKey) (l : Ledger)
    (disk : BufferedDisk Block) : Prop where
  pending : ∀ p ∈ disk.pending, ¬IsSlot p.1 ∧ l.stable p.1 = none
  root : ∀ sb, l.committed = some sb →
    disk.durable (slotForGeneration sb.generation) = sb.encode keyedHash key
  authentic : ∀ i, IsSlot i → Authentic keyedHash key l.issued (disk.durable i)
  stable : ∀ i data, l.stable i = some data → disk.durable i = data

variable {l : Ledger} {disk : BufferedDisk Block}

section

variable (settled : Settled keyedHash key l disk)

include settled

theorem Settled.write {v : Nat} (other : ¬IsSlot v) (rewritten : l.stable v = none)
    (block : Block) : Settled keyedHash key l (disk.write v block) where
  pending p held := by
    rcases mem_pending_write held with before | rfl
    · exact settled.pending p before
    · exact ⟨other, rewritten⟩
  root := settled.root
  authentic := settled.authentic
  stable := settled.stable

theorem Settled.content_slot {i : Nat} (isSlot : IsSlot i) : disk.content i = disk.durable i :=
  content_of_not_pending fun p held here => (settled.pending p held).1 (here ▸ isSlot)

theorem Settled.content_stable {i : Nat} {data : Block} (stable : l.stable i = some data) :
    disk.content i = disk.durable i := by
  refine content_of_not_pending fun p held here => ?_
  have none := (settled.pending p held).2
  rw [here, stable] at none
  cases none

theorem Settled.flush : Settled keyedHash key l disk.flush where
  pending p held := absurd held not_mem_nil
  root sb last := (settled.content_slot (isSlot_slotForGeneration _)).trans (settled.root sb last)
  authentic i isSlot := by
    have same : disk.flush.durable i = disk.durable i := settled.content_slot isSlot
    rw [same]
    exact settled.authentic i isSlot
  stable i data stable := (settled.content_stable stable).trans (settled.stable i data stable)

end

/-- The committed superblock is the newest of those encoded so far. -/
def Ordered (l : Ledger) : Prop :=
  ∀ x ∈ l.issued, ∃ sb, l.committed = some sb ∧ (x = sb ∨ x.generation < sb.generation)

theorem Settled.crash (settled : Settled keyedHash key l disk) (ordered : Ordered l)
    (slots : 2 ≤ count) {torn : Nat → Block → Prop}
    (crashed : Crashed torn disk.pending disk.durable image) :
    mount keyedHash (rebooted count image) key = mounted l.committed ∧
      ∀ i data, l.stable i = some data → image i = data := by
  have slot : ∀ i, IsSlot i → image i = disk.durable i := fun i isSlot =>
    crashed.of_not_pending fun p held here => (settled.pending p held).1 (here ▸ isSlot)
  constructor
  · refine mount_eq_mounted _ slots (fun sb last => ?_) fun j isSlot x found => ?_
    · have isSlot := isSlot_slotForGeneration sb.generation
      exact ⟨_, isSlot, (slot _ isSlot).trans (settled.root sb last)⟩
    · rw [slot j isSlot] at found
      exact ordered x (settled.authentic j isSlot x found).1
  · intro i data stable
    rw [← settled.stable i data stable]
    refine crashed.of_not_pending fun p held here => ?_
    have none := (settled.pending p held).2
    rw [here, stable] at none
    cases none

/-! ## Committing disks -/

/-- All blocks of the new generation are durable and only its slot is buffered. -/
structure Committing (keyedHash : MacKey → List UInt8 → Hash) (key : MacKey) (l : Ledger)
    (sb : SuperblockV3) (disk : BufferedDisk Block) : Prop where
  pending : ∀ p ∈ disk.pending,
    p = (slotForGeneration sb.generation, sb.encode keyedHash key)
  root : ∀ last, l.committed = some last →
    disk.durable (slotForGeneration last.generation) = last.encode keyedHash key
  authentic : ∀ i, IsSlot i → Authentic keyedHash key (sb :: l.issued) (disk.durable i)
  latest : ∀ i data, l.latest i = some data → ¬IsSlot i ∧ disk.durable i = data

variable {issued : List SuperblockV3}

theorem authentic_encode (held : sb ∈ issued) :
    Authentic keyedHash key issued (sb.encode keyedHash key) := by
  intro x found
  rw [decode_encode] at found
  cases found
  exact ⟨held, rfl⟩

theorem Authentic.mono {issued' : List SuperblockV3} {block : Block}
    (authentic : Authentic keyedHash key issued block) (more : issued ⊆ issued') :
    Authentic keyedHash key issued' block :=
  fun x found => ⟨more (authentic x found).1, (authentic x found).2⟩

theorem slotForGeneration_ne {last : SuperblockV3}
    (next : sb.generation.toNat = last.generation.toNat + 1) :
    slotForGeneration last.generation ≠ slotForGeneration sb.generation := by
  have parity : ∀ g : UInt64, slotForGeneration g = g.toNat % 2 := fun g => by
    rw [slotForGeneration, UInt64.toNat_and]
    exact Nat.and_one_is_mod g.toNat
  rw [parity, parity]
  omega

/-- The superblocks encoded before are older than the one to be committed. -/
theorem Ordered.lt_next (ordered : Ordered l) (allowed : l.Allowed (.commit sb))
    {x : SuperblockV3} (held : x ∈ l.issued) : x.generation < sb.generation := by
  obtain ⟨prev, last, newest⟩ := ordered x held
  have next := allowed prev last
  rw [lt_iff_toNat_lt]
  rcases newest with rfl | older
  · omega
  · rw [lt_iff_toNat_lt] at older
    omega

/-- A crash of a committing disk leaves the old generation or the new one, and all blocks. -/
theorem Committing.crash (committing : Committing keyedHash key l sb disk) (ordered : Ordered l)
    (allowed : l.Allowed (.commit sb)) (slots : 2 ≤ count)
    (crashed : Crashed (Torn keyedHash key (sb :: l.issued)) disk.pending disk.durable image) :
    (mount keyedHash (rebooted count image) key = mounted l.committed ∨
        mount keyedHash (rebooted count image) key = .ok sb) ∧
      ∀ i data, l.latest i = some data → image i = data := by
  have authentic : ∀ i, IsSlot i → Authentic keyedHash key (sb :: l.issued) (image i) := by
    intro i isSlot
    rcases crashed.value i with same | ⟨p, held, here, same | torn⟩
    · rw [same]
      exact committing.authentic i isSlot
    · rw [same, committing.pending p held]
      exact authentic_encode (.head _)
    · exact torn isSlot
  refine ⟨?_, fun i data latest => ?_⟩
  · by_cases new : ∃ j, IsSlot j ∧ decode keyedHash (image j) key = .ok sb
    · obtain ⟨j, isSlot, found⟩ := new
      refine .inr (mount_eq_mounted (some sb) slots ?_ fun i isSlot' x found' => ?_)
      · rintro _ ⟨⟩
        exact ⟨j, isSlot, (authentic j isSlot sb found).2⟩
      · exact ⟨sb, rfl, (mem_cons.mp (authentic i isSlot' x found').1).imp_right
          (ordered.lt_next allowed)⟩
    · -- Without the new superblock only those from before authenticate.
      have before : ∀ j, IsSlot j → ∀ x, decode keyedHash (image j) key = .ok x → x ∈ l.issued := by
        intro j isSlot x found
        rcases mem_cons.mp (authentic j isSlot x found).1 with rfl | before
        · exact absurd ⟨j, isSlot, found⟩ new
        · exact before
      refine .inl (mount_eq_mounted _ slots (fun prev last => ?_) fun j isSlot x found =>
        ordered x (before j isSlot x found))
      refine ⟨_, isSlot_slotForGeneration prev.generation, ?_⟩
      rw [← committing.root prev last]
      refine crashed.of_not_pending fun p held here => ?_
      rw [committing.pending p held] at here
      exact slotForGeneration_ne (allowed prev last) here.symm
  · obtain ⟨other, durable⟩ := committing.latest i data latest
    rw [← durable]
    refine crashed.of_not_pending fun p held here => other ?_
    rw [← here, committing.pending p held]
    exact isSlot_slotForGeneration _

end NexaCore.Fs.V3
