import NexaCore.Installer.Proofs.Flash
import NexaCore.Misc.Run

/-!
# Updates and boots

A machine is the boot-control block together with what a run knows of the images in the slots. A
slot that is marked successful holds a proven image, and an update that is started from such a slot
leaves it in place.
-/

namespace NexaCore.Installer

open Misc Function AbState

/-- The boot-control block with the history of the images. -/
structure Machine where
  state : AbState := .new
  /-- The slot booted last, and whether it still holds the image that was booted. -/
  booted : Option Slot := none
  intact : Bool := true
  /-- The image of a slot has booted successfully or is the installed one. -/
  proven : Slot → Bool := (· = .a)
  /-- How often a slot was booted since its last update. -/
  chosen : Slot → Nat := fun _ => 0

/-- What happens to a machine. An update brings the device of the slot, the image and the number of
device operations after which it is cut off. -/
inductive Event (D : Type)
  | update (dev : D) (image : List UInt8) (budget : Nat)
  | boot
  | mark

namespace Machine

variable {D : Type}

/-- An update writes to `target_slot`, and is finished if the write succeeds. -/
def step (device : BlockDevice D) (m : Machine) : Event D → Machine
  | .update dev image budget =>
    let target := m.state.targetSlot
    let written := writeImageToSlot device image target ⟨dev, m.state, budget, []⟩
    { state := match written.1 with
        | .ok () => written.2.state.finishUpdate target
        | .error _ => written.2.state
      booted := m.booted
      intact := m.intact && m.booted ≠ some target
      proven := update m.proven target false
      chosen := update m.chosen target 0 }
  | .boot =>
    match m.state.bootSlot with
    | none => m
    | some slot => { m with
        state := m.state.recordBoot slot
        booted := some slot
        intact := true
        chosen := update m.chosen slot (m.chosen slot + 1) }
  | .mark =>
    match m.booted with
    | none => m
    | some slot => { m with
        state := m.state.markSuccessful slot
        proven := if m.intact then update m.proven slot true else m.proven }

def system (device : BlockDevice D) : Lts Machine (Event D) := fun m event m' =>
  m' = m.step device event

/-- A proven slot is bootable, and an image that is not proven is tried `MAX_TRIES` times. -/
structure Safe (m : Machine) : Prop where
  bootable : ∃ slot, (m.state.slot slot).isBootable = true ∧ m.proven slot = true
  tries : ∀ slot, m.proven slot = false → m.chosen slot ≤ maxTries

/-- An update is started where the slot that boots next is marked successful, and the other slot is
not the one booted last. -/
def Careful (m : Machine) : Event D → Prop
  | .update .. => ∃ slot, m.state.bootSlot = some slot ∧ (m.state.slot slot).successful = true ∧
      m.booted ≠ some slot.other
  | _ => True

/-! ## The invariant -/

/-- The flags of a slot are true of its image, and its tries are those left of `MAX_TRIES`. -/
structure Fits (info : SlotInfo) (proven : Bool) (chosen : Nat) : Prop where
  proven : info.successful = true → proven = true
  tries : info.successful = false → chosen + info.triesRemaining ≤ maxTries

/-- Every slot fits its history, and one that is marked successful is enabled. -/
structure Inv (m : Machine) : Prop where
  kept : ∃ slot, (m.state.slot slot).successful = true ∧ 0 < (m.state.slot slot).priority
  fits : ∀ slot, Fits (m.state.slot slot) (m.proven slot) (m.chosen slot)
  intact : m.intact = true

variable {m : Machine} {slot : Slot}

theorem Inv.safe (inv : m.Inv) : m.Safe where
  bootable := by
    obtain ⟨slot, successful, positive⟩ := inv.kept
    exact ⟨slot, by simp [SlotInfo.isBootable, successful, positive],
      (inv.fits slot).proven successful⟩
  tries slot unproven := by
    have unmarked : (m.state.slot slot).successful = false := by
      rw [Bool.eq_false_iff]
      intro successful
      rw [(inv.fits slot).proven successful] at unproven
      cases unproven
    exact (Nat.le_add_right _ _).trans ((inv.fits slot).tries unmarked)

theorem targetSlot_of_bootSlot (boots : m.state.bootSlot = some slot) :
    m.state.targetSlot = slot.other := by
  rw [targetSlot, boots]
  rfl

variable (device : BlockDevice D)

/-- An update replaces the other slot, and at most lowers the priority of the slot that boots. -/
theorem slot_update (boots : m.state.bootSlot = some slot) (dev : D) (image : List UInt8)
    (budget : Nat) :
    (∃ priority > 0, (m.step device (.update dev image budget)).state.slot slot =
      { m.state.slot slot with priority }) ∧
    ∃ priority, ∃ tries ≤ maxTries,
      (m.step device (.update dev image budget)).state.slot slot.other =
        ⟨priority, tries, false⟩ := by
  have bootable := bootable_of_bootSlot boots
  simp only [SlotInfo.isBootable, Bool.and_eq_true, decide_eq_true_eq] at bootable
  have begun := writeImageToSlot_state device image slot.other ⟨dev, m.state, budget, []⟩
  rw [if_neg fun same => other_ne slot (Option.some.inj (same.symm.trans boots))] at begun
  simp only [step, targetSlot_of_bootSlot boots]
  split <;> rw [begun]
  · refine ⟨⟨min (m.state.slot slot).priority (maxPriority - 1), lt_min bootable.1 (by decide), ?_⟩,
      maxPriority, maxTries, le_rfl, ?_⟩ <;> cases slot <;> rfl
  · refine ⟨⟨(m.state.slot slot).priority, bootable.1, ?_⟩, 0, 0, Nat.zero_le _, ?_⟩ <;>
      cases slot <;> rfl

variable {device}

theorem Inv.updated (inv : m.Inv) (boots : m.state.bootSlot = some slot)
    (successful : (m.state.slot slot).successful = true) (running : m.booted ≠ some slot.other)
    (dev : D) (image : List UInt8) (budget : Nat) :
    (m.step device (.update dev image budget)).Inv := by
  obtain ⟨⟨priority, positive, same⟩, _, tries, few, replaced⟩ :=
    slot_update device boots dev image budget
  refine ⟨⟨slot, same ▸ successful, same ▸ positive⟩, fun other => ?_, ?_⟩
  · simp only [step, targetSlot_of_bootSlot boots] at same replaced ⊢
    by_cases here : other = slot.other
    · rw [here, replaced, update_self, update_self]
      exact ⟨by simp, by simpa using few⟩
    · obtain rfl : other = slot := by rw [eq_other_of_ne here, other_other]
      rw [same, update_of_ne here, update_of_ne here]
      exact ⟨(inv.fits other).proven, (inv.fits other).tries⟩
  · simp [step, inv.intact, targetSlot_of_bootSlot boots, running]

theorem Inv.boot (inv : m.Inv) (boots : m.state.bootSlot = some slot) :
    (m.step device .boot).Inv := by
  have bootable := bootable_of_bootSlot boots
  have after : ∀ other, ∃ triesRemaining,
      (m.state.recordBoot slot).slot other = { m.state.slot other with triesRemaining } ∧
        ((m.state.slot other).successful = false →
          update m.chosen slot (m.chosen slot + 1) other + triesRemaining ≤ maxTries) := by
    intro other
    have tries := (inv.fits other).tries
    unfold recordBoot
    dsimp only
    by_cases here : other = slot
    · subst here
      rw [update_self]
      split <;> rename_i successful
      · exact ⟨_, rfl, by simp [successful]⟩
      · -- a slot that is bootable without the flag has a try left
        simp only [SlotInfo.isBootable, successful, Bool.false_or, Bool.and_eq_true,
          decide_eq_true_eq] at bootable
        refine ⟨_, slot_setSlot_self, fun unmarked => ?_⟩
        have left := tries unmarked
        omega
    · rw [update_of_ne here]
      refine ⟨_, ?_, tries⟩
      split
      · rfl
      · exact slot_setSlot_of_ne here
  simp only [step, boots]
  obtain ⟨proven, successful, positive⟩ := inv.kept
  refine ⟨⟨proven, ?_⟩, fun other => ?_, rfl⟩
  · obtain ⟨_, same, -⟩ := after proven
    exact same ▸ ⟨successful, positive⟩
  · obtain ⟨_, same, tries⟩ := after other
    exact same ▸ ⟨(inv.fits other).proven, tries⟩

theorem Inv.step {event : Event D} (inv : m.Inv) (careful : m.Careful event) :
    (m.step device event).Inv := by
  cases event with
  | update dev image budget =>
    obtain ⟨slot, boots, successful, running⟩ := careful
    exact inv.updated boots successful running dev image budget
  | boot =>
    cases boots : m.state.bootSlot with
    | none => simpa only [Machine.step, boots] using inv
    | some slot => exact inv.boot boots
  | mark =>
    simp only [Machine.step]
    split
    · exact inv
    · rename_i slot booted
      refine ⟨⟨slot, by simp [markSuccessful], by simp [markSuccessful, maxPriority]⟩,
        fun other => ?_, inv.intact⟩
      rw [if_pos inv.intact, markSuccessful]
      dsimp only
      by_cases here : other = slot
      · rw [here, slot_setSlot_self, update_self]
        exact ⟨fun _ => rfl, by simp⟩
      · rw [slot_setSlot_of_ne here, update_of_ne here]
        exact inv.fits other

/-- In every run in which updates are started from the slot booted last, after it was marked
successful, a proven slot stays bootable and an image that never boots has `MAX_TRIES` tries. -/
theorem updates_never_brick {events : List (Event D)} {m : Machine}
    (run : Run ((system device).restrict Careful) {} events m) : m.Safe := by
  refine (run.invariant Inv (fun m event m' inv taken => ?_) ⟨⟨.a, rfl, by decide⟩, ?_, rfl⟩).safe
  · rw [taken.2]
    exact inv.step taken.1
  · intro slot
    cases slot <;> exact ⟨by decide, by decide⟩

variable {dev : D} {image : List UInt8} {budget : Nat}

/-- The machine with an update in the slot beside the one that boots. -/
def updated (m : Machine) (slot : Slot) : Machine where
  state := (m.state.beginUpdate slot.other).finishUpdate slot.other
  booted := m.booted
  intact := m.intact && m.booted ≠ some slot.other
  proven := update m.proven slot.other false
  chosen := update m.chosen slot.other 0

theorem step_written (boots : m.state.bootSlot = some slot)
    (written : (writeImageToSlot device image slot.other ⟨dev, m.state, budget, []⟩).1 = .ok ()) :
    m.step device (.update dev image budget) = m.updated slot := by
  have begun := writeImageToSlot_state device image slot.other ⟨dev, m.state, budget, []⟩
  rw [if_neg fun inUse => other_ne slot (Option.some.inj (inUse.symm.trans boots))] at begun
  simp only [step, targetSlot_of_bootSlot boots, written, begun, updated]

def ram : BlockDevice (List Block) where
  blockCount := List.length
  readBlock dev index := (dev[index]?.elim (.error .blockOutOfRange) .ok, dev)
  writeBlock dev index block :=
    if index < dev.length then (.ok (), dev.set index block) else (.error .blockOutOfRange, dev)
  flush dev := (.ok (), dev)

/-- An update on two blocks that is not cut off. -/
def flashed : Event (List Block) := .update [[], []] [1, 2, 3] 3

theorem ram_written {state : AbState} (boots : state.bootSlot = some slot)
    (single : List.range (chunkCount image) = [0]) (short : image.length ≤ 2 * blockSize) :
    (writeImageToSlot ram image slot.other ⟨[[], []], state, 3, []⟩).1 = .ok () := by
  have free : some slot ≠ some slot.other := fun same => other_ne slot (Option.some.inj same).symm
  have fits : ¬image.length > min (ram.blockCount [[], []] * blockSize) (2 ^ 64 - 1) :=
    Nat.not_lt.mpr (le_min short (short.trans (by decide)))
  simp only [writeImageToSlot, boots, free, fits, single, writeBlocks, verifyBlocks]
  generalize imageBlock image 0 = block
  simp [ram, Flash.issue, andThen, Except.mapError]

theorem flashed_written {state : AbState} (boots : state.bootSlot = some slot) :
    (writeImageToSlot ram [1, 2, 3] slot.other ⟨[[], []], state, 3, []⟩).1 = .ok () :=
  ram_written boots (by decide) (by decide)

theorem step_flashed (slot : Slot) (boots : m.state.bootSlot = some slot) :
    m.updated slot = m.step ram flashed :=
  (step_written boots (flashed_written boots)).symm

theorem updates_never_brick_marked :
    ∃ m, Run ((system ram).restrict Careful) {} [flashed, .boot, .mark, flashed] m ∧ m.Safe ∧
      m.state.bootSlot = some .a := by
  have run : Run ((system ram).restrict Careful) {} [flashed, .boot, .mark, flashed] _ :=
    .cons ⟨⟨.a, by decide, by decide, by decide⟩, step_flashed .a (by decide)⟩
      (.cons ⟨trivial, rfl⟩ (.cons ⟨trivial, rfl⟩ (.single
        ⟨⟨.b, by decide, by decide, by decide⟩, step_flashed .b (by decide)⟩)))
  exact ⟨_, run, updates_never_brick run, by decide⟩

/-- A second update before the first one is marked successful disables the installed system. -/
theorem second_update_bricks : ∃ m, Run (system ram) {} [flashed, .boot, flashed] m ∧ ¬m.Safe := by
  refine ⟨_, .cons (step_flashed .a (by decide)) (.cons rfl
    (.single (step_flashed .b (by decide)))), ?_⟩
  rintro ⟨⟨slot, -, proven⟩, -⟩
  cases slot <;> exact absurd proven (by decide)

/-! ## Trial boots -/

/-- The machine after `n` boots in a row. -/
def rebooted (device : BlockDevice D) (m : Machine) (n : Nat) : Machine :=
  (·.step device .boot)^[n] m

theorem rebooted_succ (n : Nat) :
    m.rebooted device (n + 1) = (m.rebooted device n).step device .boot :=
  iterate_succ_apply' ..

theorem bootSlot_of_higher {state : AbState} (bootable : (state.slot slot).isBootable = true)
    (higher : (state.slot slot.other).priority < (state.slot slot).priority) :
    state.bootSlot = some slot := by
  cases other : (state.slot slot.other).isBootable with
  | false => exact bootSlot_of_only bootable other
  | true => cases slot <;> simp_all [bootSlot, Slot.other, Nat.le_of_lt]

theorem state_rebooted (boots : m.state.bootSlot = some slot)
    (successful : (m.state.slot slot).successful = true) (n : Nat) :
    (m.rebooted device n).state = m.state := by
  induction n with
  | zero => rfl
  | succ n ih =>
    rw [rebooted_succ, step, ih, boots]
    simp [recordBoot, successful]

/-- The image in the other slot was booted `n` times and not marked, and `slot` is the way back. -/
structure Trial (slot : Slot) (n : Nat) (m : Machine) : Prop where
  tried : m.state.slot slot.other = ⟨maxPriority, maxTries - n, false⟩
  successful : (m.state.slot slot).successful = true
  enabled : 0 < (m.state.slot slot).priority
  lower : (m.state.slot slot).priority < maxPriority
  booted : 0 < n → n ≤ maxTries → m.booted = some slot.other

variable {n : Nat}

theorem Trial.bootSlot (trial : Trial slot n m) :
    m.state.bootSlot = some (if n < maxTries then slot.other else slot) := by
  obtain ⟨tried, successful, enabled, lower, -⟩ := trial
  split <;> rename_i left
  · refine bootSlot_of_higher ?_ ?_
    · rw [tried, SlotInfo.isBootable]
      simpa [maxPriority] using left
    · rwa [other_other, tried]
  · refine bootSlot_of_only ?_ ?_
    · simp [SlotInfo.isBootable, successful, enabled]
    · rw [tried, SlotInfo.isBootable, Nat.sub_eq_zero_of_le (Nat.le_of_not_lt left)]
      rfl

theorem Trial.boot (trial : Trial slot n m) : Trial slot (n + 1) (m.step device .boot) := by
  have boots := trial.bootSlot
  obtain ⟨tried, successful, enabled, lower, -⟩ := trial
  simp only [Machine.step, boots]
  by_cases left : n < maxTries
  · rw [if_pos left, recordBoot, tried, if_neg (by simp)]
    refine ⟨slot_setSlot_self, ?_, ?_, ?_, fun _ _ => rfl⟩ <;>
      rwa [slot_setSlot_of_ne (other_ne slot).symm]
  · rw [if_neg left, recordBoot, if_pos successful]
    refine ⟨?_, successful, enabled, lower, fun _ few => absurd few (by omega)⟩
    rw [tried, Nat.sub_eq_zero_of_le (by omega), Nat.sub_eq_zero_of_le (by omega)]

theorem Trial.rebooted (trial : Trial slot 0 m) (n : Nat) : Trial slot n (m.rebooted device n) := by
  induction n with
  | zero => exact trial
  | succ n ih =>
    rw [rebooted_succ]
    exact ih.boot

theorem Trial.of_update (boots : m.state.bootSlot = some slot)
    (successful : (m.state.slot slot).successful = true)
    (written : (writeImageToSlot device image slot.other ⟨dev, m.state, budget, []⟩).1 = .ok ()) :
    Trial slot 0 (m.step device (.update dev image budget)) := by
  obtain ⟨⟨_, positive, same⟩, -⟩ := slot_update device boots dev image budget
  rw [step_written boots written] at same ⊢
  refine ⟨?_, same ▸ successful, same ▸ positive, ?_, fun none => absurd none (by simp)⟩
  · rw [updated, finishUpdate, slot_setSlot_self]
    rfl
  · -- `finish_update` leaves the slot of the way back at most `MAX_PRIORITY - 1`.
    cases slot <;> exact (min_le_right ..).trans_lt (by decide)

theorem Trial.bootSlot_mark (trial : Trial slot n m) (begun : 0 < n) (few : n ≤ maxTries)
    (k : Nat) : ((m.step device .mark).rebooted device k).state.bootSlot = some slot.other := by
  have marked : (m.step device .mark).state = m.state.markSuccessful slot.other := by
    rw [Machine.step, trial.booted begun few]
  have chosen : (m.step device .mark).state.bootSlot = some slot.other := by
    have lower := trial.lower
    rw [marked, markSuccessful]
    refine bootSlot_of_higher ?_ ?_
    · rw [slot_setSlot_self]
      rfl
    · rwa [slot_setSlot_self, other_other, slot_setSlot_of_ne (other_ne slot).symm]
  rw [state_rebooted chosen, chosen]
  rw [marked, markSuccessful, slot_setSlot_self]

/-- A written update is booted `MAX_TRIES` times and then given up for the slot it was started from;
marked after one of these boots, it is booted from then on. -/
theorem trial_boots_exact (boots : m.state.bootSlot = some slot)
    (successful : (m.state.slot slot).successful = true)
    (written : (writeImageToSlot device image slot.other ⟨dev, m.state, budget, []⟩).1 = .ok ())
    (n : Nat) :
    let tried := (m.step device (.update dev image budget)).rebooted device n
    tried.state.bootSlot = some (if n < maxTries then slot.other else slot) ∧
    (0 < n → n ≤ maxTries → ∀ k,
      ((tried.step device .mark).rebooted device k).state.bootSlot = some slot.other) := by
  intro tried
  have trial : Trial slot n tried := (Trial.of_update boots successful written).rebooted n
  exact ⟨trial.bootSlot, trial.bootSlot_mark⟩

/-- An update that never boots through is given up after seven boots. -/
theorem trial_boots_exact_flashed :
    ((({} : Machine).step ram flashed).rebooted ram 6).state.bootSlot = some .b ∧
      ((({} : Machine).step ram flashed).rebooted ram 7).state.bootSlot = some .a := by
  have boots : ({} : Machine).state.bootSlot = some .a := by decide
  have tried := trial_boots_exact boots rfl (flashed_written boots)
  exact ⟨(tried 6).1, (tried 7).1⟩

end Machine

end NexaCore.Installer
