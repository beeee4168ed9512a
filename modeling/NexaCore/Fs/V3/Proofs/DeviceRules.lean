import NexaCore.Fs.V3.Proofs.Transparency

/-!
# What the cache does to its device

The cache writes only dirty blocks to its device. What holds of the device and is kept by
writes to those blocks is kept by every call (`read_dev`, `write_dev`, `writeback_dev`), and
where the device takes them `writeback` succeeds.
-/

namespace NexaCore.Fs.V3.BlockCache

open Misc BlockDevice

variable {D : Type} [BlockDevice D] {c : BlockCache D} {Q : D → Prop} {S : Nat → Prop}
  {index i : Nat}

theorem dropVictim_dev {v : Nat} (closed : ∀ d v block, S v → Q d → Q (writeBlock d v block).2)
    (changed : ∀ e, c.entries[v]? = some e → e.dirty = true → S v) (dev : Q c.dev) :
    Q (c.dropVictim v).2.dev := by
  cases found : c.entries[v]? with
  | none =>
    rw [dropVictim, found]
    exact dev
  | some e =>
    cases flag : e.dirty with
    | false =>
      rw [dropVictim_of_clean found flag]
      exact dev
    | true =>
      have written := closed c.dev v e.data (changed e found flag) dev
      rw [dropVictim_of_dirty found flag]
      exact andThen_state (P := fun c' : BlockCache D => Q c'.dev) written fun _ _ => written

theorem dropVictim_entries {v : Nat} (i : Nat) :
    (c.dropVictim v).2.entries[i]? = if i = v then none else c.entries[i]? := by
  rw [dropVictim]
  split
  · rename_i absent
    split
    · rename_i same
      rw [same, absent]
    · rfl
  · rw [← getElem?_erase_eq]
    dsimp only
    split
    · exact andThen_state
        (P := fun c' : BlockCache D => c'.entries[i]? = (c.entries.erase v)[i]?) rfl
        fun _ _ => rfl
    · rfl

theorem dropVictim_dirty {v : Nat} (left : i ∈ (c.dropVictim v).2.dirty) : i ∈ c.dirty := by
  rw [dropVictim] at left
  split at left
  · exact left
  · dsimp only at left
    split at left
    · revert left
      exact andThen_state (P := fun c' : BlockCache D => i ∈ c'.dirty → i ∈ c.dirty) id
        fun _ _ left => (mem_dirty_erase.mp left).2
    · exact left

/-- Eviction writes only dirty blocks other than the protected one. -/
theorem evictLoop_dev {protect : Nat} (fuel : Nat)
    (closed : ∀ d v block, S v → Q d → Q (writeBlock d v block).2)
    (changed : ∀ v e, c.entries[v]? = some e → e.dirty = true → v ≠ protect → S v) (dev : Q c.dev) :
    Q (evictLoop protect fuel c).2.dev := by
  induction fuel generalizing c with
  | zero => exact dev
  | succ fuel ih =>
    rw [evictLoop]
    split
    · cases chosen : c.victim protect with
      | none => exact dev
      | some v =>
        have other := (victim_mem chosen).1
        have dropped := dropVictim_dev closed (fun e found flag => changed v e found flag other) dev
        refine andThen_state (P := fun c' : BlockCache D => Q c'.dev) dropped fun _ _ => ?_
        refine ih (fun i e held => ?_) dropped
        rw [dropVictim_entries] at held
        split at held
        · cases held
        · exact changed i e held
    · exact dev

theorem evictLoop_dirty {protect : Nat} (fuel : Nat)
    (left : i ∈ (evictLoop protect fuel c).2.dirty) : i ∈ c.dirty := by
  induction fuel generalizing c with
  | zero => exact left
  | succ fuel ih =>
    rw [evictLoop] at left
    split at left
    · cases chosen : c.victim protect with
      | none =>
        rw [chosen] at left
        exact left
      | some v =>
        rw [chosen] at left
        revert left
        exact andThen_state (P := fun c' : BlockCache D => i ∈ c'.dirty → i ∈ c.dirty)
          dropVictim_dirty fun _ _ left => dropVictim_dirty (ih left)
    · exact left

theorem read_dev (closed : ∀ d v block, S v → Q d → Q (writeBlock d v block).2)
    (changed : ∀ v e, c.entries[v]? = some e → e.dirty = true → S v) (dev : Q c.dev) :
    Q (c.read index).2.dev := by
  cases here : c.entries[index]? with
  | some e =>
    rw [read_hit here]
    exact dev
  | none =>
    cases loaded : readBlock c.dev index with
    | error e =>
      rw [read_failed here loaded]
      exact dev
    | ok data =>
      rw [read_miss here loaded, andThen_keep fun _ _ => rfl]
      refine evictLoop_dev _ closed (fun v e held flag other => ?_) dev
      rw [getElem?_insert_eq, if_neg other] at held
      exact changed v e held flag

theorem read_dirty (left : i ∈ (c.read index).2.dirty) : i ∈ c.dirty := by
  cases here : c.entries[index]? with
  | some e =>
    rw [read_hit here] at left
    exact left
  | none =>
    cases loaded : readBlock c.dev index with
    | error e =>
      rw [read_failed here loaded] at left
      exact left
    | ok data =>
      rw [read_miss here loaded, andThen_keep fun _ _ => rfl] at left
      have kept := evictLoop_dirty _ left
      exact kept

theorem write_dev {data : Block}
    (closed : ∀ d v block, S v → Q d → Q (writeBlock d v block).2)
    (changed : ∀ v e, c.entries[v]? = some e → e.dirty = true → S v) (dev : Q c.dev) :
    Q (c.write index data).2.dev := by
  by_cases inside : index < blockCount c.dev
  · rw [write_of_lt data inside]
    refine evictLoop_dev _ closed (fun v e held flag other => ?_) dev
    rw [getElem?_insert_eq, if_neg other] at held
    exact changed v e held flag
  · rw [write_of_ge (Nat.not_lt.mp inside)]
    exact dev

theorem write_dirty {data : Block} (left : i ∈ (c.write index data).2.dirty) :
    (i = index ∧ index < blockCount c.dev) ∨ i ∈ c.dirty := by
  by_cases inside : index < blockCount c.dev
  · rw [write_of_lt data inside] at left
    exact (mem_dirty_insert.mp (evictLoop_dirty _ left)).imp_left fun same => ⟨same, inside⟩
  · rw [write_of_ge (Nat.not_lt.mp inside)] at left
    exact Or.inr left

/-- One turn of the loop of `writeback`, from the device's side. -/
theorem writebackLoop_dev (pending : List Nat) (written : Nat)
    (closed : ∀ d v block, S v → Q d → Q (writeBlock d v block).2)
    (accepts : ∀ d v block, S v → Q d → (writeBlock d v block).1 = .ok ())
    (changed : ∀ v e, c.entries[v]? = some e → e.dirty = true → S v) (dev : Q c.dev) :
    Q (writebackLoop pending written c).2.dev ∧
      ∃ total, (writebackLoop pending written c).1 = .ok total := by
  induction pending generalizing c written with
  | nil => exact ⟨dev, written, rfl⟩
  | cons index pending ih =>
    rw [writebackLoop]
    cases here : c.entries[index]? with
    | none => exact ih written changed dev
    | some e =>
      dsimp only
      split
      · rename_i flag
        have safe := changed index e here flag
        rw [onDevice, accepts c.dev index e.data safe dev, andThen_ok]
        refine ih _ (fun v e' held flag' => ?_) (closed _ _ _ safe dev)
        rcases insert_eq_some.mp held with ⟨-, rfl⟩ | ⟨-, held⟩
        · cases flag'
        · exact changed v e' held flag'
      · exact ih written changed dev

end NexaCore.Fs.V3.BlockCache
