import Mathlib

/-!
# Disks with a volatile write buffer

Writes are buffered until the next flush. At a crash each buffered write is lost, kept or torn,
independently of the others; what a torn write may leave is a parameter. A place without a
buffered write keeps its durable contents (`Crashed.of_not_pending`).
-/

namespace NexaCore.Misc

open Function List

/-- Durable contents and the writes since the last flush, oldest first. -/
structure BufferedDisk (β : Type) where
  durable : Nat → β
  pending : List (Nat × β)

namespace BufferedDisk

variable {β : Type} {disk : BufferedDisk β} {i : Nat}

/-- The contents after a list of writes. -/
def apply (writes : List (Nat × β)) (durable : Nat → β) : Nat → β :=
  writes.foldl (fun contents write => update contents write.1 write.2) durable

/-- What a read sees. -/
def content (disk : BufferedDisk β) : Nat → β := apply disk.pending disk.durable

def write (disk : BufferedDisk β) (i : Nat) (b : β) : BufferedDisk β :=
  { disk with pending := disk.pending ++ [(i, b)] }

def flush (disk : BufferedDisk β) : BufferedDisk β := ⟨disk.content, []⟩

@[simp] theorem content_write (b : β) : (disk.write i b).content = update disk.content i b := by
  rw [content, write, apply, foldl_append]
  rfl

@[simp] theorem content_flush : disk.flush.content = disk.content := rfl

theorem mem_pending_write {b : β} {p : Nat × β} (pending : p ∈ (disk.write i b).pending) :
    p ∈ disk.pending ∨ p = (i, b) := by
  rw [write, mem_append, mem_singleton] at pending
  exact pending

theorem apply_of_not_mem {writes : List (Nat × β)} (other : ∀ p ∈ writes, p.1 ≠ i)
    (durable : Nat → β) : apply writes durable i = durable i := by
  induction writes generalizing durable with
  | nil => rfl
  | cons p rest ih =>
    have later := ih (fun q held => other q (.tail _ held))
      (update durable p.1 p.2)
    rw [update_of_ne (other p (.head _)).symm] at later
    exact later

theorem content_of_not_pending (other : ∀ p ∈ disk.pending, p.1 ≠ i) :
    disk.content i = disk.durable i :=
  apply_of_not_mem other disk.durable

/-- The contents that a crash may leave: each write is lost, kept or torn. -/
inductive Crashed (torn : Nat → β → Prop) : List (Nat × β) → (Nat → β) → (Nat → β) → Prop
  | done (contents : Nat → β) : Crashed torn [] contents contents
  | lost {i : Nat} {b : β} {rest : List (Nat × β)} {contents image : Nat → β} :
      Crashed torn rest contents image → Crashed torn ((i, b) :: rest) contents image
  | landed {i : Nat} {b left : β} {rest : List (Nat × β)} {contents image : Nat → β} :
      left = b ∨ torn i left → Crashed torn rest (update contents i left) image →
        Crashed torn ((i, b) :: rest) contents image

variable {torn : Nat → β → Prop} {writes : List (Nat × β)} {contents image : Nat → β}

/-- A place holds what it held, one of the writes to it, or what a torn one left. -/
theorem Crashed.value (crashed : Crashed torn writes contents image) (i : Nat) :
    image i = contents i ∨ ∃ p ∈ writes, p.1 = i ∧ (image i = p.2 ∨ torn i (image i)) := by
  induction crashed with
  | done contents => exact .inl rfl
  | lost _ ih =>
    rcases ih with same | ⟨p, held, value⟩
    · exact .inl same
    · exact .inr ⟨p, .tail _ held, value⟩
  | @landed j b left rest contents image landed _ ih =>
    rcases ih with same | ⟨p, held, value⟩
    · by_cases place : i = j
      · subst place
        rw [update_self] at same
        refine .inr ⟨_, .head _, rfl, ?_⟩
        rw [same]
        exact landed
      · rw [update_of_ne place] at same
        exact .inl same
    · exact .inr ⟨p, .tail _ held, value⟩

theorem Crashed.of_not_pending (crashed : Crashed torn writes contents image)
    (other : ∀ p ∈ writes, p.1 ≠ i) : image i = contents i := by
  rcases crashed.value i with same | ⟨p, held, here, -⟩
  · exact same
  · exact absurd here (other p held)

end BufferedDisk

end NexaCore.Misc
