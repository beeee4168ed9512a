import Mathlib.Tactic

/-!
# Histories of a queue that can lose its head

A queue takes elements at the back; its head is delivered to a consumer or evicted. A
`QueueHistory` records the elements accepted, those handed to consumers and, in order, how each
element left; `Explains` relates it to the elements still queued.
-/

namespace NexaCore.Misc

open List

universe u v

/-- How an element left the head of the queue. -/
inductive Departure where
  | delivered
  | evicted
  deriving DecidableEq, Repr

/-- The elements of a sequence that are not evicted, where `departures` says in
order how the first of them left. -/
def survivors {β : Type u} : List β → List Departure → List β
  | x :: xs, .delivered :: departures => x :: survivors xs departures
  | _ :: xs, .evicted :: departures => survivors xs departures
  | xs, _ => xs

/-- What has been observed of a queue: the elements accepted, the elements
returned to consumers and how each element that is gone has left. -/
structure QueueHistory (β : Type u) (α : Type v) where
  accepted : List β
  returned : List α
  departures : List Departure

namespace QueueHistory

variable {β : Type u} {α : Type v}

def empty : QueueHistory β α := ⟨[], [], []⟩

def accept (h : QueueHistory β α) (x : β) : QueueHistory β α :=
  { h with accepted := h.accepted ++ [x] }

def deliver (h : QueueHistory β α) (y : α) : QueueHistory β α :=
  { h with returned := h.returned ++ [y], departures := h.departures ++ [.delivered] }

def evict (h : QueueHistory β α) : QueueHistory β α :=
  { h with departures := h.departures ++ [.evicted] }

end QueueHistory

theorem survivors_nil {β : Type u} (xs : List β) : survivors xs [] = xs := by
  cases xs <;> rfl

variable {departures : List Departure}

theorem survivors_concat {β : Type u} (x : β) {xs : List β}
    (enough : departures.length ≤ xs.length) :
    survivors (xs ++ [x]) departures = survivors xs departures ++ [x] := by
  fun_induction survivors xs departures with
  | case1 y ys departures ih | case2 y ys departures ih =>
    simp [survivors, ih (by simpa using enough)]
  | case3 xs departures =>
    cases departures with
    | nil => exact survivors_nil _
    | cons d departures => cases d <;> cases xs <;> simp_all

/-- A delivery deletes nothing; an eviction deletes the first survivor that has not been
delivered. -/
theorem survivors_departed {β : Type u} {xs : List β} (enough : departures.length < xs.length)
    (d : Departure) :
    survivors xs (departures ++ [d]) = match d with
      | .delivered => survivors xs departures
      | .evicted => (survivors xs departures).eraseIdx (departures.count .delivered) := by
  fun_induction survivors xs departures with
  | case1 y ys departures ih | case2 y ys departures ih =>
    have shorter := ih (by simpa using enough)
    cases d <;> simpa [survivors] using shorter
  | case3 xs departures =>
    cases xs with
    | nil => simp at enough
    | cons y ys =>
      cases departures with
      | nil => cases d <;> simp [survivors, survivors_nil]
      | cons first => cases first <;> simp_all

theorem survivors_of_delivered {β : Type u} {xs : List β} (all : ∀ d ∈ departures, d = .delivered) :
    survivors xs departures = xs := by
  fun_induction survivors xs departures with
  | case1 y ys departures ih => rw [ih fun d mem => all d (.tail _ mem)]
  | case2 => cases all _ (.head _)
  | case3 => rfl

theorem survivors_sublist {β : Type u} (xs : List β) (departures : List Departure) :
    (survivors xs departures).Sublist xs := by
  fun_induction survivors xs departures with
  | case1 y ys departures ih => exact ih.cons_cons y
  | case2 y ys departures ih => exact ih.cons y
  | case3 => exact .refl _

namespace QueueHistory

variable {β : Type u} {α : Type v}

/-- The queue holds, in order and seen through `view`, the accepted elements that
are neither returned nor evicted, and the returned ones came before them. -/
structure Explains (view : β → α) (h : QueueHistory β α) (queue : List α) : Prop where
  order : h.returned ++ queue = (survivors h.accepted h.departures).map view
  returned_count : h.returned.length = h.departures.count .delivered
  accounted : h.departures.length + queue.length = h.accepted.length

namespace Explains

variable {view : β → α} {h : QueueHistory β α} {queue : List α}

theorem empty : (QueueHistory.empty : QueueHistory β α).Explains view [] :=
  ⟨rfl, rfl, rfl⟩

theorem accept (explains : h.Explains view queue) (x : β) :
    (h.accept x).Explains view (queue ++ [view x]) where
  order := by
    have enough : h.departures.length ≤ h.accepted.length := by
      have := explains.accounted
      omega
    rw [QueueHistory.accept, survivors_concat x enough, map_append, ← explains.order]
    simp
  returned_count := explains.returned_count
  accounted := by
    have := explains.accounted
    simp only [QueueHistory.accept, length_append, length_singleton]
    omega

variable {y : α}

theorem enough (explains : h.Explains view (y :: queue)) :
    h.departures.length < h.accepted.length := by
  have := explains.accounted
  simp only [length_cons] at this
  omega

theorem deliver (explains : h.Explains view (y :: queue)) : (h.deliver y).Explains view queue where
  order := by
    rw [QueueHistory.deliver, survivors_departed explains.enough, ← explains.order]
    simp
  returned_count := by
    simp [QueueHistory.deliver, explains.returned_count]
  accounted := by
    simp [QueueHistory.deliver, ← explains.accounted, add_right_comm, add_assoc]

theorem evict (explains : h.Explains view (y :: queue)) : h.evict.Explains view queue where
  order := by
    rw [QueueHistory.evict, survivors_departed explains.enough, ← eraseIdx_map, ← explains.order,
      ← explains.returned_count, eraseIdx_append_of_length_le (le_rfl)]
    simp
  returned_count := by
    simp [QueueHistory.evict, explains.returned_count]
  accounted := by
    simp [QueueHistory.evict, ← explains.accounted, add_right_comm, add_assoc]

theorem lossless (explains : h.Explains view queue)
    (all : ∀ d ∈ h.departures, d = .delivered) :
    h.returned ++ queue = h.accepted.map view := by
  rw [explains.order, survivors_of_delivered all]

theorem accepted_of_returned (explains : h.Explains view queue) (mem : y ∈ h.returned) :
    ∃ x ∈ h.accepted, view x = y := by
  have survived : y ∈ (survivors h.accepted h.departures).map view := by
    rw [← explains.order]
    exact mem_append_left _ mem
  obtain ⟨x, member, eq⟩ := List.mem_map.mp survived
  exact ⟨x, (survivors_sublist _ _).subset member, eq⟩

end Explains

end QueueHistory

end NexaCore.Misc
