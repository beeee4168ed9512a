import NexaCore.Kernel.Scheduling.RoundRobin
import NexaCore.Misc.QueueFamily

/-!
# What a pick does

`serves` names the class that `pick_next` takes its task from, and
`pickNext_cases` says what the call does in terms of it. The proofs about runs of
the scheduler use these and never unfold `pickNext`.
-/

namespace NexaCore.Scheduling

open Misc Function Option List

namespace RoundRobinScheduler

/-- The first class in strict order with a runnable task. -/
def firstRunnable (s : RoundRobinScheduler) : Option PriorityClass :=
  PriorityClass.all.find? (fun c => decide (s.runQueues c ≠ []))

/-- The class that the next pick serves. -/
def serves (s : RoundRobinScheduler) : Option PriorityClass :=
  if s.runQueues .realTime ≠ [] then some .realTime
  else
    match (fairnessCycleFor s.thermal).get (slotOf s.pickCounter) with
    | none => s.firstRunnable
    | some c => if s.runQueues c ≠ [] then some c else s.firstRunnable

variable {s : RoundRobinScheduler} {c : PriorityClass}

theorem popQueue_nil (empty : s.runQueues c = []) : s.popQueue c = none := by
  simp [popQueue, empty]

variable {task : TaskId} {rest : List TaskId}

theorem popQueue_cons (queue : s.runQueues c = task :: rest) :
    s.popQueue c = some (task, { s with runQueues := update s.runQueues c rest }) := by
  simp [popQueue, queue]

/-- The scan of the source stops at the first class with a runnable task. -/
theorem findSome_popQueue (s : RoundRobinScheduler) (classes : List PriorityClass) :
    classes.findSome? s.popQueue =
      (classes.find? (fun c => decide (s.runQueues c ≠ []))).bind s.popQueue := by
  induction classes with
  | nil => rfl
  | cons c classes ih =>
    cases queue : s.runQueues c with
    | nil => simp [popQueue_nil queue, queue, ih]
    | cons task rest => simp [popQueue_cons queue, queue]

theorem runQueues_of_firstRunnable (first : s.firstRunnable = some c) : s.runQueues c ≠ [] := by
  simpa using find?_some first

theorem firstRunnable_eq_none : s.firstRunnable = none ↔ ∀ c, s.runQueues c = [] := by
  simp only [firstRunnable, find?_eq_none, decide_eq_true_eq, not_not]
  exact ⟨fun empty c => empty c c.mem_all, fun empty c _ => empty c⟩

theorem runQueues_of_serves (served : s.serves = some c) : s.runQueues c ≠ [] := by
  unfold serves at served
  split at served
  · cases served
    assumption
  · split at served
    · exact runQueues_of_firstRunnable served
    · split at served
      · cases served
        assumption
      · exact runQueues_of_firstRunnable served

theorem serves_eq_none : s.serves = none ↔ ∀ c, s.runQueues c = [] := by
  rw [← firstRunnable_eq_none]
  unfold serves
  constructor
  · intro none'
    split at none'
    · cases none'
    · split at none'
      · exact none'
      · split at none'
        · cases none'
        · exact none'
  · intro none'
    have empty := firstRunnable_eq_none.mp none'
    rw [if_neg (by simp [empty])]
    split
    · exact none'
    · rw [if_neg (by simp [empty])]
      exact none'

/-- The scheduler after a pick that serves `c`. The RealTime bypass leaves the
counter. -/
def afterPick (s : RoundRobinScheduler) (c : PriorityClass) : RoundRobinScheduler :=
  { s with
    runQueues := update s.runQueues c (s.runQueues c).tail
    pickCounter := if c = .realTime then s.pickCounter else s.pickCounter + 1 }

/-- The scheduler after a pick that finds every queue empty. -/
def afterIdle (s : RoundRobinScheduler) : RoundRobinScheduler :=
  { s with pickCounter := s.pickCounter + 1 }

/-- Past the bypass, the preferred queue and then the strict scan find the head of
the queue that `serves` names. -/
theorem popQueue_serves {s' : RoundRobinScheduler} (bypass : s.runQueues .realTime = [])
    (queues : s'.runQueues = s.runQueues) :
    ((((fairnessCycleFor s.thermal).get (slotOf s.pickCounter)).bind s'.popQueue).or
      (PriorityClass.all.findSome? s'.popQueue)) = s.serves.bind s'.popQueue := by
  have first : s'.firstRunnable = s.firstRunnable := by simp [firstRunnable, queues]
  rw [findSome_popQueue, ← firstRunnable, first, serves, if_neg (by simp [bypass])]
  split
  · simp [*]
  · rename_i c preferred
    rw [preferred, bind_some]
    cases queue : s.runQueues c with
    | nil => simp [popQueue_nil (queues ▸ queue)]
    | cons task rest => simp [popQueue_cons (queues ▸ queue)]

/-- A pick serves the class `serves` names and takes the head of its queue, or
finds every queue empty. -/
theorem pickNext_cases (s : RoundRobinScheduler) :
    (∃ c task rest, s.serves = some c ∧ s.runQueues c = task :: rest ∧
      s.pickNext = (some task, s.afterPick c)) ∨
    (s.serves = none ∧ (∀ c, s.runQueues c = []) ∧ s.pickNext = (none, s.afterIdle)) := by
  cases bypass : s.runQueues .realTime with
  | cons task rest =>
    refine .inl ⟨.realTime, task, rest, by simp [serves, bypass], bypass, ?_⟩
    simp [pickNext, popQueue_cons bypass, afterPick, bypass]
  | nil =>
    have found := popQueue_serves bypass (rfl : s.afterIdle.runQueues = s.runQueues)
    have picked : s.pickNext =
        (s.serves.bind s.afterIdle.popQueue).elim (none, s.afterIdle) (Prod.map some id) := by
      rw [← found, pickNext, popQueue_nil bypass]
      simp only [afterIdle]
      split
      · rename_i preferred
        simp only [preferred, Option.or]
        rfl
      · rename_i preferred
        simp only [preferred, Option.or]
        split <;> rename_i scan <;> rw [scan] <;> rfl
    cases served : s.serves with
    | none =>
      refine .inr ⟨rfl, serves_eq_none.mp served, ?_⟩
      rw [picked, served]
      rfl
    | some c =>
      obtain ⟨task, rest, queue⟩ := exists_cons_of_ne_nil (runQueues_of_serves served)
      have notBypass : c ≠ .realTime := by
        rintro rfl
        rw [bypass] at queue
        cases queue
      refine .inl ⟨c, task, rest, rfl, queue, ?_⟩
      rw [picked, served, bind_some, popQueue_cons (s := s.afterIdle) queue]
      simp [afterPick, afterIdle, notBypass, queue]

/-- All queued tasks, class by class. -/
def queued (s : RoundRobinScheduler) : List TaskId := PriorityClass.all.flatMap s.runQueues

@[simp] theorem queued_afterIdle (s : RoundRobinScheduler) : s.afterIdle.queued = s.queued := rfl

theorem queued_push (s : RoundRobinScheduler) (c : PriorityClass) (task : TaskId) :
    (s.push c task).queued.Perm (task :: s.queued) := by
  refine flatMap_perm_cons (by decide) c.mem_all (fun j other => ?_) ?_
  · simp [push, update_of_ne other]
  · simp only [push, update_self]
    exact perm_append_singleton task _

theorem queued_afterPick (queue : s.runQueues c = task :: rest) :
    s.queued.Perm (task :: (s.afterPick c).queued) := by
  refine flatMap_perm_cons (by decide) c.mem_all (fun j other => ?_) ?_
  · simp [afterPick, update_of_ne other]
  · simp [afterPick, queue]

theorem queued_removeFromQueues (s : RoundRobinScheduler) (task : TaskId) :
    (s.removeFromQueues task).queued = s.queued.filter (fun id => id ≠ task) := by
  simp [queued, removeFromQueues, filter_flatMap]

/-- The tasks that `n` picks in a row return. -/
def drained : Nat → RoundRobinScheduler → List TaskId
  | 0, _ => []
  | n + 1, s => s.pickNext.1.toList ++ drained n s.pickNext.2

/-- As many picks as tasks are queued return each of them once and those of a class in the order of
their queue, at any thermal level and from any slot of the cycle. -/
theorem drained_exact (s : RoundRobinScheduler) :
    (drained s.queued.length s).Perm s.queued ∧
      ∀ c, (s.runQueues c).Sublist (drained s.queued.length s) := by
  generalize count : s.queued.length = n
  induction n generalizing s with
  | zero =>
    have empty := length_eq_zero_iff.mp count
    refine ⟨by rw [empty]; rfl, fun c => ?_⟩
    rw [flatMap_eq_nil_iff.mp empty c c.mem_all]
    exact nil_sublist _
  | succ n ih =>
    rcases s.pickNext_cases with ⟨c, task, rest, -, queue, picked⟩ | ⟨-, empty, -⟩
    · have moved := queued_afterPick queue
      obtain ⟨perm, order⟩ := ih (s.afterPick c) (by simpa [count] using moved.length_eq.symm)
      have after : (s.afterPick c).runQueues = update s.runQueues c rest := by
        rw [afterPick, queue]
        rfl
      rw [drained, picked]
      refine ⟨(perm.cons task).trans moved.symm, fun d => ?_⟩
      have later := order d
      by_cases same : d = c
      · rw [after, same, update_self] at later
        rw [same, queue]
        exact later.cons_cons task
      · rw [after, update_of_ne same] at later
        exact later.cons task
    · simp [queued, empty] at count

end RoundRobinScheduler

end NexaCore.Scheduling
