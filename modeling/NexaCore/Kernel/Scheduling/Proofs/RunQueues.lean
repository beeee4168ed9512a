import NexaCore.Kernel.Scheduling.Proofs.Yield
import NexaCore.Misc.Run

/-!
# Run-queue consistency

`QueuesMatch` ties the six run queues to the task control blocks: a task is queued exactly when it
is runnable, in the queue of its priority and once. The transitions are the scheduler calls of the
kernel.
-/

namespace NexaCore.Scheduling

open Misc Function Option List

namespace RoundRobinScheduler

/-- A task is queued exactly when it is runnable, in the queue of its priority, and
no queue holds a task twice. -/
structure QueuesMatch (s : RoundRobinScheduler) : Prop where
  nodup : ∀ c, (s.runQueues c).Nodup
  mem_queue : ∀ c id, id ∈ s.runQueues c ↔
    ∃ tcb, s.tcb? id = some tcb ∧ tcb.state = .runnable ∧ tcb.priority = c

namespace QueuesMatch

variable {s : RoundRobinScheduler} {tcb : TaskControlBlock}

theorem of_counter (queues : s.QueuesMatch) : s.afterIdle.QueuesMatch :=
  ⟨queues.nodup, queues.mem_queue⟩

variable {id : TaskId} {state : TaskState}

section

variable (queues : s.QueuesMatch)

include queues

theorem of_mem {c : PriorityClass} (queued : id ∈ s.runQueues c)
    (found : s.tcb? id = some tcb) : tcb.state = .runnable ∧ tcb.priority = c := by
  obtain ⟨tcb', found', facts⟩ := (queues.mem_queue c id).mp queued
  obtain rfl := Option.some_inj.mp (found.symm.trans found')
  exact facts

/-- A task that is in no queue takes another state in which it is not queued. -/
theorem setState (off : ∀ c, id ∉ s.runQueues c) (other : state ≠ .runnable) :
    (s.setState id state).QueuesMatch where
  nodup := queues.nodup
  mem_queue := by
    intro c k
    rw [runQueues_setState, tcb?_setState]
    by_cases same : k = id
    · subst same
      simp [off, other]
    · simpa [same] using queues.mem_queue c k

/-- A registered task that is in no queue becomes runnable and goes to the back of
the queue of its priority. -/
theorem makeRunnable (off : ∀ c, id ∉ s.runQueues c) {s' : RoundRobinScheduler}
    {priority : PriorityClass}
    (runQueues : s'.runQueues = update s.runQueues priority (s.runQueues priority ++ [id]))
    (others : ∀ k, k ≠ id → s'.tcb? k = s.tcb? k)
    (runnable : ∃ tcb, s'.tcb? id = some tcb ∧ tcb.state = .runnable ∧ tcb.priority = priority) :
    s'.QueuesMatch where
  nodup := by
    intro c
    rw [runQueues]
    by_cases same : c = priority
    · subst same
      rw [update_self, ← concat_eq_append]
      exact List.Nodup.concat (off c) (queues.nodup c)
    · rw [update_of_ne same]
      exact queues.nodup c
  mem_queue := by
    intro c k
    rw [runQueues]
    by_cases same : k = id
    · subst same
      obtain ⟨tcb, found, state, rfl⟩ := runnable
      by_cases own : c = tcb.priority
      · subst own
        simp [found, state]
      · have apart : tcb.priority ≠ c := Ne.symm own
        simp [found, apart, update_of_ne own, off]
    · rw [others k same, ← queues.mem_queue c k]
      by_cases own : c = priority
      · subst own
        simp [same]
      · rw [update_of_ne own]

/-- The head of a queue leaves it and takes a state in which it is not queued. -/
theorem takeHead {c : PriorityClass} {next : TaskId} {rest : List TaskId}
    (queue : s.runQueues c = next :: rest) (other : state ≠ .runnable) :
    ((s.afterPick c).setState next state).QueuesMatch where
  nodup := by
    intro c'
    by_cases same : c' = c
    · subst same
      simpa [afterPick] using (queues.nodup c').tail
    · simpa [afterPick, update_of_ne same] using queues.nodup c'
  mem_queue := by
    intro c' k
    have lookup : (s.afterPick c).tcb? k = s.tcb? k := rfl
    rw [runQueues_setState, tcb?_setState, lookup]
    obtain ⟨tcb, found, runnable, priority⟩ := (queues.mem_queue c next).mp (by simp [queue])
    have absent : next ∉ rest := by
      have nodup := queues.nodup c
      rw [queue] at nodup
      exact (List.nodup_cons.mp nodup).1
    by_cases same : k = next
    · subst same
      rw [if_pos rfl, found]
      have gone : k ∉ (s.afterPick c).runQueues c' := by
        by_cases own : c' = c
        · subst own
          simpa [afterPick, queue] using absent
        · intro queued
          have queued' : k ∈ s.runQueues c' := by
            simpa [afterPick, update_of_ne own] using queued
          exact own ((queues.of_mem queued' found).2.symm.trans priority)
      simp [gone, other]
    · rw [if_neg same, ← queues.mem_queue c' k]
      by_cases own : c' = c
      · subst own
        simp [afterPick, queue, same]
      · simp [afterPick, update_of_ne own]

/-- A task taken off every queue, with a state in which it is not queued. -/
theorem remove (id : TaskId) (other : state ≠ .runnable) :
    ((s.removeFromQueues id).setState id state).QueuesMatch where
  nodup := fun c => (queues.nodup c).filter _
  mem_queue := by
    intro c k
    have lookup : (s.removeFromQueues id).tcb? k = s.tcb? k := rfl
    rw [runQueues_setState, tcb?_setState, lookup]
    by_cases same : k = id
    · subst same
      simp [removeFromQueues, other]
    · simpa [removeFromQueues, same] using queues.mem_queue c k

/-- The start of a yield, for a registered task that is in no queue. -/
theorem requeue (off : ∀ c, id ∉ s.runQueues c)
    (known : s.tcb? id = some tcb) (newState : TaskState) :
    (s.requeue id tcb.priority newState).QueuesMatch := by
  by_cases runnable : newState = .runnable
  · subst runnable
    refine queues.makeRunnable off rfl (fun k other => ?_) ?_
    · rw [tcb?_requeue, if_neg other]
    · rw [tcb?_requeue, if_pos rfl, known]
      exact ⟨_, rfl, rfl, rfl⟩
  · rw [RoundRobinScheduler.requeue, if_neg runnable]
    exact queues.setState off runnable

end

end QueuesMatch

/-- The run queues match the task control blocks, and the current task is
registered and in none of them. -/
structure Consistent (s : RoundRobinScheduler) : Prop extends QueuesMatch s where
  current_known : ∀ id, s.current = some id → (s.tcb? id).isSome
  current_off : ∀ id, s.current = some id → ∀ c, id ∉ s.runQueues c

theorem consistent_bootstrap (priority : PriorityClass) :
    (new.spawnBootstrapTask priority).2.Consistent := by
  refine ⟨⟨fun c => nodup_nil, fun c id => ?_⟩, fun id isCurrent => ?_,
    fun _ _ _ => not_mem_nil⟩
  · simp only [spawnBootstrapTask, new, not_mem_nil, false_iff, not_exists]
    rintro tcb ⟨found, runnable, -⟩
    have member := mem_of_find?_eq_some found
    simp only [nil_append, mem_singleton] at member
    subst member
    cases runnable
  · cases isCurrent
    rfl

variable {s : RoundRobinScheduler} {id : TaskId}

/-- A yield of a task that is in no queue, by the current task or after the current
task has been cleared. -/
theorem consistent_yieldCurrent (queues : s.QueuesMatch)
    (off : ∀ c, id ∉ s.runQueues c) (only : ∀ k, s.current = some k → k = id ∧ (s.tcb? k).isSome)
    (newState : TaskState) :
    (s.yieldCurrent id newState).2.Consistent := by
  have effect := s.yieldCurrent_effect id newState
  generalize (s.yieldCurrent id newState).2 = s' at effect ⊢
  cases effect with
  | unknown absent =>
    exact ⟨queues, fun k isCurrent => (only k isCurrent).2,
      fun k isCurrent => (only k isCurrent).1 ▸ off⟩
  | idle known empty =>
    refine ⟨(queues.requeue off known newState).of_counter, fun k isCurrent => ?_, fun k _ c => ?_⟩
    · have isCurrent' : s.current = some k := by simpa [afterIdle] using isCurrent
      simpa using (only k isCurrent').2
    · have none' := empty c
      simp [afterIdle, none']
  | dangling known queue _ absent =>
    obtain ⟨tcb, found, -⟩ :=
      ((queues.requeue off known newState).mem_queue _ _).mp (queue ▸ mem_cons_self)
    rw [absent] at found
    cases found
  | dispatched known queue _ =>
    have taken := (queues.requeue off known newState).takeHead queue
      (by decide : TaskState.running ≠ .runnable)
    refine ⟨⟨taken.nodup, taken.mem_queue⟩, fun k isCurrent => ?_, fun k isCurrent c queued => ?_⟩
    · cases isCurrent
      obtain ⟨tcb, found, -⟩ :=
        ((queues.requeue off known newState).mem_queue _ _).mp (queue ▸ mem_cons_self)
      rw [tcb?_dispatch, isSome_tcb?_setState, tcb?_afterPick, found]
      rfl
    · cases isCurrent
      obtain ⟨tcb, found, runnable, -⟩ := (taken.mem_queue _ _).mp queued
      rw [tcb?_setState, if_pos rfl, map_eq_some_iff] at found
      obtain ⟨old, -, rfl⟩ := found
      cases runnable

theorem not_queued_of_fresh (queues : s.QueuesMatch)
    (fresh : s.tcb? id = none) (c : PriorityClass) : id ∉ s.runQueues c := by
  intro queued
  obtain ⟨tcb, found, -⟩ := (queues.mem_queue c id).mp queued
  rw [fresh] at found
  cases found

theorem tcb?_registerProcess (s : RoundRobinScheduler) (tcb : TaskControlBlock)
    (priority : PriorityClass) (k : TaskId) :
    (s.registerProcess tcb priority).tcb? k =
      (s.tcb? k).or (if tcb.id = k then some tcb else none) := by
  simp only [registerProcess, tcb?_push]
  simp only [tcb?, find?_append]
  by_cases same : tcb.id = k <;> simp [same]

variable {s' : RoundRobinScheduler}

/-- Adding a task other than the current one to the back of a queue. -/
theorem current_off_of_push (consistent : s.Consistent)
    {priority : PriorityClass} (notCurrent : s.current ≠ some id)
    (current : s'.current = s.current) (runQueues : s'.runQueues =
      update s.runQueues priority (s.runQueues priority ++ [id])) (k : TaskId)
    (isCurrent : s'.current = some k) (c : PriorityClass) : k ∉ s'.runQueues c := by
  have isCurrent' : s.current = some k := current ▸ isCurrent
  have off := consistent.current_off k isCurrent'
  have apart : k ≠ id := fun same => notCurrent (same ▸ isCurrent')
  rw [runQueues]
  by_cases own : c = priority
  · subst own
    simp [off c, apart]
  · rw [update_of_ne own]
    exact off c

theorem consistent_register (consistent : s.Consistent)
    (fresh : s.tcb? id = none) (priority : PriorityClass) :
    (s.registerProcess ⟨id, .runnable, priority⟩ priority).Consistent := by
  have notCurrent : s.current ≠ some id := by
    intro isCurrent
    have := consistent.current_known id isCurrent
    simp [fresh] at this
  refine ⟨?_, fun k isCurrent => ?_, current_off_of_push consistent notCurrent rfl rfl⟩
  · refine consistent.toQueuesMatch.makeRunnable
      (not_queued_of_fresh consistent.toQueuesMatch fresh) rfl (fun k other => ?_) ?_
    · rw [tcb?_registerProcess, if_neg (Ne.symm other), or_none]
    · exact ⟨⟨id, .runnable, priority⟩, by simp [tcb?_registerProcess, fresh], rfl, rfl⟩
  · have known := consistent.current_known k isCurrent
    simp [tcb?_registerProcess, known]

theorem consistent_enqueue (consistent : s.Consistent)
    (found : s.tcb? id = some tcb) (parked : tcb.state = .blockedOnIpc)
    (notCurrent : s.current ≠ some id) (priority : PriorityClass) :
    (s.enqueue id priority).2.Consistent := by
  have off : ∀ c, id ∉ s.runQueues c := by
    intro c queued
    have runnable := (consistent.of_mem queued found).1
    rw [parked] at runnable
    cases runnable
  have lookup : ∀ k, (s.enqueue id priority).2.tcb? k =
      if k = id then (s.tcb? k).map (fun t => { t with state := .runnable, priority })
      else s.tcb? k := by
    intro k
    simp only [enqueue, found, tcb?_push]
    exact tcb?_updateTask s id k fun _ => rfl
  have queues : (s.enqueue id priority).2.runQueues =
      update s.runQueues priority (s.runQueues priority ++ [id]) := by
    simp only [enqueue, found]
    rfl
  have current : (s.enqueue id priority).2.current = s.current := by
    simp only [enqueue, found]
    rfl
  refine ⟨consistent.toQueuesMatch.makeRunnable off queues (fun k other => ?_) ?_,
    fun k isCurrent => ?_, current_off_of_push consistent notCurrent current queues⟩
  · rw [lookup, if_neg other]
  · rw [lookup, if_pos rfl, found]
    exact ⟨_, rfl, rfl, rfl⟩
  · have known := consistent.current_known k (current ▸ isCurrent)
    rw [lookup]
    split <;> simp [known]

theorem consistent_taskExit (consistent : s.Consistent)
    (isCurrent : s.current = some id) : (s.taskExit id).Consistent := by
  have removed := consistent.toQueuesMatch.remove id
    (by decide : TaskState.terminated ≠ .runnable)
  refine consistent_yieldCurrent (s := (s.dequeue id).2) ⟨removed.nodup, removed.mem_queue⟩
    (fun c queued => ?_) (fun k still => ?_) .terminated
  · simp [dequeue, removeFromQueues] at queued
  · simp [dequeue, removeFromQueues, isCurrent] at still

/-- The scheduler calls of the kernel. -/
inductive Transition where
  | register (id : TaskId) (priority : PriorityClass)
  | yield (newState : TaskState)
  | unpark (task : TaskId)
  | exit

/-- One call. A process is registered under a fresh id as `spawn_from_elf` builds it
(`process.rs:345-356`), runnable and with the priority of its queue; a yield, a
preemption, a park and an exit are calls of the current task; `unpark`
(`syscall_entry.rs:608-615`) wakes a task that is blocked on IPC. -/
def next (s : RoundRobinScheduler) : Transition → Option RoundRobinScheduler
  | .register id priority =>
      if (s.tcb? id).isNone then some (s.registerProcess ⟨id, .runnable, priority⟩ priority)
      else none
  | .yield newState => s.current.map fun current => (s.yieldCurrent current newState).2
  | .unpark task =>
      if (s.tcb? task).any (fun tcb => tcb.state = .blockedOnIpc) then
        some (s.enqueue task (s.resolvePriority task)).2
      else none
  | .exit => s.current.map s.taskExit

def step : Lts RoundRobinScheduler Transition := Lts.ofPartial next

/-- The transition does not wake the task that is still the current one. -/
def WakesOther (s : RoundRobinScheduler) : Transition → Prop
  | .unpark task => s.current ≠ some task
  | _ => True

instance (s : RoundRobinScheduler) (t : Transition) : Decidable (s.WakesOther t) :=
  match t with
  | .unpark task => inferInstanceAs (Decidable (s.current ≠ some task))
  | .register .. | .yield .. | .exit => .isTrue trivial

variable {t : Transition}

theorem consistent_step (consistent : s.Consistent)
    (taken : step.restrict WakesOther s t s') : s'.Consistent := by
  obtain ⟨guard, taken⟩ := taken
  cases t with
  | register id priority =>
    simp only [step, Lts.ofPartial, next, isNone_iff_eq_none] at taken
    split at taken
    · rename_i fresh
      cases taken
      exact consistent_register consistent fresh priority
    · cases taken
  | yield newState =>
    simp only [step, Lts.ofPartial, next, map_eq_some_iff] at taken
    obtain ⟨id, isCurrent, rfl⟩ := taken
    refine consistent_yieldCurrent consistent.toQueuesMatch (consistent.current_off id isCurrent)
      (fun k isCurrent' => ?_) newState
    rw [isCurrent] at isCurrent'
    cases isCurrent'
    exact ⟨rfl, consistent.current_known id isCurrent⟩
  | unpark task =>
    simp only [step, Lts.ofPartial, next] at taken
    split at taken
    · rename_i parked
      cases taken
      obtain ⟨tcb, found, state⟩ := (any_eq_true _ _).mp parked
      exact consistent_enqueue consistent found (by simpa using state) guard _
    · cases taken
  | exit =>
    simp only [step, Lts.ofPartial, next, map_eq_some_iff] at taken
    obtain ⟨id, isCurrent, rfl⟩ := taken
    exact consistent_taskExit consistent isCurrent

theorem QueuesMatch.queued_nodup (queues : s.QueuesMatch) : s.queued.Nodup := by
  refine List.nodup_flatMap.mpr ⟨fun c _ => queues.nodup c, ?_⟩
  have distinct : PriorityClass.all.Nodup := by decide
  refine List.Pairwise.imp ?_ distinct
  intro c c' apart id queued queued'
  obtain ⟨tcb, found, -, priority⟩ := (queues.mem_queue c id).mp queued
  exact apart (priority.symm.trans (queues.of_mem queued' found).2)

/-- A task is queued exactly when it is runnable, once and in the queue of its
priority, and the current task is not queued. -/
structure WellQueued (s : RoundRobinScheduler) : Prop where
  once : s.queued.Nodup
  queued_iff : ∀ id tcb, s.tcb? id = some tcb →
    ((∃ c, id ∈ s.runQueues c) ↔ tcb.state = .runnable)
  own_queue : ∀ c id, id ∈ s.runQueues c → ∃ tcb, s.tcb? id = some tcb ∧ tcb.priority = c
  current_off : ∀ id, s.current = some id → id ∉ s.queued

theorem Consistent.wellQueued (consistent : s.Consistent) : s.WellQueued where
  once := consistent.queued_nodup
  queued_iff := by
    intro id tcb found
    constructor
    · rintro ⟨c, queued⟩
      exact (consistent.of_mem queued found).1
    · intro runnable
      exact ⟨tcb.priority, (consistent.mem_queue _ id).mpr ⟨tcb, found, runnable, rfl⟩⟩
  own_queue := by
    intro c id queued
    obtain ⟨tcb, found, -, priority⟩ := (consistent.mem_queue c id).mp queued
    exact ⟨tcb, found, priority⟩
  current_off := by
    intro id isCurrent queued
    obtain ⟨c, -, inQueue⟩ := List.mem_flatMap.mp queued
    exact consistent.current_off id isCurrent c inQueue

theorem wakesOther_of_wellQueued (taken : step s t s') (well : s'.WellQueued) : s.WakesOther t := by
  cases t with
  | unpark task =>
    intro isCurrent
    simp only [step, Lts.ofPartial, next] at taken
    split at taken
    · rename_i parked
      cases taken
      obtain ⟨tcb, found, -⟩ := (any_eq_true _ _).mp parked
      refine well.current_off task ?_ ?_
      · simp only [enqueue, found]
        exact isCurrent
      · simp only [enqueue, found]
        exact (queued_push _ _ _).mem_iff.mpr mem_cons_self
    · cases taken
  | register | yield | exit => trivial

/-- In every run from the bootstrap task in which no wake-up goes to the current
task, the run queues agree with the task control blocks; and from a state so
reached a call keeps them so exactly if it is not such a wake-up. -/
theorem run_queues_consistent (priority : PriorityClass) {ts : List Transition}
    {s : RoundRobinScheduler}
    (run : Run (step.restrict WakesOther) (new.spawnBootstrapTask priority).2 ts s) :
    s.WellQueued ∧ ∀ t s', step s t s' → (s'.WellQueued ↔ s.WakesOther t) := by
  have consistent : s.Consistent :=
    run.invariant Consistent (fun _ _ _ consistent taken => consistent_step consistent taken)
      (consistent_bootstrap priority)
  refine ⟨consistent.wellQueued, fun t s' taken => ⟨wakesOther_of_wellQueued taken, ?_⟩⟩
  intro wakesOther
  exact (consistent_step consistent ⟨wakesOther, taken⟩).wellQueued

/-- A second task takes over while the first is parked, and wakes it. -/
theorem run_queues_consistent_handover : ∃ s,
    Run (step.restrict WakesOther) (new.spawnBootstrapTask .system).2
      [.register ⟨2⟩ .interactive, .yield .blockedOnIpc, .unpark ⟨1⟩] s ∧
    s.current = some ⟨2⟩ ∧ s.queued = [⟨1⟩] ∧ s.WellQueued := by
  have executed := Run.of_foldlM (fun _ _ _ => restrict_of_guarded)
    (rfl : [Transition.register ⟨2⟩ .interactive, .yield .blockedOnIpc, .unpark ⟨1⟩].foldlM
      (guarded next WakesOther) (new.spawnBootstrapTask .system).2 = some _)
  exact ⟨_, executed, by decide, by decide, (run_queues_consistent .system executed).1⟩

/-- A task that parks while nothing else is runnable stays the current one, and its
wake-up puts it into a run queue. -/
theorem parked_current_is_queued : ∃ s,
    Run step (new.spawnBootstrapTask .system).2 [.yield .blockedOnIpc, .unpark ⟨1⟩] s ∧
    s.current = some ⟨1⟩ ∧ ⟨1⟩ ∈ s.queued := by
  have executed := Run.of_foldlM (fun _ _ _ taken => taken)
    (rfl : [Transition.yield .blockedOnIpc, .unpark ⟨1⟩].foldlM next
      (new.spawnBootstrapTask .system).2 = some _)
  exact ⟨_, executed, by decide, by decide⟩

end RoundRobinScheduler

end NexaCore.Scheduling
