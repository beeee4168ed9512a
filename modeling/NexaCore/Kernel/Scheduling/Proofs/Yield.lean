import NexaCore.Kernel.Scheduling.Proofs.Pick

/-!
# What a yield does

How the writes of the scheduler act on the lookup of task control blocks, and
`YieldEffect`, the list of what `yield_current` can do.
-/

namespace NexaCore.Scheduling

theorem find?_updateFirst {α κ : Type} [DecidableEq κ] (key : α → κ) (k k' : κ) {f : α → α}
    (keeps : ∀ x, key (f x) = key x) (xs : List α) :
    (updateFirst (fun x => key x = k) f xs).find? (fun x => key x = k') =
      if k' = k then (xs.find? (fun x => key x = k')).map f
      else xs.find? (fun x => key x = k') := by
  induction xs with
  | nil => simp [updateFirst]
  | cons x xs ih =>
    by_cases here : key x = k
    · by_cases same : k' = k
      · simp [updateFirst, here, same, keeps]
      · have apart : k ≠ k' := Ne.symm same
        simp [updateFirst, here, same, keeps, apart]
    · by_cases same : k' = k
      · subst same
        simpa [updateFirst, here] using ih
      · by_cases found : key x = k'
        · simp [updateFirst, same, found]
        · simpa [updateFirst, here, same, found] using ih

namespace RoundRobinScheduler

section

variable (s : RoundRobinScheduler)

theorem tcb?_updateTask (id k : TaskId) {f : TaskControlBlock → TaskControlBlock}
    (keeps : ∀ t, (f t).id = t.id) :
    (s.updateTask id f).tcb? k = if k = id then (s.tcb? k).map f else s.tcb? k :=
  find?_updateFirst TaskControlBlock.id id k keeps s.tasks

theorem tcb?_setState (id k : TaskId) (state : TaskState) :
    (s.setState id state).tcb? k =
      if k = id then (s.tcb? k).map (fun t => { t with state }) else s.tcb? k :=
  tcb?_updateTask s id k fun _ => rfl

@[simp] theorem isSome_tcb?_setState (id k : TaskId) (state : TaskState) :
    ((s.setState id state).tcb? k).isSome = (s.tcb? k).isSome := by
  rw [tcb?_setState]
  split <;> simp

@[simp] theorem tcb?_push (c : PriorityClass) (id k : TaskId) :
    (s.push c id).tcb? k = s.tcb? k := rfl

@[simp] theorem runQueues_setState (id : TaskId) (state : TaskState) :
    (s.setState id state).runQueues = s.runQueues := rfl

@[simp] theorem current_setState (id : TaskId) (state : TaskState) :
    (s.setState id state).current = s.current := rfl

theorem tcb?_requeue (id k : TaskId) (c : PriorityClass) (state : TaskState) :
    (s.requeue id c state).tcb? k =
      if k = id then (s.tcb? k).map (fun t => { t with state }) else s.tcb? k := by
  rw [← tcb?_setState, requeue]
  split <;> rfl

@[simp] theorem isSome_tcb?_requeue (id k : TaskId) (c : PriorityClass) (state : TaskState) :
    ((s.requeue id c state).tcb? k).isSome = (s.tcb? k).isSome := by
  rw [tcb?_requeue]
  split <;> simp

@[simp] theorem current_requeue (id : TaskId) (c : PriorityClass) (state : TaskState) :
    (s.requeue id c state).current = s.current := by
  unfold requeue
  split <;> rfl

@[simp] theorem tcb?_afterIdle (k : TaskId) :
    s.afterIdle.tcb? k = s.tcb? k := rfl

@[simp] theorem tcb?_afterPick (c : PriorityClass) (k : TaskId) :
    (s.afterPick c).tcb? k = s.tcb? k := rfl

theorem tcb?_dispatch (next k : TaskId) :
    (s.dispatch next).tcb? k = (s.setState next .running).tcb? k := rfl

end

/-- What `yield_current` does. The task control block of a picked task is missing
only if the queue held an unknown id. -/
inductive YieldEffect (s : RoundRobinScheduler) (current : TaskId) (newState : TaskState) :
    RoundRobinScheduler → Prop
  | unknown (absent : s.tcb? current = none) : YieldEffect s current newState s
  | idle {tcb : TaskControlBlock} (known : s.tcb? current = some tcb)
      (empty : ∀ c, (s.requeue current tcb.priority newState).runQueues c = []) :
      YieldEffect s current newState (s.requeue current tcb.priority newState).afterIdle
  | dangling {tcb : TaskControlBlock} {c : PriorityClass} {next : TaskId} {rest : List TaskId}
      (known : s.tcb? current = some tcb)
      (queue : (s.requeue current tcb.priority newState).runQueues c = next :: rest)
      (picked : (s.requeue current tcb.priority newState).pickNext.1 = some next)
      (absent : (s.requeue current tcb.priority newState).tcb? next = none) :
      YieldEffect s current newState ((s.requeue current tcb.priority newState).afterPick c)
  | dispatched {tcb : TaskControlBlock} {c : PriorityClass} {next : TaskId} {rest : List TaskId}
      (known : s.tcb? current = some tcb)
      (queue : (s.requeue current tcb.priority newState).runQueues c = next :: rest)
      (picked : (s.requeue current tcb.priority newState).pickNext.1 = some next) :
      YieldEffect s current newState
        (((s.requeue current tcb.priority newState).afterPick c).dispatch next)

theorem yieldCurrent_effect (s : RoundRobinScheduler) (current : TaskId) (newState : TaskState) :
    s.YieldEffect current newState (s.yieldCurrent current newState).2 := by
  unfold yieldCurrent
  cases known : s.tcb? current with
  | none => exact .unknown known
  | some tcb =>
    rcases (s.requeue current tcb.priority newState).pickNext_cases with
      ⟨c, next, rest, -, queue, picked⟩ | ⟨-, empty, picked⟩
    · have chosen := congrArg Prod.fst picked
      simp only [picked]
      by_cases same : next = current
      · rw [if_pos same]
        exact .dispatched known queue chosen
      · rw [if_neg same]
        cases target : (s.requeue current tcb.priority newState).tcb? next with
        | none =>
          have absent : ((s.requeue current tcb.priority newState).afterPick c).tcb? next = none :=
            target
          simp only [absent]
          exact .dangling known queue chosen target
        | some t =>
          have present :
              ((s.requeue current tcb.priority newState).afterPick c).tcb? next = some t := target
          simp only [present]
          exact .dispatched known queue chosen
    · simp only [picked]
      exact .idle known empty

end RoundRobinScheduler

end NexaCore.Scheduling
