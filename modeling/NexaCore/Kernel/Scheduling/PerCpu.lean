import NexaCore.Kernel.Scheduling.RoundRobin

/-!
# Per-CPU run queues

Embedding of the per-CPU dispatch table (`bare_metal/per_cpu_run_queue.rs`), of the scheduler
calls that write it beside the run queues of `RoundRobinScheduler` (`scheduling.rs:674-736`,
bare-metal branch) and of the dispatcher of the application processors
(`bare_metal/ap_dispatch.rs`). `SCHED_LOCK` serialises the calls, so each is one step, without the
per-slot spinlocks.
-/

namespace NexaCore.Scheduling

open Function

/-- `MAX_CPUS`, the number of slots of `RUN_QUEUES` (`per_cpu_run_queue.rs:50-54`). -/
abbrev maxCpus : Nat := 32

/-- `PerCpuRunQueue` (`per_cpu_run_queue.rs:102`). -/
abbrev PerCpuRunQueue := PriorityClass → List TaskId

/-- `RUN_QUEUES` (`per_cpu_run_queue.rs:196`). -/
abbrev RunQueueTable := Fin maxCpus → PerCpuRunQueue

namespace PerCpuRunQueue

/-- `push_back` (`per_cpu_run_queue.rs:124-126`). -/
def pushBack (q : PerCpuRunQueue) (task : TaskId) (priority : PriorityClass) : PerCpuRunQueue :=
  update q priority (q priority ++ [task])

/-- The head of one class, taken off with `remove(0)`. -/
def popClass (q : PerCpuRunQueue) (c : PriorityClass) : Option (TaskId × PerCpuRunQueue) :=
  match q c with
  | [] => none
  | task :: rest => some (task, update q c rest)

/-- `pop_front` (`per_cpu_run_queue.rs:135-142`): the first non-empty class in the
order of the discriminants. -/
def popFront (q : PerCpuRunQueue) : Option (TaskId × PerCpuRunQueue) :=
  PriorityClass.all.findSome? q.popClass

/-- The last task of one class, taken off with `pop`. -/
def popClassBack (q : PerCpuRunQueue) (c : PriorityClass) : Option (TaskId × PerCpuRunQueue) :=
  match (q c).getLast? with
  | none => none
  | some task => some (task, update q c (q c).dropLast)

/-- `steal_back` (`per_cpu_run_queue.rs:152-159`): the last task of the last
non-empty class. -/
def stealBack (q : PerCpuRunQueue) : Option (TaskId × PerCpuRunQueue) :=
  PriorityClass.all.reverse.findSome? q.popClassBack

end PerCpuRunQueue

namespace RunQueueTable

/-- The lookup `RUN_QUEUES.get(cpu_id)`, with the write-back of a pop. -/
def popWith (table : RunQueueTable) (pop : PerCpuRunQueue → Option (TaskId × PerCpuRunQueue))
    (cpu : Nat) : Option (TaskId × RunQueueTable) :=
  if inRange : cpu < maxCpus then
    (pop (table ⟨cpu, inRange⟩)).map fun (task, q) =>
      (task, update table ⟨cpu, inRange⟩ q)
  else none

/-- `enqueue_on_cpu` (`per_cpu_run_queue.rs:202-212`). -/
def enqueueOnCpu (table : RunQueueTable) (cpu : Nat) (task : TaskId) (priority : PriorityClass) :
    Bool × RunQueueTable :=
  if inRange : cpu < maxCpus then
    (true, update table ⟨cpu, inRange⟩
      (PerCpuRunQueue.pushBack (table ⟨cpu, inRange⟩) task priority))
  else (false, table)

/-- `pop_for_cpu` (`per_cpu_run_queue.rs:220-226`). -/
def popForCpu (table : RunQueueTable) (cpu : Nat) : Option (TaskId × RunQueueTable) :=
  table.popWith PerCpuRunQueue.popFront cpu

/-- `steal_from` (`per_cpu_run_queue.rs:236-242`). -/
def stealFrom (table : RunQueueTable) (victim : Nat) : Option (TaskId × RunQueueTable) :=
  table.popWith PerCpuRunQueue.stealBack victim

/-- `pop_for_cpu_with_stealing` (`per_cpu_run_queue.rs:255-272`). -/
def popForCpuWithStealing (table : RunQueueTable) (cpu : Nat) : Option (TaskId × RunQueueTable) :=
  match table.popForCpu cpu with
  | some popped => some popped
  | none => ((List.range maxCpus).filter (fun victim => victim ≠ cpu)).findSome? table.stealFrom

end RunQueueTable

/-- The scheduler with the per-CPU dispatch table. -/
structure SmpScheduler where
  sched : RoundRobinScheduler
  table : RunQueueTable

namespace SmpScheduler

/-- `enqueue_for_cpu` (`scheduling.rs:696-709`): the task goes to the back of the
mirror and of the queue of its CPU. -/
def enqueueForCpu (s : SmpScheduler) (cpu : Nat) (task : TaskId) (priority : PriorityClass) :
    Bool × SmpScheduler :=
  let (accepted, table) := s.table.enqueueOnCpu cpu task priority
  (accepted, ⟨s.sched.push priority task, table⟩)

/-- `pick_next_for_cpu` (`scheduling.rs:719-731`): the picked task leaves the table
and the mirror. -/
def pickNextForCpu (s : SmpScheduler) (cpu : Nat) : Option TaskId × SmpScheduler :=
  match s.table.popForCpuWithStealing cpu with
  | none => (none, s)
  | some (picked, table) => (some picked, ⟨s.sched.removeFromQueues picked, table⟩)

/-- `pick_next` of the bootstrap processor, which only knows the mirror. -/
def pickNext (s : SmpScheduler) : Option TaskId × SmpScheduler :=
  (s.sched.pickNext.1, { s with sched := s.sched.pickNext.2 })

/-- The pick that `yield_current` makes for the current task. -/
def yieldPick (s : RoundRobinScheduler) (current : TaskId) : Option TaskId :=
  (s.tcb? current).bind fun tcb => (s.requeue current tcb.priority .runnable).pickNext.1

/-- `kernel_ap_dispatch_observe` (`ap_dispatch.rs:90-156`) on an application
processor, with the tasks that its picks return: the task popped from the table
and then the task that `yield_current` picks from the mirror. CPU 0 is the
bootstrap processor. The popped id is not dropped from the mirror. -/
def apDispatch (s : SmpScheduler) (cpu : Nat) : List TaskId × SmpScheduler :=
  if cpu = 0 then ([], s)
  else
    match s.table.popForCpuWithStealing cpu with
    | none => ([], s)
    | some (picked, table) =>
        match s.sched.current with
        | some current =>
            (picked :: (yieldPick s.sched current).toList,
              ⟨(s.sched.yieldCurrent current .runnable).2, table⟩)
        | none => ([picked], ⟨(s.sched.enqueue picked .interactive).2, table⟩)

end SmpScheduler

end NexaCore.Scheduling
