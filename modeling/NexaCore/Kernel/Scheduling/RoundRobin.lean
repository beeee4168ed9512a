import NexaCore.Kernel.Scheduling.Policy

/-!
# The round-robin scheduler

Embedding of `RoundRobinScheduler` (`nexacore-kernel/src/scheduling.rs`). The six run queues are a
function of the priority class. A task control block keeps the fields that scheduling decisions
read, without the stack addresses, so `yield_current` ends where the source goes on to switch
stacks, and without the load class of `set_cpu_load_class`.
-/

namespace NexaCore.Scheduling

/-- `TaskControlBlock` (`scheduling.rs:222`). -/
structure TaskControlBlock where
  id : TaskId
  state : TaskState
  priority : PriorityClass
  deriving DecidableEq, Repr

/-- `ProcessControlBlock` (`process.rs`), with the copy of the task control block
that it keeps from the spawn. -/
structure ProcessControlBlock where
  task : TaskControlBlock
  principal : KernelPrincipal
  deriving DecidableEq, Repr

/-- `RoundRobinScheduler` (`scheduling.rs:290`). -/
structure RoundRobinScheduler where
  tasks : List TaskControlBlock
  processes : List ProcessControlBlock
  runQueues : PriorityClass → List TaskId
  current : Option TaskId
  nextId : Nat
  pickCounter : UInt64
  thermal : ThermalLevel

/-- Applies `f` to the first element with the property `p`, as a write through
`iter_mut().find(p)` does. -/
def updateFirst {α : Type} (p : α → Bool) (f : α → α) : List α → List α
  | [] => []
  | x :: xs => if p x then f x :: xs else x :: updateFirst p f xs

namespace RoundRobinScheduler

/-- `RoundRobinScheduler::new` (`scheduling.rs:374-394`). -/
def new : RoundRobinScheduler where
  tasks := []
  processes := []
  runQueues := fun _ => []
  current := none
  nextId := 1
  pickCounter := 0
  thermal := .normal

/-- `set_cpu_temperature` (`scheduling.rs:400-402`). -/
def setCpuTemperature (s : RoundRobinScheduler) (cpuTempMillicelsius : UInt32) :
    RoundRobinScheduler :=
  { s with thermal := thermalLevel cpuTempMillicelsius }

/-- The lookup `tasks.iter().find(|t| t.id.0 == id.0)`. -/
def tcb? (s : RoundRobinScheduler) (id : TaskId) : Option TaskControlBlock :=
  s.tasks.find? (fun t => t.id = id)

/-- A write to the task control block of `id`. -/
def updateTask (s : RoundRobinScheduler) (id : TaskId)
    (f : TaskControlBlock → TaskControlBlock) : RoundRobinScheduler :=
  { s with tasks := updateFirst (fun t => t.id = id) f s.tasks }

/-- `tcb.state = state` on the task control block of `id`. -/
def setState (s : RoundRobinScheduler) (id : TaskId) (state : TaskState) : RoundRobinScheduler :=
  s.updateTask id fun t => { t with state }

/-- `run_queues[priority].push(task)`. -/
def push (s : RoundRobinScheduler) (priority : PriorityClass) (task : TaskId) :
    RoundRobinScheduler :=
  { s with runQueues := Function.update s.runQueues priority (s.runQueues priority ++ [task]) }

/-- `register_process` (`scheduling.rs:440-444`). -/
def registerProcess (s : RoundRobinScheduler) (tcb : TaskControlBlock)
    (priority : PriorityClass) : RoundRobinScheduler :=
  push { s with tasks := s.tasks ++ [tcb] } priority tcb.id

/-- `attach_process` (`scheduling.rs:451-453`). -/
def attachProcess (s : RoundRobinScheduler) (pcb : ProcessControlBlock) : RoundRobinScheduler :=
  { s with processes := s.processes ++ [pcb] }

/-- `process` (`scheduling.rs:459-461`). -/
def process (s : RoundRobinScheduler) (id : TaskId) : Option ProcessControlBlock :=
  s.processes.find? (fun p => p.task.id = id)

/-- `resolve_priority` (`scheduling.rs:484-497`). -/
def resolvePriority (s : RoundRobinScheduler) (id : TaskId) : PriorityClass :=
  match s.tcb? id with
  | some tcb => tcb.priority
  | none =>
      match s.process id with
      | some pcb => pcb.task.priority
      | none => .interactive

/-- `spawn_bootstrap_task` (`scheduling.rs:653-672`). -/
def spawnBootstrapTask (s : RoundRobinScheduler) (priority : PriorityClass) :
    TaskId × RoundRobinScheduler :=
  let id : TaskId := ⟨s.nextId⟩
  (id,
    { s with
      nextId := s.nextId + 1
      tasks := s.tasks ++ [{ id, state := .running, priority }]
      current := some id })

/-- `enqueue` (`scheduling.rs:765-775`). -/
def enqueue (s : RoundRobinScheduler) (task : TaskId) (priority : PriorityClass) :
    KernelResult Unit × RoundRobinScheduler :=
  match s.tcb? task with
  | none => (.error .invalidArgument, s)
  | some _ =>
      (.ok (),
        (s.updateTask task fun t => { t with state := .runnable, priority }).push
          priority task)

/-- `retain(|&id| id != task.0)` on every run queue. -/
def removeFromQueues (s : RoundRobinScheduler) (task : TaskId) : RoundRobinScheduler :=
  { s with runQueues := fun c => (s.runQueues c).filter (fun id => id ≠ task) }

/-- `dequeue` (`scheduling.rs:777-788`). -/
def dequeue (s : RoundRobinScheduler) (task : TaskId) : KernelResult Unit × RoundRobinScheduler :=
  let s := (s.removeFromQueues task).setState task .terminated
  (.ok (), { s with current := if s.current = some task then none else s.current })

/-- The head of a run queue, taken off it with `remove(0)`. -/
def popQueue (s : RoundRobinScheduler) (c : PriorityClass) :
    Option (TaskId × RoundRobinScheduler) :=
  match s.runQueues c with
  | [] => none
  | task :: rest => some (task, { s with runQueues := Function.update s.runQueues c rest })

/-- `pick_next` (`scheduling.rs:790-869`): the RealTime bypass, which does not
advance `pick_counter`, then the class that the slot prefers, then strict
order. -/
def pickNext (s : RoundRobinScheduler) : Option TaskId × RoundRobinScheduler :=
  match s.popQueue .realTime with
  | some (task, s') => (some task, s')
  | none =>
      let slot := slotOf s.pickCounter
      let s := { s with pickCounter := s.pickCounter + 1 }
      let cycle := fairnessCycleFor s.thermal
      match (cycle.get slot).bind s.popQueue with
      | some (task, s') => (some task, s')
      | none =>
          match PriorityClass.all.findSome? s.popQueue with
          | some (task, s') => (some task, s')
          | none => (none, s)

/-- The start of `yield_current` (`scheduling.rs:882-887`): the new state is stored,
and a task that stays runnable goes to the back of its queue. -/
def requeue (s : RoundRobinScheduler) (current : TaskId) (priority : PriorityClass)
    (newState : TaskState) : RoundRobinScheduler :=
  let s := s.setState current newState
  if newState = .runnable then s.push priority current else s

/-- The picked task becomes the running one (`scheduling.rs:895-896`,
`scheduling.rs:905-906`). -/
def dispatch (s : RoundRobinScheduler) (next : TaskId) : RoundRobinScheduler :=
  { s.setState next .running with current := some next }

/-- `yield_current` (`scheduling.rs:875-906`). -/
def yieldCurrent (s : RoundRobinScheduler) (current : TaskId) (newState : TaskState) :
    KernelResult Unit × RoundRobinScheduler :=
  match s.tcb? current with
  | none => (.error .invalidArgument, s)
  | some tcb =>
      match (s.requeue current tcb.priority newState).pickNext with
      | (none, s) => (.ok (), s)
      | (some next, s) =>
          if next = current then (.ok (), s.dispatch next)
          else
            match s.tcb? next with
            | none => (.error .internal, s)
            | some _ => (.ok (), s.dispatch next)

/-- `preempt` (`scheduling.rs:1066-1070`). -/
def preempt (s : RoundRobinScheduler) (current : TaskId) :
    KernelResult Unit × RoundRobinScheduler :=
  s.yieldCurrent current .runnable

/-- The scheduler part of `task_exit` (`syscall_entry.rs:1003-1012`). -/
def taskExit (s : RoundRobinScheduler) (current : TaskId) : RoundRobinScheduler :=
  ((s.dequeue current).2.yieldCurrent current .terminated).2

end RoundRobinScheduler

end NexaCore.Scheduling
