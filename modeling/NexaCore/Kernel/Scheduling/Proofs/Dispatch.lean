import NexaCore.Kernel.Scheduling.PerCpu
import NexaCore.Kernel.Scheduling.Proofs.Yield
import NexaCore.Misc.Run

/-!
# Single dispatch across CPUs

`enqueue_for_cpu` writes a task twice, into the mirror (the run queues of the scheduler) and into
the table of its CPU. `Dispatching` records the tasks handed over and picked. The bootstrap
processor takes a task off the mirror only, the application processors off the table only;
`KeepsCopiesTogether` is the condition under which no second copy stays behind.
-/

namespace NexaCore.Scheduling

open Misc Function List RoundRobinScheduler SmpScheduler PerCpuRunQueue RunQueueTable Option

variable {task : TaskId}

def PerCpuRunQueue.tasks (q : PerCpuRunQueue) : List TaskId := PriorityClass.all.flatMap q

namespace PerCpuRunQueue

theorem tasks_pushBack (q : PerCpuRunQueue) (task : TaskId) (priority : PriorityClass) :
    (pushBack q task priority).tasks.Perm (task :: q.tasks) := by
  refine flatMap_perm_cons (by decide) priority.mem_all (fun j other => ?_) ?_
  · simp [pushBack, update_of_ne other]
  · simp only [pushBack, update_self]
    exact perm_append_singleton task _

variable {q q' : PerCpuRunQueue} {c : PriorityClass} {task : TaskId}

theorem tasks_update {rest : List TaskId} (split : (q c).Perm (task :: rest)) :
    q.tasks.Perm (task :: tasks (update q c rest)) := by
  refine flatMap_perm_cons (by decide) c.mem_all (fun j other => ?_) ?_
  · rw [update_of_ne other]
  · rwa [update_self]

theorem tasks_popClass (popped : popClass q c = some (task, q')) :
    q.tasks.Perm (task :: q'.tasks) := by
  unfold popClass at popped
  split at popped
  · cases popped
  · rename_i queue
    cases popped
    exact tasks_update (.of_eq queue)

theorem tasks_popClassBack (popped : popClassBack q c = some (task, q')) :
    q.tasks.Perm (task :: q'.tasks) := by
  unfold popClassBack at popped
  split at popped
  · cases popped
  · rename_i last
    cases popped
    apply tasks_update
    nth_rewrite 1 [← dropLast_append_getLast? _ last]
    exact perm_append_singleton task _

theorem tasks_popFront (popped : popFront q = some (task, q')) :
    q.tasks.Perm (task :: q'.tasks) := by
  obtain ⟨c, -, popped⟩ := exists_of_findSome?_eq_some popped
  exact tasks_popClass popped

theorem tasks_stealBack (popped : stealBack q = some (task, q')) :
    q.tasks.Perm (task :: q'.tasks) := by
  obtain ⟨c, -, popped⟩ := exists_of_findSome?_eq_some popped
  exact tasks_popClassBack popped

theorem tasks_of_popFront_none (none' : popFront q = none) : q.tasks = [] := by
  refine flatMap_eq_nil_iff.mpr fun c mem => ?_
  have := findSome?_eq_none_iff.mp none' c mem
  unfold popClass at this
  split at this
  · assumption
  · cases this

theorem tasks_of_stealBack_none (none' : stealBack q = none) : q.tasks = [] := by
  refine flatMap_eq_nil_iff.mpr fun c mem => ?_
  have := findSome?_eq_none_iff.mp none' c (by simpa using mem)
  unfold popClassBack at this
  split at this
  · rename_i last
    simpa using last
  · cases this

end PerCpuRunQueue

namespace RunQueueTable

def tasks (table : RunQueueTable) : List TaskId :=
  (List.finRange maxCpus).flatMap fun cpu => (table cpu).tasks

variable {table : RunQueueTable}

theorem tasks_update {cpu : Fin maxCpus} {q : PerCpuRunQueue}
    (more : (table cpu).tasks.Perm (task :: q.tasks)) :
    (tasks table).Perm (task :: tasks (update table cpu q)) := by
  refine flatMap_perm_cons (nodup_finRange _) (mem_finRange cpu) (fun j other => ?_) ?_
  · simp [update_of_ne other]
  · simpa using more

variable {cpu : Nat}

theorem tasks_enqueueOnCpu (table : RunQueueTable) (inRange : cpu < maxCpus) (task : TaskId)
    (priority : PriorityClass) :
    (tasks (table.enqueueOnCpu cpu task priority).2).Perm (task :: tasks table) := by
  rw [enqueueOnCpu, dif_pos inRange]
  refine flatMap_perm_cons (nodup_finRange _) (mem_finRange ⟨cpu, inRange⟩) (fun j other => ?_) ?_
  · simp [update_of_ne other]
  · simpa using tasks_pushBack (table ⟨cpu, inRange⟩) task priority

variable {table' : RunQueueTable}

theorem tasks_popWith {pop : PerCpuRunQueue → Option (TaskId × PerCpuRunQueue)}
    (takes : ∀ q q' task, pop q = some (task, q') →
      (PerCpuRunQueue.tasks q).Perm (task :: PerCpuRunQueue.tasks q'))
    (popped : table.popWith pop cpu = some (task, table')) :
    (tasks table).Perm (task :: tasks table') := by
  unfold popWith at popped
  split at popped
  · obtain ⟨⟨task', q⟩, found, eq⟩ := map_eq_some_iff.mp popped
    cases eq
    exact tasks_update (takes _ _ _ found)
  · cases popped

theorem tasks_popForCpuWithStealing
    (popped : table.popForCpuWithStealing cpu = some (task, table')) :
    (tasks table).Perm (task :: tasks table') := by
  unfold popForCpuWithStealing at popped
  split at popped
  · rename_i found
    cases popped
    exact tasks_popWith (fun _ _ _ => tasks_popFront) found
  · obtain ⟨victim, -, found⟩ := exists_of_findSome?_eq_some popped
    exact tasks_popWith (fun _ _ _ => tasks_stealBack) found

theorem tasks_of_popForCpuWithStealing_none (none' : table.popForCpuWithStealing cpu = none) :
    tasks table = [] := by
  unfold popForCpuWithStealing at none'
  split at none'
  · cases none'
  · rename_i local'
    refine flatMap_eq_nil_iff.mpr fun k _ => ?_
    by_cases same : k.val = cpu
    · subst same
      rw [popForCpu, popWith, dif_pos k.isLt, map_eq_none_iff] at local'
      exact tasks_of_popFront_none local'
    · have victim : k.val ∈ (range maxCpus).filter (fun victim => victim ≠ cpu) := by
        simp [same]
      have empty := findSome?_eq_none_iff.mp none' k.val victim
      rw [stealFrom, popWith, dif_pos k.isLt, map_eq_none_iff] at empty
      exact tasks_of_stealBack_none empty

end RunQueueTable

/-- Where the copies of the tasks are: in the mirror and in the table, with the tasks
handed over, those of them that the table accepted, and those that picks have
returned. -/
structure Copies where
  mirror : List TaskId
  table : List TaskId
  handed : List TaskId
  placed : List TaskId
  returned : List TaskId

namespace Copies

variable {s : Copies} {task : TaskId}

/-- No task is returned twice, none is twice in the mirror, and the tasks that the
table has accepted are in the mirror exactly while they are in the table. -/
structure SingleDispatch (s : Copies) : Prop where
  returned_once : s.returned.Nodup
  mirror_once : s.mirror.Nodup
  coherent : ∀ task ∈ s.placed, task ∈ s.mirror ↔ task ∈ s.table

/-- What single dispatch rests on. -/
structure Tracked (s : Copies) : Prop extends SingleDispatch s where
  table_once : s.table.Nodup
  table_placed : s.table ⊆ s.placed
  placed_handed : s.placed ⊆ s.handed
  mirror_handed : s.mirror ⊆ s.handed
  returned_handed : s.returned ⊆ s.handed
  returned_gone : ∀ task ∈ s.returned, task ∉ s.mirror

namespace Tracked

theorem table_mirror (tracked : s.Tracked) (mem : task ∈ s.table) : task ∈ s.mirror :=
  (tracked.coherent task (tracked.table_placed mem)).mpr mem

theorem empty : Tracked ⟨[], [], [], [], []⟩ := by
  constructor <;> first | constructor <;> simp | simp

variable {mirror table : List TaskId}

theorem perm (tracked : s.Tracked) (sameMirror : mirror.Perm s.mirror)
    (sameTable : table.Perm s.table) :
    Tracked { s with mirror, table } where
  returned_once := tracked.returned_once
  mirror_once := sameMirror.nodup_iff.mpr tracked.mirror_once
  coherent := fun t mem => by
    rw [sameMirror.mem_iff, sameTable.mem_iff]
    exact tracked.coherent t mem
  table_once := sameTable.nodup_iff.mpr tracked.table_once
  table_placed := Subset.trans sameTable.subset tracked.table_placed
  placed_handed := tracked.placed_handed
  mirror_handed := Subset.trans sameMirror.subset tracked.mirror_handed
  returned_handed := tracked.returned_handed
  returned_gone := fun t mem inMirror =>
    tracked.returned_gone t mem (sameMirror.mem_iff.mp inMirror)

theorem hand (tracked : s.Tracked) (fresh : task ∉ s.handed) :
    Tracked { s with mirror := task :: s.mirror, handed := task :: s.handed } where
  returned_once := tracked.returned_once
  mirror_once :=
    nodup_cons.mpr ⟨fun mem => fresh (tracked.mirror_handed mem), tracked.mirror_once⟩
  coherent := fun t mem => by
    have other : t ≠ task := fun same => fresh (same ▸ tracked.placed_handed mem)
    simpa [other] using tracked.coherent t mem
  table_once := tracked.table_once
  table_placed := tracked.table_placed
  placed_handed := subset_cons_of_subset _ tracked.placed_handed
  mirror_handed := cons_subset_cons _ tracked.mirror_handed
  returned_handed := subset_cons_of_subset _ tracked.returned_handed
  returned_gone := fun t mem inMirror => by
    rcases mem_cons.mp inMirror with rfl | old
    · exact fresh (tracked.returned_handed mem)
    · exact tracked.returned_gone t mem old

theorem place (tracked : s.Tracked) (inMirror : task ∈ s.mirror) (absent : task ∉ s.placed) :
    Tracked { s with table := task :: s.table, placed := task :: s.placed } where
  returned_once := tracked.returned_once
  mirror_once := tracked.mirror_once
  coherent := fun t mem => by
    rcases mem_cons.mp mem with rfl | old
    · simp [inMirror]
    · have other : t ≠ task := fun same => absent (same ▸ old)
      simpa [other] using tracked.coherent t old
  table_once :=
    nodup_cons.mpr ⟨fun mem => absent (tracked.table_placed mem), tracked.table_once⟩
  table_placed := cons_subset_cons _ tracked.table_placed
  placed_handed := cons_subset.mpr ⟨tracked.mirror_handed inMirror, tracked.placed_handed⟩
  mirror_handed := tracked.mirror_handed
  returned_handed := tracked.returned_handed
  returned_gone := tracked.returned_gone

theorem take (tracked : s.Tracked) (inMirror : task ∈ s.mirror) :
    Tracked { s with
      mirror := s.mirror.erase task
      table := s.table.erase task
      returned := task :: s.returned } where
  returned_once := nodup_cons.mpr
    ⟨fun mem => tracked.returned_gone task mem inMirror, tracked.returned_once⟩
  mirror_once := tracked.mirror_once.erase task
  coherent := fun t mem => by
    rw [tracked.mirror_once.mem_erase_iff, tracked.table_once.mem_erase_iff, tracked.coherent t mem]
  table_once := tracked.table_once.erase task
  table_placed := Subset.trans erase_subset tracked.table_placed
  placed_handed := tracked.placed_handed
  mirror_handed := Subset.trans erase_subset tracked.mirror_handed
  returned_handed := cons_subset.mpr ⟨tracked.mirror_handed inMirror, tracked.returned_handed⟩
  returned_gone := fun t mem inMirror' => by
    obtain ⟨other, old⟩ := tracked.mirror_once.mem_erase_iff.mp inMirror'
    exact tracked.returned_gone t ((mem_cons.mp mem).resolve_left other) old

theorem perm_erase {tasks rest : List TaskId} (split : tasks.Perm (task :: rest)) :
    rest.Perm (tasks.erase task) := by
  simpa using (split.erase task).symm

end Tracked

end Copies

inductive DispatchCall where
  | hand (cpu : Nat) (task : TaskId) (priority : PriorityClass)
  | pickNext
  | pickNextForCpu (cpu : Nat)
  | apDispatch (cpu : Nat)

/-- The scheduler and the table, with the tasks handed to `enqueue_for_cpu`, those of
them that the table accepted, and the tasks returned by picks. -/
structure Dispatching where
  smp : SmpScheduler
  handed : List TaskId
  placed : List TaskId
  returned : List TaskId

namespace Dispatching

/-- Empty queues beside any registered tasks. -/
def start (sched : RoundRobinScheduler) : Dispatching where
  smp := ⟨{ sched with runQueues := fun _ => [] }, fun _ _ => []⟩
  handed := []
  placed := []
  returned := []

def copies (s : Dispatching) : Copies where
  mirror := s.smp.sched.queued
  table := s.smp.table.tasks
  handed := s.handed
  placed := s.placed
  returned := s.returned

/-- One call. A task is handed over once. -/
def next (s : Dispatching) : DispatchCall → Option Dispatching
  | .hand cpu task priority =>
      if task ∈ s.handed then none
      else
        let (accepted, smp) := s.smp.enqueueForCpu cpu task priority
        some
          { s with
            smp
            handed := task :: s.handed
            placed := if accepted then task :: s.placed else s.placed }
  | .pickNext =>
      let (picked, smp) := s.smp.pickNext
      some { s with smp, returned := picked.toList ++ s.returned }
  | .pickNextForCpu cpu =>
      let (picked, smp) := s.smp.pickNextForCpu cpu
      some { s with smp, returned := picked.toList ++ s.returned }
  | .apDispatch cpu =>
      let (picked, smp) := s.smp.apDispatch cpu
      some { s with smp, returned := picked ++ s.returned }

def step : Lts Dispatching DispatchCall := Lts.ofPartial next

/-- The call leaves no second copy: a pick of the bootstrap processor serves a task
that has no copy in the table, and an application processor is dispatched only
while the table is empty. -/
def KeepsCopiesTogether (s : Dispatching) : DispatchCall → Prop
  | .pickNext => ∀ c, s.smp.sched.serves = some c →
      ∀ task, (s.smp.sched.runQueues c).head? = some task → task ∉ s.copies.table
  | .apDispatch cpu => cpu = 0 ∨ s.copies.table = []
  | _ => True

theorem tracked_start (sched : RoundRobinScheduler) : (start sched).copies.Tracked := by
  have table : (start sched).copies.table = [] :=
    flatMap_eq_nil_iff.mpr fun _ _ => flatMap_eq_nil_iff.mpr fun _ _ => rfl
  have mirror : (start sched).copies.mirror = [] := flatMap_eq_nil_iff.mpr fun _ _ => rfl
  exact Copies.Tracked.empty.perm (mirror ▸ .refl _) (table ▸ .refl _)

variable {s s' : Dispatching}

variable {cpu : Nat}

theorem step_apDispatch : step s (.apDispatch cpu) s' ↔
    s' = { s with
      smp := (s.smp.apDispatch cpu).2
      returned := (s.smp.apDispatch cpu).1 ++ s.returned } := by
  simp [step, Lts.ofPartial, next, eq_comm]

section

variable (tracked : s.copies.Tracked)

include tracked

theorem tracked_hand {priority : PriorityClass}
    (taken : step s (.hand cpu task priority) s') :
    s'.copies.Tracked := by
  simp only [step, Lts.ofPartial, next] at taken
  split at taken
  · cases taken
  · rename_i fresh
    cases taken
    have mirror := s.smp.sched.queued_push priority task
    by_cases inRange : cpu < maxCpus
    · have table := s.smp.table.tasks_enqueueOnCpu inRange task priority
      have accepted : (s.smp.table.enqueueOnCpu cpu task priority).1 = true := by
        simp [enqueueOnCpu, inRange]
      have both := (tracked.hand fresh).place (.head _)
        fun placed => fresh (tracked.placed_handed placed)
      simpa [copies, enqueueForCpu, accepted] using both.perm mirror table
    · have refused : s.smp.table.enqueueOnCpu cpu task priority = (false, s.smp.table) := by
        simp [enqueueOnCpu, inRange]
      simpa [copies, enqueueForCpu, refused] using (tracked.hand fresh).perm mirror (.refl _)

theorem tracked_pickNext (together : s.KeepsCopiesTogether .pickNext)
    (taken : step s .pickNext s') :
    s'.copies.Tracked := by
  cases taken
  rcases s.smp.sched.pickNext_cases with ⟨c, task, rest, served, queue, picked⟩ | ⟨-, -, picked⟩
  · have single := together c served task (by simp [queue])
    have split := queued_afterPick queue
    have taken := (tracked.take (split.mem_iff.mpr (.head _))).perm
        (Copies.Tracked.perm_erase split)
      (.of_eq (erase_of_not_mem single).symm)
    simpa [copies, SmpScheduler.pickNext, picked] using taken
  · simpa [copies, SmpScheduler.pickNext, picked] using tracked

theorem tracked_pickNextForCpu (taken : step s (.pickNextForCpu cpu) s') : s'.copies.Tracked := by
  cases taken
  cases popped : s.smp.table.popForCpuWithStealing cpu with
  | none => simpa [copies, pickNextForCpu, popped] using tracked
  | some pair =>
    obtain ⟨task, table⟩ := pair
    have split := tasks_popForCpuWithStealing popped
    have inMirror := tracked.table_mirror (split.mem_iff.mpr (.head _))
    have left : (s.smp.sched.removeFromQueues task).queued = s.smp.sched.queued.erase task := by
      rw [queued_removeFromQueues]
      exact (filter_congr fun _ _ => Bool.eq_iff_iff.mpr (by simp)).trans
        (tracked.mirror_once.erase_eq_filter task).symm
    have taken := (tracked.take inMirror).perm (.of_eq left) (Copies.Tracked.perm_erase split)
    simpa [copies, pickNextForCpu, popped] using taken

theorem tracked_apDispatch (together : s.KeepsCopiesTogether (.apDispatch cpu))
    (taken : step s (.apDispatch cpu) s') :
    s'.copies.Tracked := by
  obtain rfl := step_apDispatch.mp taken
  have nothing : s.smp.apDispatch cpu = ([], s.smp) := by
    rcases together with bootstrap | empty
    · simp [apDispatch, bootstrap]
    · cases popped : s.smp.table.popForCpuWithStealing cpu with
      | none => simp [apDispatch, popped]
      | some pair =>
        have split := tasks_popForCpuWithStealing popped
        have empty' : s.smp.table.tasks = [] := empty
        rw [empty'] at split
        exact absurd split.symm (not_perm_cons_nil)
  simpa [copies, nothing] using tracked

theorem tracked_step {call : DispatchCall} (together : s.KeepsCopiesTogether call)
    (taken : step s call s') : s'.copies.Tracked := by
  cases call with
  | hand cpu task priority => exact tracked_hand tracked taken
  | pickNext => exact tracked_pickNext tracked together taken
  | pickNextForCpu cpu => exact tracked_pickNextForCpu tracked taken
  | apDispatch cpu => exact tracked_apDispatch tracked together taken

/-- A pick that keeps single dispatch has served a task without a copy in the table. -/
theorem together_of_pickNext (taken : step s .pickNext s') (single : s'.copies.SingleDispatch) :
    s.KeepsCopiesTogether .pickNext := by
  obtain rfl := some.inj taken
  intro c served task head inTable
  rcases s.smp.sched.pickNext_cases with ⟨c', task', rest, served', queue, picked⟩ | ⟨idle, -, -⟩
  · rw [served] at served'
    cases served'
    obtain rfl : task' = task := by simpa [queue] using head
    have split := queued_afterPick queue
    have gone := (nodup_cons.mp (split.nodup_iff.mp tracked.mirror_once)).1
    have still := (single.coherent task' (tracked.table_placed inTable)).mpr inTable
    exact gone (by simpa [copies, SmpScheduler.pickNext, picked] using still)
  · rw [served] at idle
    cases idle

end

variable {sched : RoundRobinScheduler}

theorem yield_keeps {current : TaskId} (queued : task ∈ sched.queued) :
    task ∈ (sched.yieldCurrent current .runnable).2.queued ∨
      yieldPick sched current = some task := by
  have requeued : ∀ c, task ∈ (sched.requeue current c .runnable).queued := by
    intro c
    have perm := queued_push (sched.setState current .runnable) c current
    exact perm.mem_iff.mpr (.tail _ queued)
  have effect := sched.yieldCurrent_effect current .runnable
  generalize (sched.yieldCurrent current .runnable).2 = sched' at effect ⊢
  cases effect with
  | unknown absent => exact .inl queued
  | idle known empty => exact .inl (requeued _)
  | dangling known queue picked absent | dispatched known queue picked =>
    have split := queued_afterPick queue
    rcases mem_cons.mp (split.mem_iff.mp (requeued _)) with rfl | stays
    · exact .inr (by simp [yieldPick, known, picked])
    · exact .inl stays

theorem enqueue_keeps {other : TaskId} {c : PriorityClass} (queued : task ∈ sched.queued) :
    task ∈ (sched.enqueue other c).2.queued := by
  unfold enqueue
  split
  · exact queued
  · exact (queued_push _ _ _).mem_iff.mpr (.tail _ queued)

/-- A dispatch of an application processor that keeps single dispatch has found the
table empty. -/
theorem together_of_apDispatch (tracked : s.copies.Tracked) (taken : step s (.apDispatch cpu) s')
    (single : s'.copies.SingleDispatch) :
    s.KeepsCopiesTogether (.apDispatch cpu) := by
  obtain rfl := step_apDispatch.mp taken
  by_cases bootstrap : cpu = 0
  · exact .inl bootstrap
  cases popped : s.smp.table.popForCpuWithStealing cpu with
  | none => exact .inr (tasks_of_popForCpuWithStealing_none popped)
  | some pair =>
    exfalso
    obtain ⟨task, table⟩ := pair
    have split := tasks_popForCpuWithStealing popped
    have inTable : task ∈ s.copies.table := split.mem_iff.mpr (.head _)
    have inMirror : task ∈ s.smp.sched.queued := tracked.table_mirror inTable
    have left := (nodup_cons.mp (split.nodup_iff.mp tracked.table_once)).1
    have coherent := single.coherent task (tracked.table_placed inTable)
    have once := single.returned_once
    cases current : s.smp.sched.current with
    | none =>
      have dispatched : s.smp.apDispatch cpu =
          ([task], ⟨(s.smp.sched.enqueue task .interactive).2, table⟩) := by
        simp [apDispatch, bootstrap, popped, current]
      have gone : task ∉ (s.smp.sched.enqueue task .interactive).2.queued := by
        simpa [copies, dispatched, left] using coherent
      exact gone (enqueue_keeps inMirror)
    | some id =>
      have dispatched : s.smp.apDispatch cpu = (task :: (yieldPick s.smp.sched id).toList,
            ⟨(s.smp.sched.yieldCurrent id .runnable).2, table⟩) := by
        simp [apDispatch, bootstrap, popped, current]
      have gone : task ∉ (s.smp.sched.yieldCurrent id .runnable).2.queued := by
        simpa [copies, dispatched, left] using coherent
      have picked := (yield_keeps inMirror).resolve_left gone
      simp [copies, dispatched, picked] at once

/-- Single dispatch across CPUs: it holds in every state reached by calls that leave
no second copy, and from such a state a call keeps it exactly if it leaves no
second copy. -/
theorem single_dispatch (sched : RoundRobinScheduler) {calls : List DispatchCall}
    {s : Dispatching}
    (run : Run (step.restrict KeepsCopiesTogether) (start sched) calls s) :
    s.copies.SingleDispatch ∧
    ∀ call s', step s call s' → (s'.copies.SingleDispatch ↔ s.KeepsCopiesTogether call) := by
  have tracked : s.copies.Tracked :=
    run.invariant (fun s => s.copies.Tracked)
      (fun _ _ _ tracked taken => tracked_step tracked taken.1 taken.2) (tracked_start sched)
  refine ⟨tracked.toSingleDispatch, fun call s' taken => ⟨fun single => ?_, fun together => ?_⟩⟩
  · cases call with
    | hand cpu task priority => trivial
    | pickNext => exact together_of_pickNext tracked taken single
    | pickNextForCpu cpu => trivial
    | apDispatch cpu => exact together_of_apDispatch tracked taken single
  · exact (tracked_step tracked together taken).toSingleDispatch

/-- A task handed to CPU 1 and picked for CPU 2, which steals it. -/
theorem single_dispatch_stolen : ∃ s,
    Run (step.restrict KeepsCopiesTogether) (start .new)
      [.hand 1 ⟨7⟩ .background, .pickNextForCpu 2] s ∧
    s.returned = [⟨7⟩] ∧ s.copies.mirror = [] ∧ s.copies.SingleDispatch := by
  have executed : Run (step.restrict KeepsCopiesTogether) (start .new)
      [.hand 1 ⟨7⟩ .background, .pickNextForCpu 2] _ :=
    Run.cons ⟨trivial, rfl⟩ (Run.cons ⟨trivial, rfl⟩ (Run.nil _))
  exact ⟨_, executed, by decide, by decide, (single_dispatch .new executed).1⟩

/-- A task handed to CPU 0 is returned by the pick of the bootstrap processor and
once more by the pick for CPU 0. -/
theorem dispatched_twice : ∃ s,
    Run step (start .new) [.hand 0 ⟨7⟩ .background, .pickNext, .pickNextForCpu 0] s ∧
    s.returned = [⟨7⟩, ⟨7⟩] := by
  have executed : Run step (start .new) [.hand 0 ⟨7⟩ .background, .pickNext, .pickNextForCpu 0] _ :=
    Run.of_foldlM (fun _ _ _ taken => taken) rfl
  exact ⟨_, executed, by decide⟩

end Dispatching

end NexaCore.Scheduling
