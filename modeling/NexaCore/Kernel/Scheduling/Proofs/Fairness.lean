import NexaCore.Kernel.Scheduling.Proofs.Yield
import NexaCore.Misc.Rotation

/-!
# Fairness of the picks

The picks that the RealTime bypass does not serve step through the slots of the fairness cycle one
by one, so eight of them in a row meet each slot once, and a class is guaranteed the slots that
serve it.
-/

namespace NexaCore.Scheduling

open Misc Function List

inductive Call where
  | enqueue (task : TaskId) (priority : PriorityClass)
  | dequeue (task : TaskId)
  | setCpuTemperature (cpuTempMillicelsius : UInt32)
  | pickNext
  deriving DecidableEq

namespace RoundRobinScheduler

def after (s : RoundRobinScheduler) : Call → RoundRobinScheduler
  | .enqueue task priority => (s.enqueue task priority).2
  | .dequeue task => (s.dequeue task).2
  | .setCpuTemperature temperature => s.setCpuTemperature temperature
  | .pickNext => s.pickNext.2

/-- The call is a pick that the RealTime bypass does not serve. -/
def rotates (s : RoundRobinScheduler) (call : Call) : Bool :=
  call = .pickNext && (s.runQueues .realTime).isEmpty

/-- The states in which the run makes its picks that the RealTime bypass does not
serve. -/
def pickTrace (s : RoundRobinScheduler) : List Call → List RoundRobinScheduler
  | [] => []
  | call :: calls =>
      if s.rotates call then s :: (s.after call).pickTrace calls else (s.after call).pickTrace calls

/-- The pick made in this state takes its task from the queue of `c`. -/
def picksFrom (s : RoundRobinScheduler) (c : PriorityClass) : Bool :=
  (s.pickNext.2.runQueues c).length < (s.runQueues c).length

def slot (s : RoundRobinScheduler) : Fin 8 := slotOf s.pickCounter

theorem picksFrom_iff (s : RoundRobinScheduler) (c : PriorityClass) :
    s.picksFrom c ↔ s.serves = some c := by
  rcases s.pickNext_cases with ⟨c', task, rest, served, queue, picked⟩ | ⟨idle, empty, picked⟩
  · rw [served, picksFrom, picked]
    by_cases same : c = c'
    · subst same
      simp [afterPick, queue]
    · have apart : c' ≠ c := Ne.symm same
      simp [afterPick, update_of_ne same, apart]
  · rw [idle, picksFrom, picked]
    simp [afterIdle]

variable {s : RoundRobinScheduler} {call : Call}

theorem pickCounter_after (other : s.rotates call = false) :
    (s.after call).pickCounter = s.pickCounter := by
  cases call with
  | enqueue task priority =>
    simp only [after, enqueue]
    split <;> rfl
  | dequeue | setCpuTemperature => rfl
  | pickNext =>
    have bypass : s.runQueues .realTime ≠ [] := by simpa [rotates] using other
    have served : s.serves = some .realTime := by simp [serves, bypass]
    rcases s.pickNext_cases with ⟨c, task, rest, served', -, picked⟩ | ⟨idle, -, -⟩
    · rw [served] at served'
      cases served'
      simp [after, picked, afterPick]
    · rw [served] at idle
      cases idle

theorem slot_after (turn : s.rotates call) : (s.after call).slot = s.slot + 1 := by
  obtain ⟨rfl, bypass⟩ : call = .pickNext ∧ s.runQueues .realTime = [] := by
    simpa [rotates] using turn
  have counter : (s.after .pickNext).pickCounter = s.pickCounter + 1 := by
    rcases s.pickNext_cases with ⟨c, task, rest, -, queue, picked⟩ | ⟨-, -, picked⟩
    · have notBypass : c ≠ .realTime := by
        rintro rfl
        rw [bypass] at queue
        cases queue
      simp [after, picked, afterPick, notBypass]
    · simp [after, picked, afterIdle]
  rw [slot, counter, slotOf_succ]
  rfl

theorem slots_pickTrace (s : RoundRobinScheduler) (calls : List Call) :
    (s.pickTrace calls).map slot = rotation s.slot (s.pickTrace calls).length := by
  induction calls generalizing s with
  | nil => rfl
  | cons call calls ih =>
    unfold pickTrace
    by_cases turn : s.rotates call
    · rw [if_pos turn, map_cons, ih, slot_after turn]
      rfl
    · have kept : (s.after call).slot = s.slot := by
        rw [slot, slot, pickCounter_after (by simpa using turn)]
      rw [if_neg turn, ih, kept]

variable {calls : List Call} {window : List RoundRobinScheduler}

theorem realTime_of_mem_pickTrace {t : RoundRobinScheduler}
    (mem : t ∈ s.pickTrace calls) : t.runQueues .realTime = [] := by
  induction calls generalizing s with
  | nil => cases mem
  | cons call calls ih =>
    unfold pickTrace at mem
    split at mem
    · rename_i turn
      rcases mem_cons.mp mem with rfl | later
      · have : call = .pickNext ∧ t.runQueues .realTime = [] := by simpa [rotates] using turn
        exact this.2
      · exact ih later
    · exact ih mem

theorem slots_perm (consecutive : window <:+: s.pickTrace calls)
    (eight : window.length = 8) : (window.map slot).Perm (finRange 8) := by
  have part : window.map slot <:+: rotation s.slot (s.pickTrace calls).length := by
    rw [← slots_pickTrace]
    exact consecutive.map slot
  obtain ⟨k, eq⟩ := rotation_of_contiguous part
  rw [eq, length_map, eight]
  exact rotation_perm k

/-- A slot serves System where it is left to strict order, and another class where it names it. -/
theorem serves_of_slot (bypass : s.runQueues .realTime = []) {c : PriorityClass}
    (entry : (fairnessCycleFor s.thermal).get s.slot = if c = .system then none else some c)
    (waiting : s.runQueues c ≠ []) : s.serves = some c := by
  unfold slot at entry
  by_cases system : c = .system
  · subst system
    have first : s.firstRunnable = some .system := by
      simp [firstRunnable, PriorityClass.all, waiting]
    simp [serves, bypass, entry, first]
  · rw [if_neg system] at entry
    simp [serves, bypass, entry, waiting]

/-- A class that some slots serve at every pick of the window is picked at least as
often as there are such slots. -/
theorem count_le_picks (consecutive : window <:+: s.pickTrace calls) (eight : window.length = 8)
    {c : PriorityClass} (slots : List (Fin 8))
    (entries : ∀ t ∈ window, ∀ slot ∈ slots,
      (fairnessCycleFor t.thermal).get slot = if c = .system then none else some c)
    (waiting : ∀ t ∈ window, t.runQueues c ≠ []) :
    (finRange 8).countP (fun slot => slot ∈ slots) ≤ window.countP (fun t => t.picksFrom c) := by
  rw [← (slots_perm consecutive eight).countP_eq, countP_map]
  refine countP_mono_left fun t mem inSlots => (picksFrom_iff t c).mpr ?_
  exact serves_of_slot (realTime_of_mem_pickTrace (consecutive.subset mem))
    (entries t mem t.slot (by simpa using inSlots)) (waiting t mem)

theorem background_slot (level : ThermalLevel) (slot : Fin 8) :
    (fairnessCycleFor level).get slot = some .background ↔ level = .normal ∧ slot = 7 := by
  revert slot
  cases level <;> decide

theorem fairnessCycleFor_classes (level : ThermalLevel) (slot : Fin 8) (c : PriorityClass)
    (named : (fairnessCycleFor level).get slot = some c) :
    c = .interactive ∨ c = .aiInference ∨ c = .background := by
  revert slot c
  cases level <;> decide

/-- The tasks that the call takes from the queue of `c`. -/
def pickedBy (s : RoundRobinScheduler) (c : PriorityClass) : Call → List TaskId
  | .pickNext => if s.picksFrom c then s.pickNext.1.toList else []
  | _ => []

/-- The tasks that the call adds to the queue of `c`. -/
def arrivedBy (s : RoundRobinScheduler) (c : PriorityClass) : Call → List TaskId
  | .enqueue task priority =>
      if priority = c && (s.enqueue task priority).1.isOk then [task] else []
  | _ => []

def picks (s : RoundRobinScheduler) (c : PriorityClass) : List Call → List TaskId
  | [] => []
  | call :: calls => s.pickedBy c call ++ (s.after call).picks c calls

def arrivals (s : RoundRobinScheduler) (c : PriorityClass) : List Call → List TaskId
  | [] => []
  | call :: calls => s.arrivedBy c call ++ (s.after call).arrivals c calls

section

variable (s : RoundRobinScheduler) (c : PriorityClass)

/-- One call takes from the front of the queue and adds at its back. -/
theorem queue_after {call : Call} (stays : ∀ task, call ≠ .dequeue task) :
    s.pickedBy c call ++ (s.after call).runQueues c = s.runQueues c ++ s.arrivedBy c call := by
  cases call with
  | enqueue task priority =>
    cases found : s.tcb? task with
    | none => simp [pickedBy, arrivedBy, after, enqueue, found, Except.isOk, Except.toBool]
    | some tcb =>
      by_cases same : priority = c
      · subst same
        simp [pickedBy, arrivedBy, after, enqueue, found, push, updateTask, Except.isOk,
          Except.toBool]
      · have apart : c ≠ priority := Ne.symm same
        simp [pickedBy, arrivedBy, after, enqueue, found, push, updateTask, same,
          update_of_ne apart]
  | dequeue task => exact absurd rfl (stays task)
  | setCpuTemperature temperature => simp [pickedBy, arrivedBy, after, setCpuTemperature]
  | pickNext =>
    have from' := s.picksFrom_iff c
    rcases s.pickNext_cases with ⟨c', task, rest, served, queue, picked⟩ | ⟨idle, empty, picked⟩
    · by_cases same : c' = c
      · subst same
        simp [pickedBy, arrivedBy, after, from'.mpr served, picked, afterPick, queue]
      · have notFrom : s.picksFrom c = false := by simpa [served, same] using from'
        simp [pickedBy, arrivedBy, after, notFrom, picked, afterPick, update_of_ne (Ne.symm same)]
    · have notFrom : s.picksFrom c = false := by simpa [idle] using from'
      simp [pickedBy, arrivedBy, after, notFrom, picked, afterIdle]

/-- Without dequeues, what was picked from a class followed by what is left of its
queue is what was queued followed by what arrived. -/
theorem picks_append_queue {calls : List Call} (stays : ∀ task, Call.dequeue task ∉ calls) :
    s.picks c calls ++ (calls.foldl after s).runQueues c = s.runQueues c ++ s.arrivals c calls := by
  induction calls generalizing s with
  | nil => simp [picks, arrivals]
  | cons call calls ih =>
    have kept : ∀ task, call ≠ .dequeue task := fun task same => stays task (by simp [same])
    have rest := ih (s.after call) fun task mem => stays task (.tail _ mem)
    rw [picks, arrivals, foldl_cons, append_assoc, rest, ← append_assoc,
      s.queue_after c kept, append_assoc]

theorem picks_append_queue_sublist (calls : List Call) :
    (s.picks c calls ++ (calls.foldl after s).runQueues c).Sublist
      (s.runQueues c ++ s.arrivals c calls) := by
  induction calls generalizing s with
  | nil => simp [picks, arrivals]
  | cons call calls ih =>
    have rest := ih (s.after call)
    rw [picks, arrivals, foldl_cons, append_assoc]
    by_cases stays : ∀ task, call ≠ .dequeue task
    · rw [← append_assoc (s.runQueues c), ← s.queue_after c stays, append_assoc]
      exact rest.append_left _
    · obtain ⟨task, rfl⟩ : ∃ task, call = .dequeue task := by simpa using stays
      simp only [pickedBy, arrivedBy, nil_append]
      refine rest.trans (Sublist.append_right ?_ _)
      simp only [after, dequeue, runQueues_setState, removeFromQueues]
      exact filter_sublist

end

section Shares

variable (consecutive : window <:+: s.pickTrace calls) (eight : window.length = 8)

include consecutive eight

theorem system_share (waiting : ∀ t ∈ window, t.runQueues .system ≠ []) :
    3 ≤ window.countP (fun t => t.picksFrom .system) :=
  count_le_picks consecutive eight [0, 3, 6] (fun t _ => by cases t.thermal <;> decide) waiting

theorem interactive_share (waiting : ∀ t ∈ window, t.runQueues .interactive ≠ []) :
    2 ≤ window.countP (fun t => t.picksFrom .interactive) :=
  count_le_picks consecutive eight [2, 5] (fun t _ => by cases t.thermal <;> decide) waiting

theorem aiInference_share (waiting : ∀ t ∈ window, t.runQueues .aiInference ≠ []) :
    1 ≤ window.countP (fun t => t.picksFrom .aiInference) :=
  count_le_picks consecutive eight [4] (fun t _ => by cases t.thermal <;> decide) waiting

end Shares

/-- Weighted fairness. Of any eight picks in a row that the RealTime bypass does not
serve, a class whose queue is non-empty at each of them gets its share, at any
thermal levels; at `Normal` throughout System gets one more and Background one.
Within a class, picks follow the order of arrival. -/
theorem weighted_fairness (s : RoundRobinScheduler) (calls : List Call)
    {window : List RoundRobinScheduler} (consecutive : window <:+: s.pickTrace calls)
    (eight : window.length = 8) :
    ((∀ t ∈ window, t.runQueues .system ≠ []) →
      3 ≤ window.countP (fun t => t.picksFrom .system)) ∧
    ((∀ t ∈ window, t.runQueues .interactive ≠ []) →
      2 ≤ window.countP (fun t => t.picksFrom .interactive)) ∧
    ((∀ t ∈ window, t.runQueues .aiInference ≠ []) →
      1 ≤ window.countP (fun t => t.picksFrom .aiInference)) ∧
    ((∀ t ∈ window, t.thermal = .normal) →
      ((∀ t ∈ window, t.runQueues .system ≠ []) →
        4 ≤ window.countP (fun t => t.picksFrom .system)) ∧
      ((∀ t ∈ window, t.runQueues .background ≠ []) →
        1 ≤ window.countP (fun t => t.picksFrom .background))) ∧
    (∀ c, (s.picks c calls ++ (calls.foldl after s).runQueues c).Sublist
      (s.runQueues c ++ s.arrivals c calls)) ∧
    (∀ c, (∀ task, Call.dequeue task ∉ calls) →
      s.picks c calls ++ (calls.foldl after s).runQueues c =
        s.runQueues c ++ s.arrivals c calls) := by
  refine ⟨system_share consecutive eight, interactive_share consecutive eight,
    aiInference_share consecutive eight, fun normal => ⟨?_, ?_⟩,
    fun c => picks_append_queue_sublist s c calls, fun c stays => picks_append_queue s c stays⟩
  · refine count_le_picks consecutive eight [0, 1, 3, 6] fun t mem => ?_
    rw [normal t mem]
    decide
  · refine count_le_picks consecutive eight [7] fun t mem => ?_
    rw [normal t mem]
    decide

/-- A scheduler with eight System tasks and one Background task, all runnable, that
has been told a temperature of 75 °C. -/
def warmContended : RoundRobinScheduler :=
  let systemTasks := (List.range 8).map fun i => TaskControlBlock.mk ⟨i + 1⟩ .runnable .system
  let s := systemTasks.foldl (fun s tcb => s.registerProcess tcb .system) new
  (s.registerProcess ⟨⟨9⟩, .runnable, .background⟩ .background).setCpuTemperature 75000

/-- Eight picks, with the System queue non-empty at each of them. -/
theorem weighted_fairness_warmContended :
    (∀ t ∈ warmContended.pickTrace (List.replicate 8 .pickNext), t.runQueues .system ≠ []) ∧
      3 ≤ (warmContended.pickTrace (List.replicate 8 .pickNext)).countP
        (fun t => t.picksFrom .system) := by
  have waiting : ∀ t ∈ warmContended.pickTrace (replicate 8 .pickNext),
      t.runQueues .system ≠ [] := by decide
  exact ⟨waiting, (weighted_fairness warmContended (replicate 8 .pickNext)
    (infix_refl _) (by decide)).1 waiting⟩

/-- Background is served by its own slot, or when the three classes above it are
empty. -/
theorem serves_background (bypass : s.runQueues .realTime = [])
    (waiting : s.runQueues .background ≠ []) :
    s.serves = some .background ↔ (s.thermal = .normal ∧ s.slot = 7) ∨
        (s.runQueues .system = [] ∧ s.runQueues .interactive = [] ∧
          s.runQueues .aiInference = []) := by
  have first : s.firstRunnable = some .background ↔
      s.runQueues .system = [] ∧ s.runQueues .interactive = [] ∧ s.runQueues .aiInference = [] := by
    simp only [firstRunnable, PriorityClass.all]
    by_cases system : s.runQueues .system = [] <;>
      by_cases interactive : s.runQueues .interactive = [] <;>
        by_cases aiInference : s.runQueues .aiInference = [] <;>
          simp [*]
  rw [← background_slot, ← first]
  unfold slot serves
  rw [if_neg (by simp [bypass])]
  split
  · simp [*]
  · rename_i c preferred
    rw [preferred]
    by_cases empty : s.runQueues c = []
    · have other : c ≠ .background := by
        rintro rfl
        exact waiting empty
      simp [empty, other]
    · have named := fairnessCycleFor_classes s.thermal (slotOf s.pickCounter) c preferred
      simp only [ne_eq, empty, not_false_eq_true, if_true, Option.some.injEq]
      constructor
      · exact .inl
      · rintro (same | none')
        · exact same
        · obtain ⟨-, interactive, aiInference⟩ := first.mp none'
          rcases named with rfl | rfl | rfl
          · exact absurd interactive empty
          · exact absurd aiInference empty
          · rfl

/-- No starvation. Of any eight picks in a row that the RealTime bypass does not
serve, System, Interactive and AiInference each get one if their queue is
non-empty at each of them, at any thermal levels. Background gets one exactly if
the level is `Normal` when its slot comes or the three other classes are all
empty at some pick. -/
theorem no_starvation (s : RoundRobinScheduler) (calls : List Call)
    {window : List RoundRobinScheduler} (consecutive : window <:+: s.pickTrace calls)
    (eight : window.length = 8) :
    (∀ c ∈ [PriorityClass.system, .interactive, .aiInference],
      (∀ t ∈ window, t.runQueues c ≠ []) → ∃ t ∈ window, t.picksFrom c) ∧
    ((∀ t ∈ window, t.runQueues .background ≠ []) →
      ((∃ t ∈ window, t.picksFrom .background) ↔
        ∃ t ∈ window, (t.thermal = .normal ∧ t.slot = 7) ∨
          (t.runQueues .system = [] ∧ t.runQueues .interactive = [] ∧
            t.runQueues .aiInference = []))) := by
  refine ⟨fun c mem waiting => ?_, fun waiting => ?_⟩
  · have picked : 0 < window.countP (fun t => t.picksFrom c) := by
      rcases mem_cons.mp mem with rfl | mem
      · exact lt_of_lt_of_le (by decide) (system_share consecutive eight waiting)
      rcases mem_cons.mp mem with rfl | mem
      · exact lt_of_lt_of_le (by decide) (interactive_share consecutive eight waiting)
      rw [mem_singleton.mp mem] at waiting ⊢
      exact aiInference_share consecutive eight waiting
    obtain ⟨t, mem, picks⟩ := countP_pos_iff.mp picked
    exact ⟨t, mem, picks⟩
  · refine exists_congr fun t => and_congr_right fun mem => ?_
    rw [picksFrom_iff]
    exact serves_background (realTime_of_mem_pickTrace (consecutive.subset mem)) (waiting t mem)

theorem no_starvation_warmContended :
    (∀ t ∈ warmContended.pickTrace (List.replicate 8 .pickNext), t.runQueues .system ≠ []) ∧
      ∃ t ∈ warmContended.pickTrace (List.replicate 8 .pickNext), t.picksFrom .system := by
  have waiting : ∀ t ∈ warmContended.pickTrace (replicate 8 .pickNext),
      t.runQueues .system ≠ [] := by decide
  exact ⟨waiting, (no_starvation warmContended (replicate 8 .pickNext)
    (infix_refl _) (by decide)).1 .system (by decide) waiting⟩

/-- While System tasks are runnable at `Warm`, Background is passed over for a whole
rotation. -/
theorem background_starves_when_warm :
    (warmContended.pickTrace (List.replicate 8 .pickNext)).length = 8 ∧
    (∀ t ∈ warmContended.pickTrace (List.replicate 8 .pickNext),
      t.thermal = .warm ∧ t.runQueues .background ≠ [] ∧ t.picksFrom .background = false) := by
  decide

end RoundRobinScheduler

end NexaCore.Scheduling
