import NexaCore.Kernel.Basic

/-!
# Scheduling policy

Priority classes and task states (`nexacore-kernel/src/scheduling.rs`), the
fairness rotation of `pick_next` and its thermal variants
(`nexacore-kernel/src/thermal.rs`).
-/

namespace NexaCore.Scheduling

/-- `PriorityClass` (`scheduling.rs:130`), in the order of its discriminants. -/
inductive PriorityClass where
  | system
  | realTime
  | interactive
  | aiInference
  | background
  | idle
  deriving DecidableEq, Repr

/-- The classes in the order in which `run_queues` is scanned. -/
def PriorityClass.all : List PriorityClass :=
  [.system, .realTime, .interactive, .aiInference, .background, .idle]

theorem PriorityClass.mem_all (c : PriorityClass) : c ∈ PriorityClass.all := by
  cases c <;> decide

/-- `TaskState` (`scheduling.rs:158`). -/
inductive TaskState where
  | runnable
  | running
  | blockedOnIpc
  | blockedOnSyscall
  | sleeping
  | terminated
  deriving DecidableEq, Repr

/-- `ThermalLevel` (`thermal.rs:19`). -/
inductive ThermalLevel where
  | normal
  | warm
  | hot
  | critical
  deriving DecidableEq, Repr

/-- `thermal_level` (`thermal.rs:38-48`), with the thresholds `WARM_MC`, `HOT_MC`
and `CRITICAL_MC` (`thermal.rs:33-35`). -/
def thermalLevel (cpuTempMillicelsius : UInt32) : ThermalLevel :=
  if 95000 ≤ cpuTempMillicelsius then .critical
  else if 85000 ≤ cpuTempMillicelsius then .hot
  else if 70000 ≤ cpuTempMillicelsius then .warm
  else .normal

/-- One rotation of the fairness slots. `none` is strict priority order, `some c`
tries the class `c` first. -/
abbrev FairnessCycle := Vector (Option PriorityClass) 8

/-- `FAIRNESS_CYCLE` (`scheduling.rs:351-360`). -/
def fairnessCycle : FairnessCycle :=
  #v[none, none, some .interactive, none, some .aiInference, some .interactive, none,
    some .background]

/-- `fairness_cycle_for` (`thermal.rs:64-94`). -/
def fairnessCycleFor : ThermalLevel → FairnessCycle
  | .normal => fairnessCycle
  | .warm =>
      #v[none, none, some .interactive, none, some .aiInference, some .interactive, none,
        some .aiInference]
  | .hot | .critical =>
      #v[none, some .aiInference, some .interactive, none, some .aiInference, some .interactive,
        none, some .aiInference]

/-- The slot of a pick, `pick_counter % FAIRNESS_LEN` (`scheduling.rs:838`). -/
def slotOf (pickCounter : UInt64) : Fin 8 := ⟨pickCounter.toNat % 8, Nat.mod_lt _ (by decide)⟩

/-- The wrap of the counter at `2 ^ 64` does not disturb the rotation. -/
theorem slotOf_succ (pickCounter : UInt64) : slotOf (pickCounter + 1) = slotOf pickCounter + 1 := by
  apply Fin.ext
  have wrapped : (pickCounter + 1).toNat = (pickCounter.toNat + 1) % 2 ^ 64 := by
    simp [UInt64.toNat_add]
  simp only [slotOf, wrapped, Fin.val_add, Fin.val_one]
  omega

end NexaCore.Scheduling
