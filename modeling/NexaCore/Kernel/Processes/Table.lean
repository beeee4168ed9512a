import NexaCore.Kernel.Basic
import NexaCore.Misc.Run

/-!
# The process table

`nexacore-kernel/src/process_table.rs`, without the name and the working directory of a process,
with what was registered, recorded and reaped so far.
-/

namespace NexaCore.Processes

open Misc Function

/-- `ProcessEntry` (`process_table.rs:62-80`). -/
structure ProcessEntry where
  parent : Option TaskId
  children : List TaskId := []
  exitCode : Option Nat := none

/-- `ProcessTable` (`process_table.rs:114-121`). -/
abbrev ProcessTable := TaskId → Option ProcessEntry

namespace ProcessTable

variable (t : ProcessTable)

/-- A change through `get_mut`. -/
def amend (id : TaskId) (change : ProcessEntry → ProcessEntry) : ProcessTable :=
  update t id ((t id).map change)

/-- `register` (`process_table.rs:168-188`). -/
def register (id : TaskId) (parent : Option TaskId) : ProcessTable :=
  let inserted : ProcessTable := update t id (some { parent })
  parent.elim inserted fun p =>
    inserted.amend p fun e => { e with children := e.children ++ [id] }

/-- `record_exit` (`process_table.rs:217-223`). -/
def recordExit (id : TaskId) (code : Nat) : Option TaskId × ProcessTable :=
  ((t id).bind (·.parent), t.amend id ({ · with exitCode := some code }))

/-- The child and its exit code, if it has exited. -/
def exited (child : TaskId) : Option (TaskId × Nat) :=
  (t child).bind fun e => e.exitCode.map (child, ·)

/-- `reap_child` (`process_table.rs:254-280`). -/
def reapChild (parent : TaskId) : Option (TaskId × Nat) × ProcessTable :=
  match (t parent).bind fun e => (e.children.mergeSort (·.val ≤ ·.val)).findSome? t.exited with
  | none => (none, t)
  | some (child, code) => (some (child, code), amend (update t child none) parent fun e =>
      { e with children := e.children.filter (· ≠ child) })

/-- `remove` (`process_table.rs:415-417`). -/
def remove (id : TaskId) : Bool × ProcessTable :=
  ((t id).isSome, update t id none)

end ProcessTable

/-- A table with the parent of each registered id, the last exit code of each process and the
reaped children. -/
structure Session where
  table : ProcessTable := fun _ => none
  lineage : TaskId → Option (Option TaskId) := fun _ => none
  exits : TaskId → Option Nat := fun _ => none
  reaped : List TaskId := []

inductive Call where
  | register (id : TaskId) (parent : Option TaskId)
  | recordExit (id : TaskId) (code : Nat)
  | reapChild (parent : TaskId)
  | remove (id : TaskId)

namespace Session

variable (s : Session)

def next : Call → Session
  | .register id parent => { s with
      table := s.table.register id parent, lineage := update s.lineage id (some parent) }
  | .recordExit id code => { s with
      table := (s.table.recordExit id code).2
      exits := if (s.table id).isSome then update s.exits id (some code) else s.exits }
  | .reapChild parent => { s with
      table := (s.table.reapChild parent).2
      reaped := ((s.table.reapChild parent).1.map (·.1)).toList ++ s.reaped }
  | .remove id => { s with table := (s.table.remove id).2 }

/-- Ids are registered once, under a parent in the table, and only processes without a parent are
removed. -/
def Allowed : Call → Prop
  | .register id parent => s.lineage id = none ∧ ∀ p, parent = some p → (s.table p).isSome
  | .remove id => ∀ e, s.table id = some e → e.parent = none
  | _ => True

def calls : Lts Session Call := fun s call s' => s' = s.next call

end Session

end NexaCore.Processes
