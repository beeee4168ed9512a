import NexaCore.Kernel.Processes.Table

/-!
# Waiting for children

The table agrees with what was registered, recorded and reaped: until it is reaped, a child is in
the table and listed with its parent.
-/

namespace NexaCore.Processes

open Misc Function List Option ProcessTable

theorem ProcessTable.reapChild_some {t : ProcessTable} {p c : TaskId} {code : Nat}
    (reaps : (t.reapChild p).1 = some (c, code)) :
    ∃ e, t p = some e ∧ c ∈ e.children ∧ t.exited c = some (c, code) ∧
      (∀ d ∈ e.children, (t.exited d).isSome → c.val ≤ d.val) ∧
      (t.reapChild p).2 = amend (update t c none) p fun e =>
        { e with children := e.children.filter (· ≠ c) } := by
  have sorted (l : List TaskId) :
      (l.mergeSort (·.val ≤ ·.val)).Pairwise fun a b => decide (a.val ≤ b.val) :=
    pairwise_mergeSort (by simpa using fun _ _ _ => Nat.le_trans)
      (by simpa using fun a b : TaskId => Nat.le_total a.val b.val) l
  cases held : t p with
  | none => simp [reapChild, held] at reaps
  | some e =>
    cases first : (e.children.mergeSort (·.val ≤ ·.val)).findSome? t.exited with
    | none => simp [reapChild, held, first] at reaps
    | some result =>
      simp only [reapChild, held, bind_some, first, some_inj] at reaps ⊢
      obtain ⟨c, code⟩ := result
      cases reaps
      obtain ⟨before, x, after, parts, exit, running⟩ := findSome?_eq_some_iff.mp first
      obtain ⟨y, -, found⟩ := bind_eq_some_iff.mp exit
      obtain ⟨_, -, ⟨⟩⟩ := map_eq_some_iff.mp found
      have listed : c ∈ e.children.mergeSort (·.val ≤ ·.val) := by simp [parts]
      refine ⟨e, rfl, mem_mergeSort.mp listed, exit, fun d mem exited => ?_, rfl⟩
      have ordered := sorted e.children
      have inside : d ∈ e.children.mergeSort (·.val ≤ ·.val) := mem_mergeSort.mpr mem
      rw [parts] at ordered inside
      rcases mem_append.mp inside with early | late
      · rw [running d early] at exited
        cases exited
      · rcases mem_cons.mp late with rfl | late
        · exact le_rfl
        · exact of_decide_eq_true
            ((pairwise_cons.mp (pairwise_append.mp ordered).2.1).1 d late)

theorem ProcessTable.reapChild_none {t : ProcessTable} {p : TaskId} {e : ProcessEntry}
    (held : t p = some e) (waits : (t.reapChild p).1 = none) :
    ∀ c ∈ e.children, t.exited c = none := by
  cases first : (e.children.mergeSort (·.val ≤ ·.val)).findSome? t.exited with
  | none => exact fun c mem => findSome?_eq_none_iff.mp first c (mem_mergeSort.mpr mem)
  | some => simp [reapChild, held, first] at waits

namespace Session

variable {s : Session} {p c : TaskId} {code : Nat}

structure Consistent (s : Session) : Prop where
  entry : ∀ id e, s.table id = some e → s.lineage id = some e.parent ∧ e.exitCode = s.exits id
  children : ∀ p e, s.table p = some e →
    ∀ c, c ∈ e.children ↔ s.lineage c = some (some p) ∧ c ∉ s.reaped
  present : ∀ c p, s.lineage c = some (some p) → c ∉ s.reaped → (s.table c).isSome
  parents : ∀ c p, s.lineage c = some (some p) → (s.lineage p).isSome ∧ p ≠ c
  gone : ∀ c ∈ s.reaped, s.table c = none ∧ (s.lineage c).isSome
  fresh : ∀ id, s.lineage id = none → s.exits id = none
  once : s.reaped.Nodup

theorem consistent_next {call : Call} (consistent : s.Consistent) (allowed : s.Allowed call) :
    (s.next call).Consistent := by
  obtain ⟨entry, children, present, parents, gone, fresh, once⟩ := consistent
  cases call with
  | register id parent =>
    obtain ⟨unused, inTable⟩ := allowed
    cases parent with
    | none => constructor <;> simp only [next, register, elim_none] <;> grind [update_apply]
    | some p =>
      obtain ⟨e, found⟩ := isSome_iff_exists.mp (inTable p rfl)
      have other : p ≠ id := by
        rintro rfl
        cases unused.symm.trans (entry p e found).1
      constructor <;> simp only [next, register, elim_some, amend,
        update_of_ne other, found, map_some] <;> grind [update_apply]
  | recordExit id code =>
    cases found : s.table id <;> constructor <;>
      simp only [next, recordExit, amend, found, map_none, map_some,
        isSome_none, isSome_some, if_true] <;> grind [update_apply]
  | reapChild p =>
    cases reaps : (s.table.reapChild p).1 with
    | none =>
      have same : (s.table.reapChild p).2 = s.table := by
        unfold ProcessTable.reapChild at *
        split <;> simp_all
      rw [next, reaps, same]
      exact ⟨entry, children, present, parents, gone, fresh, once⟩
    | some result =>
      obtain ⟨e, held, listed, exit, -, after⟩ := reapChild_some reaps
      have other : p ≠ result.1 := (parents _ p ((children p e held _).mp listed).1).2
      constructor <;> simp only [next, reaps, after, amend,
        update_of_ne other, held, map_some, toList_some, singleton_append] <;> grind [update_apply]
  | remove id =>
    simp only [Allowed] at allowed
    cases found : s.table id <;> constructor <;> simp only [next, remove] <;>
      grind [update_apply]

theorem Consistent.exited_eq (consistent : s.Consistent) (child : s.lineage c = some (some p))
    (unreaped : c ∉ s.reaped) : s.table.exited c = (s.exits c).map (c, ·) := by
  obtain ⟨e, found⟩ := isSome_iff_exists.mp (consistent.present c p child unreaped)
  rw [exited, found, bind_some, (consistent.entry c e found).2]

/-- `record_exit` names the parent of the process exactly if the parent is in the table. -/
def Notifies (s : Session) (id : TaskId) : Prop :=
  ∀ code p, (s.table.recordExit id code).1 = some p ↔
    s.lineage id = some (some p) ∧ (s.table p).isSome

/-- Each child is reaped once, by its parent, with the code of its last exit, and the lowest exited
child first; `record_exit` is exact for a process whose parent is in the table. -/
theorem wait_exact {made : List Call} (run : Run (calls.restrict Allowed) {} made s) :
    s.reaped.Nodup ∧
    (∀ p c code, (s.table.reapChild p).1 = some (c, code) →
      s.lineage c = some (some p) ∧ c ∉ s.reaped ∧ s.exits c = some code ∧
      ∀ d, s.lineage d = some (some p) → d ∉ s.reaped → (s.exits d).isSome → c.val ≤ d.val) ∧
    (∀ p, (s.table p).isSome → (s.table.reapChild p).1 = none →
      ∀ c, s.lineage c = some (some p) → c ∉ s.reaped → s.exits c = none) ∧
    (∀ p e, s.table p = some e → ∀ c ∈ e.children, s.lineage c = some (some p)) ∧
    ∀ id e, s.table id = some e →
      (s.Notifies id ↔ ∀ p, e.parent = some p → (s.table p).isSome) := by
  have consistent : s.Consistent := run.invariant Consistent
    (fun _ _ _ consistent step => by
      rw [step.2]
      exact consistent_next consistent step.1)
    (by constructor <;> simp)
  refine ⟨consistent.once, fun p c code reaps => ?_, fun p held waits c child unreaped => ?_,
    fun p e held c listed => ((consistent.children p e held c).mp listed).1, fun id e held => ?_⟩
  · obtain ⟨e, held, listed, exit, first, -⟩ := reapChild_some reaps
    obtain ⟨child, unreaped⟩ := (consistent.children p e held c).mp listed
    refine ⟨child, unreaped, ?_, fun d child' unreaped' exited => ?_⟩
    · rw [consistent.exited_eq child unreaped] at exit
      obtain ⟨_, found, ⟨⟩⟩ := map_eq_some_iff.mp exit
      exact found
    · refine first d ((consistent.children p e held d).mpr ⟨child', unreaped'⟩) ?_
      rwa [consistent.exited_eq child' unreaped', isSome_map]
  · obtain ⟨e, held⟩ := isSome_iff_exists.mp held
    have running := reapChild_none held waits c
      ((consistent.children p e held c).mpr ⟨child, unreaped⟩)
    rwa [consistent.exited_eq child unreaped, map_eq_none_iff] at running
  · simp [Notifies, recordExit, held, (consistent.entry id e held).1]

/-- A child is registered, exits and is reaped. -/
theorem wait_exact_reaped : ∃ s, Run (calls.restrict Allowed) {}
    [.register ⟨1⟩ none, .register ⟨2⟩ (some ⟨1⟩), .recordExit ⟨2⟩ 7, .reapChild ⟨1⟩] s ∧
    s.reaped = [⟨2⟩] ∧ s.reaped.Nodup := by
  refine ⟨_, (fun run => ⟨run, by decide +kernel, (wait_exact run).1⟩) <|
    .cons ⟨⟨rfl, by rintro _ ⟨⟩⟩, rfl⟩ (.cons ⟨⟨rfl, by rintro _ ⟨⟩; rfl⟩, rfl⟩
      (.cons ⟨trivial, rfl⟩ (.single ⟨trivial, rfl⟩)))⟩

/-- The exit of a child is reported to a parent that is gone. -/
theorem exit_reported_to_absent : ∃ s, Run (calls.restrict Allowed) {}
    [.register ⟨1⟩ none, .register ⟨2⟩ (some ⟨1⟩), .remove ⟨1⟩] s ∧ (s.table ⟨2⟩).isSome ∧
    (s.table.recordExit ⟨2⟩ 0).1 = some ⟨1⟩ ∧ s.table ⟨1⟩ = none := by
  refine ⟨_, .cons ⟨⟨rfl, by rintro _ ⟨⟩⟩, rfl⟩ (.cons ⟨⟨rfl, by rintro _ ⟨⟩; rfl⟩, rfl⟩
    (.single ⟨by rintro _ ⟨⟩; rfl, rfl⟩)), rfl, rfl, rfl⟩

end Session

end NexaCore.Processes
