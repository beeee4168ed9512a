import NexaCore.Init.Proofs.Order
import NexaCore.Init.Supervisor
import NexaCore.Misc.Run

/-!
# The processes of the services

The supervisor with a host that records what happens to processes. The supervisor makes moves: it
spawns a process for a service that has none, learns of or causes the end of the recorded process
of a service, or changes a record only. `start_all` spawns and arms without a look at the status.
-/

namespace NexaCore.Init

open Misc Relation Function List DependencyGraph Option ServiceHost

inductive Effect where
  | spawned (name : ServiceName) (pid : Pid)
  | exited (pid : Pid)
  | killed (pid : Pid)
deriving DecidableEq, Repr

structure Traced (H : Type) where
  inner : H
  log : List Effect

section

variable {H : Type} [ServiceHost H]

instance : ServiceHost (Traced H) where
  nowMs h := ServiceHost.nowMs h.inner
  spawn request h :=
    match ServiceHost.spawn request h.inner with
    | (.ok pid, inner) => (.ok pid, ⟨inner, h.log ++ [.spawned request.name pid]⟩)
    | (.error e, inner) => (.error e, ⟨inner, h.log⟩)
  kill pid h := ⟨ServiceHost.kill pid h.inner, h.log ++ [.killed pid]⟩
  liveness pid h :=
    match ServiceHost.liveness pid h.inner with
    | (.exited success, inner) => (.exited success, ⟨inner, h.log ++ [.exited pid]⟩)
    | (.alive, inner) => (.alive, ⟨inner, h.log⟩)
  health pid h := ((ServiceHost.health pid h.inner).1, ⟨(ServiceHost.health pid h.inner).2, h.log⟩)
  createSocket name spec h :=
    ((ServiceHost.createSocket name spec h.inner).1,
      ⟨(ServiceHost.createSocket name spec h.inner).2, h.log⟩)

theorem spawn_traced (request : SpawnRequest) (h : Traced H) :
    (∃ e inner, spawn request h = (.error e, ⟨inner, h.log⟩)) ∨ ∃ pid inner, spawn request h =
        (.ok pid, ⟨inner, h.log ++ [.spawned request.name pid]⟩) := by
  simp only [spawn]
  split
  · exact .inr ⟨_, _, rfl⟩
  · exact .inl ⟨_, _, rfl⟩

theorem liveness_traced (pid : Pid) (h : Traced H) :
    (∃ inner, liveness pid h = (.alive, ⟨inner, h.log⟩)) ∨ ∃ success inner, liveness pid h =
        (.exited success, ⟨inner, h.log ++ [.exited pid]⟩) := by
  simp only [liveness]
  split
  · exact .inr ⟨_, _, rfl⟩
  · exact .inl ⟨_, rfl⟩

end

/-- The process was spawned for the service, and was neither reported exited nor killed. -/
def Alive (log : List Effect) (name : ServiceName) (pid : Pid) : Prop :=
  .spawned name pid ∈ log ∧ .exited pid ∉ log ∧ .killed pid ∉ log

def Fresh (log : List Effect) : Prop :=
  log.Pairwise fun a b => ∀ name other pid, a = .spawned name pid → b ≠ .spawned other pid

/-! ## Moves -/

/-- What the moves of the supervisor are about. -/
structure View where
  order : List ServiceName
  runtimes : ServiceName → Option ServiceRuntime
  log : List Effect

structure Sets (name : ServiceName) (rt rt' : ServiceRuntime) (v v' : View) : Prop where
  found : v.runtimes name = some rt
  order : v'.order = v.order
  runtimes : v'.runtimes = update v.runtimes name (some rt')

/-- A move for one service. -/
inductive Move (name : ServiceName) (v v' : View) : Prop where
  | spawn {pid} {rt rt' : ServiceRuntime} (sets : Sets name rt rt' v v') (free : rt.pid = none)
      (held : rt'.pid = some pid) (running : rt'.status = .running)
      (log : v'.log = v.log ++ [.spawned name pid])
  | finish {pid effect} {rt rt' : ServiceRuntime} (sets : Sets name rt rt' v v')
      (held : rt.pid = some pid) (free : rt'.pid = none) (ended : rt'.status ≠ .running)
      (ends : effect = .exited pid ∨ effect = .killed pid) (log : v'.log = v.log ++ [effect])
  | adjust {rt rt' : ServiceRuntime} (sets : Sets name rt rt' v v') (same : rt'.pid = rt.pid)
      (status : rt'.status = .running ↔ rt.status = .running) (log : v'.log = v.log)

abbrev Moves (name : ServiceName) : View → View → Prop := ReflTransGen (Move name)

/-- A pid is recorded exactly for the running services. -/
def Recorded (v : View) : Prop :=
  ∀ name rt, v.runtimes name = some rt → (rt.pid.isSome ↔ rt.status = .running)

/-- The processes that are alive are the recorded ones. -/
structure Tracks (v : View) : Prop where
  alive_iff : ∀ name pid, Alive v.log name pid ↔ (v.runtimes name).bind (·.pid) = some pid
  spawned : ∀ pid, .exited pid ∈ v.log ∨ .killed pid ∈ v.log → ∃ name, .spawned name pid ∈ v.log

variable {v v' : View} {name : ServiceName} {rt : ServiceRuntime}

theorem Recorded.free (recorded : Recorded v)
    (found : v.runtimes name = some rt) (idle : rt.status ≠ .running) : rt.pid = none :=
  not_isSome_iff_eq_none.mp (mt (recorded name rt found).mp idle)

theorem Recorded.set (recorded : Recorded v) {rt' : ServiceRuntime} (sets : Sets name rt rt' v v')
    (same : rt'.pid.isSome ↔ rt'.status = .running) : Recorded v' := by
  intro other rt found
  rw [sets.runtimes, update_apply] at found
  split at found
  · cases found
    exact same
  · exact recorded other rt found

theorem Move.recorded (move : Move name v v') (recorded : Recorded v) : Recorded v' := by
  cases move with
  | spawn sets free held running => exact recorded.set sets (by simp [held, running])
  | finish sets held free ended => exact recorded.set sets (by simp [free, ended])
  | adjust sets same status =>
    refine recorded.set sets ?_
    rw [same, status]
    exact recorded _ _ sets.found

theorem Move.sets (move : Move name v v') : ∃ rt rt', Sets name rt rt' v v' := by
  cases move with
  | spawn sets | finish sets | adjust sets => exact ⟨_, _, sets⟩

theorem Fresh.unique {log : List Effect} (fresh : Fresh log) {a b : ServiceName} {pid : Pid}
    (first : .spawned a pid ∈ log) (second : .spawned b pid ∈ log) : a = b := by
  by_contra other
  have symm : Std.Symm fun x y : Effect =>
      ∀ name other pid, x = .spawned name pid → y ≠ .spawned other pid :=
    ⟨fun x y apart name other pid left right => apart other name pid right left⟩
  exact List.Pairwise.forall fresh first second (by simpa using other) a b pid rfl rfl

theorem Move.tracks (move : Move name v v') (fresh : Fresh v'.log) (tracks : Tracks v) :
    Tracks v' := by
  cases move with
  | @spawn pid rt rt' sets free held running log =>
    rw [log] at fresh
    obtain ⟨-, -, new⟩ := List.pairwise_append.mp fresh
    have unused : ∀ other, .spawned other pid ∉ v.log := fun other mem =>
      new _ mem _ (mem_singleton_self _) other name pid rfl rfl
    refine ⟨fun other p => ?_, fun p ended => ?_⟩
    · have old := tracks.alive_iff other p
      simp only [Alive, log, sets.runtimes, mem_append, mem_singleton, reduceCtorEq,
        or_false, Effect.spawned.injEq, update_apply] at old ⊢
      split
      · rename_i same
        subst same
        rw [sets.found, bind_some, free] at old
        rw [bind_some, held, some.injEq]
        constructor
        · rintro ⟨mem | ⟨-, rfl⟩, alive⟩
          · cases old.mp ⟨mem, alive⟩
          · rfl
        · rintro rfl
          have never : ¬(.exited pid ∈ v.log ∨ .killed pid ∈ v.log) := fun ended =>
            (tracks.spawned pid ended).elim unused
          exact ⟨.inr ⟨rfl, rfl⟩, not_or.mp never⟩
      · rename_i apart
        simp only [apart, false_and, or_false]
        exact old
    · simp only [log, mem_append, mem_singleton, reduceCtorEq, or_false] at ended ⊢
      exact (tracks.spawned p ended).imp fun _ => .inl
  | @finish pid effect rt rt' sets held free ended ends log =>
    rw [log] at fresh
    have fresh : Fresh v.log := (List.pairwise_append.mp fresh).1
    have recorded : Alive v.log name pid :=
      (tracks.alive_iff name pid).mpr (by simp [sets.found, held])
    have alive : ∀ other p, Alive v'.log other p ↔ Alive v.log other p ∧ p ≠ pid := by
      intro other p
      rcases ends with rfl | rfl <;>
      · simp only [Alive, log, mem_append, mem_singleton, reduceCtorEq, or_false, not_or,
          Effect.exited.injEq, Effect.killed.injEq]
        tauto
    refine ⟨fun other p => (alive other p).trans ?_, fun p gone => ?_⟩
    · rw [tracks.alive_iff, sets.runtimes, update_apply]
      split
      · rename_i same
        rw [same, sets.found, bind_some, bind_some, held, free]
        simp only [some.injEq, reduceCtorEq, iff_false, not_and, not_not]
        exact Eq.symm
      · rename_i apart
        rw [and_iff_left_iff_imp]
        rintro held' rfl
        exact apart (fresh.unique ((tracks.alive_iff other p).mpr held').1 recorded.1)
    · rw [log] at gone ⊢
      by_cases same : p = pid
      · exact ⟨name, mem_append_left _ (same ▸ recorded.1)⟩
      · have before : .exited p ∈ v.log ∨ .killed p ∈ v.log := by
          rcases ends with rfl | rfl <;> simpa [same] using gone
        exact (tracks.spawned p before).imp fun _ => mem_append_left _
  | @adjust rt rt' sets same status log =>
    refine ⟨fun other p => ?_, log ▸ tracks.spawned⟩
    rw [log, tracks.alive_iff, sets.runtimes, update_apply]
    split
    · rename_i here
      rw [here, sets.found, bind_some, bind_some, same]
    · rfl

theorem Move.log (move : Move name v v') : v.log <+: v'.log := by
  cases move with
  | spawn _ _ _ _ log | finish _ _ _ _ _ log => exact log ▸ prefix_append _ _
  | adjust _ _ _ log => exact log ▸ prefix_rfl

theorem Moves.other (moves : Moves name v v') {other : ServiceName} (apart : other ≠ name) :
    v'.runtimes other = v.runtimes other := by
  induction moves with
  | refl => rfl
  | tail _ move ih =>
    obtain ⟨rt, rt', sets⟩ := move.sets
    rw [sets.runtimes, update_of_ne apart, ih]

structure Inv (v : View) : Prop where
  nodup : v.order.Nodup
  known : ∀ name, (v.runtimes name).isSome ↔ name ∈ v.order
  recorded : Recorded v
  tracks : Fresh v.log → Tracks v

theorem Inv.moves (inv : Inv v) (moves : Moves name v v') : Inv v' := by
  induction moves with
  | refl => exact inv
  | @tail v v' _ move ih =>
    obtain ⟨rt, rt', sets⟩ := move.sets
    refine ⟨sets.order ▸ ih.nodup, fun other => ?_, move.recorded ih.recorded, fun fresh =>
      move.tracks fresh (ih.tracks (fresh.sublist move.log.sublist))⟩
    rw [sets.order, ← ih.known, sets.runtimes, update_apply]
    split
    · rename_i same
      rw [same, sets.found]
      rfl
    · rfl

/-! ## The calls of the supervisor -/

namespace Supervisor

variable {H : Type}

def view (sup : Supervisor (Traced H)) : View :=
  ⟨sup.order, sup.runtimes, sup.host.log⟩

variable {sup : Supervisor (Traced H)} {acc : Supervisor (Traced H) × List TickEvent}

theorem sets_setRuntime (found : sup.runtimes name = some rt) (host : Traced H)
    (change : ServiceRuntime → ServiceRuntime) :
    Sets name rt (change rt) sup.view ({ sup with host }.setRuntime name change).view :=
  ⟨found, rfl, by simp [setRuntime, view, found]⟩

/-- The end of a process, in the state before the host reported or caused it. -/
theorem moves_handleTermination {pid : Pid} {effect : Effect} (host : Traced H) (success : Bool)
    (now : Nat) (events : List TickEvent) (found : sup.runtimes name = some rt)
    (held : rt.pid = some pid) (ends : effect = .exited pid ∨ effect = .killed pid)
    (log : host.log = sup.host.log ++ [effect]) :
    Moves name sup.view ({ sup with host }.handleTermination name success now events).1.view := by
  simp only [handleTermination, found]
  split
  · exact .single (.finish (sets_setRuntime found host _) held rfl (by simp) ends log)
  · exact .single (.finish (sets_setRuntime found host _) held rfl (by simp) ends log)

theorem inv_foldl {step : Supervisor (Traced H) × List TickEvent → ServiceName →
      Supervisor (Traced H) × List TickEvent}
    (each : ∀ acc name, Recorded acc.1.view → Moves name acc.1.view (step acc name).1.view)
    (names : List ServiceName) (acc : Supervisor (Traced H) × List TickEvent)
    (inv : Inv acc.1.view) : Inv (names.foldl step acc).1.view := by
  induction names generalizing acc with
  | nil => exact inv
  | cons name rest ih => exact ih _ (inv.moves (each acc name inv.recorded))

variable [ServiceHost H]

theorem moves_spawnService (found : sup.runtimes name = some rt) (free : rt.pid = none) :
    Moves name sup.view (sup.spawnService name).2.view := by
  unfold spawnService
  cases sup.manifests name with
  | none => exact .refl
  | some m =>
    rcases spawn_traced ⟨name, m.exec, m.args, m.capabilities, m.socket⟩ sup.host with
      ⟨e, inner, called⟩ | ⟨pid, inner, called⟩
    · simp only [called]
      exact .refl
    · simp only [called]
      exact .single (.spawn (sets_setRuntime found _ _) free rfl rfl rfl)

theorem spawnService_error {e : SpawnError} {after : Supervisor (Traced H)}
    (failed : sup.spawnService name = (.error e, after)) :
    ∃ inner, after = { sup with host := ⟨inner, sup.host.log⟩ } := by
  unfold spawnService at failed
  split at failed
  · cases failed
  · rename_i m _
    rcases spawn_traced ⟨name, m.exec, m.args, m.capabilities, m.socket⟩ sup.host with
      ⟨_, inner, called⟩ | ⟨_, _, called⟩
    · simp only [called] at failed
      cases failed
      exact ⟨inner, rfl⟩
    · simp only [called] at failed
      cases failed

theorem moves_startOne (recorded : Recorded sup.view) (found : sup.runtimes name = some rt)
    (idle : rt.status ≠ .running) : Moves name sup.view (sup.startOne name).2.view := by
  unfold startOne
  cases (sup.manifests name).bind (·.socket) with
  | some spec =>
    simp only [createSocket]
    split <;> rename_i called <;> obtain ⟨-, rfl⟩ := Prod.mk.inj called
    · exact .refl
    · exact .single (.adjust (sets_setRuntime found _ _) rfl (by simp [idle]) rfl)
  | none =>
    have spawns := moves_spawnService found (recorded.free found idle)
    dsimp only
    split <;> rename_i called <;> rwa [called] at spawns

theorem moves_pollOne (now : Nat) (acc : Supervisor (Traced H) × List TickEvent)
    (name : ServiceName) :
    Moves name acc.1.view (pollOne now acc name).1.view := by
  unfold pollOne
  split
  · exact .refl
  rename_i rt found
  obtain ⟨found, running⟩ := filter_eq_some_iff.mp found
  split
  · exact .refl
  rename_i pid held
  rcases liveness_traced pid acc.1.host with ⟨inner, called⟩ | ⟨success, inner, called⟩
  · simp only [called]
    split
    · exact .refl
    -- the time of the probe is recorded first
    have set := sets_setRuntime found ⟨inner, acc.1.host.log⟩ fun rt =>
        { rt with lastHealthMs := now }
    have probed : Moves name acc.1.view _ := .single (.adjust set rfl .rfl rfl)
    refine probed.trans ?_
    simp only [health]
    split <;> rename_i called <;> obtain ⟨-, rfl⟩ := Prod.mk.inj called
    · exact .refl
    · have found := congrFun set.runtimes name
      rw [update_self] at found
      exact moves_handleTermination _ _ _ _ found held (.inr rfl) rfl
  · simp only [called]
    exact moves_handleTermination _ _ _ _ found held (.inl rfl) rfl

theorem moves_maybeRestart (now : Nat) (acc : Supervisor (Traced H) × List TickEvent)
    (name : ServiceName) (recorded : Recorded acc.1.view) :
    Moves name acc.1.view (maybeRestart now acc name).1.view := by
  unfold maybeRestart
  split
  · rename_i due
    obtain ⟨rt, found, due⟩ := (any_eq_true _ _).mp due
    have idle : rt.status ≠ .running := by
      rw [(of_decide_eq_true due).1]
      decide
    split
    · rename_i called
      have spawns := moves_spawnService found (recorded.free found idle)
      rwa [called] at spawns
    · rename_i called
      obtain ⟨inner, rfl⟩ := spawnService_error called
      dsimp only
      split
      · exact .refl
      · exact .single (.adjust (sets_setRuntime found _ _) rfl (by simp [idle]) rfl)
  · exact .refl

theorem moves_stopOne (acc : Supervisor (Traced H) × List TickEvent) (name : ServiceName)
    (recorded : Recorded acc.1.view) : Moves name acc.1.view (stopOne acc name).1.view := by
  unfold stopOne
  split
  · exact .refl
  rename_i rt found
  split <;> rename_i status
  · obtain ⟨pid, held⟩ := isSome_iff_exists.mp ((recorded name rt found).mpr status)
    simp only [held, elim_some]
    exact .single (.finish (sets_setRuntime found _ _) held rfl (by simp) (.inr rfl) rfl)
  · exact .single (.adjust (sets_setRuntime found _ _) rfl (by simp [status]) rfl)
  · exact .single (.adjust (sets_setRuntime found _ _) rfl (by simp [status]) rfl)
  · exact .single (.adjust (sets_setRuntime found _ _) rfl (by simp [status]) rfl)
  · exact .refl
  · exact .refl

theorem inv_startEach {names : List ServiceName} (nodup : names.Nodup) (inv : Inv sup.view)
    (listed : ∀ name ∈ names, name ∈ sup.order)
    (idle : ∀ name ∈ names, ∀ rt, sup.runtimes name = some rt → rt.status ≠ .running) :
    Inv (startEach names sup).2.view := by
  induction names generalizing sup with
  | nil => exact inv
  | cons name rest ih =>
    obtain ⟨absent, nodup⟩ := List.nodup_cons.mp nodup
    obtain ⟨rt, found⟩ := isSome_iff_exists.mp ((inv.known name).mpr (listed name (.head _)))
    have moves := moves_startOne inv.recorded found (idle name (.head _) rt found)
    have kept := inv.moves moves
    rw [startEach]
    refine andThen_state (P := fun sup : Supervisor (Traced H) => Inv sup.view) kept
      fun event _ => ?_
    rw [andThen_keep fun _ _ => rfl]
    refine ih nodup kept (fun other mem => ?_) fun other mem rt found => ?_
    · have known := listed other (.tail _ mem)
      exact (kept.known other).mp (moves.other (fun same => absent (same ▸ mem)) ▸
        (inv.known other).mpr known)
    · rw [show (sup.startOne name).2.runtimes other = sup.runtimes other from
        moves.other fun same => absent (same ▸ mem)] at found
      exact idle other (.tail _ mem) rt found

/-! ## Shutdown -/

/-- No service runs or waits to be started. -/
def Quiet (v : View) : Prop :=
  ∀ name rt, v.runtimes name = some rt → rt.status = .stopped ∨ rt.status = .failed

theorem quiet_foldl_stopOne {names : List ServiceName}
    (acc : Supervisor (Traced H) × List TickEvent) (recorded : Recorded acc.1.view)
    (quiet : ∀ name rt, name ∉ names → acc.1.runtimes name = some rt →
      rt.status = .stopped ∨ rt.status = .failed) : Quiet (names.foldl stopOne acc).1.view := by
  induction names generalizing acc with
  | nil => exact fun name rt => quiet name rt not_mem_nil
  | cons name rest ih =>
    have moves := moves_stopOne acc name recorded
    rw [foldl_cons]
    refine ih _ (moves.rec recorded fun _ move => move.recorded) fun other rt absent found => ?_
    by_cases same : other = name
    · subst same
      clear moves ih
      unfold stopOne at found
      split at found
      · rename_i none
        rw [none] at found
        cases found
      · rename_i held
        split at found <;> simp_all [setRuntime] <;> simp [← found]
    · exact quiet other rt (by simp [same, absent]) ((moves.other same).symm.trans found)

theorem pollOne_of_quiet (quiet : Quiet acc.1.view) (now : Nat) (name : ServiceName) :
    pollOne now acc name = acc := by
  unfold pollOne
  split
  · rfl
  · rename_i rt found
    obtain ⟨found, running⟩ := filter_eq_some_iff.mp found
    rcases quiet name rt found with status | status <;> simp [status] at running

theorem maybeRestart_of_quiet (quiet : Quiet acc.1.view) (now : Nat) (name : ServiceName) :
    maybeRestart now acc name = acc := by
  unfold maybeRestart
  split
  · rename_i due
    obtain ⟨rt, found, due⟩ := (any_eq_true _ _).mp due
    rcases quiet name rt found with status | status <;> simp [status] at due
  · rfl

theorem stopOne_of_quiet (quiet : Quiet acc.1.view) (name : ServiceName) :
    stopOne acc name = acc := by
  unfold stopOne
  split
  · rfl
  · rename_i rt found
    rcases quiet name rt found with status | status <;> simp [status]

/-! ## Runs -/

/-- The calls of the supervisor, and a change of the host between two of them. -/
inductive Call (H : Type) where
  | startAll
  | notifySocketConnection (name : ServiceName)
  | tick
  | handleSignal (signal : Signal)
  | shutdown
  | elapse (inner : H)

def Call.Stops : Call H → Prop
  | .shutdown | .handleSignal .terminate | .handleSignal .interrupt => True
  | _ => False

def next (sup : Supervisor (Traced H)) : Call H → Supervisor (Traced H)
  | .startAll => sup.startAll.2
  | .notifySocketConnection name => (sup.notifySocketConnection name).2
  | .tick => sup.tick.1
  | .handleSignal signal => (sup.handleSignal signal).1
  | .shutdown => sup.shutdown.1
  | .elapse inner => { sup with host := { sup.host with inner } }

variable (H) in
def system : Lts (Supervisor (Traced H)) (Call H) := fun sup call sup' => sup' = sup.next call

/-- `start_all` is called where no service runs. -/
def Careful (sup : Supervisor (Traced H)) (call : Call H) : Prop :=
  call = .startAll → ∀ name ∈ sup.order, (sup.runtimes name).all (·.status ≠ .running) = true

theorem inv_tick (inv : Inv sup.view) : Inv sup.tick.1.view :=
  inv_foldl (moves_maybeRestart _) _ _
    (inv_foldl (fun acc name _ => moves_pollOne _ acc name) _ (sup, []) inv)

theorem inv_shutdown (inv : Inv sup.view) : Inv sup.shutdown.1.view :=
  inv_foldl moves_stopOne _ (sup, []) inv

theorem inv_next {call : Call H} (inv : Inv sup.view) (careful : sup.Careful call) :
    Inv (sup.next call).view := by
  cases call with
  | startAll =>
    refine inv_startEach inv.nodup inv (fun _ => id) fun name mem rt found => ?_
    have idle := careful rfl name mem
    simpa [found] using idle
  | notifySocketConnection name =>
    simp only [next, notifySocketConnection]
    split
    · exact inv
    · rename_i armed
      obtain ⟨rt, found, status⟩ := map_eq_some_iff.mp (not_not.mp armed)
      rw [andThen_keep fun _ _ => rfl]
      exact inv.moves (moves_spawnService found (inv.recorded.free found (by simp [status])))
  | tick => exact inv_tick inv
  | handleSignal signal =>
    cases signal with
    | terminate | interrupt => exact inv_shutdown inv
    | childExited => exact inv_tick inv
  | shutdown => exact inv_shutdown inv
  | elapse inner => exact inv

theorem quiet_shutdown (inv : Inv sup.view) : Quiet sup.shutdown.1.view := by
  refine quiet_foldl_stopOne (sup, []) inv.recorded fun name rt absent found => ?_
  have known := (inv.known name).mp (isSome_iff_exists.mpr ⟨rt, found⟩)
  exact absurd (List.mem_reverse.mpr known) absent

theorem quiet_next {call : Call H} (inv : Inv sup.view) (stops : call.Stops) :
    Quiet (sup.next call).view := by
  cases call with
  | shutdown => exact quiet_shutdown inv
  | handleSignal signal =>
    cases signal with
    | terminate | interrupt => exact quiet_shutdown inv
    | childExited => cases stops
  | _ => cases stops

/-- After a shutdown nothing happens any more, unless the services are started again. -/
theorem view_next_of_quiet {call : Call H} (quiet : Quiet sup.view) (other : call ≠ .startAll) :
    (sup.next call).view = sup.view := by
  have tick : sup.tick.1 = sup := by
    unfold Supervisor.tick
    dsimp only
    rw [foldl_fixed' (pollOne_of_quiet quiet _), foldl_fixed' (maybeRestart_of_quiet quiet _)]
  have shutdown : sup.shutdown.1 = sup := by
    unfold Supervisor.shutdown
    rw [foldl_fixed' (stopOne_of_quiet quiet)]
  cases call with
  | startAll => exact absurd rfl other
  | notifySocketConnection name =>
    simp only [next, notifySocketConnection]
    split
    · rfl
    · rename_i armed
      obtain ⟨rt, found, status⟩ := map_eq_some_iff.mp (not_not.mp armed)
      rcases quiet name rt found with stopped | stopped <;> simp [stopped] at status
  | tick => exact congrArg view tick
  | handleSignal signal =>
    cases signal with
    | terminate | interrupt => exact congrArg view shutdown
    | childExited => exact congrArg view tick
  | shutdown => exact congrArg view shutdown
  | elapse inner => rfl

theorem view_run_of_quiet {calls : List (Call H)} {sup' : Supervisor (Traced H)}
    (quiet : Quiet sup.view) (run : Run ((system H).restrict Careful) sup calls sup')
    (none : .startAll ∉ calls) : sup'.view = sup.view := by
  induction run with
  | nil => rfl
  | snoc _ step ih =>
    rw [mem_append, not_or, mem_singleton] at none
    have same := ih none.1
    rw [step.2, view_next_of_quiet (same ▸ quiet) (Ne.symm none.2), same]

theorem runtimes_new (manifests : List ServiceManifest) (name : ServiceName)
    (map : ServiceName → Option ServiceRuntime) :
    manifests.foldl (fun (map : ServiceName → Option ServiceRuntime) m =>
      update map m.name (some {})) map name =
      if name ∈ manifests.map (·.name) then some {} else map name := by
  induction manifests generalizing map with
  | nil => simp
  | cons m rest ih =>
    rw [foldl_cons, ih]
    by_cases later : name ∈ rest.map (·.name)
    · simp [later]
    · by_cases same : name = m.name <;> simp_all

theorem mapError_eq_ok {α ε ε' : Type} {call : Except ε α} {f : ε → ε'} {a : α}
    (h : call.mapError f = .ok a) : call = .ok a := by
  cases call with
  | error e => cases h
  | ok b => exact congrArg Except.ok (Except.ok.inj h)

omit [ServiceHost H] in
theorem inv_new {manifests : List ServiceManifest} {inner : H}
    (created : new manifests (⟨inner, []⟩ : Traced H) = .ok sup) : Inv sup.view := by
  simp only [new, Bind.bind, Except.bind] at created
  split at created
  · cases created
  split at created
  · cases created
  rename_i g accepted
  split at created
  · cases created
  rename_i order listed
  cases created
  have perm := (startOrder_of_ok
    (fromManifests_ok (mapError_eq_ok accepted)).1 (mapError_eq_ok listed)).perm
  have nodup := (fromManifests_ok (mapError_eq_ok accepted)).1.nodup
  have default : ∀ name rt, (manifests.foldl (fun (map : ServiceName → Option ServiceRuntime) m =>
      update map m.name (some {})) fun _ => none) name = some rt → rt = {} := by
    intro name rt found
    rw [runtimes_new] at found
    split at found <;> cases found
    rfl
  refine ⟨perm.nodup_iff.mpr nodup, fun name => ?_, fun name rt found => ?_,
    fun _ => ⟨?_, by simp [view]⟩⟩
  · simp only [view, runtimes_new, perm.mem_iff]
    split <;> simp_all
  · rw [default name rt found]
    decide
  · intro name pid
    refine iff_of_false (fun alive => not_mem_nil alive.1) fun recorded => ?_
    obtain ⟨rt, found, held⟩ := bind_eq_some_iff.mp recorded
    rw [default name rt found] at held
    cases held

/-- Nothing is lost: a service has at most one process that is alive, and it is the recorded one. -/
structure NothingLost (sup : Supervisor (Traced H)) : Prop where
  single : ∀ name p q, Alive sup.host.log name p → Alive sup.host.log name q → p = q
  running : ∀ name rt, sup.runtimes name = some rt → (rt.pid.isSome ↔ rt.status = .running)
  recorded : ∀ name pid, Alive sup.host.log name pid ↔
    (sup.runtimes name).bind (·.pid) = some pid

/-- In every run with fresh pids in which `start_all` is called where no service runs, no process is
lost, and after a shutdown none is left and none is started. -/
theorem processes_tracked {manifests : List ServiceManifest} {inner : H}
    (created : new manifests (⟨inner, []⟩ : Traced H) = .ok sup) {calls : List (Call H)}
    {sup' : Supervisor (Traced H)} (run : Run ((system H).restrict Careful) sup calls sup')
    (fresh : Fresh sup'.host.log) :
    sup'.NothingLost ∧ ∀ before stop later, calls = before ++ stop :: later → stop.Stops →
      .startAll ∉ later → (∀ name pid, ¬Alive sup'.host.log name pid) ∧
        ∃ m, Run ((system H).restrict Careful) sup (before ++ [stop]) m ∧
          sup'.host.log = m.host.log := by
  have reached : ∀ {calls s}, Run ((system H).restrict Careful) sup calls s → Inv s.view :=
      fun run =>
    run.invariant (fun s => Inv s.view) (fun s call s' inv step => step.2 ▸ inv_next inv step.1)
      (inv_new created)
  have inv := reached run
  have tracks := inv.tracks fresh
  refine ⟨⟨fun name p q first second => ?_, inv.recorded, tracks.alive_iff⟩, ?_⟩
  · have held := (tracks.alive_iff name p).mp first
    exact some.inj (held.symm.trans ((tracks.alive_iff name q).mp second))
  · rintro before stop later rfl stops none
    rw [append_cons] at run
    obtain ⟨m, first, last⟩ := run.split
    have quiet : Quiet m.view := by
      obtain ⟨k, run, last⟩ := first.split
      obtain ⟨m', step, done⟩ := last.uncons
      rw [done.eq_of_nil rfl, step.2]
      exact quiet_next (reached run) stops
    have same := view_run_of_quiet quiet last none
    refine ⟨fun name pid alive => ?_, m, first, congrArg View.log same⟩
    have recorded := (tracks.alive_iff name pid).mp alive
    obtain ⟨rt, found, held⟩ := bind_eq_some_iff.mp recorded
    have free := inv.recorded.free found
        (by rcases (same ▸ quiet) name rt found with h | h <;> simp [h])
    rw [free] at held
    cases held

/-- A host whose processes stay alive and healthy, with the next pid. -/
structure Counter where
  next : Nat

instance : ServiceHost Counter where
  nowMs _ := 0
  spawn _ h := (.ok ⟨h.next⟩, ⟨h.next + 1⟩)
  kill _ h := h
  liveness _ h := (.alive, h)
  health _ h := (.healthy, h)
  createSocket _ _ h := (.ok (), h)

def daemon : ServiceManifest := { name := "daemon", exec := "/bin/daemon" }

def alone : Supervisor (Traced Counter) where
  manifests := update (fun _ => none) "daemon" (some daemon)
  order := ["daemon"]
  runtimes := update (fun _ => none) "daemon" (some {})
  host := ⟨⟨0⟩, []⟩

theorem new_daemon : new [daemon] (⟨⟨0⟩, []⟩ : Traced Counter) = .ok alone := by
  have accepted : fromManifests [daemon] = .ok ⟨{"daemon"}, update (fun _ => ∅) "daemon" ∅⟩ := by
    simp [fromManifests, addManifest, dangling, daemon, Bind.bind, Except.bind, pure, Except.pure]
  have ordered : topologicalOrder
      ⟨{"daemon"}, update (fun _ => ∅) "daemon" ∅⟩ = .ok ["daemon"] := by
    simp [topologicalOrder, rounds, start, emit, relax]
  simp only [new, accepted, Except.mapError, Bind.bind, Except.bind, ordered]
  rfl

theorem processes_tracked_shutdown :
    Alive (alone.next .startAll).host.log "daemon" ⟨0⟩ ∧
      ∃ sup, Run ((system Counter).restrict Careful)
      alone [.startAll, .tick, .shutdown, .tick] sup ∧ sup.NothingLost ∧
        ∀ name pid, ¬Alive sup.host.log name pid := by
  have run : Run ((system Counter).restrict Careful) alone [.startAll, .tick, .shutdown, .tick] _ :=
    .cons ⟨fun _ => by decide, rfl⟩ (.cons ⟨by rintro ⟨⟩, rfl⟩ (.cons ⟨by rintro ⟨⟩, rfl⟩
      (.single ⟨by rintro ⟨⟩, rfl⟩)))
  have log : ([Call.startAll, .tick, .shutdown, .tick].foldl next alone).host.log =
      [.spawned "daemon" ⟨0⟩, .killed ⟨0⟩] := by decide
  obtain ⟨kept, stopped⟩ := processes_tracked new_daemon run (log ▸ by simp [Fresh])
  refine ⟨by unfold Alive; decide, _, run, kept, ?_⟩
  exact (stopped [.startAll, .tick] .shutdown [.tick] rfl trivial (by simp)).1

/-- A second `start_all` spawns a second process of the service. -/
theorem processes_not_tracked : ∃ sup sup', new [daemon] (⟨⟨0⟩, []⟩ : Traced Counter) = .ok sup ∧
    Run (system Counter) sup [.startAll, .startAll] sup' ∧ Fresh sup'.host.log ∧
      ¬sup'.NothingLost := by
  refine ⟨alone, (alone.next .startAll).next .startAll, new_daemon, .cons rfl (.single rfl), ?_, ?_⟩
  · have log : ((alone.next .startAll).next .startAll).host.log =
        [.spawned "daemon" ⟨0⟩, .spawned "daemon" ⟨1⟩] := by decide
    rw [log]
    simp [Fresh]
  · intro kept
    have same := kept.single "daemon" ⟨0⟩ ⟨1⟩ (by unfold Alive; decide) (by unfold Alive; decide)
    exact absurd same (by decide)

end Supervisor

end NexaCore.Init
