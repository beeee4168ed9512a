import NexaCore.Init.Graph
import NexaCore.Misc.Attempt

/-!
# The supervisor

The maps from names are partial functions. Every effect on processes goes through the host, which
is any instance of `ServiceHost`.
-/

namespace NexaCore.Init

open Misc Function

/-- `Pid` (`supervisor.rs:20`). -/
structure Pid where
  raw : Nat
deriving DecidableEq, Repr

/-- `Liveness` (`supervisor.rs:23-32`). -/
inductive Liveness where
  | alive
  | exited (success : Bool)
deriving DecidableEq, Repr

/-- `Health` (`supervisor.rs:35-41`). -/
inductive Health where
  | healthy
  | unhealthy
deriving DecidableEq, Repr

/-- `Signal` (`supervisor.rs:44-52`). -/
inductive Signal where
  | terminate
  | interrupt
  | childExited
deriving DecidableEq, Repr

/-- `SpawnRequest` (`supervisor.rs:58-70`). -/
structure SpawnRequest where
  name : ServiceName
  exec : String
  args : List String
  capabilities : List Capability
  socket : Option SocketSpec
deriving DecidableEq, Repr

/-- `SpawnError` (`supervisor.rs:74`). -/
structure SpawnError where
  message : String
deriving DecidableEq, Repr

/-- `ServiceHost` (`supervisor.rs:87-114`). -/
class ServiceHost (H : Type) where
  nowMs : H → Nat
  spawn : SpawnRequest → H → Except SpawnError Pid × H
  kill : Pid → H → H
  liveness : Pid → H → Liveness × H
  health : Pid → H → Health × H
  createSocket : ServiceName → SocketSpec → H → Except SpawnError Unit × H

/-- `RunStatus` (`supervisor.rs:118-131`). -/
inductive RunStatus where
  | pending
  | socketArmed
  | running
  | backoff
  | stopped
  | failed
deriving DecidableEq, Repr

/-- `ServiceRuntime` with its defaults (`supervisor.rs:134-152`). -/
structure ServiceRuntime where
  status : RunStatus := .pending
  pid : Option Pid := none
  restartCount : Nat := 0
  restartAtMs : Nat := 0
  lastHealthMs : Nat := 0
deriving DecidableEq, Repr

/-- `TickEvent` (`supervisor.rs:157-191`). -/
inductive TickEvent where
  | started (service : ServiceName)
  | socketArmed (service : ServiceName)
  | exited (service : ServiceName) (success : Bool)
  | unhealthy (service : ServiceName)
  | restartScheduled (service : ServiceName) (atMs : Nat)
  | restarted (service : ServiceName)
  | gaveUp (service : ServiceName)
  | stopped (service : ServiceName)
  | spawnFailed (service : ServiceName) (error : String)
deriving DecidableEq, Repr

/-- `SupervisorError` (`supervisor.rs:195-202`). -/
inductive SupervisorError where
  | manifest (service : ServiceName) (error : ManifestError)
  | graph (error : GraphError)
  | spawn (service : ServiceName) (error : SpawnError)
deriving DecidableEq, Repr

/-- `Supervisor` (`supervisor.rs:215-220`). -/
structure Supervisor (H : Type) where
  manifests : ServiceName → Option ServiceManifest
  order : List ServiceName
  runtimes : ServiceName → Option ServiceRuntime
  host : H

namespace Supervisor

variable {H : Type}

/-- `new` (`supervisor.rs:231-255`). -/
def new (manifests : List ServiceManifest) (host : H) : Except SupervisorError (Supervisor H) := do
  manifests.forM fun m => m.validate.mapError (.manifest m.name)
  let graph ← (DependencyGraph.fromManifests manifests).mapError .graph
  let order ← graph.topologicalOrder.mapError .graph
  return {
    manifests := manifests.foldl (fun map m => update map m.name (some m)) fun _ => none
    order
    runtimes := manifests.foldl (fun map m => update map m.name (some {})) fun _ => none
    host }

/-- `if let Some(rt) = self.runtimes.get_mut(name)`. -/
def setRuntime (sup : Supervisor H) (name : ServiceName)
    (change : ServiceRuntime → ServiceRuntime) :
    Supervisor H :=
  { sup with runtimes := update sup.runtimes name ((sup.runtimes name).map change) }

variable [ServiceHost H]

/-- `spawn_service` (`supervisor.rs:393-419`). -/
def spawnService (name : ServiceName) (sup : Supervisor H) :
    Except SpawnError Unit × Supervisor H :=
  match sup.manifests name with
  | none => (.ok (), sup)
  | some m =>
    match ServiceHost.spawn ⟨name, m.exec, m.args, m.capabilities, m.socket⟩ sup.host with
    | (.error e, host) => (.error e, { sup with host })
    | (.ok pid, host) =>
      (.ok (), { sup with host }.setRuntime name fun rt =>
        { rt with pid := some pid, status := .running, lastHealthMs := ServiceHost.nowMs host })

/-- One service of `start_all`. -/
def startOne (name : ServiceName) (sup : Supervisor H) :
    Except SupervisorError TickEvent × Supervisor H :=
  match (sup.manifests name).bind (·.socket) with
  | some spec =>
    match ServiceHost.createSocket name spec sup.host with
    | (.error e, host) => (.error (.spawn name e), { sup with host })
    | (.ok (), host) =>
      (.ok (.socketArmed name),
        { sup with host }.setRuntime name fun rt => { rt with status := .socketArmed })
  | none =>
    match sup.spawnService name with
    | (.error e, sup) => (.error (.spawn name e), sup)
    | (.ok (), sup) => (.ok (.started name), sup)

/-- The loop of `start_all`. -/
def startEach : List ServiceName → Supervisor H →
    Except SupervisorError (List TickEvent) × Supervisor H
  | [], sup => (.ok [], sup)
  | name :: rest, sup =>
    andThen (sup.startOne name) fun event sup =>
      andThen (startEach rest sup) fun events sup => (.ok (event :: events), sup)

/-- `start_all` (`supervisor.rs:299-319`). -/
def startAll (sup : Supervisor H) : Except SupervisorError (List TickEvent) × Supervisor H :=
  startEach sup.order sup

/-- `notify_socket_connection` (`supervisor.rs:327-336`). -/
def notifySocketConnection (name : ServiceName) (sup : Supervisor H) :
    Except SpawnError (Option TickEvent) × Supervisor H :=
  if (sup.runtimes name).map (·.status) ≠ some .socketArmed then (.ok none, sup)
  else andThen (sup.spawnService name) fun _ sup => (.ok (some (.started name)), sup)

/-- `handle_termination` (`supervisor.rs:455-487`). -/
def handleTermination (name : ServiceName) (success : Bool) (now : Nat) (events : List TickEvent)
    (sup : Supervisor H) : Supervisor H × List TickEvent :=
  let events := events ++ [.exited name success]
  match sup.runtimes name with
  | none => (sup, events)
  | some rt =>
    if (sup.manifests name).any (·.restart.shouldRestart success) then
      let count := min (rt.restartCount + 1) (2 ^ 32 - 1)
      let atMs := min (now + (sup.manifests name).elim 0 (·.backoff.delayMs count)) u64Max
      (sup.setRuntime name fun rt =>
        { rt with pid := none, restartCount := count, restartAtMs := atMs, status := .backoff },
        events ++ [.restartScheduled name atMs])
    else
      (sup.setRuntime name fun rt => { rt with pid := none, status := .failed },
        events ++ [.gaveUp name])

/-- `poll_one` (`supervisor.rs:421-453`). -/
def pollOne (now : Nat) (acc : Supervisor H × List TickEvent) (name : ServiceName) :
    Supervisor H × List TickEvent :=
  match (acc.1.runtimes name).filter (·.status = .running) with
  | none => acc
  | some rt =>
    match rt.pid with
    | none => acc
    | some pid =>
      match ServiceHost.liveness pid acc.1.host with
      | (.exited success, host) => { acc.1 with host }.handleTermination name success now acc.2
      | (.alive, host) =>
        let sup := { acc.1 with host }
        match ((sup.manifests name).bind (·.health)).filter
          (·.intervalMs ≤ now - rt.lastHealthMs) with
        | none => (sup, acc.2)
        | some _ =>
          let sup := sup.setRuntime name fun rt => { rt with lastHealthMs := now }
          match ServiceHost.health pid sup.host with
          | (.healthy, host) => ({ sup with host }, acc.2)
          | (.unhealthy, host) =>
            { sup with host := ServiceHost.kill pid host }.handleTermination name false now
              (acc.2 ++ [TickEvent.unhealthy name])

/-- `maybe_restart` (`supervisor.rs:489-514`). -/
def maybeRestart (now : Nat) (acc : Supervisor H × List TickEvent) (name : ServiceName) :
    Supervisor H × List TickEvent :=
  if (acc.1.runtimes name).any fun rt => rt.status = .backoff ∧ rt.restartAtMs ≤ now then
    match acc.1.spawnService name with
    | (.ok (), sup) => (sup, acc.2 ++ [.restarted name])
    | (.error e, sup) =>
      -- a failed restart is another crash
      let sup := match (sup.manifests name).map (·.backoff) with
        | none => sup
        | some backoff => sup.setRuntime name fun rt =>
          let count := min (rt.restartCount + 1) (2 ^ 32 - 1)
          { rt with
            restartCount := count
            restartAtMs := min (now + backoff.delayMs count) u64Max
            status := .backoff }
      (sup, acc.2 ++ [.spawnFailed name e.message])
  else acc

/-- `tick` (`supervisor.rs:341-352`). -/
def tick (sup : Supervisor H) : Supervisor H × List TickEvent :=
  let now := ServiceHost.nowMs sup.host
  sup.order.foldl (maybeRestart now) (sup.order.foldl (pollOne now) (sup, []))

/-- One service of `shutdown`. -/
def stopOne (acc : Supervisor H × List TickEvent) (name : ServiceName) :
    Supervisor H × List TickEvent :=
  match acc.1.runtimes name with
  | none => acc
  | some rt =>
    match rt.status with
    | .running =>
      let host := rt.pid.elim acc.1.host fun pid => ServiceHost.kill pid acc.1.host
      ({ acc.1 with host }.setRuntime name fun rt => { rt with pid := none, status := .stopped },
        acc.2 ++ [.stopped name])
    | .socketArmed | .backoff | .pending =>
      (acc.1.setRuntime name fun rt => { rt with status := .stopped }, acc.2 ++ [.stopped name])
    | .stopped | .failed => acc

/-- `shutdown` (`supervisor.rs:365-389`). -/
def shutdown (sup : Supervisor H) : Supervisor H × List TickEvent :=
  sup.order.reverse.foldl stopOne (sup, [])

/-- `handle_signal` (`supervisor.rs:356-361`). -/
def handleSignal (signal : Signal) (sup : Supervisor H) : Supervisor H × List TickEvent :=
  match signal with
  | .terminate | .interrupt => sup.shutdown
  | .childExited => sup.tick

end Supervisor

end NexaCore.Init
