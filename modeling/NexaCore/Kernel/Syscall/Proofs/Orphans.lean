import NexaCore.Kernel.Ipc.Operations
import NexaCore.Kernel.Scheduling.Proofs.Yield
import NexaCore.Kernel.Syscall.IpcHandlers
import NexaCore.Misc.Run

/-!
# Parked tasks and the channels that list them

The registry and the scheduler as one system, driven by the five IPC system calls of the current
task. A task that is `BlockedOnIpc` can only be woken through the waiter queue that lists it;
`NoOrphan` says that there is one. Each handler turn is one registry operation with its wake
action (`Kernel.perform`), for which the invariant is shown once.
-/

namespace NexaCore.Syscall

open Ipc Misc Scheduling RoundRobinScheduler KernelIpcRegistry Kernel Option List Reply

def Waits (ch : Channel) (task : TaskId) : Prop :=
  task ∈ ch.waitersSend ∨ task ∈ ch.waitersRecv

def ListedOn (reg : KernelIpcRegistry) (id : ChannelId) (task : TaskId) : Prop :=
  ∃ ch, reg.channel id = some ch ∧ Waits ch task

def Parked (s : RoundRobinScheduler) (task : TaskId) : Prop :=
  ∃ tcb, s.tcb? task = some tcb ∧ tcb.state = .blockedOnIpc

namespace Kernel

/-- Every task that is blocked on IPC waits on a live channel. -/
def NoOrphan (k : Kernel) : Prop :=
  ∀ task, Parked k.sched task → ∃ id, ListedOn k.registry id task

/-- A handler carries out the wake action of a registry call. -/
def carryOut (k : Kernel) (caller : TaskId) : WakeAction → Kernel
  | .none => k
  | .wake task => k.unpark task
  | .block _ => k.parkUntilWoken caller

def perform (k : Kernel) (op : Operation) : Kernel :=
  let (reply, registry) := k.registry.execute op
  carryOut { k with registry } op.task reply.wakeAction

/-- The registry call that `ipc_create_channel` makes, if its arguments are valid. -/
def creation (k : Kernel) (world : World) (args : SyscallArgs) : Option Operation :=
  (parseBackpressure (args.get 1)).bind fun bp =>
    let policy : ChannelPolicy :=
      { queueDepth := (args.get 0).toNat, backpressure := bp, teeBound := args.get 2 ≠ 0 }
    let current := k.currentPrincipalAndTask.1
    if (args.get 3).toNat = 0 ∧ (args.get 4).toNat = 0 then
      some (.createChannel current policy none none ed25519CapabilityProvider)
    else
      match copyUserToken world.memory (args.get 3).toNat (args.get 5 &&& 0xFFFFFFFF).toNat,
        copyUserToken world.memory (args.get 4).toNat
          ((args.get 5 >>> 32) &&& 0xFFFFFFFF).toNat with
      | .ok sendBytes, .ok recvBytes =>
          some (.createChannelSigned current policy sendBytes recvBytes world.tokens world.now)
      | _, _ => none

end Kernel

/-- The channel whose waiter queues an operation throws away: the one that is
destroyed, or the one that stands under `next_id` when a channel is created. -/
def discards (reg : KernelIpcRegistry) : Operation → Option ChannelId
  | .destroyChannel channel requester =>
      match reg.channel channel with
      | some ch => if ch.owner = requester then some channel else none
      | none => none
  | op => if reg.admits op then some ⟨reg.nextId⟩ else none

namespace Kernel

theorem kernel_returnChannel (k : Kernel) (res : KernelResult ChannelId × KernelIpcRegistry) :
    (k.returnChannel res).2 = { k with registry := res.2 } := by
  obtain ⟨_ | _, registry⟩ := res <;> rfl

theorem perform_createChannel (k : Kernel) (world : World) (args : SyscallArgs) :
    (k.ipcCreateChannel world args).2 = ((k.creation world args).map k.perform).getD k := by
  unfold ipcCreateChannel creation
  cases parseBackpressure (args.get 1) with
  | none => rfl
  | some bp =>
    simp only [bind_some]
    split
    · rw [kernel_returnChannel]
      rfl
    · cases copyUserToken world.memory (args.get 3).toNat (args.get 5 &&& 0xFFFFFFFF).toNat with
      | error _ => rfl
      | ok sendBytes =>
        cases copyUserToken world.memory (args.get 4).toNat
            ((args.get 5 >>> 32) &&& 0xFFFFFFFF).toNat with
        | error _ => rfl
        | ok recvBytes =>
          simp only [kernel_returnChannel]
          rfl

theorem perform_destroyChannel (k : Kernel) (args : SyscallArgs) :
    (k.ipcDestroyChannel args).2 =
      k.perform (.destroyChannel ⟨(args.get 0).toNat⟩ k.currentPrincipalAndTask.1) := by
  unfold ipcDestroyChannel
  simp only [perform, execute]
  split <;> rename_i result <;> simp [result, carryOut, wakeAction]

theorem perform_send (k : Kernel) (channel : ChannelId) (kind : MessageKind)
    (payload : List UInt8) (current : TaskId) (principal : KernelPrincipal) :
    (k.sendAttempt channel kind payload current principal).2 =
      k.perform (.send ⟨current, channel, kind, payload⟩ current principal) := by
  unfold sendAttempt
  simp only [perform, execute]
  split <;> rename_i result <;> simp [result, carryOut, wakeAction, Operation.task]

theorem kernel_deliver (k : Kernel) (world : World) (env : MessageEnvelope) (waiters : List TaskId)
    (dstPtr dstCap : Nat) (caller : TaskId) :
    (k.deliver world env (wakeFront waiters) dstPtr dstCap).2 =
      k.carryOut caller (wakeFront waiters) := by
  cases waiters <;> simp only [deliver, wakeFront, carryOut] <;> split <;> rfl

/-- A receive returns a message with a wake-up of the first sender, or parks, or
finds an empty queue. -/
theorem receive_cases (reg : KernelIpcRegistry) (channel : ChannelId) (task : TaskId)
    (requester : KernelPrincipal) (blocking : Bool) :
    (∃ e, (reg.receive channel task requester blocking).1 = .error e) ∨
      (∃ env waiters, (reg.receive channel task requester blocking).1 =
        .ok (some env, wakeFront waiters)) ∨
      (blocking = true ∧
        (reg.receive channel task requester blocking).1 = .ok (none, .block task)) ∨
      (blocking = false ∧ (reg.receive channel task requester blocking).1 = .ok (none, .none)) := by
  have effect := reg.execute_effect (.receive channel task requester blocking)
  simp only [execute, Prod.map] at effect
  generalize (reg.receive channel task requester blocking).1 = result at effect ⊢
  generalize id (reg.receive channel task requester blocking).2 = reg' at effect
  cases effect with
  | failed error rejected =>
    cases result with
    | error e => exact .inl ⟨e, rfl⟩
    | ok _ => exact error.elim
  | received live allowed effect =>
    cases effect with
    | delivered queue => exact .inr (.inl ⟨_, _, rfl⟩)
    | parked queue => exact .inr (.inr (.inl ⟨rfl, rfl⟩))
    | empty queue => exact .inr (.inr (.inr ⟨rfl, rfl⟩))

theorem perform_receive (k : Kernel) (world : World) (channel : ChannelId) (dstPtr dstCap : Nat)
    (blocking : Bool) (current : TaskId) (principal : KernelPrincipal) :
    (k.receiveAttempt world channel dstPtr dstCap blocking current principal).2 =
      k.perform (.receive channel current principal blocking) := by
  unfold receiveAttempt
  simp only [perform, execute]
  have cases' := receive_cases k.registry channel current principal blocking
  generalize k.registry.receive channel current principal blocking = result at cases' ⊢
  obtain ⟨outcome, registry⟩ := result
  rcases cases' with ⟨e, rfl⟩ | ⟨env, waiters, rfl⟩ | ⟨-, rfl⟩ | ⟨-, rfl⟩
  · rfl
  · exact kernel_deliver _ world env waiters dstPtr dstCap current
  · rfl
  · rfl

theorem perform_tryReceive (k : Kernel) (world : World) (args : SyscallArgs)
    (inRange : userRangeOk (args.get 1).toNat (args.get 2).toNat) :
    (k.ipcTryReceive world args).2 =
      k.perform (.receive ⟨(args.get 0).toNat⟩ k.currentPrincipalAndTask.1
        k.currentPrincipalAndTask.2 false) := by
  unfold ipcTryReceive
  simp only [inRange, perform, execute, Bool.not_true, Bool.false_eq_true, if_false]
  have cases' := receive_cases k.registry ⟨(args.get 0).toNat⟩ k.currentPrincipalAndTask.1
    k.currentPrincipalAndTask.2 false
  generalize k.registry.receive ⟨(args.get 0).toNat⟩ k.currentPrincipalAndTask.1
    k.currentPrincipalAndTask.2 false = result at cases' ⊢
  obtain ⟨outcome, registry⟩ := result
  rcases cases' with ⟨e, rfl⟩ | ⟨env, waiters, rfl⟩ | ⟨parks, -⟩ | ⟨-, rfl⟩
  · rfl
  · exact kernel_deliver _ world env waiters _ _ k.currentPrincipalAndTask.1
  · cases parks
  · rfl

end Kernel

variable {s : RoundRobinScheduler} {current task : TaskId}

theorem parked_yieldCurrent {newState : TaskState}
    (parked : Parked (s.yieldCurrent current newState).2 task) :
    (task = current ∧ newState = .blockedOnIpc) ∨ Parked s task := by
  have requeued : ∀ c, Parked (s.requeue current c newState) task →
      (task = current ∧ newState = .blockedOnIpc) ∨ Parked s task := by
    rintro c ⟨tcb, found, state⟩
    rw [tcb?_requeue] at found
    split at found
    · rename_i same
      obtain ⟨old, -, rfl⟩ := map_eq_some_iff.mp found
      exact .inl ⟨same, state⟩
    · exact .inr ⟨tcb, found, state⟩
  have effect := s.yieldCurrent_effect current newState
  generalize (s.yieldCurrent current newState).2 = s' at effect parked
  cases effect with
  | unknown absent => exact .inr parked
  | idle | dangling => exact requeued _ parked
  | dispatched known queue picked =>
    apply requeued
    obtain ⟨tcb, found, state⟩ := parked
    rw [tcb?_dispatch, tcb?_setState] at found
    split at found
    · obtain ⟨old, -, rfl⟩ := map_eq_some_iff.mp found
      cases state
    · exact ⟨tcb, found, state⟩

theorem parked_enqueue {id : TaskId} {priority : PriorityClass}
    (parked : Parked (s.enqueue id priority).2 task) : task ≠ id ∧ Parked s task := by
  obtain ⟨tcb, found, state⟩ := parked
  unfold enqueue at found
  split at found
  · rename_i absent
    refine ⟨?_, tcb, found, state⟩
    rintro rfl
    rw [absent] at found
    cases found
  · have lookup := tcb?_updateTask s id task
      (f := fun t => { t with state := .runnable, priority }) fun _ => rfl
    rw [tcb?_push, lookup] at found
    split at found
    · obtain ⟨old, -, rfl⟩ := map_eq_some_iff.mp found
      cases state
    · rename_i other
      exact ⟨other, tcb, found, state⟩

theorem parked_registerProcess {tcb : TaskControlBlock} (priority : PriorityClass)
    (runnable : tcb.state = .runnable) (parked : Parked (s.registerProcess tcb priority) task) :
    Parked s task := by
  obtain ⟨found', found, state⟩ := parked
  refine ⟨found', ?_, state⟩
  have lookup : (s.tasks ++ [tcb]).find? (fun t => t.id = task) = some found' := found
  rw [find?_append, or_eq_some_iff] at lookup
  rcases lookup with old | ⟨-, new⟩
  · exact old
  · have isNew : found' = tcb := by simpa using mem_of_find?_eq_some new
    rw [isNew, runnable] at state
    cases state

theorem parked_taskExit (parked : Parked (s.taskExit current) task) : Parked s task := by
  rcases parked_yieldCurrent parked with ⟨-, other⟩ | ⟨tcb, found, state⟩
  · cases other
  have lookup : ((s.removeFromQueues current).setState current .terminated).tcb? task =
      some tcb := found
  rw [tcb?_setState] at lookup
  split at lookup
  · obtain ⟨old, -, rfl⟩ := map_eq_some_iff.mp lookup
    cases state
  · exact ⟨tcb, lookup, state⟩

theorem waits_tail {waiters : List TaskId} (waits : task ∈ waiters) :
    task ∈ waiters.tail ∨ wakeFront waiters = .wake task := by
  cases waiters with
  | nil => cases waits
  | cons head rest =>
    rcases mem_cons.mp waits with rfl | inRest
    · exact .inr rfl
    · exact .inl inRest

variable {ch ch' : Channel}

/-- A send drops a task from the waiter queues only to wake it, and a sender that
has to wait is in them. -/
theorem waits_send {envelope : MessageEnvelope} {wake : WakeAction}
    (effect : ch.SendEffect envelope task wake ch') :
    (∀ t, Waits ch t → Waits ch' t ∨ wake = .wake t) ∧ ∀ t, wake = .block t → Waits ch' task := by
  cases effect with
  | parked full policy =>
    refine ⟨fun t waits => .inl ?_, fun _ _ => .inl (mem_parkOnce.mpr (.inr rfl))⟩
    exact waits.imp_left fun old => mem_parkOnce.mpr (.inl old)
  | queued | evicted =>
    refine ⟨fun t waits => ?_, fun t blocks => absurd blocks (wakeFront_ne_block _ t)⟩
    rcases waits with inSend | inRecv
    · exact .inl (.inl inSend)
    · exact (waits_tail inRecv).imp_left .inr

theorem waits_receive {blocking : Bool} {result : Option MessageEnvelope × WakeAction}
    (effect : ch.ReceiveEffect task blocking result ch') :
    (∀ t, Waits ch t → Waits ch' t ∨ result.2 = .wake t) ∧
      ∀ t, result.2 = .block t → Waits ch' task := by
  cases effect with
  | delivered queue =>
    refine ⟨fun t waits => ?_, fun t blocks => absurd blocks (wakeFront_ne_block _ t)⟩
    rcases waits with inSend | inRecv
    · exact (waits_tail inSend).imp_left .inl
    · exact .inl (.inr inRecv)
  | parked queue =>
    refine ⟨fun t waits => .inl ?_, fun _ _ => .inr (mem_parkOnce.mpr (.inr rfl))⟩
    exact waits.imp_right fun old => mem_parkOnce.mpr (.inl old)
  | empty queue => exact ⟨fun t waits => .inl waits, fun t blocks => nomatch blocks⟩

namespace Kernel

/-- No task that is blocked on IPC is listed only on a channel that the operation
throws away. -/
def KeepsListed (k : Kernel) (op : Operation) : Prop :=
  ∀ id, discards k.registry op = some id → ∀ task, Parked k.sched task →
    ListedOn k.registry id task → ∃ other, other ≠ id ∧ ListedOn k.registry other task

variable {k : Kernel} {id : ChannelId}

theorem noOrphan_carryOut (safe : k.NoOrphan) {ch ch' : Channel}
    (live : k.registry.channel id = some ch) {caller : TaskId} {wake : WakeAction}
    (keeps : ∀ t, Waits ch t → Waits ch' t ∨ wake = .wake t)
    (parks : ∀ t, wake = .block t → Waits ch' caller) :
    (carryOut { k with registry := k.registry.setChannel id ch' } caller wake).NoOrphan := by
  have lookup : ∀ other, (k.registry.setChannel id ch').channel other =
      if id = other then some ch' else k.registry.channel other :=
    fun other => k.registry.channel_setChannel id other ch'
  -- a task that was parked before the call is still listed unless it is the one woken
  have stays : ∀ task, Parked k.sched task → wake ≠ .wake task →
      ∃ other, ListedOn (k.registry.setChannel id ch') other task := by
    intro task parked notWoken
    obtain ⟨other, ch₀, found, waits⟩ := safe task parked
    by_cases same : id = other
    · subst same
      rw [live] at found
      cases found
      exact ⟨id, ch', by simp [lookup], (keeps task waits).resolve_right notWoken⟩
    · exact ⟨other, ch₀, by simp [lookup, same, found], waits⟩
  cases wake with
  | none => exact fun task parked => stays task parked nofun
  | wake woken =>
    intro task parked
    obtain ⟨other, parked⟩ := parked_enqueue parked
    exact stays task parked fun same => other (by cases same; rfl)
  | block _ =>
    intro task parked
    rcases parked_yieldCurrent parked with ⟨rfl, -⟩ | parked
    · exact ⟨id, ch', by simp [carryOut, parkUntilWoken, lookup], parks _ rfl⟩
    · exact stays task parked nofun

/-- Throwing a channel away keeps the parked tasks listed exactly if each of them is
listed elsewhere. -/
theorem noOrphan_discard_iff (safe : k.NoOrphan) {registry : KernelIpcRegistry}
    (listed : ∀ other task, ListedOn registry other task ↔
      other ≠ id ∧ ListedOn k.registry other task) :
    NoOrphan { k with registry } ↔ ∀ task, Parked k.sched task → ListedOn k.registry id task →
        ∃ other, other ≠ id ∧ ListedOn k.registry other task := by
  constructor
  · intro safe' task parked _
    obtain ⟨other, still⟩ := safe' task parked
    exact ⟨other, (listed other task).mp still⟩
  · intro elsewhere task parked
    obtain ⟨other, old⟩ := safe task parked
    by_cases same : other = id
    · subst same
      obtain ⟨another, still⟩ := elsewhere task parked old
      exact ⟨another, (listed another task).mpr still⟩
    · exact ⟨other, (listed other task).mpr ⟨same, old⟩⟩

theorem listedOn_erase (reg : KernelIpcRegistry) (id other : ChannelId) (task : TaskId) :
    ListedOn { reg with channels := reg.channels.erase id.val } other task ↔
      other ≠ id ∧ ListedOn reg other task := by
  unfold ListedOn
  rw [reg.channel_erase]
  by_cases same : id = other
  · simp [same]
  · simp [same, Ne.symm same]

theorem listedOn_installChannel (reg : KernelIpcRegistry) (owner : TaskId)
    (policy : ChannelPolicy) (sendSubject recvSubject : Option KernelPrincipal)
    (other : ChannelId) (task : TaskId) :
    ListedOn (reg.installChannel owner policy sendSubject recvSubject).2 other task ↔
      other ≠ ⟨reg.nextId⟩ ∧ ListedOn reg other task := by
  unfold ListedOn
  rw [reg.channel_installChannel]
  by_cases same : (⟨reg.nextId⟩ : ChannelId) = other
  · simp [same, Waits, Channel.new]
  · simp [same, Ne.symm same]

variable {reg : KernelIpcRegistry} {op : Operation}

theorem discards_of_rejects (rejected : reg.Rejects op) : discards reg op = none := by
  cases op with
  | destroyChannel channel requester =>
    cases live : reg.channel channel with
    | none => simp [discards, live]
    | some ch => simpa [discards, live] using rejected ch live
  | _ => simp [discards, rejected.admits_eq]

theorem discards_of_admits (admitted : reg.admits op = true) :
    discards reg op = some ⟨reg.nextId⟩ := by
  cases op with
  | destroyChannel channel requester => cases admitted
  | _ => simp [discards, admitted]

/-- A registry call and its wake action keep the parked tasks listed exactly if none
of them is listed only on a channel that the call throws away. -/
theorem noOrphan_perform_iff (safe : k.NoOrphan) (op : Operation) :
    (k.perform op).NoOrphan ↔ k.KeepsListed op := by
  have effect := k.registry.execute_effect op
  unfold perform
  generalize k.registry.execute op = result at effect ⊢
  obtain ⟨reply, registry⟩ := result
  simp only at effect ⊢
  cases effect with
  | failed error rejected =>
    rw [wakeAction_of_isError error]
    refine iff_of_true safe fun id discarded => ?_
    rw [discards_of_rejects rejected] at discarded
    cases discarded
  | created admitted depth quota =>
    rename_i policy sendSubject recvSubject
    have created := noOrphan_discard_iff safe
      (listedOn_installChannel k.registry op.task policy sendSubject recvSubject)
    simp only [wakeAction, carryOut]
    rw [created, KeepsListed, discards_of_admits admitted]
    simp
  | destroyed live owner =>
    rename_i channel requester ch
    have destroyed := noOrphan_discard_iff safe (listedOn_erase k.registry channel)
    simp only [wakeAction, carryOut]
    rw [destroyed, KeepsListed]
    simp [discards, live, owner]
  | sent live allowed effect =>
    obtain ⟨keeps, parks⟩ := waits_send effect
    exact iff_of_true (noOrphan_carryOut safe live keeps parks) nofun
  | received live allowed effect =>
    obtain ⟨keeps, parks⟩ := waits_receive effect
    exact iff_of_true (noOrphan_carryOut safe live keeps parks) nofun

end Kernel

/-- The IPC system calls. -/
inductive IpcCall where
  | createChannel
  | destroyChannel
  | send
  | receive
  | tryReceive
  deriving DecidableEq, Repr

namespace Kernel

/-- The dispatch of the IPC system calls (`syscall_entry.rs:6561-6614`). -/
def handle (k : Kernel) (world : World) (args : SyscallArgs) : IpcCall → Progress × Kernel
  | .createChannel => (k.ipcCreateChannel world args).map .done id
  | .destroyChannel => (k.ipcDestroyChannel args).map .done id
  | .send => k.ipcSend world args
  | .receive => k.ipcReceive world args
  | .tryReceive => (k.ipcTryReceive world args).map .done id

/-- The next turn of a parked loop. -/
def attempt (k : Kernel) (world : World) : PendingCall → Progress × Kernel
  | .send channel kind payload current principal =>
      k.sendAttempt channel kind payload current principal
  | .receive channel dstPtr dstCap blocking current principal =>
      k.receiveAttempt world channel dstPtr dstCap blocking current principal

end Kernel

/-- The call that a handler has left parked. -/
def Progress.pending : Progress → Option PendingCall
  | .done _ => none
  | .parked call => some call

/-- The kernel and the handler loops of the parked tasks. -/
structure System where
  kernel : Kernel
  pending : TaskId → Option PendingCall

/-- What can happen: a system call of the current task, the next turn of its parked
loop, and the scheduler calls of the rest of the kernel. -/
inductive Event where
  | syscall (call : IpcCall) (args : SyscallArgs) (world : World)
  | resume (world : World)
  | spawn (id : TaskId) (priority : PriorityClass) (principal : KernelPrincipal)
  | yield
  | exit

namespace System

def caller (s : System) : TaskId := s.kernel.currentPrincipalAndTask.1

def after (s : System) (result : Progress × Kernel) : System where
  kernel := result.2
  pending := Function.update s.pending s.caller result.1.pending

/-- One event. A task with a parked loop goes on with it when it is dispatched; all
else is done by a task that has none. A spawned process gets a fresh id. -/
def next (s : System) : Event → Option System
  | .syscall call args world =>
      if s.pending s.caller = none then some (s.after (s.kernel.handle world args call)) else none
  | .resume world => (s.pending s.caller).map fun call => s.after (s.kernel.attempt world call)
  | .spawn id priority principal =>
      if s.pending s.caller = none ∧ s.kernel.sched.tcb? id = none then
        let tcb : TaskControlBlock := ⟨id, .runnable, priority⟩
        let sched := (s.kernel.sched.registerProcess tcb priority).attachProcess ⟨tcb, principal⟩
        some { s with kernel := { s.kernel with sched } }
      else none
  | .yield =>
      if s.pending s.caller = none then
        s.kernel.sched.current.map fun current =>
          { s with kernel := { s.kernel with sched := (s.kernel.sched.preempt current).2 } }
      else none
  | .exit =>
      if s.pending s.caller = none then
        s.kernel.sched.current.map fun current =>
          { s with kernel := { s.kernel with sched := s.kernel.sched.taskExit current } }
      else none

def step : Lts System Event := Lts.ofPartial next

/-- The kernel after boot: no channels, and the bootstrap task on the CPU. -/
def boot (priority : PriorityClass) : System where
  kernel := { registry := .new, sched := (RoundRobinScheduler.new.spawnBootstrapTask priority).2 }
  pending := fun _ => none

/-- No task that is blocked on IPC is listed only on a channel that the event throws
away: the one that `ipc_destroy_channel` destroys for its owner, or the one that
an accepted creation finds under `next_id`. -/
def KeepsListed (s : System) : Event → Prop
  | .syscall .createChannel args world =>
      ∀ op, s.kernel.creation world args = some op → s.kernel.KeepsListed op
  | .syscall .destroyChannel args _ =>
      s.kernel.KeepsListed (.destroyChannel ⟨(args.get 0).toNat⟩ s.caller)
  | _ => True

variable {k : Kernel}

theorem noOrphan_send (safe : k.NoOrphan) (channel : ChannelId) (kind : MessageKind)
    (payload : List UInt8) (current : TaskId) (principal : KernelPrincipal) :
    (k.sendAttempt channel kind payload current principal).2.NoOrphan := by
  rw [k.perform_send]
  exact (noOrphan_perform_iff safe _).mpr nofun

theorem noOrphan_receive (safe : k.NoOrphan) (world : World) (channel : ChannelId)
    (dstPtr dstCap : Nat) (blocking : Bool) (current : TaskId) (principal : KernelPrincipal) :
    (k.receiveAttempt world channel dstPtr dstCap blocking current principal).2.NoOrphan := by
  rw [k.perform_receive]
  exact (noOrphan_perform_iff safe _).mpr nofun

variable {s : System}

theorem noOrphan_handle_iff (safe : s.kernel.NoOrphan) (call : IpcCall) (args : SyscallArgs)
    (world : World) :
    (s.kernel.handle world args call).2.NoOrphan ↔ s.KeepsListed (.syscall call args world) := by
  cases call with
  | createChannel =>
    show (s.kernel.ipcCreateChannel world args).2.NoOrphan ↔ _
    rw [s.kernel.perform_createChannel]
    cases decoded : s.kernel.creation world args with
    | none => simpa [KeepsListed, decoded] using safe
    | some op => simpa [KeepsListed, decoded] using noOrphan_perform_iff safe op
  | destroyChannel =>
    show (s.kernel.ipcDestroyChannel args).2.NoOrphan ↔ _
    rw [s.kernel.perform_destroyChannel]
    exact noOrphan_perform_iff safe _
  | send =>
    refine iff_of_true ?_ trivial
    simp only [handle, ipcSend]
    split
    · exact safe
    · split
      · exact safe
      · exact noOrphan_send safe _ _ _ _ _
  | receive =>
    refine iff_of_true ?_ trivial
    simp only [handle, ipcReceive]
    split
    · exact safe
    · exact noOrphan_receive safe _ _ _ _ _ _ _
  | tryReceive =>
    refine iff_of_true ?_ trivial
    show (s.kernel.ipcTryReceive world args).2.NoOrphan
    cases inRange : userRangeOk (args.get 1).toNat (args.get 2).toNat with
    | false => simpa [ipcTryReceive, inRange] using safe
    | true =>
      rw [s.kernel.perform_tryReceive world args inRange]
      exact (noOrphan_perform_iff safe _).mpr nofun

variable {e : Event}

/-- From a state without orphans an event leads to one exactly if it throws away no
channel on which alone a parked task is listed. -/
theorem noOrphan_step_iff {s' : System} (safe : s.kernel.NoOrphan) (taken : step s e s') :
    s'.kernel.NoOrphan ↔ s.KeepsListed e := by
  simp only [step, Lts.ofPartial, next] at taken
  cases e with
  | syscall call args world =>
    obtain ⟨-, rfl⟩ := by simpa using taken
    exact noOrphan_handle_iff safe call args world
  | resume world =>
    refine iff_of_true ?_ trivial
    obtain ⟨call, -, rfl⟩ := map_eq_some_iff.mp taken
    cases call with
    | send => exact noOrphan_send safe _ _ _ _ _
    | receive => exact noOrphan_receive safe _ _ _ _ _ _ _
  | spawn id priority principal =>
    refine iff_of_true (fun task parked => ?_) trivial
    obtain ⟨-, rfl⟩ := by simpa using taken
    exact safe task (parked_registerProcess priority rfl parked)
  | yield =>
    refine iff_of_true (fun task parked => ?_) trivial
    obtain ⟨-, current, -, rfl⟩ := by simpa using taken
    rcases parked_yieldCurrent parked with ⟨-, other⟩ | parked
    · cases other
    · exact safe task parked
  | exit =>
    refine iff_of_true (fun task parked => ?_) trivial
    obtain ⟨-, current, -, rfl⟩ := by simpa using taken
    exact safe task (parked_taskExit parked)

theorem noOrphan_boot (priority : PriorityClass) : (boot priority).kernel.NoOrphan := by
  rintro task ⟨tcb, found, state⟩
  have booted : tcb ∈ [(⟨⟨1⟩, .running, priority⟩ : TaskControlBlock)] :=
    mem_of_find?_eq_some found
  rw [mem_singleton.mp booted] at state
  cases state

/-- In every run of registry, scheduler and IPC handlers in which no event throws away
a channel on which alone a parked task is listed, every task that is blocked on
IPC is listed on a live channel; and from a state so reached an event keeps this
exactly if it is no such event. -/
theorem parked_tasks_listed (priority : PriorityClass) {es : List Event} {s : System}
    (run : Run (step.restrict KeepsListed) (boot priority) es s) :
    s.kernel.NoOrphan ∧ ∀ e s', step s e s' → (s'.kernel.NoOrphan ↔ s.KeepsListed e) := by
  have safe : s.kernel.NoOrphan :=
    run.invariant (fun s => s.kernel.NoOrphan)
      (fun _ _ _ safe taken => (noOrphan_step_iff safe taken.2).mpr taken.1)
      (noOrphan_boot priority)
  exact ⟨safe, fun e s' taken => noOrphan_step_iff safe taken⟩

/-- Nobody is blocked on IPC when the event may throw a channel away. -/
def unparked (s : System) : Event → Bool
  | .syscall .createChannel .. | .syscall .destroyChannel .. =>
      s.kernel.sched.tasks.all fun tcb => tcb.state ≠ .blockedOnIpc
  | _ => true

theorem keepsListed_of_all (unparked : k.sched.tasks.all fun tcb => tcb.state ≠ .blockedOnIpc)
    (op : Operation) : k.KeepsListed op := by
  rintro id - task ⟨tcb, found, state⟩
  have other := all_eq_true.mp unparked tcb (mem_of_find?_eq_some found)
  simp [state] at other

theorem keepsListed_of_unparked (quiet : s.unparked e) : s.KeepsListed e := by
  cases e with
  | syscall call args world =>
    cases call with
    | createChannel => exact fun op _ => keepsListed_of_all quiet op
    | destroyChannel => exact keepsListed_of_all quiet _
    | _ => trivial
  | _ => trivial

/-- User memory that is mapped and zero, and no signed tokens. -/
def plainWorld : World where
  memory := ⟨fun _ _ => true, fun _ _ => true, fun _ => 0⟩
  tokens := ⟨fun _ _ _ => .error .capabilityDenied⟩
  now := 0

/-- The bootstrap task creates a channel and yields to a second task, which blocks in
a receive on it. -/
def blockedReceiver : List Event :=
  [.spawn ⟨2⟩ .system .zero, .syscall .createChannel #v[4, 0, 0, 0, 0, 0] plainWorld, .yield,
    .syscall .receive #v[1, 0, 0, 1, 0, 0] plainWorld]

/-- The owner sends a message without payload on the channel. -/
def ownerSends : Event := .syscall .send #v[1, 1, 0, 0, 0, 0] plainWorld

def ownerDestroys : Event := .syscall .destroyChannel #v[1, 0, 0, 0, 0, 0] plainWorld

/-- Once a message has woken the receiver, the owner may destroy the channel. -/
theorem parked_tasks_listed_woken : ∃ s,
    Run (step.restrict KeepsListed) (boot .interactive)
      (blockedReceiver ++ [ownerSends, ownerDestroys]) s ∧
    s.kernel.sched.queued = [⟨2⟩] ∧ s.kernel.NoOrphan := by
  obtain ⟨s, run, queued⟩ : ∃ s, Run (step.restrict KeepsListed) (boot .interactive)
      (blockedReceiver ++ [ownerSends, ownerDestroys]) s ∧ s.kernel.sched.queued = [⟨2⟩] :=
    Run.exists_of_any (fun s e _ (taken : guarded next (fun s e => s.unparked e) s e = some _) =>
      (restrict_of_guarded taken).imp keepsListed_of_unparked id) (by decide)
  exact ⟨s, run, queued, (parked_tasks_listed .interactive run).1⟩

/-- The owner destroys a channel on which another task is blocked in a receive: that
task stays blocked and no channel is left to wake it. -/
theorem destroyed_channel_orphans : ∃ s,
    Run step (boot .interactive) (blockedReceiver ++ [ownerDestroys]) s ∧
    ¬ s.kernel.NoOrphan := by
  obtain ⟨s, run, empty, parked⟩ : ∃ s,
      Run step (boot .interactive) (blockedReceiver ++ [ownerDestroys]) s ∧
      s.kernel.registry.channels.isEmpty = true ∧
      (s.kernel.sched.tcb? ⟨2⟩).any fun tcb => tcb.state = .blockedOnIpc :=
    Run.exists_of_any (fun _ _ _ taken => taken) (by decide)
  refine ⟨s, run, fun safe => ?_⟩
  obtain ⟨id, ch, live, -⟩ := safe ⟨2⟩ (exists_of_any parked)
  have gone : s.kernel.registry.channel id = none := Std.TreeMap.getElem?_of_isEmpty empty
  rw [gone] at live
  cases live

end System

end NexaCore.Syscall
