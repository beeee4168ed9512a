import NexaCore.Kernel.Ipc.Registry
import NexaCore.Kernel.Scheduling.RoundRobin
import NexaCore.Kernel.Syscall.UserAccess

/-!
# The IPC system calls

Embedding of the module `ipc_handlers` of `nexacore-kernel/src/bare_metal/syscall_entry.rs`.
`ipc_send` and `ipc_receive` are loops that park the caller and try again when it is dispatched
back. A handler returns a value for RAX or leaves a `PendingCall`, the local variables with which
the loop goes on; `sendAttempt` and `receiveAttempt` are one turn.
-/

namespace NexaCore.Syscall

open Ipc Scheduling

/-- `SYSCALL_ERROR` (`syscall_entry.rs:79`). -/
def syscallError : Nat := u64Max

abbrev SyscallArgs := Vector UInt64 6

-- For the numerals that `args.get` takes.
instance instNeZeroSix : NeZero 6 := ⟨by decide⟩

/-- The singletons that the handlers work on: `IPC_REGISTRY` and `SCHEDULER`. -/
structure Kernel where
  registry : KernelIpcRegistry
  sched : RoundRobinScheduler

/-- What a handler reads besides the kernel state: user memory, the token decoder
and the clock `rtc_seconds`. -/
structure World where
  memory : UserMemory
  tokens : SignedTokens
  now : Nat

/-- The locals of a send or receive loop whose caller is parked. -/
inductive PendingCall where
  | send (channel : ChannelId) (kind : MessageKind) (payload : List UInt8) (current : TaskId)
      (principal : KernelPrincipal)
  | receive (channel : ChannelId) (dstPtr dstCap : Nat) (blocking : Bool) (current : TaskId)
      (principal : KernelPrincipal)
  deriving DecidableEq, Repr

/-- How far a handler has come: it returns `rax`, or it has parked its caller. -/
inductive Progress where
  | done (rax : Nat)
  | parked (call : PendingCall)
  deriving DecidableEq, Repr

/-- `MAX_PAYLOAD` (`syscall_entry.rs:539`). -/
def maxPayload : Nat := 4096

/-- `MAX_TOKEN_BYTES` (`syscall_entry.rs:621`). -/
def maxTokenBytes : Nat := 1024

/-- `parse_backpressure` (`syscall_entry.rs:542-549`). -/
def parseBackpressure (v : UInt64) : Option BackpressurePolicy :=
  match v with
  | 0 => some .block
  | 1 => some .drop
  | 2 => some .evictOldest
  | _ => none

/-- `parse_kind` (`syscall_entry.rs:551-560`). -/
def parseKind (v : UInt64) : Option MessageKind :=
  match v with
  | 1 => some .request
  | 2 => some .reply
  | 3 => some .notification
  | 4 => some .capabilityHandoff
  | 5 => some .sharedMemoryGrant
  | _ => none

/-- `copy_user_token` (`syscall_entry.rs:729-753`). -/
def copyUserToken (mem : UserMemory) (ptr len : Nat) : Except Unit (Option (List UInt8)) :=
  if ptr = 0 ∧ len = 0 then .ok none
  else if ptr = 0 ∨ len = 0 ∨ maxTokenBytes < len then .error ()
  else
    match copyFromUser mem ptr len with
    | none => .error ()
    | some bytes => .ok (some bytes)

namespace Kernel

/-- `current_principal_and_task` (`syscall_entry.rs:567-577`). -/
def currentPrincipalAndTask (k : Kernel) : TaskId × KernelPrincipal :=
  let id := k.sched.current.getD ⟨0⟩
  (id, ((k.sched.process id).map (·.principal)).getD .zero)

/-- `park_until_woken` (`syscall_entry.rs:597-603`). -/
def parkUntilWoken (k : Kernel) (task : TaskId) : Kernel :=
  { k with sched := (k.sched.yieldCurrent task .blockedOnIpc).2 }

/-- `unpark` (`syscall_entry.rs:608-615`). -/
def unpark (k : Kernel) (task : TaskId) : Kernel :=
  { k with sched := (k.sched.enqueue task (k.sched.resolvePriority task)).2 }

/-- `res.map_or(SYSCALL_ERROR, |ch| ch.0)` on the result of a creation. -/
def returnChannel (k : Kernel) : KernelResult ChannelId × KernelIpcRegistry → Nat × Kernel
  | (.ok id, registry) => (id.val, { k with registry })
  | (.error _, registry) => (syscallError, { k with registry })

/-- `ipc_create_channel` (`syscall_entry.rs:660-720`). -/
def ipcCreateChannel (k : Kernel) (world : World) (args : SyscallArgs) : Nat × Kernel :=
  match parseBackpressure (args.get 1) with
  | none => (syscallError, k)
  | some bp =>
      let policy : ChannelPolicy :=
        { queueDepth := (args.get 0).toNat, backpressure := bp, teeBound := args.get 2 ≠ 0 }
      let sendTokenPtr := (args.get 3).toNat
      let recvTokenPtr := (args.get 4).toNat
      let sendLen := (args.get 5 &&& 0xFFFFFFFF).toNat
      let recvLen := ((args.get 5 >>> 32) &&& 0xFFFFFFFF).toNat
      let current := k.currentPrincipalAndTask.1
      if sendTokenPtr = 0 ∧ recvTokenPtr = 0 then
        k.returnChannel
          (k.registry.createChannel current policy none none ed25519CapabilityProvider)
      else
        match copyUserToken world.memory sendTokenPtr sendLen with
        | .error _ => (syscallError, k)
        | .ok sendBytes =>
            match copyUserToken world.memory recvTokenPtr recvLen with
            | .error _ => (syscallError, k)
            | .ok recvBytes =>
                k.returnChannel (k.registry.createChannelSigned current policy sendBytes recvBytes
                  world.tokens world.now)

/-- `ipc_destroy_channel` (`syscall_entry.rs:756-764`). -/
def ipcDestroyChannel (k : Kernel) (args : SyscallArgs) : Nat × Kernel :=
  let current := k.currentPrincipalAndTask.1
  match k.registry.destroyChannel ⟨(args.get 0).toNat⟩ current with
  | (.ok (), registry) => (0, { k with registry })
  | (.error _, registry) => (syscallError, { k with registry })

/-- One turn of the loop of `ipc_send` (`syscall_entry.rs:806-833`). -/
def sendAttempt (k : Kernel) (channel : ChannelId) (kind : MessageKind) (payload : List UInt8)
    (current : TaskId) (principal : KernelPrincipal) : Progress × Kernel :=
  let envelope : MessageEnvelope :=
    { sender := current, channel, kind, payload }
  match k.registry.send envelope current principal with
  | (.ok .none, registry) => (.done 0, { k with registry })
  | (.ok (.wake task), registry) => (.done 0, unpark { k with registry } task)
  | (.ok (.block _), registry) =>
      (.parked (.send channel kind payload current principal),
        parkUntilWoken { k with registry } current)
  | (.error _, registry) => (.done syscallError, { k with registry })

/-- `ipc_send` (`syscall_entry.rs:773-834`). -/
def ipcSend (k : Kernel) (world : World) (args : SyscallArgs) : Progress × Kernel :=
  match parseKind (args.get 1) with
  | none => (.done syscallError, k)
  | some kind =>
      let payload :=
        if args.get 3 = 0 then some []
        else copyFromUserVec world.memory (args.get 2).toNat (args.get 3).toNat maxPayload
      match payload with
      | none => (.done syscallError, k)
      | some payload =>
          let (current, principal) := k.currentPrincipalAndTask
          k.sendAttempt ⟨(args.get 0).toNat⟩ kind payload current principal

/-- What both receiving handlers do with a message (`syscall_entry.rs:857-881`,
`syscall_entry.rs:924-945`). -/
def deliver (k : Kernel) (world : World) (env : MessageEnvelope) (wake : WakeAction)
    (dstPtr dstCap : Nat) : Nat × Kernel :=
  let k :=
    match wake with
    | .wake task => k.unpark task
    | _ => k
  let toCopy := min env.payload.length dstCap
  if 0 < toCopy && !copyToUser world.memory dstPtr (env.payload.take toCopy) then
    (syscallError, k)
  else (toCopy, k)

/-- One turn of the loop of `ipc_receive` (`syscall_entry.rs:853-890`). -/
def receiveAttempt (k : Kernel) (world : World) (channel : ChannelId) (dstPtr dstCap : Nat)
    (blocking : Bool) (current : TaskId) (principal : KernelPrincipal) : Progress × Kernel :=
  match k.registry.receive channel current principal blocking with
  | (.ok (some env, wake), registry) =>
      (deliver { k with registry } world env wake dstPtr dstCap).map .done id
  | (.ok (none, .block _), registry) =>
      (.parked (.receive channel dstPtr dstCap blocking current principal),
        parkUntilWoken { k with registry } current)
  | (.ok (none, _), registry) => (.done 0, { k with registry })
  | (.error _, registry) => (.done syscallError, { k with registry })

/-- `ipc_receive` (`syscall_entry.rs:842-891`). -/
def ipcReceive (k : Kernel) (world : World) (args : SyscallArgs) : Progress × Kernel :=
  let dstPtr := (args.get 1).toNat
  let dstCap := (args.get 2).toNat
  if !userRangeOk dstPtr dstCap then (.done syscallError, k)
  else
    let (current, principal) := k.currentPrincipalAndTask
    k.receiveAttempt world ⟨(args.get 0).toNat⟩ dstPtr dstCap (args.get 3 ≠ 0) current principal

/-- `ipc_try_receive` (`syscall_entry.rs:909-949`): one receive that never parks. -/
def ipcTryReceive (k : Kernel) (world : World) (args : SyscallArgs) : Nat × Kernel :=
  let dstPtr := (args.get 1).toNat
  let dstCap := (args.get 2).toNat
  if !userRangeOk dstPtr dstCap then (syscallError, k)
  else
    let (current, principal) := k.currentPrincipalAndTask
    match k.registry.receive ⟨(args.get 0).toNat⟩ current principal false with
    | (.ok (some env, wake), registry) =>
        deliver { k with registry } world env wake dstPtr dstCap
    | (.ok (none, _), registry) => (syscallError, { k with registry })
    | (.error _, registry) => (syscallError, { k with registry })

end Kernel

end NexaCore.Syscall
