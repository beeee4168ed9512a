import NexaCore.Kernel.Capabilities
import NexaCore.Misc.TreeMapCount

/-!
# The kernel IPC registry

Embedding of `nexacore-kernel/src/ipc.rs`: channels with bounded queues and two waiter queues
each, and the registry operations `create_channel`, `create_channel_signed`, `destroy_channel`,
`send` and `receive`. The `BTreeMap` of channels is a `Std.TreeMap`. An operation returns its
result with the registry after it: `create_channel` can both insert a channel and fail.
-/

namespace NexaCore.Ipc

open Misc.TreeMapCount

/-- `MessageKind` (`ipc.rs:71`). -/
inductive MessageKind where
  | request
  | reply
  | notification
  | capabilityHandoff
  | sharedMemoryGrant
  deriving DecidableEq, Repr

/-- `BackpressurePolicy` (`ipc.rs:90`). -/
inductive BackpressurePolicy where
  | block
  | drop
  | evictOldest
  deriving DecidableEq, Repr

/-- `ChannelPolicy` (`ipc.rs:102`). -/
structure ChannelPolicy where
  queueDepth : Nat
  backpressure : BackpressurePolicy
  teeBound : Bool
  deriving DecidableEq, Repr

/-- `MessageEnvelope` (`ipc.rs:127`). -/
structure MessageEnvelope where
  sender : TaskId
  channel : ChannelId
  kind : MessageKind
  payload : List UInt8
  deriving DecidableEq, Repr

/-- `WakeAction` (`ipc.rs:162`). -/
inductive WakeAction where
  | none
  | wake (task : TaskId)
  | block (task : TaskId)
  deriving DecidableEq, Repr

/-- `Channel` (`ipc.rs:185`). -/
structure Channel where
  id : ChannelId
  policy : ChannelPolicy
  owner : TaskId
  sendSubject : Option KernelPrincipal
  recvSubject : Option KernelPrincipal
  queue : List MessageEnvelope
  waitersSend : List TaskId
  waitersRecv : List TaskId
  deriving DecidableEq, Repr

/-- `Channel::new` (`ipc.rs:209-226`). -/
def Channel.new (id : ChannelId) (policy : ChannelPolicy) (owner : TaskId)
    (sendSubject recvSubject : Option KernelPrincipal) : Channel where
  id := id
  policy := policy
  owner := owner
  sendSubject := sendSubject
  recvSubject := recvSubject
  queue := []
  waitersSend := []
  waitersRecv := []

/-- A subject slot of a channel lets `requester` pass when it is unset or names
`requester`. -/
def subjectAllows (subject : Option KernelPrincipal) (requester : KernelPrincipal) : Bool :=
  match subject with
  | none => true
  | some allowed => allowed = requester

/-- `pop_front().map_or(WakeAction::None, WakeAction::Wake)` on a waiter queue:
the action; the queue left is its `tail`. -/
def wakeFront (waiters : List TaskId) : WakeAction :=
  match waiters with
  | [] => .none
  | task :: _ => .wake task

/-- The deduplicating `push_back` on a waiter queue. -/
def parkOnce (waiters : List TaskId) (task : TaskId) : List TaskId :=
  if task ∈ waiters then waiters else waiters ++ [task]

/-- The channel part of `KernelIpcRegistry::send` (`ipc.rs:526-566`). No error
path changes the channel. -/
def Channel.send (ch : Channel) (envelope : MessageEnvelope) (senderTask : TaskId)
    (requester : KernelPrincipal) : KernelResult (WakeAction × Channel) :=
  if subjectAllows ch.sendSubject requester then
    let stamped := { envelope with sender := senderTask, channel := ch.id }
    if ch.policy.queueDepth ≤ ch.queue.length then
      match ch.policy.backpressure with
      | .drop => .error .resourceExhausted
      | .evictOldest =>
          .ok (wakeFront ch.waitersRecv,
            { ch with queue := ch.queue.tail ++ [stamped], waitersRecv := ch.waitersRecv.tail })
      | .block =>
          .ok (.block senderTask, { ch with waitersSend := parkOnce ch.waitersSend senderTask })
    else
      .ok (wakeFront ch.waitersRecv,
        { ch with queue := ch.queue ++ [stamped], waitersRecv := ch.waitersRecv.tail })
  else
    .error .capabilityDenied

/-- The channel part of `KernelIpcRegistry::receive` (`ipc.rs:591-621`). -/
def Channel.receive (ch : Channel) (requesterTask : TaskId) (requester : KernelPrincipal)
    (blocking : Bool) : KernelResult ((Option MessageEnvelope × WakeAction) × Channel) :=
  if subjectAllows ch.recvSubject requester then
    match ch.queue with
    | env :: rest =>
        .ok ((some env, wakeFront ch.waitersSend),
          { ch with queue := rest, waitersSend := ch.waitersSend.tail })
    | [] =>
        if blocking then
          .ok ((none, .block requesterTask),
            { ch with waitersRecv := parkOnce ch.waitersRecv requesterTask })
        else
          .ok ((none, .none), ch)
  else
    .error .capabilityDenied

/-- `MAX_CHANNELS_PER_OWNER` (`ipc.rs:242`). -/
def maxChannelsPerOwner : Nat := 256

/-- `MAX_CHANNELS_TOTAL` (`ipc.rs:246`). -/
def maxChannelsTotal : Nat := 4096

/-- `KernelIpcRegistry` (`ipc.rs:258`). -/
structure KernelIpcRegistry where
  channels : Std.TreeMap Nat Channel
  nextId : Nat

namespace KernelIpcRegistry

/-- `KernelIpcRegistry::new` (`ipc.rs:267`). -/
def new : KernelIpcRegistry where
  channels := ∅
  nextId := 1

/-- `KernelIpcRegistry::channel` (`ipc.rs:308`). -/
def channel (reg : KernelIpcRegistry) (id : ChannelId) : Option Channel :=
  reg.channels[id.val]?

/-- The live channels of one owner, as `enforce_channel_quota` counts them. -/
def ownedCount (reg : KernelIpcRegistry) (owner : TaskId) : Nat :=
  countValues reg.channels (fun ch => ch.owner = owner)

/-- `enforce_channel_quota` (`ipc.rs:291-304`). -/
def enforceChannelQuota (reg : KernelIpcRegistry) (owner : TaskId) : KernelResult Unit :=
  if maxChannelsTotal ≤ reg.channels.size then .error .resourceExhausted
  else if maxChannelsPerOwner ≤ reg.ownedCount owner then .error .resourceExhausted
  else .ok ()

/-- The write-back of a channel reached through `get_mut`. -/
def setChannel (reg : KernelIpcRegistry) (id : ChannelId) (ch : Channel) : KernelIpcRegistry :=
  { reg with channels := reg.channels.insert id.val ch }

/-- The end of both creation paths (`ipc.rs:376-382`, `ipc.rs:458-466`): the
channel is inserted under `next_id` before the counter is advanced with
`checked_add`, so at `u64::MAX` the insertion stands although the call fails. -/
def installChannel (reg : KernelIpcRegistry) (owner : TaskId) (policy : ChannelPolicy)
    (sendSubject recvSubject : Option KernelPrincipal) :
    KernelResult ChannelId × KernelIpcRegistry :=
  let id : ChannelId := ⟨reg.nextId⟩
  let installed := reg.setChannel id (Channel.new id policy owner sendSubject recvSubject)
  if reg.nextId < u64Max then (.ok id, { installed with nextId := reg.nextId + 1 })
  else (.error .resourceExhausted, installed)

/-- The subject check of one direction in `create_channel` (`ipc.rs:354-374`). -/
def authorise (verifier : KernelCapabilityCheck) (action : KernelAction) (id : Nat) :
    Option KernelCapabilityToken → KernelResult (Option KernelPrincipal)
  | none => .ok none
  | some token =>
      if verifier.verify token action (.ipcChannel id) = .authorised then .ok (some token.subject)
      else .error .capabilityDenied

/-- The checks of both creation paths before a channel is built: the queue depth,
the quota of the owner, and then the subjects that the tokens give
(`ipc.rs:345-374`, `ipc.rs:432-456`). -/
def authoriseCreation (reg : KernelIpcRegistry) (owner : TaskId) (policy : ChannelPolicy)
    (subjects : KernelResult (Option KernelPrincipal × Option KernelPrincipal)) :
    KernelResult (Option KernelPrincipal × Option KernelPrincipal) := do
  if policy.queueDepth = 0 then throw .invalidArgument
  reg.enforceChannelQuota owner
  subjects

/-- The subjects that the tokens of `create_channel` give. -/
def tokenSubjects (reg : KernelIpcRegistry) (sendToken recvToken : Option KernelCapabilityToken)
    (verifier : KernelCapabilityCheck) :
    KernelResult (Option KernelPrincipal × Option KernelPrincipal) := do
  let sendSubject ← authorise verifier .ipcSend reg.nextId sendToken
  let recvSubject ← authorise verifier .ipcRecv reg.nextId recvToken
  pure (sendSubject, recvSubject)

/-- `create_channel` (`ipc.rs:337-383`). -/
def createChannel (reg : KernelIpcRegistry) (owner : TaskId) (policy : ChannelPolicy)
    (sendToken recvToken : Option KernelCapabilityToken) (verifier : KernelCapabilityCheck) :
    KernelResult ChannelId × KernelIpcRegistry :=
  match reg.authoriseCreation owner policy (reg.tokenSubjects sendToken recvToken verifier) with
  | .error e => (.error e, reg)
  | .ok (sendSubject, recvSubject) => reg.installChannel owner policy sendSubject recvSubject

/-- One direction of the signed-token check in `create_channel_signed`
(`ipc.rs:437-456`). -/
def authenticate (tokens : SignedTokens) (action : KernelAction) (now : Nat) :
    Option (List UInt8) → KernelResult (Option KernelPrincipal)
  | none => .ok none
  | some bytes => some <$> tokens.decode bytes action now

/-- The subjects that the token blobs of `create_channel_signed` give. -/
def signedSubjects (sendTokenBytes recvTokenBytes : Option (List UInt8)) (tokens : SignedTokens)
    (now : Nat) : KernelResult (Option KernelPrincipal × Option KernelPrincipal) := do
  let sendSubject ← authenticate tokens .ipcSend now sendTokenBytes
  let recvSubject ← authenticate tokens .ipcRecv now recvTokenBytes
  pure (sendSubject, recvSubject)

/-- `create_channel_signed` (`ipc.rs:419-465`). -/
def createChannelSigned (reg : KernelIpcRegistry) (owner : TaskId) (policy : ChannelPolicy)
    (sendTokenBytes recvTokenBytes : Option (List UInt8)) (tokens : SignedTokens) (now : Nat) :
    KernelResult ChannelId × KernelIpcRegistry :=
  if sendTokenBytes.isNone && recvTokenBytes.isNone then
    reg.createChannel owner policy none none ed25519CapabilityProvider
  else
    let subjects := signedSubjects sendTokenBytes recvTokenBytes tokens now
    match reg.authoriseCreation owner policy subjects with
    | .error e => (.error e, reg)
    | .ok (sendSubject, recvSubject) => reg.installChannel owner policy sendSubject recvSubject

/-- `destroy_channel` (`ipc.rs:487-497`): the channel goes with its queue and
both waiter queues. -/
def destroyChannel (reg : KernelIpcRegistry) (channel : ChannelId) (requester : TaskId) :
    KernelResult Unit × KernelIpcRegistry :=
  match reg.channel channel with
  | none => (.error .invalidArgument, reg)
  | some entry =>
      if entry.owner = requester then
        (.ok (), { reg with channels := reg.channels.erase channel.val })
      else (.error .capabilityDenied, reg)

/-- `send` (`ipc.rs:520-567`). -/
def send (reg : KernelIpcRegistry) (envelope : MessageEnvelope) (senderTask : TaskId)
    (requester : KernelPrincipal) : KernelResult WakeAction × KernelIpcRegistry :=
  match reg.channel envelope.channel with
  | none => (.error .invalidArgument, reg)
  | some ch =>
      match ch.send envelope senderTask requester with
      | .error e => (.error e, reg)
      | .ok (wake, ch') => (.ok wake, reg.setChannel envelope.channel ch')

/-- `receive` (`ipc.rs:584-622`). -/
def receive (reg : KernelIpcRegistry) (channelId : ChannelId) (requesterTask : TaskId)
    (requester : KernelPrincipal) (blocking : Bool) :
    KernelResult (Option MessageEnvelope × WakeAction) × KernelIpcRegistry :=
  match reg.channel channelId with
  | none => (.error .invalidArgument, reg)
  | some ch =>
      match ch.receive requesterTask requester blocking with
      | .error e => (.error e, reg)
      | .ok (result, ch') => (.ok result, reg.setChannel channelId ch')

end KernelIpcRegistry

end NexaCore.Ipc
