import NexaCore.Kernel.Ipc.Registry

/-!
# Registry operations as data

A run of the registry is a sequence of `Operation`s, each issued by some task; `execute` performs
one of them. `Effect` lists what one operation can do to the registry (`execute_effect`), so the
proofs about runs never unfold an operation.
-/

namespace NexaCore.Ipc

open Prod

/-- One call of the registry interface with its arguments. -/
inductive Operation where
  | createChannel (owner : TaskId) (policy : ChannelPolicy)
      (sendToken recvToken : Option KernelCapabilityToken) (verifier : KernelCapabilityCheck)
  | createChannelSigned (owner : TaskId) (policy : ChannelPolicy)
      (sendTokenBytes recvTokenBytes : Option (List UInt8)) (tokens : SignedTokens) (now : Nat)
  | destroyChannel (channel : ChannelId) (requester : TaskId)
  | send (envelope : MessageEnvelope) (senderTask : TaskId) (requester : KernelPrincipal)
  | receive (channel : ChannelId) (requesterTask : TaskId) (requester : KernelPrincipal)
      (blocking : Bool)

inductive Reply where
  | created (result : KernelResult ChannelId)
  | destroyed (result : KernelResult Unit)
  | sent (result : KernelResult WakeAction)
  | received (result : KernelResult (Option MessageEnvelope × WakeAction))

def Operation.task : Operation → TaskId
  | .createChannel owner .. => owner
  | .createChannelSigned owner .. => owner
  | .destroyChannel _ requester => requester
  | .send _ senderTask _ => senderTask
  | .receive _ requesterTask _ _ => requesterTask

def Operation.channel? : Operation → Option ChannelId
  | .send envelope _ _ => some envelope.channel
  | .receive channel .. => some channel
  | _ => none

def Reply.IsError : Reply → Prop
  | .created (.error _) | .destroyed (.error _) | .sent (.error _) | .received (.error _) => True
  | _ => False

/-- The wake action that the caller has to carry out. -/
def Reply.wakeAction : Reply → WakeAction
  | .sent (.ok wake) => wake
  | .received (.ok (_, wake)) => wake
  | _ => .none

theorem Reply.wakeAction_of_isError {reply : Reply} (error : reply.IsError) :
    reply.wakeAction = .none := by
  cases reply <;> rename_i result <;> cases result <;> first | rfl | exact error.elim

def KernelIpcRegistry.execute (reg : KernelIpcRegistry) : Operation → Reply × KernelIpcRegistry
  | .createChannel owner policy sendToken recvToken verifier =>
      (reg.createChannel owner policy sendToken recvToken verifier).map .created id
  | .createChannelSigned owner policy sendBytes recvBytes tokens now =>
      (reg.createChannelSigned owner policy sendBytes recvBytes tokens now).map .created id
  | .destroyChannel channel requester => (reg.destroyChannel channel requester).map .destroyed id
  | .send envelope senderTask requester => (reg.send envelope senderTask requester).map .sent id
  | .receive channel requesterTask requester blocking =>
      (reg.receive channel requesterTask requester blocking).map .received id

/-- The operation creates a channel: it is a creation that passes the checks. -/
def KernelIpcRegistry.admits (reg : KernelIpcRegistry) : Operation → Bool
  | .createChannel owner policy sendToken recvToken verifier =>
      (reg.authoriseCreation owner policy (reg.tokenSubjects sendToken recvToken verifier)).isOk
  | .createChannelSigned owner policy sendBytes recvBytes tokens now =>
      (reg.authoriseCreation owner policy (signedSubjects sendBytes recvBytes tokens now)).isOk
  | _ => false

/-- The envelope as the kernel queues it: sender and channel are overwritten. -/
def stamp (id : ChannelId) (task : TaskId) (envelope : MessageEnvelope) : MessageEnvelope :=
  { envelope with sender := task, channel := id }

theorem wakeFront_ne_block (waiters : List TaskId) (task : TaskId) :
    wakeFront waiters ≠ .block task := by
  cases waiters <;> simp [wakeFront]

variable {waiters : List TaskId} {task : TaskId}

theorem head_of_wakeFront (released : wakeFront waiters = .wake task) :
    waiters = task :: waiters.tail := by
  cases waiters with
  | nil => cases released
  | cons head rest => cases released; rfl

theorem mem_parkOnce {t : TaskId} : t ∈ parkOnce waiters task ↔ t ∈ waiters ∨ t = task := by
  unfold parkOnce
  split
  · rename_i mem
    constructor
    · exact .inl
    · rintro (old | rfl)
      · exact old
      · exact mem
  · simp

inductive Channel.SendEffect (ch : Channel) (envelope : MessageEnvelope) (task : TaskId) :
    WakeAction → Channel → Prop
  | parked (full : ch.policy.queueDepth ≤ ch.queue.length)
      (policy : ch.policy.backpressure = .block) :
      SendEffect ch envelope task (.block task)
        { ch with waitersSend := parkOnce ch.waitersSend task }
  | queued (room : ch.queue.length < ch.policy.queueDepth) :
      SendEffect ch envelope task (wakeFront ch.waitersRecv)
        { ch with
          queue := ch.queue ++ [stamp ch.id task envelope]
          waitersRecv := ch.waitersRecv.tail }
  | evicted (full : ch.policy.queueDepth ≤ ch.queue.length)
      (policy : ch.policy.backpressure = .evictOldest) :
      SendEffect ch envelope task (wakeFront ch.waitersRecv)
        { ch with
          queue := ch.queue.tail ++ [stamp ch.id task envelope]
          waitersRecv := ch.waitersRecv.tail }

inductive Channel.ReceiveEffect (ch : Channel) (task : TaskId) :
    Bool → Option MessageEnvelope × WakeAction → Channel → Prop
  | delivered {blocking : Bool} {env : MessageEnvelope} {rest : List MessageEnvelope}
      (queue : ch.queue = env :: rest) :
      ReceiveEffect ch task blocking (some env, wakeFront ch.waitersSend)
        { ch with queue := rest, waitersSend := ch.waitersSend.tail }
  | parked (queue : ch.queue = []) :
      ReceiveEffect ch task true (none, .block task)
        { ch with waitersRecv := parkOnce ch.waitersRecv task }
  | empty (queue : ch.queue = []) : ReceiveEffect ch task false (none, .none) ch

/-- The operation meets one of its error conditions. -/
def KernelIpcRegistry.Rejects (reg : KernelIpcRegistry) (op : Operation) : Prop :=
  match op with
  | .createChannel .. | .createChannelSigned .. => reg.admits op = false
  | .destroyChannel channel requester =>
      ∀ ch, reg.channel channel = some ch → ch.owner ≠ requester
  | .send envelope _ requester =>
      ∀ ch, reg.channel envelope.channel = some ch →
        subjectAllows ch.sendSubject requester = false ∨
          (ch.policy.queueDepth ≤ ch.queue.length ∧ ch.policy.backpressure = .drop)
  | .receive channel _ requester _ =>
      ∀ ch, reg.channel channel = some ch → subjectAllows ch.recvSubject requester = false

/-- What one operation can do to the registry. -/
inductive KernelIpcRegistry.Effect (reg : KernelIpcRegistry) :
    Operation → Reply → KernelIpcRegistry → Prop
  | failed {op : Operation} {reply : Reply} (error : reply.IsError)
      (rejected : reg.Rejects op) : Effect reg op reply reg
  | created {op : Operation} {policy : ChannelPolicy} {sendSubject recvSubject}
      (admitted : reg.admits op = true) (depth : policy.queueDepth ≠ 0)
      (quota : reg.enforceChannelQuota op.task = .ok ()) :
      Effect reg op (.created (reg.installChannel op.task policy sendSubject recvSubject).1)
        (reg.installChannel op.task policy sendSubject recvSubject).2
  | destroyed {channel : ChannelId} {requester : TaskId} {ch : Channel}
      (live : reg.channel channel = some ch) (owner : ch.owner = requester) :
      Effect reg (.destroyChannel channel requester) (.destroyed (.ok ()))
        { reg with channels := reg.channels.erase channel.val }
  | sent {envelope : MessageEnvelope} {task : TaskId} {requester : KernelPrincipal}
      {ch ch' : Channel}
      {wake : WakeAction} (live : reg.channel envelope.channel = some ch)
      (allowed : subjectAllows ch.sendSubject requester)
      (effect : ch.SendEffect envelope task wake ch') :
      Effect reg (.send envelope task requester) (.sent (.ok wake))
        (reg.setChannel envelope.channel ch')
  | received {channel : ChannelId} {task : TaskId} {requester : KernelPrincipal} {blocking : Bool}
      {ch ch' : Channel} {result : Option MessageEnvelope × WakeAction}
      (live : reg.channel channel = some ch) (allowed : subjectAllows ch.recvSubject requester)
      (effect : ch.ReceiveEffect task blocking result ch') :
      Effect reg (.receive channel task requester blocking) (.received (.ok result))
        (reg.setChannel channel ch')

theorem Channel.send_cases (ch : Channel) (envelope : MessageEnvelope) (task : TaskId)
    (requester : KernelPrincipal) :
    (∃ wake ch', ch.send envelope task requester = .ok (wake, ch') ∧
      subjectAllows ch.sendSubject requester ∧ ch.SendEffect envelope task wake ch') ∨
    ∃ e, ch.send envelope task requester = .error e ∧
      (subjectAllows ch.sendSubject requester = false ∨
        (ch.policy.queueDepth ≤ ch.queue.length ∧ ch.policy.backpressure = .drop)) := by
  unfold Channel.send
  split
  case isFalse denied => exact .inr ⟨_, rfl, .inl (by simpa using denied)⟩
  case isTrue allowed =>
    split
    case isTrue full =>
      split
      · rename_i policy
        exact .inr ⟨_, rfl, .inr ⟨full, policy⟩⟩
      · rename_i policy
        exact .inl ⟨_, _, rfl, allowed, .evicted full policy⟩
      · rename_i policy
        exact .inl ⟨_, _, rfl, allowed, .parked full policy⟩
    case isFalse room => exact .inl ⟨_, _, rfl, allowed, .queued (Nat.lt_of_not_le room)⟩

theorem Channel.receive_cases (ch : Channel) (task : TaskId) (requester : KernelPrincipal)
    (blocking : Bool) :
    (∃ result ch', ch.receive task requester blocking = .ok (result, ch') ∧
      subjectAllows ch.recvSubject requester ∧ ch.ReceiveEffect task blocking result ch') ∨
    ∃ e, ch.receive task requester blocking = .error e ∧
      subjectAllows ch.recvSubject requester = false := by
  unfold Channel.receive
  split
  case isFalse denied => exact .inr ⟨_, rfl, by simpa using denied⟩
  case isTrue allowed =>
    left
    split
    · rename_i queue
      exact ⟨_, _, rfl, allowed, .delivered queue⟩
    · rename_i queue
      cases blocking with
      | true => exact ⟨_, _, rfl, allowed, .parked queue⟩
      | false => exact ⟨_, _, rfl, allowed, .empty queue⟩

namespace KernelIpcRegistry

variable {reg : KernelIpcRegistry}

theorem authoriseCreation_ok {owner : TaskId} {policy : ChannelPolicy} {subjects result : _}
    (h : reg.authoriseCreation owner policy subjects = .ok result) :
    policy.queueDepth ≠ 0 ∧ reg.enforceChannelQuota owner = .ok () ∧ subjects = .ok result := by
  unfold authoriseCreation at h
  by_cases depth : policy.queueDepth = 0
  · simp [depth, bind, Except.bind] at h
  cases quota : reg.enforceChannelQuota owner with
  | error e => simp [depth, quota, bind, Except.bind] at h
  | ok _ => exact ⟨depth, rfl, by simpa [depth, quota, bind, Except.bind] using h⟩

/-- Without tokens `create_channel_signed` runs the checks of `create_channel`, so
that its early return changes nothing. -/
theorem createChannelSigned_eq (reg : KernelIpcRegistry) (owner : TaskId) (policy : ChannelPolicy)
    (sendBytes recvBytes : Option (List UInt8)) (tokens : SignedTokens) (now : Nat) :
    reg.createChannelSigned owner policy sendBytes recvBytes tokens now =
      match reg.authoriseCreation owner policy (signedSubjects sendBytes recvBytes tokens now) with
      | .error e => (.error e, reg)
      | .ok (sendSubject, recvSubject) =>
          reg.installChannel owner policy sendSubject recvSubject := by
  unfold createChannelSigned
  split
  · rename_i unset
    simp only [Bool.and_eq_true, Option.isNone_iff_eq_none] at unset
    rw [unset.1, unset.2]
    rfl
  · rfl

theorem execute_effect (reg : KernelIpcRegistry) (op : Operation) :
    reg.Effect op (reg.execute op).1 (reg.execute op).2 := by
  cases op with
  | createChannel owner policy sendToken recvToken verifier =>
    simp only [execute, createChannel]
    cases admitted : reg.authoriseCreation owner policy
        (reg.tokenSubjects sendToken recvToken verifier) with
    | error e =>
      exact .failed trivial (by simp [Rejects, admits, admitted, Except.isOk, Except.toBool])
    | ok subjects =>
      obtain ⟨depth, quota, _⟩ := authoriseCreation_ok admitted
      exact .created (by simp [admits, admitted, Except.isOk, Except.toBool]) depth quota
  | createChannelSigned owner policy sendBytes recvBytes tokens now =>
    simp only [execute, createChannelSigned_eq]
    cases admitted : reg.authoriseCreation owner policy
        (signedSubjects sendBytes recvBytes tokens now) with
    | error e =>
      exact .failed trivial (by simp [Rejects, admits, admitted, Except.isOk, Except.toBool])
    | ok subjects =>
      obtain ⟨depth, quota, _⟩ := authoriseCreation_ok admitted
      exact .created (by simp [admits, admitted, Except.isOk, Except.toBool]) depth quota
  | destroyChannel channel requester =>
    simp only [execute, destroyChannel]
    cases live : reg.channel channel with
    | none => exact .failed trivial (by simp [Rejects, live])
    | some ch =>
      by_cases owner : ch.owner = requester
      · simp only [owner, if_true]
        exact .destroyed live owner
      · simp only [owner, if_false]
        exact .failed trivial (by simpa [Rejects, live] using owner)
  | send envelope task requester =>
    simp only [execute, send]
    cases live : reg.channel envelope.channel with
    | none => exact .failed trivial (by simp [Rejects, live])
    | some ch =>
      rcases ch.send_cases envelope task requester with
        ⟨wake, ch', result, allowed, effect⟩ | ⟨e, result, cause⟩
      · simp only [result, map]
        exact .sent live allowed effect
      · simp only [result, map]
        exact .failed trivial (by simpa [Rejects, live] using cause)
  | receive channel task requester blocking =>
    simp only [execute, receive]
    cases live : reg.channel channel with
    | none => exact .failed trivial (by simp [Rejects, live])
    | some ch =>
      rcases ch.receive_cases task requester blocking with
        ⟨received, ch', result, allowed, effect⟩ | ⟨e, result, denied⟩
      · simp only [result, map]
        exact .received live allowed effect
      · simp only [result, map]
        exact .failed trivial (by simpa [Rejects, live] using denied)

theorem Rejects.admits_eq {op : Operation} (rejected : reg.Rejects op) : reg.admits op = false := by
  cases op <;> first | exact rejected | rfl

theorem channel_setChannel (reg : KernelIpcRegistry) (id k : ChannelId) (ch : Channel) :
    (reg.setChannel id ch).channel k = if id = k then some ch else reg.channel k := by
  simp only [channel, setChannel, Std.TreeMap.getElem?_insert, Nat.compare_eq_eq]
  by_cases same : id = k
  · simp [same]
  · have : id.val ≠ k.val := fun h => same (by cases id; cases k; exact congrArg _ h)
    simp [same, this]

theorem channel_erase (reg : KernelIpcRegistry) (id k : ChannelId) :
    ({ reg with channels := reg.channels.erase id.val } : KernelIpcRegistry).channel k =
      if id = k then none else reg.channel k := by
  simp only [channel, Std.TreeMap.getElem?_erase, Nat.compare_eq_eq]
  by_cases same : id = k
  · simp [same]
  · have : id.val ≠ k.val := fun h => same (by cases id; cases k; exact congrArg _ h)
    simp [same, this]

theorem channel_installChannel (reg : KernelIpcRegistry) (owner : TaskId) (policy : ChannelPolicy)
    (sendSubject recvSubject : Option KernelPrincipal) (k : ChannelId) :
    (reg.installChannel owner policy sendSubject recvSubject).2.channel k =
      if (⟨reg.nextId⟩ : ChannelId) = k then
        some (Channel.new ⟨reg.nextId⟩ policy owner sendSubject recvSubject)
      else reg.channel k := by
  unfold installChannel
  split <;> exact channel_setChannel reg _ k _

@[simp] theorem channel_new (k : ChannelId) : new.channel k = none := by
  simp [channel, new]

end KernelIpcRegistry

end NexaCore.Ipc
