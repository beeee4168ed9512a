import NexaCore.Kernel.Ipc.Operations
import NexaCore.Misc.QueueHistory

/-!
# Delivery on IPC channels

A run of the registry is observed from outside: for each channel the calls that `send` accepted
and the envelopes that `receive` returned, and the channel ids handed out. `Observed.Consistent`
relates this to the registry and is kept by every operation.
-/

namespace NexaCore.Ipc

open Misc Misc.TreeMapCount Function List KernelIpcRegistry Nat

/-- What is observed of one channel: the calls accepted by `send`, each with the
task and the envelope it passed, and the envelopes returned by `receive`. -/
abbrev ChannelHistory := QueueHistory (TaskId × MessageEnvelope) MessageEnvelope

/-- An accepted call as a queue entry of channel `id`. -/
def stamped (id : ChannelId) (call : TaskId × MessageEnvelope) : MessageEnvelope :=
  stamp id call.1 call.2

def KernelIpcRegistry.isFull (reg : KernelIpcRegistry) (id : ChannelId) : Bool :=
  match reg.channel id with
  | some ch => ch.policy.queueDepth ≤ ch.queue.length
  | none => false

/-- The registry with the observations made so far. -/
structure Observed where
  reg : KernelIpcRegistry
  issued : List ChannelId
  history : ChannelId → ChannelHistory

namespace Observed

def init : Observed where
  reg := .new
  issued := []
  history := fun _ => .empty

/-- The history of a channel after an accepted `send`: in a full queue the head
has made room. -/
def acceptInto (s : Observed) (id : ChannelId) (call : TaskId × MessageEnvelope) : ChannelHistory :=
  if s.reg.isFull id then (s.history id).evict.accept call else (s.history id).accept call

/-- The histories after a call. A send that returned `Block` was not accepted; a
creation that passed its checks starts a new history. -/
def historyAfter (s : Observed) : Operation → Reply → ChannelId → ChannelHistory
  | .send _ _ _, .sent (.ok (.block _)) => s.history
  | .send envelope task _, .sent (.ok _) =>
      update s.history envelope.channel (s.acceptInto envelope.channel (task, envelope))
  | .receive channel _ _ _, .received (.ok (some env, _)) =>
      update s.history channel ((s.history channel).deliver env)
  | op, _ => if s.reg.admits op then update s.history ⟨s.reg.nextId⟩ .empty else s.history

def issuedAfter (s : Observed) : Reply → List ChannelId
  | .created (.ok id) => s.issued ++ [id]
  | _ => s.issued

def step (s : Observed) (op : Operation) : Observed where
  reg := (s.reg.execute op).2
  issued := s.issuedAfter (s.reg.execute op).1
  history := s.historyAfter op (s.reg.execute op).1

def run (ops : List Operation) : Observed := ops.foldl step init

end Observed

structure Channel.Consistent (id : ChannelId) (ch : Channel) (history : ChannelHistory) : Prop where
  id_eq : ch.id = id
  depth_pos : ch.policy.queueDepth ≠ 0
  bounded : ch.queue.length ≤ ch.policy.queueDepth
  explains : history.Explains (stamped id) ch.queue
  keeps : ch.policy.backpressure ≠ .evictOldest → ∀ d ∈ history.departures, d = .delivered

variable {id : ChannelId} {policy : ChannelPolicy} {owner : TaskId}
  {sendSubject recvSubject : Option KernelPrincipal}

theorem Channel.Consistent.new (depth : policy.queueDepth ≠ 0) :
    (Channel.new id policy owner sendSubject recvSubject).Consistent id .empty where
  id_eq := rfl
  depth_pos := depth
  bounded := zero_le _
  explains := .empty
  keeps := fun _ _ mem => absurd mem not_mem_nil

variable {ch ch' : Channel} {history : ChannelHistory}

section

variable (consistent : ch.Consistent id history)

include consistent

theorem Channel.Consistent.of_queue_eq (idEq : ch'.id = ch.id) (policy : ch'.policy = ch.policy)
    (queue : ch'.queue = ch.queue) :
    ch'.Consistent id history where
  id_eq := idEq.trans consistent.id_eq
  depth_pos := policy ▸ consistent.depth_pos
  bounded := by rw [queue, policy]; exact consistent.bounded
  explains := queue ▸ consistent.explains
  keeps := policy ▸ consistent.keeps

theorem Channel.Consistent.queued (room : ch.queue.length < ch.policy.queueDepth) (task : TaskId)
    (envelope : MessageEnvelope) (waiters : List TaskId) :
    Channel.Consistent id
      { ch with queue := ch.queue ++ [stamp ch.id task envelope], waitersRecv := waiters }
      (history.accept (task, envelope)) where
  id_eq := consistent.id_eq
  depth_pos := consistent.depth_pos
  bounded := by simpa using room
  explains := by
    have accepted := consistent.explains.accept (task, envelope)
    simpa only [stamped, consistent.id_eq] using accepted
  keeps := consistent.keeps

/-- A full queue under `EvictOldest`: the head makes room for the accepted call. -/
theorem Channel.Consistent.evicted (full : ch.policy.queueDepth ≤ ch.queue.length)
    (policy : ch.policy.backpressure = .evictOldest) (task : TaskId) (envelope : MessageEnvelope)
    (waiters : List TaskId) :
    Channel.Consistent id
      { ch with queue := ch.queue.tail ++ [stamp ch.id task envelope], waitersRecv := waiters }
      (history.evict.accept (task, envelope)) where
  id_eq := consistent.id_eq
  depth_pos := consistent.depth_pos
  bounded := by
    have positive := consistent.depth_pos
    have := consistent.bounded
    simp only [length_append, length_tail, length_singleton]
    omega
  explains := by
    cases queue : ch.queue with
    | nil => exact absurd (by simpa [queue] using full) consistent.depth_pos
    | cons head rest =>
      have explains := consistent.explains
      rw [queue] at explains
      have accepted := explains.evict.accept (task, envelope)
      simpa only [stamped, consistent.id_eq, tail_cons] using accepted
  keeps := fun other => absurd policy other

theorem Channel.Consistent.delivered {env : MessageEnvelope} {rest : List MessageEnvelope}
    (queue : ch.queue = env :: rest) (waiters : List TaskId) :
    Channel.Consistent id { ch with queue := rest, waitersSend := waiters }
      (history.deliver env) where
  id_eq := consistent.id_eq
  depth_pos := consistent.depth_pos
  bounded := by
    have := consistent.bounded
    simp only [queue, length_cons] at this ⊢
    omega
  explains := by
    have explains := consistent.explains
    rw [queue] at explains
    exact explains.deliver
  keeps := by
    intro policy d mem
    rcases mem_append.mp mem with old | new
    · exact consistent.keeps policy d old
    · exact mem_singleton.mp new

end

namespace KernelIpcRegistry

variable {reg : KernelIpcRegistry}

theorem ownedCount_setChannel {id : ChannelId} {ch ch' : Channel}
    (live : reg.channel id = some ch) (owner : ch'.owner = ch.owner) (task : TaskId) :
    (reg.setChannel id ch').ownedCount task = reg.ownedCount task := by
  unfold ownedCount setChannel
  rw [countValues_insert, countValues_erase_of_getElem? _ _ live, owner]

theorem ownedCount_installChannel
    (quota : reg.enforceChannelQuota owner = .ok ())
    (held : ∀ task, reg.ownedCount task ≤ maxChannelsPerOwner) (task : TaskId) :
    (reg.installChannel owner policy sendSubject recvSubject).2.ownedCount task ≤
      maxChannelsPerOwner := by
  have below : reg.ownedCount owner < maxChannelsPerOwner := by
    unfold enforceChannelQuota at quota
    split at quota
    · cases quota
    · split at quota
      · cases quota
      · exact Nat.lt_of_not_le ‹_›
  have count : (reg.installChannel owner policy sendSubject recvSubject).2.ownedCount task =
      countValues (reg.channels.erase reg.nextId) (fun ch => ch.owner = task) +
        (if decide (owner = task) then 1 else 0) := by
    unfold installChannel
    split <;> exact countValues_insert _ _ _ _
  have erased := countValues_erase_le reg.channels (fun ch => ch.owner = task) reg.nextId
  have before := held task
  by_cases same : owner = task
  · subst same
    simp only [decide_true, if_true] at count
    unfold ownedCount at below count before ⊢
    omega
  · simp only [same, decide_false, Bool.false_eq_true, if_false] at count
    unfold ownedCount at count before ⊢
    omega

end KernelIpcRegistry

namespace Observed

theorem historyAfter_accepted (s : Observed) {envelope : MessageEnvelope} {task : TaskId}
    {requester : KernelPrincipal} {wake : WakeAction} (accepted : ∀ t, wake ≠ .block t) :
    s.historyAfter (.send envelope task requester) (.sent (.ok wake)) =
      update s.history envelope.channel (s.acceptInto envelope.channel (task, envelope)) := by
  cases wake with
  | none | wake => rfl
  | block t => exact absurd rfl (accepted t)

variable {s : Observed} {id : ChannelId} {ch : Channel}

theorem acceptInto_eq (live : s.reg.channel id = some ch) (call : TaskId × MessageEnvelope) :
    s.acceptInto id call =
      if ch.policy.queueDepth ≤ ch.queue.length then (s.history id).evict.accept call
      else (s.history id).accept call := by
  simp [acceptInto, isFull, live]

variable {op : Operation} {reply : Reply}

theorem historyAfter_failed (s : Observed) (error : reply.IsError)
    (refused : s.reg.admits op = false) :
    s.historyAfter op reply = s.history := by
  rcases reply with (_ | _) | (_ | _) | (_ | _) | (_ | _)
  all_goals first
    | exact error.elim
    | cases op <;> simp [historyAfter, refused]

theorem issuedAfter_failed (s : Observed) (error : reply.IsError) :
    s.issuedAfter reply = s.issued := by
  rcases reply with (_ | _) | _ | _ | _
  case created.ok => exact error.elim
  all_goals rfl

/-- The observations agree with the registry. -/
structure Consistent (s : Observed) : Prop where
  channels : ∀ id ch, s.reg.channel id = some ch → ch.Consistent id (s.history id)
  issued_lt : ∀ id ∈ s.issued, id.val < s.reg.nextId
  increasing : s.issued.Pairwise (fun id id' => id.val < id'.val)
  quota : ∀ owner, s.reg.ownedCount owner ≤ maxChannelsPerOwner

theorem consistent_init : init.Consistent where
  channels := by simp [init]
  issued_lt := by simp [init]
  increasing := List.Pairwise.nil
  quota := fun owner => by
    simp [init, ownedCount, new]

namespace Consistent

variable {ch' : Channel} (consistent : s.Consistent)

include consistent

theorem setChannel (live : s.reg.channel id = some ch) (owner : ch'.owner = ch.owner)
    {history : ChannelHistory} (updated : ch'.Consistent id history) :
    Consistent { s with
        reg := s.reg.setChannel id ch', history := update s.history id history } where
  channels := by
    intro k chk livek
    rw [channel_setChannel] at livek
    by_cases same : id = k
    · subst same
      rw [if_pos rfl] at livek
      cases livek
      simpa using updated
    · rw [if_neg same] at livek
      have other : k ≠ id := Ne.symm same
      simpa [update_of_ne other] using consistent.channels k chk livek
  issued_lt := consistent.issued_lt
  increasing := consistent.increasing
  quota := fun task => by
    rw [ownedCount_setChannel live owner]
    exact consistent.quota task

theorem setChannel_same (live : s.reg.channel id = some ch) (owner : ch'.owner = ch.owner)
    (updated : ch'.Consistent id (s.history id)) :
    Consistent { s with reg := s.reg.setChannel id ch' } := by
  have := consistent.setChannel live owner updated
  rwa [update_eq_self] at this

theorem installChannel (depth : policy.queueDepth ≠ 0)
    (quota : s.reg.enforceChannelQuota owner = .ok ()) :
    Consistent
      { reg := (s.reg.installChannel owner policy sendSubject recvSubject).2
        issued := s.issuedAfter
          (.created (s.reg.installChannel owner policy sendSubject recvSubject).1)
        history := update s.history ⟨s.reg.nextId⟩ .empty } where
  channels := by
    intro k ch live
    rw [channel_installChannel] at live
    by_cases same : (⟨s.reg.nextId⟩ : ChannelId) = k
    · subst same
      rw [if_pos rfl] at live
      cases live
      simpa using Channel.Consistent.new depth
    · rw [if_neg same] at live
      have other : k ≠ ⟨s.reg.nextId⟩ := Ne.symm same
      simpa [update_of_ne other] using consistent.channels k ch live
  issued_lt := by
    intro id mem
    unfold KernelIpcRegistry.installChannel at mem ⊢
    split
    · rename_i below
      rw [if_pos below] at mem
      rcases mem_append.mp mem with old | new
      · exact lt_succ_of_lt (consistent.issued_lt id old)
      · rw [mem_singleton.mp new]
        exact lt_succ_self _
    · rename_i above
      rw [if_neg above] at mem
      exact consistent.issued_lt id mem
  increasing := by
    unfold KernelIpcRegistry.installChannel
    split
    · refine pairwise_append.mpr
        ⟨consistent.increasing, pairwise_singleton _ _, fun id old id' new => ?_⟩
      rw [mem_singleton.mp new]
      exact consistent.issued_lt id old
    · exact consistent.increasing
  quota := ownedCount_installChannel quota consistent.quota

theorem erase (id : ChannelId) :
    Consistent { s with reg := { s.reg with channels := s.reg.channels.erase id.val } } where
  channels := by
    intro k ch live
    rw [channel_erase] at live
    by_cases same : id = k
    · simp [same] at live
    · rw [if_neg same] at live
      exact consistent.channels k ch live
  issued_lt := consistent.issued_lt
  increasing := consistent.increasing
  quota := fun owner => le_trans (countValues_erase_le _ _ _) (consistent.quota owner)

end Consistent

theorem consistent_step (consistent : s.Consistent) (op : Operation) : (s.step op).Consistent := by
  have effect := s.reg.execute_effect op
  obtain ⟨⟨reply, reg'⟩, executed⟩ : ∃ result, s.reg.execute op = result := ⟨_, rfl⟩
  rw [show s.step op = ⟨reg', s.issuedAfter reply, s.historyAfter op reply⟩ by simp [step,
    executed]]
  rw [executed] at effect
  cases effect with
  | failed error rejected =>
    rw [historyAfter_failed s error rejected.admits_eq, issuedAfter_failed s error]
    exact consistent
  | created admitted depth quota =>
    have history : ∀ result, s.historyAfter op (.created result) =
        update s.history ⟨s.reg.nextId⟩ .empty := by
      intro result
      cases op <;> simp_all [historyAfter, admits]
    rw [history]
    exact consistent.installChannel depth quota
  | destroyed live owner => exact consistent.erase _
  | sent live allowed sent =>
    have known := consistent.channels _ _ live
    cases sent with
    | parked full policy =>
      exact consistent.setChannel_same live rfl (known.of_queue_eq rfl rfl rfl)
    | queued room =>
      rw [historyAfter_accepted s fun t => wakeFront_ne_block _ t, acceptInto_eq live,
        if_neg (not_le.mpr room)]
      exact consistent.setChannel live (by rfl) (known.queued room _ _ _)
    | evicted full policy =>
      rw [historyAfter_accepted s fun t => wakeFront_ne_block _ t, acceptInto_eq live, if_pos full]
      exact consistent.setChannel live (by rfl) (known.evicted full policy _ _ _)
  | received live allowed received =>
    have known := consistent.channels _ _ live
    cases received with
    | delivered queue =>
      exact consistent.setChannel live (by rfl) (known.delivered queue _)
    | parked queue =>
      exact consistent.setChannel_same live rfl (known.of_queue_eq rfl rfl rfl)
    | empty queue =>
      exact consistent.setChannel_same live rfl known

theorem consistent_run (ops : List Operation) : (run ops).Consistent :=
  foldlRecOn ops step consistent_init fun _ consistent op _ => consistent_step consistent op

end Observed

/-- A failed call leaves the registry as it was, unless it is the creation that
exhausts the id counter. -/
theorem KernelIpcRegistry.execute_error {reg : KernelIpcRegistry} (below : reg.nextId < u64Max)
    {op : Operation} (error : (reg.execute op).1.IsError) : (reg.execute op).2 = reg := by
  have effect := reg.execute_effect op
  obtain ⟨⟨reply, reg'⟩, executed⟩ : ∃ result, reg.execute op = result := ⟨_, rfl⟩
  rw [executed] at effect error ⊢
  cases effect with
  | failed => rfl
  | created =>
    simp only [installChannel, if_pos below] at error
    exact error.elim
  | destroyed | sent | received => exact error.elim

/-- Delivery on every run: what `receive` returned followed by what is queued is
what `send` accepted, stamped with the accepting task and the channel, minus
the evicted heads; only `EvictOldest` evicts. Queues stay within their depth,
ids increase, owners stay within their quota and failed calls change nothing. -/
theorem delivery_fifo (ops : List Operation) :
    (∀ id ch, (Observed.run ops).reg.channel id = some ch →
      ((Observed.run ops).history id).returned ++ ch.queue =
        (survivors ((Observed.run ops).history id).accepted
          ((Observed.run ops).history id).departures).map (stamped id) ∧
      (ch.policy.backpressure ≠ .evictOldest →
        ((Observed.run ops).history id).returned ++ ch.queue =
          ((Observed.run ops).history id).accepted.map (stamped id)) ∧
      (∀ env ∈ ((Observed.run ops).history id).returned,
        ∃ call ∈ ((Observed.run ops).history id).accepted,
          env = { call.2 with sender := call.1, channel := ch.id }) ∧
      ch.id = id ∧ ch.queue.length ≤ ch.policy.queueDepth) ∧
    (Observed.run ops).issued.Pairwise (fun id id' => id.val < id'.val) ∧
    (∀ owner, (Observed.run ops).reg.ownedCount owner ≤ maxChannelsPerOwner) ∧
    (∀ op, (Observed.run ops).reg.nextId < u64Max →
      ((Observed.run ops).reg.execute op).1.IsError →
      ((Observed.run ops).reg.execute op).2 = (Observed.run ops).reg) := by
  have consistent := Observed.consistent_run ops
  refine ⟨fun id ch live => ?_, consistent.increasing, consistent.quota,
    fun op below => execute_error below⟩
  have known := consistent.channels id ch live
  refine ⟨known.explains.order, fun policy => known.explains.lossless (known.keeps policy), ?_,
    known.id_eq, known.bounded⟩
  intro env mem
  obtain ⟨call, accepted, eq⟩ := known.explains.accepted_of_returned mem
  exact ⟨call, accepted, by rw [known.id_eq]; exact eq.symm⟩

end NexaCore.Ipc
