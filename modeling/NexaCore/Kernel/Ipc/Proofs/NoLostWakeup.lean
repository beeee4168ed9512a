import NexaCore.Kernel.Ipc.Operations
import NexaCore.Misc.Run

/-!
# No lost wake-up

The registry only returns a `WakeAction`; parking and waking is the work of its callers.
`Interleaving` adds to the registry the tasks that a `Block` has parked, each with its call, and
the tasks that a `Wake` has released and that have not yet issued that call again: the wake-ups in
flight. The invariant `Sound` says that they cover the messages and the room that parked tasks
wait for.
-/

namespace NexaCore.Ipc

open Misc List Prod KernelIpcRegistry Nat

/-- A call that may park its task. -/
inductive BlockingCall where
  | send (envelope : MessageEnvelope) (requester : KernelPrincipal)
  | receive (channel : ChannelId) (requester : KernelPrincipal)
  deriving DecidableEq

namespace BlockingCall

def channel : BlockingCall → ChannelId
  | .send envelope _ => envelope.channel
  | .receive channel _ => channel

def receivesOn (id : ChannelId) : BlockingCall → Bool
  | .receive channel _ => channel = id
  | .send .. => false

def sendsOn (id : ChannelId) : BlockingCall → Bool
  | .send envelope _ => envelope.channel = id
  | .receive .. => false

/-- A receive that the channel `ch`, registered under `id`, lets pass. -/
def awaitsMessage (id : ChannelId) (ch : Channel) : BlockingCall → Bool
  | .receive channel requester => channel = id && subjectAllows ch.recvSubject requester
  | .send .. => false

/-- A send that the channel `ch`, registered under `id`, lets pass. -/
def awaitsRoom (id : ChannelId) (ch : Channel) : BlockingCall → Bool
  | .send envelope requester => envelope.channel = id && subjectAllows ch.sendSubject requester
  | .receive .. => false

variable {call : BlockingCall} {waiters : List TaskId}

variable {id : ChannelId} {ch : Channel}

theorem channel_of_awaitsMessage (awaits : call.awaitsMessage id ch) : call.channel = id := by
  cases call <;> simp_all [awaitsMessage, channel]

theorem channel_of_awaitsRoom (awaits : call.awaitsRoom id ch) : call.channel = id := by
  cases call <;> simp_all [awaitsRoom, channel]

theorem receivesOn_of_awaitsMessage (awaits : call.awaitsMessage id ch) : call.receivesOn id := by
  cases call <;> simp_all [awaitsMessage, receivesOn]

theorem sendsOn_of_awaitsRoom (awaits : call.awaitsRoom id ch) : call.sendsOn id := by
  cases call <;> simp_all [awaitsRoom, sendsOn]

theorem not_awaitsRoom_of_awaitsMessage (message : call.awaitsMessage id ch) :
    ¬ call.awaitsRoom id ch := by
  cases call <;> simp_all [awaitsMessage, awaitsRoom]

end BlockingCall

/-- A task with the call it is suspended in. -/
abbrev Suspension := TaskId × BlockingCall

/-- The suspension that a `Block` of this operation creates. -/
def Operation.suspension : Operation → List Suspension
  | .send envelope task requester => [(task, .send envelope requester)]
  | .receive channel task requester true => [(task, .receive channel requester)]
  | _ => []

/-- The registry with the parked tasks and the woken tasks that have not yet
issued their call again. -/
structure Interleaving where
  reg : KernelIpcRegistry
  blocked : List Suspension
  woken : List Suspension

namespace Interleaving

def init : Interleaving := ⟨.new, [], []⟩

/-- The task is parked, or woken with its call still to be issued. -/
def suspended (s : Interleaving) (task : TaskId) : Bool :=
  (s.blocked ++ s.woken).any (fun e => e.1 = task)

/-- Carries out a wake action: `Block` parks the caller, `Wake` releases a task. -/
def settle (s : Interleaving) (op : Operation) : WakeAction → Interleaving
  | .none => s
  | .block _ => { s with blocked := op.suspension ++ s.blocked }
  | .wake task =>
      { s with
        blocked := s.blocked.filter (fun e => !decide (e.1 = task))
        woken := s.blocked.filter (fun e => decide (e.1 = task)) ++ s.woken }

/-- Executes an operation and carries out its wake action. -/
def perform (s : Interleaving) (op : Operation) : Interleaving :=
  { s.settle op (s.reg.execute op).1.wakeAction with reg := (s.reg.execute op).2 }

/-- One call of any task. A task that is not suspended issues what it wants; a
suspended task can only issue the call it was woken for. -/
def next (s : Interleaving) (op : Operation) : Option Interleaving :=
  if s.suspended op.task then
    match op.suspension with
    | [entry] =>
        if entry ∈ s.woken then some (perform { s with woken := s.woken.erase entry } op) else none
    | _ => none
  else some (s.perform op)

def step : Lts Interleaving Operation := Lts.ofPartial next

/-- The receivers of a channel that are woken and have not issued their call again. -/
def wokenReceivers (s : Interleaving) (id : ChannelId) : Nat :=
  s.woken.countP (fun e => e.2.receivesOn id)

/-- The senders of a channel that are woken and have not issued their call again. -/
def wokenSenders (s : Interleaving) (id : ChannelId) : Nat :=
  s.woken.countP (fun e => e.2.sendsOn id)

end Interleaving

/-- One side of a channel: its waiters are parked in calls that `p` holds of, and while some
task waits, the woken ones cover the `supply`. -/
structure Side (p : BlockingCall → Bool) (waiters : List TaskId) (supply : Nat)
    (blocked woken : List Suspension) : Prop where
  nodup : waiters.Nodup
  parked : ∀ task ∈ waiters, ∃ call, (task, call) ∈ blocked ∧ p call
  covered : waiters ≠ [] → supply ≤ woken.countP (fun e => p e.2)

/-- The tasks suspended on a channel agree with its waiter queues: the woken receivers cover
the queued messages and the woken senders the free places. -/
structure Channel.Sound (id : ChannelId) (ch : Channel) (blocked woken : List Suspension) :
    Prop where
  recv : Side (·.awaitsMessage id ch) ch.waitersRecv ch.queue.length blocked woken
  send : Side (·.awaitsRoom id ch) ch.waitersSend (ch.policy.queueDepth - ch.queue.length)
    blocked woken

structure Interleaving.Sound (s : Interleaving) : Prop where
  unique : ((s.blocked ++ s.woken).map Prod.fst).Nodup
  channels : ∀ id ch, s.reg.channel id = some ch → ch.Sound id s.blocked s.woken

theorem parkOnce_nodup (nodup : waiters.Nodup) (task : TaskId) : (parkOnce waiters task).Nodup := by
  unfold parkOnce
  split
  · exact nodup
  · rename_i absent
    rw [← concat_eq_append]
    exact List.Nodup.concat absent nodup

theorem Operation.suspension_cases (op : Operation) :
    op.suspension = [] ∨ ∃ call, op.suspension = [(op.task, call)] := by
  match op with
  | .send .. => exact .inr ⟨_, rfl⟩
  | .receive _ _ _ true => exact .inr ⟨_, rfl⟩
  | .receive _ _ _ false | .createChannel .. | .createChannelSigned .. | .destroyChannel .. =>
    exact .inl rfl

theorem Operation.channel_of_mem_suspension {op : Operation} {entry : Suspension}
    (mem : entry ∈ op.suspension) : op.channel? = some entry.2.channel := by
  match op, mem with
  | .send .., mem => rw [mem_singleton.mp mem]; rfl
  | .receive _ _ _ true, mem => rw [mem_singleton.mp mem]; rfl

namespace Interleaving

theorem wakes_countP_le (s : Interleaving) (op : Operation) (action : WakeAction)
    (p : Suspension → Bool) : s.woken.countP p ≤ (s.settle op action).woken.countP p := by
  cases action with
  | none | block => exact le_refl _
  | wake task => simp [settle]

theorem wakeFront_countP_lt {s : Interleaving} (op : Operation)
    (waiting : waiters ≠ []) {p : BlockingCall → Bool}
    (parked : ∀ task ∈ waiters, ∃ call, (task, call) ∈ s.blocked ∧ p call) :
    s.woken.countP (fun e => p e.2) + 1 ≤
      (s.settle op (wakeFront waiters)).woken.countP (fun e => p e.2) := by
  cases waiters with
  | nil => exact absurd rfl waiting
  | cons task rest =>
    obtain ⟨call, mem, holds⟩ := parked task mem_cons_self
    have member : (task, call) ∈ s.blocked.filter (fun e => decide (e.1 = task)) := by
      simpa using mem
    have positive : 0 < (s.blocked.filter (fun e => decide (e.1 = task))).countP (fun e => p e.2) :=
      countP_pos_iff.mpr ⟨_, member, holds⟩
    simp only [wakeFront, settle, countP_append]
    omega

theorem mem_blocked_settle {s : Interleaving} {op : Operation} {action : WakeAction}
    {entry : Suspension} (parked : entry ∈ s.blocked) (kept : action ≠ .wake entry.1) :
    entry ∈ (s.settle op action).blocked := by
  cases action with
  | none => exact parked
  | block task => exact mem_append_right _ parked
  | wake task =>
    have other : entry.1 ≠ task := fun same => kept (by rw [same])
    simpa [settle, other] using parked

/-- No task is suspended twice, also while the caller holds its suspension. -/
theorem unique_settle {s : Interleaving} {op : Operation}
    (unique : ((s.blocked ++ (op.suspension ++ s.woken)).map fst).Nodup)
    (action : WakeAction) :
    (((s.settle op action).blocked ++ (s.settle op action).woken).map fst).Nodup := by
  cases action with
  | none =>
    refine unique.sublist (List.Sublist.map _ (Sublist.append_left ?_ _))
    exact sublist_append_right _ _
  | block task =>
    refine (Perm.nodup_iff (List.Perm.map _ ?_)).mpr unique
    simp only [settle, append_assoc]
    exact perm_append_comm_assoc _ _ _
  | wake task =>
    have split : (s.settle op (.wake task)).blocked ++ (s.settle op (.wake task)).woken |>.Perm
        (s.blocked ++ s.woken) := by
      simp only [settle, ← append_assoc]
      refine Perm.append_right _ (perm_append_comm.trans ?_)
      exact filter_append_perm _ _
    refine (split.map _).nodup_iff.mpr (unique.sublist (List.Sublist.map _ ?_))
    exact Sublist.append_left (sublist_append_right _ _) _

theorem call_eq_of_unique {s : Interleaving} {rest : List Suspension} {task : TaskId}
    {call call' : BlockingCall} (unique : ((s.blocked ++ rest).map fst).Nodup)
    (parked : (task, call) ∈ s.blocked) (parked' : (task, call') ∈ s.blocked) : call = call' := by
  have := inj_on_of_nodup_map unique (mem_append_left _ parked) (mem_append_left _ parked') rfl
  exact (Prod.mk.inj this).2

end Interleaving

namespace Side

variable {p : BlockingCall → Bool} {waiters : List TaskId} {supply supply' : Nat}
  {s : Interleaving} {op : Operation}
  (side : Side p waiters supply s.blocked (op.suspension ++ s.woken))

include side

/-- The caller counts for the side until it gives up its suspension. -/
theorem le_woken (waiting : waiters ≠ []) :
    supply - op.suspension.countP (fun e => p e.2) ≤ s.woken.countP (fun e => p e.2) := by
  have covered := side.covered waiting
  rw [countP_append] at covered
  omega

theorem settle (action : WakeAction) (kept : ∀ task ∈ waiters, action ≠ .wake task)
    (less : supply' ≤ supply - op.suspension.countP (fun e => p e.2)) :
    Side p waiters supply' (s.settle op action).blocked (s.settle op action).woken where
  nodup := side.nodup
  parked task mem := by
    obtain ⟨call, old, holds⟩ := side.parked task mem
    exact ⟨call, Interleaving.mem_blocked_settle old (kept task mem), holds⟩
  covered waiting := less.trans ((side.le_woken waiting).trans (s.wakes_countP_le op action _))

theorem release (less : supply' ≤ supply - op.suspension.countP (fun e => p e.2) + 1) :
    Side p waiters.tail supply' (s.settle op (wakeFront waiters)).blocked
      (s.settle op (wakeFront waiters)).woken where
  nodup := side.nodup.tail
  parked task mem := by
    obtain ⟨call, old, holds⟩ := side.parked task (mem_of_mem_tail mem)
    refine ⟨call, Interleaving.mem_blocked_settle old fun released => ?_, holds⟩
    have nodup := side.nodup
    rw [head_of_wakeFront released] at nodup
    exact (nodup_cons.mp nodup).1 mem
  covered waiting := by
    have some : waiters ≠ [] := fun none => waiting (by simp [none])
    exact less.trans ((succ_le_succ (side.le_woken some)).trans
      (Interleaving.wakeFront_countP_lt op some side.parked))

theorem park {task : TaskId} {call : BlockingCall} (held : op.suspension = [(task, call)])
    (holds : p call) (none : supply' = 0) :
    Side p (parkOnce waiters task) supply' (op.suspension ++ s.blocked) s.woken where
  nodup := parkOnce_nodup side.nodup task
  parked t mem := by
    rcases mem_parkOnce.mp mem with old | rfl
    · obtain ⟨call, parked, holds⟩ := side.parked t old
      exact ⟨call, mem_append_right _ parked, holds⟩
    · exact ⟨call, mem_append_left _ (held ▸ mem_singleton_self _), holds⟩
  covered _ := none ▸ zero_le _

theorem settle_other {id : ChannelId} (names : ∀ call, p call → call.channel = id)
    (unique : ((s.blocked ++ (op.suspension ++ s.woken)).map fst).Nodup)
    (other : op.channel? ≠ some id) {action : WakeAction}
    (wakes : ∀ task, action = .wake task →
      ∃ call, (task, call) ∈ s.blocked ∧ op.channel? = some call.channel) :
    Side p waiters supply (s.settle op action).blocked (s.settle op action).woken := by
  have inHand : op.suspension.countP (fun e => p e.2) = 0 := by
    refine countP_eq_zero.mpr fun entry mem holds => other ?_
    rw [Operation.channel_of_mem_suspension mem, names _ holds]
  refine side.settle _ (fun task mem released => other ?_) (by omega)
  obtain ⟨call, parked, holds⟩ := side.parked task mem
  obtain ⟨call', parked', named⟩ := wakes task released
  rw [named, ← Interleaving.call_eq_of_unique unique parked parked', names _ holds]

end Side

namespace Channel.Sound

variable {id : ChannelId} {ch : Channel} {s : Interleaving} {op : Operation}

/-- What an operation on another channel does to this one: nothing. -/
theorem settle_other (sound : ch.Sound id s.blocked (op.suspension ++ s.woken))
    (unique : ((s.blocked ++ (op.suspension ++ s.woken)).map fst).Nodup)
    (other : op.channel? ≠ some id) (action : WakeAction)
    (wakes : ∀ task, action = .wake task →
      ∃ call, (task, call) ∈ s.blocked ∧ op.channel? = some call.channel) :
    ch.Sound id (s.settle op action).blocked (s.settle op action).woken := by
  obtain ⟨recv, send⟩ := sound
  exact ⟨recv.settle_other (fun _ => BlockingCall.channel_of_awaitsMessage) unique other wakes,
    send.settle_other (fun _ => BlockingCall.channel_of_awaitsRoom) unique other wakes⟩

/-- A rejected call gives up its suspension without having counted. -/
theorem rejected (sound : ch.Sound id s.blocked (op.suspension ++ s.woken))
    (live : s.reg.channel id = some ch) (rejects : s.reg.Rejects op) :
    ch.Sound id s.blocked s.woken := by
  obtain ⟨recv, send⟩ := sound
  refine ⟨recv.settle .none (by simp) ?_, send.settle .none (by simp) ?_⟩
  · match op with
    | .send .. | .receive _ _ _ false | .createChannel .. | .createChannelSigned ..
    | .destroyChannel .. => exact le_rfl
    | .receive channel task requester true =>
      have denied : ¬(channel = id ∧ subjectAllows ch.recvSubject requester) := by
        rintro ⟨rfl, allowed⟩
        simp [rejects ch live] at allowed
      simp [Operation.suspension, BlockingCall.awaitsMessage, denied]
  · match op with
    | .receive _ _ _ true | .receive _ _ _ false | .createChannel .. | .createChannelSigned ..
    | .destroyChannel .. => exact le_rfl
    | .send envelope task requester =>
      by_cases counts : envelope.channel = id ∧ subjectAllows ch.sendSubject requester
      · obtain ⟨rfl, allowed⟩ := counts
        rcases rejects ch live with denied | ⟨full, -⟩
        · simp [denied] at allowed
        · omega
      · simp [Operation.suspension, BlockingCall.awaitsRoom, counts]

variable {envelope : MessageEnvelope} {task : TaskId} {requester : KernelPrincipal}

theorem not_mem_waitersRecv {rest : List Suspension} (sound : ch.Sound id s.blocked rest)
    (unique : ((s.blocked ++ rest).map fst).Nodup) (mem : task ∈ ch.waitersSend) :
    task ∉ ch.waitersRecv := by
  intro mem'
  obtain ⟨call, parked, room⟩ := sound.send.parked task mem
  obtain ⟨call', parked', message⟩ := sound.recv.parked task mem'
  have same := Interleaving.call_eq_of_unique unique parked parked'
  exact BlockingCall.not_awaitsRoom_of_awaitsMessage message (same ▸ room)

theorem mem_of_wakeFront (released : wakeFront waiters = .wake task) : task ∈ waiters := by
  rw [head_of_wakeFront released]
  exact mem_cons_self

/-- The sender's message is queued and the first waiting receiver is released. -/
theorem send_accepted (sound : ch.Sound envelope.channel s.blocked
      ((Operation.send envelope task requester).suspension ++ s.woken))
    (unique : ((s.blocked ++ ((Operation.send envelope task requester).suspension ++ s.woken)).map
      fst).Nodup) {queue : List MessageEnvelope}
    (longer : queue.length ≤ ch.queue.length + 1)
    (covers : queue.length = ch.queue.length + 1 ∨ ch.policy.queueDepth ≤ queue.length) :
    Channel.Sound envelope.channel { ch with queue, waitersRecv := ch.waitersRecv.tail }
      (s.settle (.send envelope task requester) (wakeFront ch.waitersRecv)).blocked
      (s.settle (.send envelope task requester) (wakeFront ch.waitersRecv)).woken := by
  have inHand : (Operation.send envelope task requester).suspension.countP
      (fun e => e.2.awaitsRoom envelope.channel ch) ≤ 1 := countP_le_length
  refine ⟨sound.recv.release longer, sound.send.settle _ (fun t mem released => ?_) ?_⟩
  · exact sound.not_mem_waitersRecv unique mem (mem_of_wakeFront released)
  · simp only
    omega

/-- The receiver gets the head and the first waiting sender is released. -/
theorem receive_delivered {blocking : Bool} (sound : ch.Sound id s.blocked
      ((Operation.receive id task requester blocking).suspension ++ s.woken))
    (unique : ((s.blocked ++ ((Operation.receive id task requester blocking).suspension ++
      s.woken)).map fst).Nodup) {env : MessageEnvelope} {rest : List MessageEnvelope}
    (queue : ch.queue = env :: rest) :
    Channel.Sound id { ch with queue := rest, waitersSend := ch.waitersSend.tail }
      (s.settle (.receive id task requester blocking) (wakeFront ch.waitersSend)).blocked
      (s.settle (.receive id task requester blocking) (wakeFront ch.waitersSend)).woken := by
  have recv := sound.recv
  have send := sound.send
  rw [queue, length_cons] at recv send
  refine ⟨recv.settle _ (fun t mem released => ?_) ?_, send.release ?_⟩
  · exact sound.not_mem_waitersRecv unique (mem_of_wakeFront released) mem
  · cases blocking
    · exact le_succ _
    · exact Nat.le_sub_of_add_le (Nat.add_le_add_left countP_le_length _)
  · have inHand : (Operation.receive id task requester blocking).suspension.countP
        (fun e => e.2.awaitsRoom id ch) = 0 := by
      cases blocking <;> rfl
    simp only
    omega

end Channel.Sound

namespace Interleaving

variable {s : Interleaving} {op : Operation}

theorem channels_setChannel {id : ChannelId} {ch' : Channel}
    (sound : Sound { s with woken := op.suspension ++ s.woken }) (action : WakeAction)
    (named : op.channel? = some id)
    (wakes : ∀ task, action = .wake task →
      ∃ call, (task, call) ∈ s.blocked ∧ op.channel? = some call.channel)
    (changed : ch'.Sound id (s.settle op action).blocked (s.settle op action).woken)
    (k : ChannelId) (ch : Channel) (live : (s.reg.setChannel id ch').channel k = some ch) :
    ch.Sound k (s.settle op action).blocked (s.settle op action).woken := by
  rw [channel_setChannel] at live
  by_cases same : id = k
  · subst same
    rw [if_pos rfl] at live
    cases live
    exact changed
  · rw [if_neg same] at live
    have other : op.channel? ≠ some k := by simpa [named] using same
    exact (sound.channels k ch live).settle_other sound.unique other action wakes

/-- The head of a waiter queue is parked on the channel of the operation. -/
theorem parked_of_wakeFront {id : ChannelId} {p : BlockingCall → Bool}
    (parked : ∀ task ∈ waiters, ∃ call, (task, call) ∈ s.blocked ∧ p call)
    (names : ∀ call, p call → call.channel = id) (named : op.channel? = some id) (task : TaskId)
    (released : wakeFront waiters = .wake task) :
    ∃ call, (task, call) ∈ s.blocked ∧ op.channel? = some call.channel := by
  obtain ⟨call, parked, holds⟩ := parked task (Channel.Sound.mem_of_wakeFront released)
  exact ⟨call, parked, by rw [named, names call holds]⟩

/-- While the caller holds the suspension of its call, an operation that names no
channel leaves every channel sound. -/
theorem channels_unnamed (sound : Sound { s with woken := op.suspension ++ s.woken })
    (unnamed : op.channel? = none) (id : ChannelId) (ch : Channel)
    (live : s.reg.channel id = some ch) : ch.Sound id s.blocked s.woken :=
  (sound.channels id ch live).settle_other sound.unique (by simp [unnamed]) .none
    fun _ impossible => nomatch impossible

/-- An operation keeps the invariant, where its caller counts as woken for the call
until the operation returns. -/
theorem sound_perform (sound : Sound { s with woken := op.suspension ++ s.woken }) :
    (s.perform op).Sound := by
  refine ⟨unique_settle sound.unique _, ?_⟩
  have effect := s.reg.execute_effect op
  obtain ⟨⟨reply, reg'⟩, executed⟩ : ∃ result, s.reg.execute op = result := ⟨_, rfl⟩
  simp only [perform, executed]
  rw [executed] at effect
  intro id ch live
  cases effect with
  | failed error rejected =>
    rw [Reply.wakeAction_of_isError error]
    exact (sound.channels id ch live).rejected live rejected
  | created admitted depth quota =>
    have unnamed : op.channel? = none := by
      cases op <;> first | rfl | cases admitted
    rw [channel_installChannel] at live
    by_cases same : (⟨s.reg.nextId⟩ : ChannelId) = id
    · subst same
      rw [if_pos rfl] at live
      cases live
      constructor <;> constructor <;> simp [Channel.new]
    · rw [if_neg same] at live
      exact channels_unnamed sound unnamed id ch live
  | destroyed found owner =>
    rw [channel_erase] at live
    split at live
    · cases live
    · exact channels_unnamed sound rfl id ch live
  | sent found allowed sent =>
    have known := sound.channels _ _ found
    cases sent with
    | parked full policy =>
      exact channels_setChannel sound (.block _) rfl (fun _ impossible => nomatch impossible)
        ⟨known.recv.settle (.block _) (by simp) le_rfl,
          known.send.park rfl (by simpa [BlockingCall.awaitsRoom] using allowed)
            (Nat.sub_eq_zero_of_le full)⟩ id ch live
    | queued room =>
      refine channels_setChannel sound _ rfl (parked_of_wakeFront known.recv.parked
        (fun _ => BlockingCall.channel_of_awaitsMessage) rfl) ?_ id ch live
      exact known.send_accepted sound.unique (by simp) (.inl (by simp))
    | evicted full policy =>
      refine channels_setChannel sound _ rfl (parked_of_wakeFront known.recv.parked
        (fun _ => BlockingCall.channel_of_awaitsMessage) rfl) ?_ id ch live
      refine known.send_accepted sound.unique ?_ (.inr ?_)
      · simp
      · simp only [length_append, length_tail, length_singleton]
        omega
  | received found allowed received =>
    have known := sound.channels _ _ found
    cases received with
    | delivered queue =>
      refine channels_setChannel sound _ rfl (parked_of_wakeFront known.send.parked
        (fun _ => BlockingCall.channel_of_awaitsRoom) rfl) ?_ id ch live
      exact known.receive_delivered sound.unique queue
    | parked queue =>
      exact channels_setChannel sound (.block _) rfl (fun _ impossible => nomatch impossible)
        ⟨known.recv.park rfl (by simpa [BlockingCall.awaitsMessage] using allowed)
          (by simp [queue]),
          known.send.settle (.block _) (by simp) le_rfl⟩ id ch live
    | empty queue =>
      exact channels_setChannel sound .none rfl (fun _ impossible => nomatch impossible)
        known id ch live

theorem sound_init : init.Sound := by
  constructor
  · exact nodup_nil
  · intro id ch live
    simp [init] at live

theorem Sound.of_woken (sound : s.Sound) {woken : List Suspension}
    (unique : ((s.blocked ++ woken).map fst).Nodup)
    (more : ∀ p, s.woken.countP p ≤ woken.countP p) : Sound { s with woken } := by
  refine ⟨unique, fun id ch live => ?_⟩
  obtain ⟨recv, send⟩ := sound.channels id ch live
  exact ⟨{ recv with covered := fun waiting => (recv.covered waiting).trans (more _) },
    { send with covered := fun waiting => (send.covered waiting).trans (more _) }⟩

theorem sound_step {s' : Interleaving} (sound : s.Sound) (taken : step s op s') : s'.Sound := by
  simp only [step, Lts.ofPartial, next] at taken
  split at taken
  · split at taken
    · rename_i entry held
      split at taken
      · rename_i member
        cases taken
        apply sound_perform
        rw [held]
        have perm := perm_cons_erase member
        exact sound.of_woken (((perm.append_left _).map _).nodup_iff.mp sound.unique)
          fun p => (perm.countP_eq p).le
      · cases taken
    · cases taken
  · rename_i free
    cases taken
    refine sound_perform (sound.of_woken ?_ fun p => by simp)
    have fresh : op.task ∉ (s.blocked ++ s.woken).map fst := by
      simpa [suspended] using free
    rcases op.suspension_cases with none | ⟨call, one⟩
    · simpa [none] using sound.unique
    · rw [one]
      refine ((perm_middle.map _).nodup_iff).mpr ?_
      exact nodup_cons.mpr ⟨fresh, sound.unique⟩

end Interleaving

/-- No wake-up is lost: in every state that some interleaving of calls reaches, while
a receiver waits on a channel the woken receivers cover the queued messages,
while a sender waits the woken senders cover the free places, and no task is
queued twice. -/
theorem no_lost_wakeup {ops : List Operation} {s : Interleaving}
    (run : Run Interleaving.step Interleaving.init ops s) (id : ChannelId) (ch : Channel)
    (live : s.reg.channel id = some ch) :
    (ch.waitersRecv ≠ [] → ch.queue.length ≤ s.wokenReceivers id) ∧
    (ch.waitersSend ≠ [] → ch.policy.queueDepth ≤ ch.queue.length + s.wokenSenders id) ∧
    ch.waitersRecv.Nodup ∧ ch.waitersSend.Nodup := by
  have sound : s.Sound :=
    run.invariant Interleaving.Sound (fun _ _ _ sound taken => Interleaving.sound_step sound taken)
      Interleaving.sound_init
  have known := sound.channels id ch live
  refine ⟨fun waiting => ?_, fun waiting => ?_, known.recv.nodup, known.send.nodup⟩
  · refine (known.recv.covered waiting).trans (countP_mono_left fun entry _ => ?_)
    exact BlockingCall.receivesOn_of_awaitsMessage
  · refine (Nat.sub_le_iff_le_add'.mp (known.send.covered waiting)).trans (Nat.add_le_add_left ?_ _)
    exact countP_mono_left fun entry _ => BlockingCall.sendsOn_of_awaitsRoom

/-- Two receivers park on a channel and a send releases the first of them. -/
def twoReceivers : List Operation :=
  [.createChannelSigned ⟨1⟩ ⟨1, .block, false⟩ none none ⟨fun _ _ _ => .error .invalidArgument⟩ 0,
    .receive ⟨1⟩ ⟨2⟩ .zero true, .receive ⟨1⟩ ⟨3⟩ .zero true,
    .send ⟨⟨0⟩, ⟨1⟩, .notification, []⟩ ⟨1⟩ .zero]

theorem no_lost_wakeup_twoReceivers :
    ∃ s ch, Run Interleaving.step Interleaving.init twoReceivers s ∧
      s.reg.channel ⟨1⟩ = some ch ∧ ch.waitersRecv = [⟨3⟩] ∧ ch.queue.length = 1 ∧
      ch.queue.length ≤ s.wokenReceivers ⟨1⟩ := by
  refine ⟨_, _, Run.of_foldlM (fun _ _ _ => id) rfl, rfl, rfl, rfl, ?_⟩
  have parked :=
    no_lost_wakeup (Run.of_foldlM (fun _ _ _ => id) rfl : Run _ _ twoReceivers _) ⟨1⟩ _ rfl
  exact parked.1 (by decide)

end NexaCore.Ipc
