import NexaCore.Net.Tcp.Proofs.SendSide

/-!
# Listener queues

The last acknowledgement of a passive open moves the connection from the map to the backlog of its
listener, without a look at `max_backlog`: only a SYN is refused at a full backlog. The pair of
endpoints is then not in the map, so a SYN or a `connect` for it opens it again. Without such
calls the backlogs are bounded and each pair occurs once.
-/

namespace NexaCore.Net

open Misc Std List TcpControlBlock TcpFlags Function
open ExtTreeMap hiding map_map

namespace TcpSocketTable

variable {t : TcpSocketTable} {call : Call} {port : UInt16} {queue : ListenQueue}
  {c : TcpControlBlock}

/-- The endpoint pairs of the map and of all backlogs. -/
def pairs (t : TcpSocketTable) : List TcpConnectionKey :=
  (t.connections.toList.map fun entry => entry.2.key) ++
    t.listeners.toList.flatMap fun entry => entry.2.backlog.map key

def Waits (t : TcpSocketTable) (port : UInt16) (c : TcpControlBlock) : Prop :=
  ∃ queue, t.listeners[port]? = some queue ∧ c ∈ queue.backlog

/-- The backlogs are bounded, and a waiting connection is in one backlog once, and not in the
map. -/
structure BacklogInv (t : TcpSocketTable) : Prop where
  keyed : t.Keyed
  queues : ∀ (port : UInt16) (queue : ListenQueue), t.listeners[port]? = some queue →
    queue.backlog.length ≤ queue.maxBacklog ∧ (queue.backlog.map key).Nodup
  own : ∀ (port : UInt16) (c : TcpControlBlock), t.Waits port c → c.localAddr.port = port
  apart : ∀ (port : UInt16) (c : TcpControlBlock), t.Waits port c → t.connGet c.key = none

theorem backlogInv_new : BacklogInv new := by
  have none : ∀ (port : UInt16) (queue : ListenQueue), new.listeners[port]? ≠ some queue := by
    intro port queue
    rw [new, getElem?_empty]
    simp
  have alone : ∀ port c, ¬new.Waits port c := by
    rintro port c ⟨queue, found, -⟩
    exact none port queue found
  exact ⟨sendsInOrder_new.keyed, fun port queue found => absurd found (none port queue),
    fun port c waits => absurd waits (alone port c), fun port c waits =>
      absurd waits (alone port c)⟩

/-! ## The pairs -/

theorem nodup_connections (keyed : t.Keyed) :
    (t.connections.toList.map fun entry => entry.2.key).Nodup := by
  apply Nodup.of_map encodeConnKey
  have keys : (t.connections.toList.map fun entry => entry.2.key).map encodeConnKey =
      t.connections.toList.map Prod.fst := by
    rw [map_map]
    apply map_congr_left
    intro entry mem
    rw [comp_apply]
    exact keyed entry.1 entry.2 (mem_toList_iff_getElem?_eq_some.mp mem)
  rw [keys]
  exact nodup_map_fst_toList t.connections

theorem nodup_backlogs (inv : BacklogInv t) :
    (t.listeners.toList.flatMap fun entry => entry.2.backlog.map key).Nodup := by
  have found : ∀ entry ∈ t.listeners.toList, t.listeners[entry.1]? = some entry.2 :=
    fun entry mem => mem_toList_iff_getElem?_eq_some.mp mem
  rw [nodup_flatMap]
  refine ⟨fun entry mem => (inv.queues _ _ (found entry mem)).2, ?_⟩
  have ports := pairwise_map.mp (nodup_map_fst_toList t.listeners)
  refine ports.imp_of_mem fun {entry entry'} mem mem' differ => ?_
  -- The port of the local endpoint is that of the listener.
  rw [onFun, disjoint_iff_ne]
  intro key first key' second same
  obtain ⟨c, waits, rfl⟩ := mem_map.mp first
  obtain ⟨c', waits', rfl⟩ := mem_map.mp second
  apply differ
  rw [← inv.own _ c ⟨_, found entry mem, waits⟩, ← inv.own _ c' ⟨_, found entry' mem', waits'⟩]
  exact congrArg (fun key : TcpConnectionKey => key.1.port) same

theorem BacklogInv.nodup_pairs (inv : BacklogInv t) : t.pairs.Nodup := by
  rw [pairs, nodup_append]
  refine ⟨nodup_connections inv.keyed, nodup_backlogs inv, fun key mapped key' waiting same => ?_⟩
  obtain ⟨entry, mem, rfl⟩ := mem_map.mp mapped
  obtain ⟨listener, mem', queued⟩ := mem_flatMap.mp waiting
  obtain ⟨c, waits, rfl⟩ := mem_map.mp queued
  have absent := inv.apart _ c ⟨_, mem_toList_iff_getElem?_eq_some.mp mem', waits⟩
  have found := mem_toList_iff_getElem?_eq_some.mp mem
  have own := inv.keyed _ _ found
  rw [connGet, ← same, own, found] at absent
  cases absent

/-! ## Steps -/

/-- A passive open completes only while there is room in the backlog, and a pair that waits in a
backlog is not opened again. -/
def Room (t : TcpSocketTable) : Call → Prop
  | .connect localAddr remoteAddr => ∀ port c, t.Waits port c → c.key ≠ (localAddr, remoteAddr)
  | .handleSegment header _ srcIp dstIp _ => ¬TcpFlags.Has header.flags rst →
      (∀ c queue, t.connGet (segmentKey header srcIp dstIp) = some c → c.state = .synReceived →
        TcpFlags.Has header.flags TcpFlags.ack ∧ header.ackNum = c.sndNxt →
        t.listeners[c.localAddr.port]? = some queue → queue.backlog.length < queue.maxBacklog) ∧
      (t.connGet (segmentKey header srcIp dstIp) = none →
        TcpFlags.Has header.flags syn ∧ ¬TcpFlags.Has header.flags TcpFlags.ack →
        ∀ port c, t.Waits port c → c.key ≠ segmentKey header srcIp dstIp)
  | _ => True

/-- A connection that a segment moves to a backlog. -/
structure Enqueued (t : TcpSocketTable) (call : Call) (port : UInt16) (c : TcpControlBlock) :
    Prop where
  moved : ∃ d, t.connGet c.key = some d
  absent : (t.step call).1.connGet c.key = none
  own : c.localAddr.port = port

/-- A connection that waits after a call waited before it, or was just moved there. -/
theorem waits_step (keyed : t.Keyed) (waits : (t.step call).1.Waits port c) :
    t.Waits port c ∨ t.Enqueued call port c := by
  obtain ⟨queue, found, mem⟩ := waits
  rcases queued_step found mem with before | ⟨key, d, event, here, -, kept, own, absent⟩
  · exact .inl before
  · have same : c.key = key := (key_apply kept).trans (keyed.key_eq here)
    subst same
    exact .inr ⟨⟨d, here⟩, absent, own⟩

/-- After an `accept` the connection that was returned waits nowhere. -/
theorem not_waits_accepted (inv : BacklogInv t) {rest : List TcpControlBlock}
    (listener : t.listeners[port]? = some queue) (backlog : queue.backlog = c :: rest)
    {port' : UInt16} {c' : TcpControlBlock} (waits : (t.step (.accept port)).1.Waits port' c') :
    c'.key ≠ c.key := by
  intro same
  have listeners : (t.step (.accept port)).1.listeners =
      t.listeners.insert port { queue with backlog := rest } := by
    unfold step accept
    dsimp only
    rw [listener]
    dsimp only
    rw [backlog]
    rfl
  have first : t.Waits port c := ⟨queue, listener, backlog ▸ mem_cons_self⟩
  obtain ⟨queue', found, mem⟩ := waits
  rw [listeners] at found
  rcases insert_eq_some.mp found with ⟨-, rfl⟩ | ⟨other, found⟩
  · have distinct := (inv.queues port queue listener).2
    rw [backlog, map_cons, nodup_cons] at distinct
    exact distinct.1 (same ▸ mem_map_of_mem mem)
  · have port' := inv.own _ c' ⟨queue', found, mem⟩
    have port := inv.own _ c first
    have ports : c'.localAddr.port = c.localAddr.port :=
      congrArg (fun key : TcpConnectionKey => key.1.port) same
    exact other (by rw [← port', ← port, ports])

theorem apart_step (inv : BacklogInv t) (room : t.Room call)
    (waits : (t.step call).1.Waits port c) : (t.step call).1.connGet c.key = none := by
  rcases waits_step inv.keyed waits with before | moved
  · have absent := inv.apart port c before
    by_contra some'
    obtain ⟨d, found⟩ := Option.ne_none_iff_exists'.mp some'
    cases origin inv.keyed found with
    | same again | event again => exact absurd (absent.symm.trans again) (by simp)
    | opened called =>
      subst called
      exact room port c before rfl
    | received called own _ syn noReset =>
      subst called
      exact (room noReset).2 (own ▸ absent) syn port c before own.symm
    | accepted called listener backlog own =>
      subst called
      exact not_waits_accepted inv listener backlog waits own.symm
  · exact moved.absent

theorem queues_step (inv : BacklogInv t) (room : t.Room call)
    (found : (t.step call).1.listeners[port]? = some queue) :
    queue.backlog.length ≤ queue.maxBacklog ∧
      (queue.backlog.map key).Nodup := by
  have after := t.after call
  generalize (t.step call).1 = t' at after found
  cases after with
  | idle | opened | event | removed | received =>
    exact inv.queues port queue found
  | ticked _ _ listeners =>
    rw [listeners] at found
    exact inv.queues port queue found
  | listened called absent =>
    rcases insert_eq_some.mp found with ⟨-, rfl⟩ | ⟨-, found⟩
    · exact ⟨Nat.zero_le _, nodup_nil⟩
    · exact inv.queues port queue found
  | accepted called listener backlog =>
    rcases insert_eq_some.mp found with ⟨-, rfl⟩ | ⟨-, found⟩
    · obtain ⟨bounded, distinct⟩ := inv.queues _ _ listener
      rw [backlog] at bounded distinct
      exact ⟨(Nat.le_succ _).trans bounded, (nodup_cons.mp distinct).2⟩
    · exact inv.queues port queue found
  | @enqueued header payload srcIp dstIp now queue' d called noReset found' state final listener =>
    rcases insert_eq_some.mp found with ⟨-, rfl⟩ | ⟨-, found⟩
    · subst called
      constructor
      · have space := (room noReset).1 d queue' found' state final listener
        rw [length_append]
        exact space
      · rw [map_append, nodup_append]
        refine ⟨(inv.queues _ _ listener).2, nodup_singleton _, fun key old key' new same => ?_⟩
        obtain ⟨e, waits, rfl⟩ := mem_map.mp old
        obtain rfl := mem_singleton.mp new
        have absent := inv.apart _ e ⟨_, listener, waits⟩
        have final' : d.key = segmentKey header srcIp dstIp := inv.keyed.key_eq found'
        have own : e.key = segmentKey header srcIp dstIp := same.trans final'
        rw [own, found'] at absent
        cases absent
    · exact inv.queues port queue found

theorem BacklogInv.step (inv : BacklogInv t) (room : t.Room call) : BacklogInv (t.step call).1 where
  keyed := inv.keyed.step call
  queues := fun _ _ found => queues_step inv room found
  own := by
    intro port c waits
    rcases waits_step inv.keyed waits with before | moved
    · exact inv.own port c before
    · exact moved.own
  apart := fun _ _ waits => apart_step inv room waits

/-- In every run in which passive opens complete only while there is room, and no waiting pair is
opened again, the backlogs are bounded and each pair occurs once. -/
theorem backlogs_bounded {calls : List Call} (run : Run (system.restrict Room) new calls t) :
    (∀ (port : UInt16) (queue : ListenQueue), t.listeners[port]? = some queue →
      queue.backlog.length ≤ queue.maxBacklog) ∧ t.pairs.Nodup := by
  have inv : BacklogInv t := by
    refine Run.invariant BacklogInv (fun s call s' inv taken => ?_) run backlogInv_new
    rw [taken.2]
    exact inv.step taken.1
  exact ⟨fun port queue found => (inv.queues port queue found).1, inv.nodup_pairs⟩

/-- A segment from a port of `client` to the listener of `server`. -/
def toListener (srcPort : UInt16) (ack : Seq) (flags : UInt16) : Call :=
  .handleSegment ⟨srcPort, 80, 100, ack, 0x5000 ||| flags, 1000⟩ [] client.ip server.ip 5

/-- A listener for two connections, and the handshakes of two clients. -/
def twoClients : List Call :=
  [.listen 80 2, toListener 5000 0 0x02, toListener 5000 0x01000002 0x10, toListener 5001 0 0x02,
    toListener 5001 0x01015eef 0x10]

theorem room_of_free {header : TcpHeader} {payload : List UInt8} {srcIp dstIp : Ipv4Addr}
    {now : Nat} (free : ∀ entry ∈ t.listeners.toList, entry.2.backlog.length < entry.2.maxBacklog ∧
      ∀ c ∈ entry.2.backlog, c.key ≠ segmentKey header srcIp dstIp) :
    t.Room (.handleSegment header payload srcIp dstIp now) := by
  refine fun _ => ⟨fun c queue _ _ _ found => ?_, ?_⟩
  · exact (free _ (mem_toList_iff_getElem?_eq_some.mpr found)).1
  · rintro - - port c ⟨queue, found, mem⟩
    exact (free _ (mem_toList_iff_getElem?_eq_some.mpr found)).2 c mem

theorem run_twoClients : Run (system.restrict Room) new twoClients (runCalls new twoClients) :=
  Run.cons ⟨trivial, rfl⟩ (Run.cons ⟨room_of_free (by decide +kernel), rfl⟩
    (Run.cons ⟨room_of_free (by decide +kernel), rfl⟩
      (Run.cons ⟨room_of_free (by decide +kernel), rfl⟩
        (Run.single ⟨room_of_free (by decide +kernel), rfl⟩))))

theorem backlogs_bounded_twoClients : ∃ queue,
    (runCalls new twoClients).listeners[(80 : UInt16)]? = some queue ∧ queue.backlog.length = 2 ∧
      queue.backlog.length ≤ queue.maxBacklog ∧ (runCalls new twoClients).pairs.Nodup := by
  obtain ⟨queue, found, full⟩ := exists_of_any
    (by decide +kernel : (runCalls new twoClients).listeners[(80 : UInt16)]?.any
      fun queue => queue.backlog.length = 2)
  obtain ⟨bounded, nodup⟩ := backlogs_bounded run_twoClients
  exact ⟨queue, found, full, bounded 80 queue found, nodup⟩

/-- Two handshakes that overlap fill a backlog for one, and a second SYN of a waiting client opens
its pair again. -/
theorem backlogs_overflow :
    ((runCalls new [.listen 80 1, toListener 5000 0 0x02, toListener 5001 0 0x02,
      toListener 5000 0x01000002 0x10,
      toListener 5001 0x01015eef 0x10]).listeners[(80 : UInt16)]?.map
        fun queue => (queue.backlog.length, queue.maxBacklog)) = some (2, 1) ∧
    ¬(runCalls new [.listen 80 2, toListener 5000 0 0x02, toListener 5000 0x01000002 0x10,
      toListener 5000 0 0x02]).pairs.Nodup :=
  ⟨by decide +kernel, by decide +kernel⟩

end TcpSocketTable

end NexaCore.Net
