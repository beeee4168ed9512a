import NexaCore.Net.Tcp.Proofs.Steps

/-!
# What a call emits for one connection

Every event and every segment that the table emits names a connection. What a call emits for a
connection of the map is what the connection itself emits, so that the fate of one connection
can be followed through calls for all the others.
-/

namespace NexaCore.Net

open Std List TcpControlBlock ExtTreeMap TcpFlags

/-- The connection that an event is about, or whose endpoints a segment carries. -/
def TcpOutput.key : TcpOutput → TcpConnectionKey
  | .sendSegment data _ => (⟨data.srcIp, data.srcPort⟩, ⟨data.dstIp, data.dstPort⟩)
  | .connectionEstablished key | .dataReceived key | .connectionClosed key
  | .connectionRefused key => key

namespace TcpControlBlock

variable {c : TcpControlBlock} {header : TcpHeader} {payload : List UInt8} {now : Nat}
  {output : TcpOutput}

def outputs (c : TcpControlBlock) : Event → List TcpOutput
  | .send now data => (c.send now data).2.2
  | .recv _ => []
  | .close => c.close.2
  | .segment header payload now => (c.processSegment header payload now).2
  | .tick now => (c.tickConnection now).2

theorem key_sendChunks (data : List (List UInt8)) :
    ∀ output ∈ (sendChunks now data c).2, output.key = c.key := by
  induction data generalizing c with
  | nil => exact forall_mem_nil _
  | cons chunk rest ih => exact forall_mem_cons.mpr ⟨rfl, ih (c := c.sendChunk now chunk)⟩

theorem key_send (data : List UInt8) : ∀ output ∈ (c.send now data).2.2, output.key = c.key := by
  unfold send
  split
  · exact key_sendChunks _
  · exact forall_mem_nil _

theorem key_close : ∀ output ∈ c.close.2, output.key = c.key := by
  unfold close
  split
  · exact forall_mem_singleton.mpr rfl
  · exact forall_mem_singleton.mpr rfl
  · exact forall_mem_nil _

theorem key_processAck : ∀ output ∈ (c.processAck header).2, output.key = c.key := by
  unfold processAck
  dsimp only
  split
  · split
    · exact forall_mem_map.mpr fun _ _ => rfl
    · exact forall_mem_nil _
  · split <;> exact forall_mem_nil _

theorem key_receiveData : ∀ output ∈ (c.receiveData header payload).2, output.key = c.key := by
  unfold receiveData
  split
  · exact forall_mem_cons.mpr ⟨rfl, forall_mem_singleton.mpr rfl⟩
  · exact forall_mem_nil _

theorem key_processEstablished :
    ∀ output ∈ (c.processEstablished header payload).2, output.key = c.key := by
  have same : (c.afterAck header).1.key = c.key := congrArg Prod.fst (c.identity_afterAck header)
  have fromAck : ∀ output ∈ (c.afterAck header).2, output.key = c.key := by
    unfold afterAck
    split
    · exact key_processAck
    · exact forall_mem_nil _
  have fromData : ∀ output ∈ ((c.afterAck header).1.receiveData header payload).2,
      output.key = c.key :=
    fun output mem => (key_receiveData output mem).trans same
  have dataKey : ((c.afterAck header).1.receiveData header payload).1.key = c.key :=
    (congrArg Prod.fst (identity_receiveData _ header payload)).trans same
  intro output mem
  rw [processEstablished_eq] at mem
  dsimp only at mem
  split at mem
  · rw [mem_append, mem_append] at mem
    rcases mem with (early | data) | last
    · exact fromAck output early
    · exact fromData output data
    · rw [mem_singleton.mp last]
      exact dataKey
  · rcases mem_append.mp mem with early | data
    · exact fromAck output early
    · exact fromData output data

theorem key_processFinWait1 : ∀ output ∈ (c.processFinWait1 header now).2, output.key = c.key := by
  unfold processFinWait1
  dsimp only
  split
  · split <;> split <;> exact forall_mem_singleton.mpr rfl
  · split <;> exact forall_mem_nil _

theorem key_processSynSent : ∀ output ∈ (c.processSynSent header).2, output.key = c.key := by
  unfold processSynSent
  split
  · split
    · exact forall_mem_singleton.mpr rfl
    · exact forall_mem_cons.mpr ⟨rfl, forall_mem_singleton.mpr rfl⟩
  · split
    · exact forall_mem_singleton.mpr rfl
    · exact forall_mem_nil _

theorem key_processSegment :
    ∀ output ∈ (c.processSegment header payload now).2, output.key = c.key := by
  unfold processSegment
  split
  · exact key_processSynSent
  · unfold processSynReceived
    split
    · exact forall_mem_singleton.mpr rfl
    · exact forall_mem_nil _
  · exact key_processEstablished
  · exact key_processFinWait1
  · change ∀ output ∈ (c.processFinWait2 header now).2, _
    unfold processFinWait2
    split
    · exact forall_mem_singleton.mpr rfl
    · exact forall_mem_nil _
  · exact forall_mem_nil _
  · split
    · exact forall_mem_singleton.mpr rfl
    · exact forall_mem_nil _
  · change ∀ output ∈ (c.processTimeWait header now).2, _
    unfold processTimeWait
    split
    · exact forall_mem_singleton.mpr rfl
    · exact forall_mem_nil _
  all_goals exact forall_mem_nil _

theorem key_resendExpired {entries : List RetransmitEntry} :
    ∀ output ∈ (resendExpired now entries c).2, output.key = c.key := by
  induction entries generalizing c with
  | nil => exact forall_mem_nil _
  | cons entry rest ih =>
    rw [resendExpired]
    split
    · exact ih
    · split
      · exact forall_mem_cons.mpr ⟨rfl, forall_mem_singleton.mpr rfl⟩
      · exact forall_mem_cons.mpr ⟨rfl, ih (c := c.resend entry.seq now)⟩

theorem key_tickConnection : ∀ output ∈ (c.tickConnection now).2, output.key = c.key := by
  unfold tickConnection
  split
  · exact forall_mem_singleton.mpr rfl
  · exact key_resendExpired

theorem key_outputs (event : Event) : ∀ output ∈ c.outputs event, output.key = c.key := by
  cases event with
  | send now data => exact key_send data
  | recv room => simp [outputs]
  | close => exact key_close
  | segment header payload now => exact key_processSegment
  | tick now => exact key_tickConnection

end TcpControlBlock

namespace TcpSocketTable

variable {t : TcpSocketTable} {key : TcpConnectionKey} {c : TcpControlBlock}

def outputsFor (key : TcpConnectionKey) (outs : List TcpOutput) : List TcpOutput :=
  outs.filter fun output => output.key = key

theorem outputsFor_append (outs outs' : List TcpOutput) :
    outputsFor key (outs ++ outs') = outputsFor key outs ++ outputsFor key outs' :=
  filter_append ..

variable {outs : List TcpOutput}

theorem outputsFor_self (own : ∀ output ∈ outs, output.key = key) : outputsFor key outs = outs :=
  filter_eq_self.mpr fun output mem => decide_eq_true (own output mem)

theorem outputsFor_other {other : TcpConnectionKey} (apart : other ≠ key)
    (own : ∀ output ∈ outs, output.key = other) : outputsFor key outs = [] :=
  filter_eq_nil_iff.mpr fun output mem same =>
    apart ((own output mem).symm.trans (of_decide_eq_true same))

/-! ## The timer -/

theorem outputsFor_foldl_tickKey (key : TcpConnectionKey) (now : Nat) {keys : List Nat}
    (distinct : keys.Nodup)
    {state : TcpSocketTable × List TcpOutput} (keyed : state.1.Keyed) :
    outputsFor key (keys.foldl (tickKey now) state).2 = outputsFor key state.2 ++
      if encodeConnKey key ∈ keys then
        (state.1.connGet key).elim [] fun c => (c.tickConnection now).2
      else [] := by
  induction keys generalizing state with
  | nil => simp
  | cons first rest ih =>
    obtain ⟨absent, distinct⟩ := nodup_cons.mp distinct
    have before := tickKey_connections now keyed first
    rw [foldl_cons, ih distinct (tickKey_keyed keyed first), tickKey_out, outputsFor_append]
    by_cases here : encodeConnKey key = first
    · -- its turn: it emits now and is not met again
      subst here
      rw [if_neg absent, append_nil, if_pos mem_cons_self]
      congr 1
      change outputsFor key ((state.1.connGet key).elim [] fun c => (c.tickConnection now).2) = _
      cases found : state.1.connGet key with
      | none => rfl
      | some c =>
        apply outputsFor_self
        intro output mem
        exact (key_tickConnection output mem).trans (keyed.key_eq found)
    · have silent : outputsFor key
          ((state.1.connections[first]?).elim [] fun c => (c.tickConnection now).2) = [] := by
        cases found : state.1.connections[first]? with
        | none => rfl
        | some c =>
          have apart : c.key ≠ key := by
            intro same
            exact here ((congrArg encodeConnKey same).symm.trans (keyed first c found))
          exact outputsFor_other apart key_tickConnection
      have same : (tickKey now state first).1.connGet key = state.1.connGet key := by
        rw [connGet, before, if_neg here, connGet]
      rw [silent, append_nil, same]
      simp only [mem_cons, here, false_or]

theorem outputsFor_tick (keyed : t.Keyed) (found : t.connGet key = some c) (now : Nat) :
    outputsFor key (t.tick now).2 = (c.tickConnection now).2 := by
  have start : Keyed (({ t with lastNow := now }, []) : TcpSocketTable × List TcpOutput).1 := keyed
  have emitted := outputsFor_foldl_tickKey key now
    (nodup_keys (t := t.connections)) start
  have present : encodeConnKey key ∈ t.connections.keys := by
    rw [ExtTreeMap.mem_keys]
    exact ExtTreeMap.isSome_getElem?_iff_mem.mp (Option.isSome_iff_exists.mpr ⟨c, found⟩)
  rw [if_pos present] at emitted
  change outputsFor key (t.tick now).2 = _ at emitted
  rw [emitted]
  change [] ++ (t.connGet key).elim [] _ = _
  rw [found]
  rfl

/-! ## One connection through a call -/

/-- A reset for the endpoints arrives. -/
def Call.resets (key : TcpConnectionKey) : Call → Bool
  | .handleSegment header _ srcIp dstIp _ =>
      decide (segmentKey header srcIp dstIp = key) &&
        decide (TcpFlags.Has header.flags rst)
  | _ => false

/-- The call takes the connection out of the map or puts another one in its place: a reset for
its endpoints arrives, or a connection with the same endpoints is accepted. -/
def displaces (t : TcpSocketTable) (key : TcpConnectionKey) : Call → Bool
  | .accept port =>
      (t.listeners[port]?).any fun queue => queue.backlog.head?.any fun c => decide (c.key = key)
  | call => call.resets key

/-- A call that does not displace a connection is an event for it or leaves it as it is. -/
structure Follows (t : TcpSocketTable) (key : TcpConnectionKey) (c : TcpControlBlock)
    (call : Call) : Prop where
  block : (t.step call).1.connGet key = (t.eventAt key call).elim (some c) c.apply
  outputs : outputsFor key (t.step call).2 = (t.eventAt key call).elim [] c.outputs

variable {call : Call}

theorem follows_other (found : t.connGet key = some c) (unseen : t.eventAt key call = none)
    (same : (t.step call).1.connGet key = t.connGet key)
    (silent : outputsFor key (t.step call).2 = []) : t.Follows key c call where
  block := by
    rw [same, unseen, found]
    rfl
  outputs := by
    rw [silent, unseen]
    rfl

/-- The calls of the socket layer on a connection: the one they name sees an event. -/
theorem follows_event (keyed : t.Keyed) (found : t.connGet key = some c) {k : TcpConnectionKey}
    (event : Event) (seen : t.eventAt key call = if k = key then some event else none)
    (absent : t.connGet k = none → t.step call = (t, []))
    (present : ∀ d, t.connGet k = some d → ∃ d', d.apply event = some d' ∧
      t.step call = (t.connInsert k d', d.outputs event)) : t.Follows key c call := by
  by_cases same : k = key
  · subst same
    obtain ⟨d', kept, stepped⟩ := present c found
    rw [if_pos rfl] at seen
    refine ⟨?_, ?_⟩
    · rw [seen, stepped, connGet_connInsert, if_pos rfl]
      exact kept.symm
    · rw [seen, stepped]
      exact outputsFor_self fun output mem =>
        (key_outputs _ output mem).trans (keyed.key_eq found)
  · rw [if_neg same] at seen
    cases here : t.connGet k with
    | none => exact follows_other found seen (by rw [absent here]) (by rw [absent here]; rfl)
    | some d =>
      obtain ⟨d', -, stepped⟩ := present d here
      refine follows_other found seen ?_ ?_
      · rw [stepped, connGet_connInsert, if_neg (Ne.symm same)]
      · rw [stepped]
        exact outputsFor_other same fun output mem =>
          (key_outputs _ output mem).trans (keyed.key_eq here)

theorem key_refusal (header : TcpHeader) (srcIp dstIp : Ipv4Addr) :
    (refusal header srcIp dstIp).key = segmentKey header srcIp dstIp := by
  unfold refusal
  split <;> rfl

variable {srcIp dstIp : Ipv4Addr}

theorem key_openPassive {queue : ListenQueue} :
    ∀ output ∈ (t.openPassive queue header srcIp dstIp).2,
      output.key = segmentKey header srcIp dstIp := by
  intro output mem
  unfold openPassive at mem
  split at mem <;> rw [mem_singleton.mp mem] <;> rfl

theorem handleSegment_other (keyed : t.Keyed) (payload : List UInt8)
    (now : Nat) (apart : segmentKey header srcIp dstIp ≠ key) :
    (t.handleSegment header payload srcIp dstIp now).1.connGet key = t.connGet key ∧
      outputsFor key (t.handleSegment header payload srcIp dstIp now).2 = [] := by
  have other : ∀ {outs : List TcpOutput},
      (∀ output ∈ outs, output.key = segmentKey header srcIp dstIp) → outputsFor key outs = [] :=
    fun own => outputsFor_other apart own
  unfold handleSegment
  dsimp only
  split
  · split
    · refine ⟨?_, other (by simp [TcpOutput.key])⟩
      rw [connGet_connRemove, if_neg apart.symm]
      rfl
    · exact ⟨rfl, rfl⟩
  · split
    · rename_i d found
      refine ⟨?_, other fun output mem => ?_⟩
      · cases (d.processSegment header payload now).1 with
        | keep e =>
          rw [dispose, connGet_connInsert, if_neg apart.symm]
          rfl
        | remove =>
          rw [dispose, connGet_connRemove, if_neg apart.symm]
          rfl
        | enqueue e =>
          rw [dispose]
          split
          · rw [connGet_connRemove, if_neg apart.symm]
            rfl
          · change ((TcpSocketTable.connRemove _ _).connGet key) = _
            rw [connGet_connRemove, if_neg apart.symm]
            rfl
      · exact (key_processSegment output mem).trans (keyed.key_eq found)
    · have refused : ∀ output ∈ [refusal header srcIp dstIp],
          output.key = segmentKey header srcIp dstIp := by
        simp [key_refusal]
      split
      · split
        · refine ⟨?_, other key_openPassive⟩
          unfold openPassive
          split
          · rfl
          · dsimp only
            rw [connGet_connInsert, if_neg apart.symm, connGet_advanceIsn]
            rfl
        · exact ⟨rfl, other refused⟩
      · exact ⟨rfl, other refused⟩

theorem handleSegment_own (keyed : t.Keyed) (found : t.connGet key = some c)
    (state : c.state ≠ .synReceived) (payload : List UInt8) (now : Nat)
    (own : segmentKey header srcIp dstIp = key)
    (noReset : ¬TcpFlags.Has header.flags rst) :
    (t.handleSegment header payload srcIp dstIp now).1.connGet key =
        c.apply (.segment header payload now) ∧
      outputsFor key (t.handleSegment header payload srcIp dstIp now).2 =
        (c.processSegment header payload now).2 := by
  have here : ({ t with lastNow := now } : TcpSocketTable).connGet key = some c := found
  unfold handleSegment
  dsimp only
  rw [own, if_neg noReset, here]
  refine ⟨?_, outputsFor_self fun output mem => ?_⟩
  · dsimp only [apply]
    cases result : (c.processSegment header payload now).1 with
    | keep d =>
      rw [dispose, connGet_connInsert, if_pos rfl]
      rfl
    | remove =>
      rw [dispose, connGet_connRemove, if_pos rfl]
      rfl
    | enqueue d => exact absurd (processSegment_enqueue result).1 state
  · exact (key_processSegment output mem).trans (keyed.key_eq found)

/-- A connection that is not about to move to a backlog can be followed through every call that
does not displace it. -/
theorem follows (keyed : t.Keyed) (found : t.connGet key = some c)
    (state : c.state ≠ .synReceived) (stays : t.displaces key call = false) :
    t.Follows key c call := by
  cases call with
  | connect localAddr remoteAddr =>
    by_cases taken : (t.connGet (localAddr, remoteAddr)).isSome
    · have same : t.step (.connect localAddr remoteAddr) = (t, []) := by
        simp only [step, connect, taken, if_true]
      exact follows_other found rfl (by rw [same]) (by rw [same]; rfl)
    · have apart : (localAddr, remoteAddr) ≠ key := by
        rintro rfl
        exact taken (by rw [found]; rfl)
      refine follows_other found rfl ?_ ?_
      · rw [step, connect, if_neg taken]
        dsimp only
        rw [connGet_connInsert, if_neg apart.symm, connGet_advanceIsn]
      · rw [step, connect, if_neg taken]
        apply outputsFor_other apart
        intro output mem
        rw [mem_singleton.mp mem]
        rfl
  | listen port backlog =>
    refine follows_other found rfl ?_ rfl
    unfold step listen
    dsimp only
    split <;> rfl
  | accept port =>
    refine follows_other found rfl ?_ rfl
    dsimp only [displaces] at stays
    unfold step accept
    dsimp only
    split
    · rfl
    · rename_i queue listener
      split
      · rfl
      · rename_i d rest backlog
        have apart : d.key ≠ key := by
          rw [listener] at stays
          simpa [backlog] using stays
        dsimp only
        rw [connGet_connInsert, if_neg apart.symm]
        rfl
  | send k data =>
    apply follows_event keyed found (.send t.lastNow data) rfl
    · intro absent
      simp only [step, send, absent]
    · intro d here
      simp only [step, send, here]
      exact ⟨_, rfl, rfl⟩
  | recv k room =>
    apply follows_event keyed found (.recv room) rfl
    · intro absent
      simp only [step, recv, absent]
    · intro d here
      simp only [step, recv, here]
      exact ⟨_, rfl, rfl⟩
  | close k =>
    apply follows_event keyed found .close rfl
    · intro absent
      simp only [step, close, absent]
    · intro d here
      simp only [step, close, here]
      exact ⟨_, rfl, rfl⟩
  | handleSegment header payload srcIp dstIp now =>
    by_cases same : segmentKey header srcIp dstIp = key
    · have noReset : ¬TcpFlags.Has header.flags rst := by
        simpa [displaces, Call.resets, same] using stays
      have seen : t.eventAt key (.handleSegment header payload srcIp dstIp now) =
          some (.segment header payload now) := if_pos ⟨same, noReset⟩
      obtain ⟨block, outputs⟩ := handleSegment_own keyed found state payload now same noReset
      exact ⟨by rw [seen]; exact block, by rw [seen]; exact outputs⟩
    · obtain ⟨block, silent⟩ := handleSegment_other keyed payload now same
      exact follows_other found (if_neg fun both => same both.1) block silent
  | tick now =>
    obtain ⟨-, connections, -⟩ := tick_spec keyed now
    refine ⟨?_, outputsFor_tick keyed found now⟩
    change (t.tick now).1.connGet key = _
    rw [connections, found]
    rfl

end TcpSocketTable

end NexaCore.Net
