import NexaCore.Net.Proofs.Frames
import NexaCore.Net.Proofs.Serving
import NexaCore.Net.Tcp.Proofs.Outputs

/-!
# Deferred replies

A `Connect` is answered when the TCP table says what has become of the connection. A session
records every `Connect` that returned `Pending` and its replies. In every run in which nothing
displaces the connection that is waited for, the reply is the right one and the only one, and the
wait ends with the handshake.
-/

namespace NexaCore.Net

open Misc Std List TcpControlBlock Option Prod TcpFlags

/-! ## The connection that is waited for -/

/-- A segment that is no reset. -/
def TcpOutput.isData : TcpOutput → Bool
  | .sendSegment data _ => !decide (TcpFlags.Has data.flags rst)
  | _ => false

/-- How many segments other than resets are sent for a connection. -/
def TcpSocketTable.sent (key : TcpConnectionKey) (outs : List TcpOutput) : Nat :=
  (outputsFor key outs).countP TcpOutput.isData

/-- How often the timer sends a segment of a connection at a call. -/
def TcpSocketTable.resentBy (t : TcpSocketTable) (key : TcpConnectionKey) : Call → Nat
  | .tick now => sent key (t.tick now).2
  | _ => 0

theorem NetworkService.findSome?_replyFor_pair {key : TcpConnectionKey} {first last : TcpOutput}
    {response : SocketResponse} (silent : replyFor key first = none)
    (reply : replyFor key last = some response) :
    [first, last].findSome? (replyFor key) = some response := by
  simp [silent, reply]

namespace TcpControlBlock

/-- The connection waits for the answer to its SYN, which the timer has sent again `count`
times. -/
structure Opening (c : TcpControlBlock) (count : Nat) : Prop where
  state : c.state = .synSent
  queue : ∃ entry, c.retransmitQueue = [entry] ∧ entry.retransmitCount = count
  bounded : count ≤ maxRetransmit

theorem opening_opened (localAddr remoteAddr : SocketApiAddr) (iss : Seq) (now : Nat) :
    (opened localAddr remoteAddr iss now).Opening 0 where
  state := rfl
  queue := ⟨_, rfl, rfl⟩
  bounded := Nat.zero_le _

/-- How many segments the timer sends again at an event. -/
def resends (c : TcpControlBlock) : Event → Nat
  | .tick now => (c.tickConnection now).2.countP TcpOutput.isData
  | _ => 0

/-- What becomes of a connection that waits, with the reply that is seen. -/
inductive AfterOpening (count resent : Nat) (block : Option TcpControlBlock)
    (reply : Option SocketResponse) : Prop
  | waits {c : TcpControlBlock} (kept : block = some c) (opening : c.Opening (count + resent))
      (silent : reply = none)
  | connected {c : TcpControlBlock} (kept : block = some c) (established : c.state = .established)
      (replied : reply = some (.ok 0))
  | gaveUp (removed : block = none) (exhausted : count = maxRetransmit)
      (replied : reply = some (.error .timedOut))

/-- What an event makes of a connection that waits. -/
abbrev AfterEvent (c : TcpControlBlock) (count : Nat) (event : Event) : Prop :=
  AfterOpening count (c.resends event) (c.apply event)
    ((c.outputs event).findSome? (NetworkService.replyFor c.key))

variable {c : TcpControlBlock} {count : Nat}

theorem Opening.tick (opening : c.Opening count) (now : Nat) : AfterEvent c count (.tick now) := by
  obtain ⟨entry, queue, counted⟩ := opening.queue
  have running : ¬(c.state = .timeWait ∧ now - c.timeWaitStartedMs ≥ timeWaitMs) := by
    rw [opening.state]
    rintro ⟨done, -⟩
    cases done
  have ticked : c.tickConnection now = resendExpired now (c.expired now) c := if_neg running
  by_cases due : now - entry.sentAt ≥ c.rtoMs
  · have expired : c.expired now = [entry] := by
      simp [expired, queue, due]
    have found : c.retransmitQueue.find? (fun queued => queued.seq == entry.seq) = some entry := by
      simp [queue]
    rw [expired, resendExpired, found] at ticked
    by_cases spent : entry.retransmitCount ≥ maxRetransmit
    · simp only [spent, if_true] at ticked
      refine .gaveUp (congrArg fst ticked) ?_ ?_
      · exact Nat.le_antisymm opening.bounded (counted ▸ spent)
      · rw [outputs, ticked]
        exact NetworkService.findSome?_replyFor_pair rfl (if_pos rfl)
    · simp only [spent, if_false, resendExpired] at ticked
      have once : c.resends (.tick now) = 1 := by
        rw [resends, ticked, countP_singleton]
        exact if_pos (show !decide
          (TcpFlags.Has (TcpFlags.ack ||| psh) rst) by decide)
      refine .waits (congrArg fst ticked) ⟨opening.state, ?_, ?_⟩ ?_
      · rw [once, ← counted]
        exact ⟨{ entry with retransmitCount := entry.retransmitCount + 1, sentAt := now },
          by simp [resend, queue, modifyFirst], rfl⟩
      · rw [once, ← counted]
        exact Nat.lt_of_not_le spent
      · rw [outputs, ticked]
        rfl
  · have expired : c.expired now = [] := by
      simp [expired, queue, due]
    rw [expired, resendExpired] at ticked
    refine .waits (congrArg fst ticked) ?_ ?_
    · rw [resends, ticked]
      exact opening
    · rw [outputs, ticked]
      rfl

/-- Without a reset, a segment completes the handshake or is of no use. -/
theorem Opening.segment (opening : c.Opening count) {header : TcpHeader}
    (noReset : ¬TcpFlags.Has header.flags rst) (payload : List UInt8) (now : Nat) :
    AfterEvent c count (.segment header payload now) := by
  have processed : c.processSegment header payload now = c.processSynSent header := by
    rw [processSegment, opening.state]
  unfold processSynSent at processed
  split at processed
  · split at processed
    · have kept : c.apply (.segment header payload now) = some c := by
        rw [apply, processed]
        rfl
      refine .waits kept opening ?_
      rw [outputs, processed]
      rfl
    · have kept : c.apply (.segment header payload now) = some (c.connected header) := by
        rw [apply, processed]
        rfl
      refine .connected kept rfl ?_
      rw [outputs, processed]
      exact NetworkService.findSome?_replyFor_pair rfl (if_pos rfl)
  · have kept : c.apply (.segment header payload now) = some c := by
      rw [apply, processed]
      rfl
    refine .waits kept opening ?_
    rw [outputs, processed]
    rfl

theorem Opening.after (opening : c.Opening count) (event : Event)
    (noReset : ∀ header payload now, event = .segment header payload now →
      ¬TcpFlags.Has header.flags rst) : AfterEvent c count event := by
  cases event with
  | send now data =>
    have refused : c.send now data = (.error .invalidArgument, c, []) := by
      simp [send, opening.state]
    have kept : c.apply (.send now data) = some c := by rw [apply, refused]
    refine .waits kept opening ?_
    rw [outputs, refused]
    rfl
  | recv room => exact .waits rfl ⟨opening.state, opening.queue, opening.bounded⟩ rfl
  | close =>
    have ignored : c.close = (c, []) := by rw [close, opening.state]
    have kept : c.apply .close = some c := by rw [apply, ignored]
    refine .waits kept opening ?_
    rw [outputs, ignored]
    rfl
  | segment header payload now => exact opening.segment (noReset header payload now rfl) payload now
  | tick now => exact opening.tick now

end TcpControlBlock

namespace NetworkService

variable {s : NetworkService} {call : Call}

theorem findSome?_replyFor (key : TcpConnectionKey) (outs : List TcpOutput) :
    outs.findSome? (replyFor key) = (TcpSocketTable.outputsFor key outs).findSome?
      (replyFor key) := by
  have other : ∀ output : TcpOutput, output.key ≠ key → replyFor key output = none := by
    intro output apart
    cases output <;> first | rfl | exact if_neg apart
  induction outs with
  | nil => rfl
  | cons output rest ih =>
    rw [TcpSocketTable.outputsFor, filter_cons, findSome?_cons]
    by_cases own : output.key = key
    · rw [if_pos (decide_eq_true own), findSome?_cons, ih]
      rfl
    · rw [if_neg (by simpa using own), other output own, ih]
      rfl

/-! ## Sessions -/

/-- A reply with what the run shows of the connection when it is given. -/
structure Reply where
  response : SocketResponse
  /-- The connection is established after the call. -/
  established : Bool
  /-- The call brought a reset for the connection. -/
  reset : Bool
  /-- How often the timer had sent the SYN again. -/
  resent : Nat
  deriving DecidableEq, Repr

/-- A `Connect` that returned `Pending`. -/
structure Attempt where
  handle : Nat
  key : TcpConnectionKey
  /-- How often the timer has sent the SYN again. -/
  resent : Nat := 0
  replies : List Reply := []
  deriving DecidableEq, Repr

def attemptOf (s : NetworkService) : Call → Option Attempt
  | .request (.connect handle addr) =>
      if (s.handleSocketRequest (.connect handle addr)).1 = .pending then
        some { handle, key := s.connectKey addr }
      else none
  | _ => none

def resentBy (s : NetworkService) (key : TcpConnectionKey) (call : Call) : Nat :=
  (s.tcpCall call).elim 0 (s.tcp.resentBy key)

/-- The attempt after a call while it waits, with the responses of the call. -/
def Attempt.observe (attempt : Attempt) (before : NetworkService) (call : Call)
    (after : NetworkService) (responses : List SocketResponse) : Attempt :=
  { attempt with
    resent := attempt.resent + before.resentBy attempt.key call
    replies := attempt.replies ++ responses.map fun response =>
      { response
        established := (after.tcp.connGet attempt.key).any fun c => decide (c.state = .established)
        reset := (before.tcpCall call).any fun tcpCall => tcpCall.resets attempt.key
        resent := attempt.resent } }

/-- A service with the attempts made on it, the last one first, and the responses that were given
while none waited. -/
structure Session where
  service : NetworkService := {}
  attempts : List Attempt := []
  unasked : List SocketResponse := []

def Session.next (session : Session) (call : Call) : Session :=
  let before := session.service
  let (after, outs) := before.step call
  let waits := before.pendingConnect.isSome
  { service := after
    attempts := (before.attemptOf call).toList ++
      if waits then
        session.attempts.modifyHead fun attempt =>
          attempt.observe before call after (responses outs)
      else session.attempts
    unasked := session.unasked ++ if waits then [] else responses outs }

/-- The reply says what has become of the connection. -/
structure Reply.Right (reply : Reply) : Prop where
  ok : reply.response = .ok 0 ↔ reply.established = true
  refused : reply.response = .error .connectionRefused ↔ reply.reset = true
  timedOut : reply.response = .error .timedOut → reply.resent = maxRetransmit
  known : reply.response = .ok 0 ∨ reply.response = .error .connectionRefused ∨
    reply.response = .error .timedOut

structure Session.Exact (session : Session) : Prop where
  /-- A reply is deferred only while the connection is in `SynSent`. -/
  waiting : ∀ handle key, session.service.pendingConnect = some (handle, key) →
    ∃ c, session.service.tcp.connGet key = some c ∧ c.state = .synSent
  /-- Each attempt gets at most one reply, -/
  once : ∀ attempt ∈ session.attempts, attempt.replies.length ≤ 1
  /-- is deferred until it gets one, -/
  deferred : ∀ attempt ∈ session.attempts, attempt.replies = [] →
    session.service.pendingConnect = some (attempt.handle, attempt.key)
  /-- and gets the right one. -/
  right : ∀ attempt ∈ session.attempts, ∀ reply ∈ attempt.replies, reply.Right
  /-- Nothing else is replied. -/
  asked : session.unasked = []

/-- The call does not displace the connection that is waited for. -/
def Undisturbed (session : Session) (call : Call) : Prop :=
  ∀ waiting ∈ session.service.pendingConnect, ∀ tcpCall ∈ session.service.tcpCall call,
    session.service.tcp.displaces waiting.2 tcpCall = false

instance (session : Session) (call : Call) : Decidable (Undisturbed session call) :=
  inferInstanceAs (Decidable (∀ waiting ∈ session.service.pendingConnect,
    ∀ tcpCall ∈ session.service.tcpCall call,
      session.service.tcp.displaces waiting.2 tcpCall = false))

/-! ## The invariant -/

def Attempt.Answered (attempt : Attempt) : Prop := ∃ reply, attempt.replies = [reply] ∧ reply.Right

structure Attempt.Waits (attempt : Attempt) (t : TcpSocketTable) : Prop where
  unanswered : attempt.replies = []
  opening : ∃ c, t.connGet attempt.key = some c ∧ c.Opening attempt.resent

/-- All attempts but the one that the service waits for are answered. -/
structure Session.Sound (session : Session) : Prop where
  keyed : session.service.tcp.Keyed
  quiet : responses session.service.pendingTx = []
  asked : session.unasked = []
  attempts : ∃ (waiting : Option Attempt) (answered : List Attempt),
    session.attempts = waiting.toList ++ answered ∧
    session.service.pendingConnect = waiting.map (fun attempt => (attempt.handle, attempt.key)) ∧
    (∀ attempt ∈ waiting, attempt.Waits session.service.tcp) ∧
    ∀ attempt ∈ answered, attempt.Answered

variable {session : Session}

theorem Session.Sound.exact (sound : session.Sound) : session.Exact := by
  obtain ⟨waiting, answered, split, pending, waits, replied⟩ := sound.attempts
  have cases : ∀ attempt ∈ session.attempts, attempt ∈ waiting ∨ attempt ∈ answered := by
    intro attempt mem
    rw [split, mem_append, mem_toList] at mem
    exact mem
  refine ⟨?_, ?_, ?_, ?_, sound.asked⟩
  · intro handle key here
    rw [pending, map_eq_some_iff] at here
    obtain ⟨attempt, mem, same⟩ := here
    obtain ⟨c, found, opening⟩ := (waits attempt mem).opening
    cases same
    exact ⟨c, found, opening.state⟩
  · intro attempt mem
    rcases cases attempt mem with mem | mem
    · rw [(waits attempt mem).unanswered]
      exact Nat.zero_le _
    · obtain ⟨reply, replies, -⟩ := replied attempt mem
      rw [replies]
      exact Nat.le_refl _
  · intro attempt mem none
    rcases cases attempt mem with mem | mem
    · rw [pending, mem_def.mp mem]
      rfl
    · obtain ⟨reply, replies, -⟩ := replied attempt mem
      rw [replies] at none
      cases none
  · intro attempt mem reply given
    rcases cases attempt mem with mem | mem
    · rw [(waits attempt mem).unanswered] at given
      cases given
    · obtain ⟨only, replies, right⟩ := replied attempt mem
      rw [replies] at given
      rw [List.mem_singleton.mp given]
      exact right

theorem sound_empty : ({} : Session).Sound where
  keyed := by
    intro encoded c found
    have absent : ({} : Session).service.tcp.connections[encoded]? = none :=
      ExtTreeMap.getElem?_empty
    rw [absent] at found
    cases found
  quiet := rfl
  asked := rfl
  attempts := ⟨none, [], rfl, rfl, by simp, by simp⟩

/-! ## One call -/

variable {attempt : Attempt}

theorem attemptOf_eq_some (started : s.attemptOf call = some attempt) :
    s.pendingConnect = none ∧ (s.step call).2 = [] ∧ (s.step call).1.tcp = (s.tcpStep call).1 ∧
      (s.step call).1.pendingConnect = some (attempt.handle, attempt.key) ∧
      responses (s.step call).1.pendingTx = responses s.pendingTx ∧
      attempt.Waits (s.step call).1.tcp := by
  unfold attemptOf at started
  split at started
  · rename_i handle addr
    split at started
    · rename_i opened
      cases started
      have free : s.pendingConnect = none := by
        by_contra waits
        have refused := s.connect_waiting handle addr (isSome_iff_ne_none.mpr waits)
        rw [handleSocketRequest, refused] at opened
        cases opened
      have absent : ¬(s.tcp.connGet (s.connectKey addr)).isSome := by
        intro taken
        rw [handleSocketRequest, connect_taken handle free taken] at opened
        cases opened
      obtain ⟨-, tcp, pending, queued⟩ := connect_opens handle free absent
      have called : s.tcpCall (.request (.connect handle addr)) =
          some (.connect (s.connectKey addr).1 addr) := by
        rw [tcpCall, if_neg (by simp [free])]
        rfl
      have inserted : s.tcp.step (.connect (s.connectKey addr).1 addr) = _ :=
        congrArg snd (if_neg absent)
      refine ⟨free, rfl, ?_, pending, queued, rfl, _, ?_,
        opening_opened (s.connectKey addr).1 addr s.tcp.nextIsn s.tcp.lastNow⟩
      · rw [tcpStep, called]
        exact tcp
      · change (s.connect handle addr).2.tcp.connGet _ = _
        rw [tcp]
        change (s.tcp.step (.connect (s.connectKey addr).1 addr)).1.connGet (s.connectKey addr) = _
        rw [inserted]
        dsimp only
        rw [TcpSocketTable.connGet_connInsert]
        exact if_pos rfl
    · cases started
  · cases started

variable {t : TcpSocketTable} {key : TcpConnectionKey} {tcpCall : TcpSocketTable.Call}

theorem resets_of_displaces (stays : t.displaces key tcpCall = false) :
    tcpCall.resets key = false := by
  cases tcpCall with
  | accept port => rfl
  | _ => exact stays

theorem resentBy_eq {c : TcpControlBlock} {event : Event} (follows : t.Follows key c tcpCall)
    (seen : t.eventAt key tcpCall = some event) : t.resentBy key tcpCall = c.resends event := by
  cases tcpCall with
  | tick now =>
    cases seen
    have outputs : TcpSocketTable.outputsFor key (t.tick now).2 = _ := follows.outputs
    rw [TcpSocketTable.resentBy, TcpSocketTable.sent, outputs]
    rfl
  | connect | listen | accept => cases seen
  | send | recv | close | handleSegment =>
    dsimp only [TcpSocketTable.eventAt] at seen
    split at seen <;> cases seen
    rfl

theorem fate (keyed : t.Keyed) (waits : attempt.Waits t)
    (stays : t.displaces attempt.key tcpCall = false) :
    TcpControlBlock.AfterOpening attempt.resent (t.resentBy attempt.key tcpCall)
      ((t.step tcpCall).1.connGet attempt.key)
      ((t.step tcpCall).2.findSome? (replyFor attempt.key)) := by
  obtain ⟨c, found, opening⟩ := waits.opening
  have state : c.state ≠ .synReceived := by
    rw [opening.state]
    decide
  have follows := TcpSocketTable.follows keyed found state stays
  rw [findSome?_replyFor, follows.outputs, follows.block]
  cases seen : t.eventAt attempt.key tcpCall with
  | none =>
    have idle : t.resentBy attempt.key tcpCall = 0 := by
      cases tcpCall with
      | tick now => cases seen
      | _ => rfl
    rw [idle]
    exact .waits rfl opening rfl
  | some event =>
    rw [resentBy_eq follows seen, ← keyed.key_eq found]
    refine opening.after event fun header payload now same => ?_
    obtain ⟨_, _, -, -, noReset⟩ := TcpSocketTable.eq_handleSegment_of_eventAt (same ▸ seen)
    exact noReset

/-- An attempt that waits goes on waiting or gets its reply, the right one. -/
theorem observe_step (keyed : s.tcp.Keyed) (waits : attempt.Waits s.tcp)
    (pending : s.pendingConnect = some (attempt.handle, attempt.key))
    (stays : ∀ tcpCall ∈ s.tcpCall call, s.tcp.displaces attempt.key tcpCall = false)
    (serves : s.Serves call) :
    ((s.step call).1.pendingConnect = some (attempt.handle, attempt.key) ∧
      (attempt.observe s call (s.step call).1 (responses (s.step call).2)).Waits
        (s.step call).1.tcp) ∨
    ((s.step call).1.pendingConnect = none ∧
      (attempt.observe s call (s.step call).1 (responses (s.step call).2)).Answered) := by
  have noReset : (s.tcpCall call).any (fun tcpCall => tcpCall.resets attempt.key) = false := by
    cases called : s.tcpCall call with
    | none => rfl
    | some tcpCall => exact resets_of_displaces (stays tcpCall called)
  have became : TcpControlBlock.AfterOpening attempt.resent (s.resentBy attempt.key call)
      ((s.tcpStep call).1.connGet attempt.key)
      ((s.tcpStep call).2.findSome? (replyFor attempt.key)) := by
    unfold resentBy tcpStep
    cases called : s.tcpCall call with
    | none =>
      obtain ⟨c, found, opening⟩ := waits.opening
      exact .waits found opening rfl
    | some tcpCall => exact fate keyed waits (stays tcpCall called)
  have after := serves.pending
  have replies := serves.replies
  rw [pending] at after replies
  dsimp only [settle] at after replies
  cases became with
  | waits found opening silent =>
    rw [silent] at after replies
    refine .inl ⟨after, ?_, _, ?_, opening⟩
    · rw [Attempt.observe, replies]
      simp [waits.unanswered]
    · rw [serves.tcp]
      exact found
  | connected found established reply =>
    rw [reply] at after replies
    refine .inr ⟨after, ⟨.ok 0, true, false, attempt.resent⟩, ?_, ?_⟩
    · simp only [Attempt.observe, replies, waits.unanswered, noReset, serves.tcp, found]
      simp [established]
    · exact ⟨by simp, by simp, by simp, by simp⟩
  | gaveUp removed exhausted reply =>
    rw [reply] at after replies
    refine .inr ⟨after, ⟨.error .timedOut, false, false, attempt.resent⟩, ?_, ?_⟩
    · simp only [Attempt.observe, replies, waits.unanswered, noReset, serves.tcp, removed]
      simp
    · exact ⟨by simp, by simp, fun _ => exhausted, by simp⟩

theorem keyed_tcpStep (keyed : s.tcp.Keyed) (call : Call) : (s.tcpStep call).1.Keyed := by
  rw [tcpStep]
  cases s.tcpCall call with
  | none => exact keyed
  | some tcpCall => exact keyed.step tcpCall

theorem Session.Sound.next (sound : session.Sound) {call : Call}
    (undisturbed : Undisturbed session call) : (session.next call).Sound := by
  obtain ⟨waiting, answered, split, pending, waits, replied⟩ := sound.attempts
  cases started : session.service.attemptOf call with
  | some attempt =>
    obtain ⟨free, silent, tcp, after, queued, opening⟩ := attemptOf_eq_some started
    have none : waiting = none := by simpa [free] using pending.symm
    subst none
    refine ⟨?_, ?_, ?_, some attempt, answered, ?_, after, ?_, replied⟩
    · change (session.service.step call).1.tcp.Keyed
      rw [tcp]
      exact keyed_tcpStep sound.keyed call
    · exact queued.trans sound.quiet
    · simp [Session.next, sound.asked, free, silent, responses]
    · simp [Session.next, started, free, split]
    · intro other mem
      cases mem
      exact opening
  | none =>
    have serves := serves sound.quiet call fun handle addr same opened => by
      rw [same, attemptOf, handleSocketRequest, if_pos opened] at started
      cases started
    have keyed : (session.service.step call).1.tcp.Keyed := by
      rw [serves.tcp]
      exact keyed_tcpStep sound.keyed call
    cases waiting with
    | none =>
      have free : session.service.pendingConnect = none := pending
      have after := serves.pending
      have silent := serves.replies
      rw [free] at after silent
      refine ⟨keyed, serves.queued, ?_, none, answered, ?_, after, by simp, replied⟩
      · simp [Session.next, sound.asked, free, silent, settle]
      · simp [Session.next, started, free, split]
    | some attempt =>
      have pending : session.service.pendingConnect = some (attempt.handle, attempt.key) := pending
      have attempts : (session.next call).attempts =
          attempt.observe session.service call (session.service.step call).1
            (responses (session.service.step call).2) :: answered := by
        simp [Session.next, started, pending, split]
      have asked : (session.next call).unasked = [] := by
        simp [Session.next, sound.asked, pending]
      rcases observe_step sound.keyed (waits attempt rfl) pending
        (undisturbed _ pending) serves with ⟨after, still⟩ | ⟨after, done⟩
      · refine ⟨keyed, serves.queued, asked, some _, answered, attempts, after, ?_, replied⟩
        intro other mem
        cases mem
        exact still
      · refine ⟨keyed, serves.queued, asked, none, _ :: answered, attempts, after, by simp, ?_⟩
        intro other mem
        rcases List.mem_cons.mp mem with rfl | mem
        · exact done
        · exact replied other mem

/-- The local endpoint of the first `Connect` of a host. -/
def caller : SocketApiAddr := ⟨host.ip, ephemeralPortStart⟩

end NetworkService

end NexaCore.Net
