import Stella.Conversation.Socket.Collect
import Stella.Conversation.Socket.Repair

/-! # A known hole is never abandoned

On a live connection a client that knows rows are missing has its grace timer armed or a gap
request outstanding.
-/

namespace Stella.Conversation

open Gapless Transition

namespace ConversationSocket

/-- The current WebSocket is open, has delivered `ready`, and the status says live. -/
def Watched (s : ConversationSocket) : Prop :=
  s.status = .live ∧ ∃ id, s.socket = some ⟨id, .open⟩ ∧ ReadyOn id s.trace

def HoleKnown (s : ConversationSocket) : Prop := s.ahead ≠ [] ∨ s.lastSeq < s.headSeq

def Repairing (s : ConversationSocket) : Prop :=
  s.resumeTimer = true ∨ ∃ id n, s.socket = some ⟨id, .open⟩ ∧ Outstanding id (.gap n) s.trace

def Attended (s : ConversationSocket) : Prop := s.Watched → s.HoleKnown → s.Repairing

/-- A pending gap request is outstanding on the current WebSocket, scrollback requests carry
scrollback ids, and nothing was read from a WebSocket before it opened. -/
structure Linked (s : ConversationSocket) : Prop where
  gap : s.gapPending = true → ∃ ws n, s.socket = some ws ∧ Outstanding ws.id (.gap n) s.trace
  keys : ∀ p ∈ s.olderRequests, ∃ n, p.1 = .older n
  current : ∀ ws, s.socket = some ws →
    ws.id < s.created ∧ (ws.readyState = .connecting → ¬ ReadyOn ws.id s.trace)
  past : ∀ id, ReadyOn id s.trace → id < s.created

namespace Linked

variable {s t : ConversationSocket}

section

variable (h : Linked s)
include h

theorem extend (hSock : t.socket = s.socket) (hCreated : t.created = s.created)
    (hGap : t.gapPending = s.gapPending) (hKeys : ∀ p ∈ t.olderRequests, ∃ n, p.1 = .older n)
    (hTrace : ∃ obs, t.trace = obs ++ s.trace ∧ ∀ o ∈ obs, o.isReceived = false) : Linked t := by
  obtain ⟨obs, hObs, hNone⟩ := hTrace
  have hReady : ∀ {id}, ReadyOn id t.trace → ReadyOn id s.trace := fun hOn => readyOn_append hNone (hObs ▸ hOn)
  refine ⟨fun hPend => ?_, hKeys, fun ws hWs => ?_, fun id hOn => hCreated ▸ h.past id (hReady hOn)⟩
  · obtain ⟨ws, n, hWs, hOut⟩ := h.gap (hGap ▸ hPend)
    refine ⟨ws, n, hSock.trans hWs, ?_⟩
    rw [hObs]
    exact outstanding_append (fun o ho => o.answers_of_not_received (hNone o ho) _ _) hOut
  · obtain ⟨hId, hFresh⟩ := h.current ws (hSock.symm.trans hWs)
    exact ⟨hCreated ▸ hId, fun hSt hOn => hFresh hSt (hReady hOn)⟩

theorem calm (hCalm : Calm s t) : Linked t :=
  h.extend hCalm.socket hCalm.created hCalm.gapPending (hCalm.olderRequests ▸ h.keys) hCalm.trace

theorem of_eq (hSock : t.socket = s.socket) (hCreated : t.created = s.created)
    (hGap : t.gapPending = s.gapPending) (hOlder : t.olderRequests = s.olderRequests)
    (hTrace : t.trace = s.trace) : Linked t :=
  h.extend hSock hCreated hGap (hOlder ▸ h.keys) ⟨[], hTrace, by simp⟩

theorem settled : Linked { s with gapPending := false } :=
  ⟨fun hPend => (by cases hPend), h.keys, h.current, h.past⟩

theorem dropped (hSock : t.socket = none) (hCreated : t.created = s.created)
    (hGap : t.gapPending = false) (hKeys : ∀ p ∈ t.olderRequests, ∃ n, p.1 = .older n)
    (hTrace : t.trace = s.trace) : Linked t :=
  ⟨fun hPend => absurd hPend (by simp [hGap]), hKeys, fun ws hWs => absurd hWs (by simp [hSock]),
    fun id hOn => hCreated ▸ h.past id (hTrace ▸ hOn)⟩

theorem forceReconnect (hGap : s.gapPending = false) : Linked s.forceReconnect := by
  have hDrop : Linked { s with socket := none }.clearTimers := h.dropped rfl rfl hGap h.keys rfl
  unfold ConversationSocket.forceReconnect
  dsimp only
  split
  · exact hDrop.calm (calm_connect _)
  · exact hDrop

theorem resetStream (reason : ResetReason) : Linked (s.resetStream reason) :=
  h.settled.extend rfl rfl rfl (fun _ hp => nomatch hp) ⟨[_], rfl, by simp [Observation.isReceived]⟩

theorem requestGap (env : Env) (throughSeq : Int) : Linked (s.requestGap env throughSeq).1 := by
  rcases requestGap_cases env s throughSeq with ⟨hEq, _⟩ | ⟨t, hEq, hCalm, _⟩ | ⟨t, ws, n, hEq, hCalm, hSock, hOut⟩
  · rw [hEq]
    exact h
  · rw [hEq]
    exact h.calm hCalm
  · rw [hEq]
    have ht := h.calm hCalm
    exact ⟨fun _ => ⟨ws, n, hCalm.socket.trans hSock, hOut⟩, ht.keys, ht.current, ht.past⟩

theorem anchored : Linked s.anchored := by
  unfold ConversationSocket.anchored
  split
  · exact h.of_eq rfl rfl rfl rfl rfl
  · exact h

theorem collect (env : Env) (applied : List JournalRecord) (record : JournalRecord) :
    Linked (s.collect env applied record).1 := by
  unfold ConversationSocket.collect
  dsimp only
  split
  · exact h.anchored
  · split
    · split
      · exact (h.anchored.resetStream .window).forceReconnect rfl
      · exact requestGap (s := s.anchored.buffer record) (h.anchored.of_eq rfl rfl rfl rfl rfl) env _
    · exact h.anchored.of_eq rfl rfl rfl rfl rfl

theorem collectAll (env : Env) (applied records : List JournalRecord) :
    Linked (s.collectAll env applied records).1 := by
  induction records generalizing s applied with
  | nil => exact h
  | cons record rest ih => exact ih (h.collect env applied record) _

theorem flush (applied : List JournalRecord) : Linked (s.flush applied) := by
  unfold ConversationSocket.flush
  split
  · exact h
  · exact h.extend rfl rfl rfl h.keys ⟨[_], rfl, by simp [Observation.isReceived]⟩

theorem setStatus (status : SocketStatus) (message : Option String) (retryable : Bool) :
    Linked (s.setStatus status message retryable) := by
  unfold ConversationSocket.setStatus
  split
  · exact h
  · exact h.extend rfl rfl rfl h.keys ⟨[_], rfl, by simp [Observation.isReceived]⟩

theorem failGapRecovery : Linked s.failGapRecovery := by
  have hGone : Linked { { s with socket := none, stopped := true }.clearTimers with gapPending := false } :=
    h.dropped rfl rfl rfl h.keys rfl
  exact hGone.setStatus _ _ _

theorem settleReply (env : Env) (before toSeq : Int) : Linked (s.settleReply env before toSeq) := by
  have hNoted : Linked (s.noteProgress before) := h.of_eq rfl rfl rfl rfl rfl
  unfold ConversationSocket.settleReply
  split
  · exact h.of_eq rfl rfl rfl rfl rfl
  · split
    · exact hNoted.failGapRecovery
    · unfold ConversationSocket.repairOrFail
      dsimp only
      split
      · exact hNoted
      · split
        · exact hNoted.requestGap env _
        · exact (hNoted.requestGap env _).failGapRecovery

theorem openStream (ready : ReadyFrame) : Linked (s.openStream ready) := by
  unfold ConversationSocket.openStream
  split
  · exact (h.resetStream .window).forceReconnect rfl
  · exact ((h.calm (.observe s rfl)).setStatus _ _ _).of_eq rfl rfl rfl rfl rfl

theorem adopted (env : Env) (ready : ReadyFrame) : Linked (s.adopted env ready) := by
  unfold ConversationSocket.adopted learnReauthPeriod
  dsimp only
  split <;> exact h.of_eq rfl rfl rfl rfl rfl

theorem receive (env : Env) {id : Nat} (hSock : s.socket = some ⟨id, .open⟩) (frame : ServerFrame)
    (hFrame : s.gapPending = true → ∀ reply, frame = .backfill reply → ∃ n, reply.requestId = .older n) :
    Linked (s.receive env id frame) := by
  refine ⟨fun hPend => ?_, h.keys, fun ws hWs => ?_, fun other hOn => ?_⟩
  · obtain ⟨ws, n, hWs, hOut⟩ := h.gap hPend
    refine ⟨ws, n, hWs, .inr ⟨?_, hOut⟩⟩
    cases frame with
    | backfill reply =>
      obtain ⟨m, hOlder⟩ := hFrame hPend reply rfl
      simp [Observation.answers, hOlder]
    | _ => rfl
  · obtain rfl : ws = ⟨id, .open⟩ := Option.some.inj ((show s.socket = some ws from hWs).symm.trans hSock)
    exact ⟨(h.current _ hSock).1, fun hSt => (by cases hSt)⟩
  · obtain ⟨ready, hMem⟩ := hOn
    rcases List.mem_cons.mp hMem with hEq | hMem
    · cases hEq
      exact (h.current _ hSock).1
    · exact h.past other ⟨ready, hMem⟩

end

end Linked

theorem attended_of_closed {s : ConversationSocket} (h : s.isOpen = false) : Attended s := by
  rintro ⟨-, id, hSock, -⟩
  simp [isOpen, hSock] at h

theorem Linked.attended {s : ConversationSocket} (h : Linked s) (hPend : s.gapPending = true) : Attended s := by
  rintro ⟨-, id, hSock, -⟩ -
  obtain ⟨ws, n, hWs, hOut⟩ := h.gap hPend
  obtain rfl : ws = ⟨id, .open⟩ := Option.some.inj (hWs.symm.trans hSock)
  exact .inr ⟨id, n, hSock, hOut⟩

section

variable (s : ConversationSocket)

theorem isOpen_forceReconnect : s.forceReconnect.isOpen = false := by
  have hDrop : isOpen { s with socket := none }.clearTimers = false := rfl
  unfold forceReconnect
  dsimp only
  split
  · rw [(calm_connect _).isOpen]
    exact hDrop
  · exact hDrop

theorem isOpen_setStatus (status : SocketStatus) (message : Option String)
    (retryable : Bool) : (s.setStatus status message retryable).isOpen = s.isOpen := by
  unfold setStatus
  split <;> rfl

theorem isOpen_failGapRecovery : s.failGapRecovery.isOpen = false := by
  unfold failGapRecovery
  rw [isOpen_setStatus]
  rfl

end

namespace Attended

variable {s t : ConversationSocket}

theorem calm (h : Attended s) (hCalm : Calm s t) : Attended t := by
  rintro ⟨hLive, id, hSock, hOn⟩ hHole
  obtain ⟨obs, hObs, hNone⟩ := hCalm.trace
  have hSock' : s.socket = some ⟨id, .open⟩ := hCalm.socket.symm.trans hSock
  have hOpen : s.isOpen = true := by simp [isOpen, hSock']
  have hHole' : s.HoleKnown := by
    rw [HoleKnown, hCalm.ahead, hCalm.lastSeq, hCalm.headSeq] at hHole
    exact hHole
  rcases h ⟨hCalm.status hLive, id, hSock', readyOn_append hNone (hObs ▸ hOn)⟩ hHole' with
    hTimer | ⟨ws, n, hWs, hOut⟩
  · exact .inl ((hCalm.timer hOpen).trans hTimer)
  · refine .inr ⟨ws, n, hCalm.socket.trans hWs, ?_⟩
    rw [hObs]
    exact outstanding_append (fun o ho => o.answers_of_not_received (hNone o ho) _ _) hOut

theorem receive (h : Attended s) (env : Env) (id : Nat) (frame : ServerFrame)
    (hReady : ∀ ready, frame ≠ .ready ready)
    (hReply : ∀ reply, frame = .backfill reply → ∃ n, reply.requestId = .older n) :
    Attended (s.receive env id frame) := by
  rintro ⟨hLive, ws, hSock, ready, hMem⟩ hHole
  have hOn : ReadyOn ws s.trace := by
    rcases List.mem_cons.mp hMem with hEq | hMem
    · cases hEq
      exact absurd rfl (hReady ready)
    · exact ⟨ready, hMem⟩
  rcases h ⟨hLive, ws, hSock, hOn⟩ hHole with hTimer | ⟨other, n, hOther, hOut⟩
  · exact .inl hTimer
  · refine .inr ⟨other, n, hOther, .inr ⟨?_, hOut⟩⟩
    cases frame with
    | backfill reply =>
      obtain ⟨m, hOlder⟩ := hReply reply rfl
      simp [Observation.answers, hOlder]
    | _ => rfl

theorem of_timer (h : s.HoleKnown → s.resumeTimer = true) : Attended s := fun _ hHole => .inl (h hHole)

theorem armed (h : s.HoleKnown → 0 ≤ s.headSeq ∧ s.lastSeq < s.headSeq) : Attended s.armResumeGrace := by
  refine of_timer (fun hHole => ?_)
  obtain ⟨hHead, hBelow⟩ := h hHole
  simp only [armResumeGrace, Bool.not_eq_true', Bool.or_eq_false_iff]
  exact ⟨decide_eq_false (by omega), decide_eq_false (by omega)⟩

theorem flush {applied : List JournalRecord} (hNonneg : 0 ≤ s.lastSeq)
    (hRest : s.ahead = [] ∨ s.lastSeq < s.headSeq) (hSome : applied.isEmpty = false) :
    Attended (s.flush applied) := by
  unfold ConversationSocket.flush
  rw [if_neg (by simp [hSome])]
  refine armed (fun hHole => ?_)
  change 0 ≤ max s.headSeq s.lastSeq ∧ s.lastSeq < max s.headSeq s.lastSeq
  rcases hHole with hBuffered | hBelow
  · rcases hRest with hNone | hBelow
    · exact absurd hNone hBuffered
    · omega
  · have : s.lastSeq < max s.headSeq s.lastSeq := hBelow
    omega

end Attended

/-- A record that cannot be placed leaves a hole nothing attends to: it is buffered and its gap is
not asked for, or it is placed at the head while records stay buffered. -/
def RecordLeavesHole (env : Env) (s : ConversationSocket) (record : JournalRecord) : Prop :=
  s.gapPending = false ∧
    ((s.anchored.lastSeq + 1 < record.position ∧ s.ahead.length < maxBufferedAhead ∧ s.resumeTimer = false ∧
        ¬ ((s.takeBudget env 0).2 = true ∧ CanSend env s.nextRequest)) ∨
      (record.position = s.anchored.lastSeq + 1 ∧
        (drainAhead s.ahead.length record.position s.ahead [record]).2.1 ≠ [] ∧
        s.headSeq ≤ (drainAhead s.ahead.length record.position s.ahead [record]).1))

/-- A reply that counts as resolved leaves a hole nothing attends to: it placed records and others
stay buffered at or above the head, or it placed none and no timer is armed. -/
def ReplyLeavesHole (env : Env) (s : ConversationSocket) (frame : BackfillFrame) : Prop :=
  let placed := { s with gapPending := false }.collectAll env [] frame.records
  placed.1.isOpen = true ∧ placed.1.gapPending = false ∧ placed.1.throughSeq frame.toSeq ≤ placed.1.lastSeq ∧
    if placed.2.isEmpty then placed.1.HoleKnown ∧ placed.1.resumeTimer = false
    else placed.1.ahead ≠ [] ∧ placed.1.headSeq ≤ placed.1.lastSeq

/-- A `ready` that keeps the stream finds records buffered above the head it names. -/
def ReadyLeavesHole (s : ConversationSocket) (ready : ReadyFrame) : Prop :=
  s.epochChanged ready = false ∧ s.unbridgeable ready = false ∧ s.tooFarBehind ready = false ∧
    s.gapPending = false ∧
    ((s.ahead ≠ [] ∧ ready.headSeq ≤ s.lastSeq) ∨ (s.lastSeq < ready.headSeq ∧ ready.headSeq < 0))

/-- The condition on one step: a WebSocket goes away without `onclose` only while no gap request is
pending, the grace timer asks for the hole it finds, and no frame leaves one unattended. -/
def MindsHole (s : ConversationSocket) : Env × Input → Prop
  | (_, .stop) => s.gapPending = false
  | (env, .wake) => PingFails env s → s.gapPending = false
  | (_, .token token constructorThrows) => Replaces s token constructorThrows → s.gapPending = false
  | (_, .probeTimer) => s.probeTimer = some s.lastFrameAtMs → s.gapPending = false
  | (env, .resumeTimer) => s.resumeTimer = true →
    (s.isOpen = true → s.HoleKnown → s.gapPending = true ∨ ResumeAsks env s) ∧
      (ResumeAsks env s → CanSend env s.nextRequest)
  | (env, .message (some frame)) => ∀ id, s.socket = some ⟨id, .open⟩ →
    match frame with
    | .ready ready => ¬ ReadyLeavesHole s ready
    | .record record => ¬ RecordLeavesHole env s record
    | .backfill reply => s.olderRequestOf reply.requestId = none →
      ¬ ReplyLeavesHole env (s.receive env id (.backfill reply)) reply
    | .reset _ => 0 ≤ s.headSeq → s.resumeTimer = true ∨ s.gapPending = true
    | _ => True
  | _ => True

section

variable (s : ConversationSocket)

theorem anchored_lastSeq :
    s.anchored.lastSeq = if s.lastSeq < 0 then s.windowStartSeq - 1 else s.lastSeq := by
  unfold anchored
  split <;> rfl

theorem anchored_gapPending : s.anchored.gapPending = s.gapPending := by
  unfold anchored
  split <;> rfl

theorem anchored_headSeq : s.anchored.headSeq = s.headSeq := by
  unfold anchored
  split <;> rfl

theorem anchored_asks (env : Env) :
    ((s.anchored.takeBudget env 0).2 = true ∧ CanSend env s.anchored.nextRequest) ↔
      ((s.takeBudget env 0).2 = true ∧ CanSend env s.nextRequest) := by
  unfold anchored
  split <;> rfl

theorem anchored_resumeTimer : s.anchored.resumeTimer = s.resumeTimer := by
  unfold anchored
  split <;> rfl

end

theorem recordLeavesHole_receive (env : Env) (s : ConversationSocket) (id : Nat) (frame : ServerFrame)
    (record : JournalRecord) :
    RecordLeavesHole env (s.receive env id frame) record ↔ RecordLeavesHole env s record := by
  unfold RecordLeavesHole
  rw [anchored_lastSeq, anchored_lastSeq]
  exact Iff.rfl

def Placed (s : ConversationSocket) (applied : List JournalRecord) : Prop :=
  s.isOpen = true → applied.isEmpty = false → 0 ≤ s.lastSeq

theorem requestGap_isOpen (env : Env) (s : ConversationSocket) (throughSeq : Int) :
    (s.requestGap env throughSeq).1.isOpen = s.isOpen := by
  rcases requestGap_cases env s throughSeq with ⟨hEq, _⟩ | ⟨t, hEq, hCalm, _⟩ | ⟨t, ws, n, hEq, hCalm, _⟩
  · rw [hEq]
  · rw [hEq, hCalm.isOpen]
  · rw [hEq]
    exact hCalm.isOpen

theorem requestGap_lastSeq (env : Env) (s : ConversationSocket) (throughSeq : Int) :
    (s.requestGap env throughSeq).1.lastSeq = s.lastSeq := by
  rcases requestGap_cases env s throughSeq with ⟨hEq, _⟩ | ⟨t, hEq, hCalm, _⟩ | ⟨t, ws, n, hEq, hCalm, _⟩
  · rw [hEq]
  · rw [hEq, hCalm.lastSeq]
  · rw [hEq]
    exact hCalm.lastSeq

section

variable (s : ConversationSocket)

theorem flush_gapPending (applied : List JournalRecord) :
    (s.flush applied).gapPending = s.gapPending := by
  unfold flush
  split <;> rfl

theorem flush_lastSeq (applied : List JournalRecord) :
    (s.flush applied).lastSeq = s.lastSeq := by
  unfold flush
  split <;> rfl

theorem flush_throughSeq (applied : List JournalRecord) (toSeq : Int) :
    (s.flush applied).throughSeq toSeq = s.throughSeq toSeq := by
  unfold flush
  split <;> rfl

theorem flush_isOpen (applied : List JournalRecord) :
    (s.flush applied).isOpen = s.isOpen := by
  unfold flush
  split <;> rfl

theorem anchored_isOpen : s.anchored.isOpen = s.isOpen := by
  unfold anchored
  split <;> rfl

end

namespace Placed

variable {s : ConversationSocket} {applied : List JournalRecord}

section

variable (h : Placed s applied)
include h

theorem anchored : Placed s.anchored applied := by
  intro hOpen hSome
  have hNonneg := h (s.anchored_isOpen ▸ hOpen) hSome
  unfold ConversationSocket.anchored
  rwa [if_neg (by omega)]

theorem collect (env : Env) (record : JournalRecord) :
    Placed (s.collect env applied record).1 (s.collect env applied record).2 := by
  by_cases hOver : s.Overflows record
  · rw [collect_overflow env s applied hOver]
    exact fun hOpen => absurd hOpen (by simp [isOpen_forceReconnect])
  · rcases Int.lt_trichotomy record.position (s.anchored.lastSeq + 1) with hLt | hEq | hGt
    · rw [collect_stale env s applied (by omega)]
      exact h.anchored
    · rw [collect_next env s applied hEq]
      intro _ _
      obtain ⟨more, -, -, hLast, -⟩ :=
        drainAhead_spec s.anchored.ahead.length record.position s.anchored.ahead (applied ++ [record])
      have := record.position_nonneg
      rw [moveTo_lastSeq]
      omega
    · rw [collect_ahead env s applied hGt hOver]
      intro hOpen hSome
      rw [requestGap_isOpen] at hOpen
      rw [requestGap_lastSeq]
      exact h.anchored hOpen hSome

theorem collectAll (env : Env) (records : List JournalRecord) :
    Placed (s.collectAll env applied records).1 (s.collectAll env applied records).2 := by
  induction records generalizing s applied with
  | nil => exact h
  | cons record rest ih => exact ih (h.collect env record)

end

end Placed

namespace Attended

variable {s t : ConversationSocket}

theorem anchored (h : Attended s) (record : JournalRecord) (hStale : record.position ≤ s.anchored.lastSeq) :
    Attended s.anchored := by
  have := record.position_nonneg
  unfold ConversationSocket.anchored at hStale ⊢
  split
  · rename_i hNeg
    rw [if_pos hNeg] at hStale
    dsimp only at hStale
    refine fun hWatched hHole => h hWatched ?_
    rcases hHole with hBuffered | hBelow
    · exact .inl hBuffered
    · exact .inr (by dsimp only at hBelow; omega)
  · exact h

theorem applyRecord (h : Attended s) (hLinked : Linked s) (env : Env) {id : Nat}
    (hSock : s.socket = some ⟨id, .open⟩) {record : JournalRecord} (hMinds : ¬ RecordLeavesHole env s record) :
    Attended ((s.receive env id (.record record)).applyRecord env record) := by
  have hReceive := h.receive env id (.record record) (by simp) (by simp)
  have hLinked' := hLinked.receive env hSock (.record record) (by simp)
  generalize hEq : s.receive env id (.record record) = r at hReceive hLinked' ⊢
  have hMinds' : ¬ RecordLeavesHole env r record :=
    hEq ▸ fun hLeaves => hMinds ((recordLeavesHole_receive env s id _ record).mp hLeaves)
  have hOpen : r.isOpen = true := by
    rw [← hEq]
    simp [isOpen, ConversationSocket.receive, observe, hSock]
  unfold ConversationSocket.applyRecord
  by_cases hOver : r.Overflows record
  · rw [collect_overflow env r [] hOver]
    exact attended_of_closed (isOpen_forceReconnect _)
  · rcases Int.lt_trichotomy record.position (r.anchored.lastSeq + 1) with hLt | hNext | hGt
    · rw [collect_stale env r [] (by omega)]
      exact hReceive.anchored record (by omega)
    · have hLinkedNext := (hLinked'.collect env [] record).flush (r.collect env [] record).2
      rw [collect_next env r [] hNext, anchored_ahead] at hLinkedNext ⊢
      by_cases hPend : r.gapPending = true
      · refine hLinkedNext.attended ?_
        rw [flush_gapPending]
        exact r.anchored_gapPending.trans hPend
      · obtain ⟨more, hApplied, -, hLast, -⟩ := drainAhead_spec r.ahead.length record.position r.ahead ([] ++ [record])
        refine Attended.flush ?_ ?_ ?_
        · have := record.position_nonneg
          rw [moveTo_lastSeq]
          omega
        · rw [moveTo_ahead, moveTo_lastSeq, moveTo_headSeq, anchored_headSeq]
          by_contra hLeft
          rw [not_or] at hLeft
          exact hMinds' ⟨Bool.eq_false_iff.mpr hPend, .inr ⟨hNext, hLeft.1, Int.not_lt.mp hLeft.2⟩⟩
        · rw [hApplied]
          rfl
    · rw [collect_ahead env r [] hGt hOver]
      have hHeld : Linked (r.anchored.buffer record) :=
        hLinked'.anchored.of_eq rfl rfl rfl rfl rfl
      have hAsked := hHeld.requestGap env (record.position - 1)
      change Attended ((r.anchored.buffer record).requestGap env
        (record.position - 1)).1
      by_cases hPend : r.gapPending = true
      · have hHeldPending : (r.anchored.buffer record).gapPending = true := r.anchored_gapPending.trans hPend
        refine hAsked.attended ?_
        rw [requestGap_pending env _ hHeldPending]
        exact hHeldPending
      · rcases requestGap_cases env (r.anchored.buffer record) (record.position - 1) with
          ⟨-, hDone⟩ | ⟨t, hEq, hCalm, hRef⟩ | ⟨t, ws, n, hEq, -⟩
        · rcases hDone with hHeldPending | hReached
          · exact absurd (r.anchored_gapPending.symm.trans hHeldPending) hPend
          · have : (r.anchored.buffer record).lastSeq = r.anchored.lastSeq := rfl
            omega
        · refine of_timer (fun _ => ?_)
          rw [hEq, hCalm.timer (r.anchored_isOpen.trans hOpen)]
          change r.anchored.resumeTimer = true
          rw [anchored_resumeTimer]
          by_contra hTimer
          have hRoom : r.ahead.length < maxBufferedAhead := not_le.mp (fun hFull => hOver ⟨hGt, hFull⟩)
          refine hMinds' ⟨Bool.eq_false_iff.mpr hPend, .inl ⟨hGt, hRoom, Bool.eq_false_iff.mpr hTimer, ?_⟩⟩
          exact fun hAsks => hRef ((r.anchored_asks env).mpr hAsks)
        · rw [hEq] at hAsked ⊢
          exact hAsked.attended rfl

theorem settleReply (hLinked : Linked s) (env : Env) (before toSeq : Int)
    (hResolved : s.throughSeq toSeq ≤ s.lastSeq → Attended s) : Attended (s.settleReply env before toSeq) := by
  have hNoted : Linked (s.noteProgress before) := hLinked.of_eq rfl rfl rfl rfl rfl
  unfold ConversationSocket.settleReply
  split
  · rename_i hThrough
    exact hResolved hThrough
  · rename_i hShort
    split
    · exact attended_of_closed (isOpen_failGapRecovery _)
    · unfold ConversationSocket.repairOrFail
      dsimp only
      split
      · rename_i hPend
        exact hNoted.attended hPend
      · rename_i hPend
        have hAsked := hNoted.requestGap env (s.throughSeq toSeq)
        rcases requestGap_cases env (s.noteProgress before) (s.throughSeq toSeq) with
          ⟨-, hDone⟩ | ⟨t, hEq, -⟩ | ⟨t, ws, n, hEq, -⟩
        · rcases hDone with hHeldPending | hReached
          · exact absurd hHeldPending hPend
          · exact absurd hReached hShort
        · rw [hEq]
          exact attended_of_closed (isOpen_failGapRecovery _)
        · rw [hEq] at hAsked ⊢
          exact hAsked.attended rfl

theorem handleGapReply (hLinked : Linked s) (env : Env) {id : Nat} (hSock : s.socket = some ⟨id, .open⟩)
    {frame : BackfillFrame} (hMinds : ¬ ReplyLeavesHole env (s.receive env id (.backfill frame)) frame) :
    Attended ((s.receive env id (.backfill frame)).handleGapReply env frame) := by
  have hAnswered : Linked { s.receive env id (.backfill frame) with gapPending := false } :=
    hLinked.settled.receive env hSock (.backfill frame) (fun hPend => (by cases hPend))
  have hPlacedLinked := hAnswered.collectAll env [] frame.records
  have hNothing : Placed { s.receive env id (.backfill frame) with gapPending := false } [] :=
    fun _ hSome => by cases hSome
  have hPlaced := hNothing.collectAll env frame.records
  unfold ReplyLeavesHole at hMinds
  unfold ConversationSocket.handleGapReply placeReply
  dsimp only at hMinds ⊢
  generalize { s.receive env id (.backfill frame) with gapPending := false }.collectAll env [] frame.records = placed
    at hPlacedLinked hPlaced hMinds ⊢
  refine settleReply (hPlacedLinked.flush _) env _ _ (fun hThrough => ?_)
  rw [flush_throughSeq, flush_lastSeq] at hThrough
  by_cases hOpen : placed.1.isOpen = true
  · by_cases hPend : placed.1.gapPending = true
    · exact (hPlacedLinked.flush _).attended ((flush_gapPending _ _).trans hPend)
    · have hNone := fun hLeft => hMinds ⟨hOpen, Bool.eq_false_iff.mpr hPend, hThrough, hLeft⟩
      by_cases hEmpty : placed.2.isEmpty = true
      · rw [if_pos hEmpty] at hNone
        unfold ConversationSocket.flush
        rw [if_pos hEmpty]
        exact of_timer (fun hHole => by simpa using fun hTimer => hNone ⟨hHole, hTimer⟩)
      · rw [if_neg hEmpty] at hNone
        have hSome : placed.2.isEmpty = false := Bool.eq_false_iff.mpr hEmpty
        refine flush (hPlaced hOpen hSome) ?_ hSome
        by_contra hLeft
        rw [not_or] at hLeft
        exact hNone ⟨hLeft.1, Int.not_lt.mp hLeft.2⟩
  · exact attended_of_closed ((flush_isOpen _ _).trans (Bool.eq_false_iff.mpr hOpen))

end Attended

section SetStatus

variable (s : ConversationSocket) (status : SocketStatus) (message : Option String) (retryable : Bool)

@[simp] theorem setStatus_ahead : (s.setStatus status message retryable).ahead = s.ahead := by
  unfold setStatus
  split <;> rfl

@[simp] theorem setStatus_lastSeq : (s.setStatus status message retryable).lastSeq = s.lastSeq := by
  unfold setStatus
  split <;> rfl

@[simp] theorem setStatus_headSeq : (s.setStatus status message retryable).headSeq = s.headSeq := by
  unfold setStatus
  split <;> rfl

@[simp] theorem setStatus_gapPending : (s.setStatus status message retryable).gapPending = s.gapPending := by
  unfold setStatus
  split <;> rfl

end SetStatus

structure Watch (s : ConversationSocket) : Prop where
  linked : Linked s
  attended : Attended s

namespace Watch

variable {s t : ConversationSocket}

theorem calm (h : Watch s) (hCalm : Calm s t) : Watch t := ⟨h.linked.calm hCalm, h.attended.calm hCalm⟩

theorem withOlder (h : Watch s) {requests : List (RequestId × OlderRequest)}
    (hKeys : ∀ p ∈ requests, ∃ n, p.1 = .older n) : Watch { s with olderRequests := requests } :=
  ⟨⟨h.linked.gap, hKeys, h.linked.current, h.linked.past⟩, h.attended⟩

theorem addOlder (h : Watch s) (n : Nat) (request : OlderRequest) :
    Watch { s with olderRequests := s.olderRequests ++ [(.older n, request)] } :=
  h.withOlder fun p hp => by
    rcases List.mem_append.mp hp with hp | hp
    · exact h.linked.keys p hp
    · exact ⟨n, by rw [List.mem_singleton.mp hp]⟩

theorem dropped (h : Linked s) (hClosed : s.isOpen = false) : Watch s := ⟨h, attended_of_closed hClosed⟩

theorem openStream (h : Linked s) (ready : ReadyFrame)
    (hRest : s.tooFarBehind ready = false → s.gapPending = true ∨
      (s.HoleKnown → 0 ≤ s.headSeq ∧ s.lastSeq < s.headSeq)) : Watch (s.openStream ready) := by
  refine ⟨h.openStream ready, ?_⟩
  have hOpened := h.openStream ready
  unfold ConversationSocket.openStream at hOpened ⊢
  split
  · exact attended_of_closed (isOpen_forceReconnect _)
  · rename_i hNear
    rw [if_neg hNear] at hOpened
    rcases hRest (Bool.eq_false_iff.mpr hNear) with hPend | hBelow
    · exact hOpened.attended ((setStatus_gapPending _ _ _ _).trans hPend)
    · refine Attended.armed (fun hHole => ?_)
      rw [HoleKnown, setStatus_ahead, setStatus_lastSeq, setStatus_headSeq] at hHole
      rw [setStatus_lastSeq, setStatus_headSeq]
      exact hBelow hHole

theorem handleReady (h : Linked s) (env : Env) {ready : ReadyFrame} (hMinds : ¬ ReadyLeavesHole s ready) :
    Watch (s.handleReady env ready) := by
  have hAdopted := h.adopted env ready
  have hFields : (s.adopted env ready).lastSeq = s.lastSeq ∧ (s.adopted env ready).ahead = s.ahead ∧
      (s.adopted env ready).headSeq = ready.headSeq ∧ (s.adopted env ready).gapPending = s.gapPending := by
    unfold ConversationSocket.adopted learnReauthPeriod
    dsimp only
    split <;> exact ⟨rfl, rfl, rfl, rfl⟩
  obtain ⟨hLast, hAhead, hHead, hGap⟩ := hFields
  have hReset : ∀ reason, Watch (((s.adopted env ready).resetStream reason).openStream ready) := by
    refine fun reason => openStream (hAdopted.resetStream reason) ready (fun _ => .inr fun hHole => ?_)
    rcases hHole with hBuffered | hBelow
    · exact absurd rfl hBuffered
    · exact ⟨by have : (-1 : Int) < (s.adopted env ready).headSeq := hBelow
                change 0 ≤ (s.adopted env ready).headSeq
                omega, hBelow⟩
  unfold ConversationSocket.handleReady
  split
  · exact hReset .epoch
  · rename_i hEpoch
    split
    · exact hReset .window
    · rename_i hBridge
      refine openStream hAdopted ready (fun hNear => ?_)
      by_cases hPend : s.gapPending = true
      · exact .inl (hGap.trans hPend)
      · refine .inr fun hHole => ?_
        rw [HoleKnown, hAhead, hLast, hHead] at hHole
        rw [hLast, hHead]
        unfold tooFarBehind at hNear
        rw [hLast] at hNear
        have hNone := fun hLeft => hMinds
          ⟨Bool.eq_false_iff.mpr hEpoch, Bool.eq_false_iff.mpr hBridge, hNear, Bool.eq_false_iff.mpr hPend, hLeft⟩
        by_contra hOut
        rcases hHole with hBuffered | hBelow
        · by_cases hLow : ready.headSeq ≤ s.lastSeq
          · exact hNone (.inl ⟨hBuffered, hLow⟩)
          · exact hNone (.inr ⟨by omega, by omega⟩)
        · exact hNone (.inr ⟨hBelow, by omega⟩)

theorem receive (h : Watch s) (env : Env) {id : Nat} (hSock : s.socket = some ⟨id, .open⟩) (frame : ServerFrame)
    (hReady : ∀ ready, frame ≠ .ready ready)
    (hReply : ∀ reply, frame = .backfill reply → ∃ n, reply.requestId = .older n) :
    Watch (s.receive env id frame) :=
  ⟨h.linked.receive env hSock frame (fun _ => hReply), h.attended.receive env id frame hReady hReply⟩

theorem handleOlder (h : Watch s) (env : Env) (request : OlderRequest) (frame : BackfillFrame) :
    Watch (s.handleOlder env request frame) := by
  have hForgotten : Watch (s.forgetOlder frame.requestId) :=
    h.withOlder (fun p hp => h.linked.keys p (List.mem_filter.mp hp).1)
  have hNext := (hForgotten.calm (calm_nextRequest _)).calm (calm_takeBudget env 4 _)
  have hAns : ∀ t (event : ConversationSocketEvent), Watch t → Watch (t.onEvent event) :=
    fun t event ht => ht.calm (.observe t rfl)
  unfold ConversationSocket.handleOlder
  dsimp only
  split
  · split
    · exact hAns _ _ hNext
    · split
      · exact hAns _ _ (hNext.calm (calm_send env _ _))
      · exact (hNext.calm (calm_send env _ _)).addOlder _ _
  · exact hAns _ _ hForgotten

theorem requestOlderRange (h : Watch s) (env : Env) (fromSeq toSeq : Int) :
    Watch (s.requestOlderRange env fromSeq toSeq).1 := by
  have hTaken := h.calm (calm_takeBudget env 4 s)
  have hNext := hTaken.calm (calm_nextRequest _)
  unfold ConversationSocket.requestOlderRange
  dsimp only
  split
  · exact h
  · split
    · exact hTaken
    · split
      · exact hNext.calm (calm_send env _ _)
      · exact (hNext.calm (calm_send env _ _)).addOlder _ _

theorem resetStream (h : Linked s) {id : Nat} (hSock : s.socket = some ⟨id, .open⟩) (reason : ResetReason)
    (hMinds : 0 ≤ s.headSeq → s.resumeTimer = true ∨ s.gapPending = true) : Watch (s.resetStream reason) := by
  refine ⟨h.resetStream reason, fun _ hHole => ?_⟩
  have hBelow : (-1 : Int) < s.headSeq := hHole.resolve_left (fun hBuffered => hBuffered rfl)
  rcases hMinds (by omega) with hTimer | hPend
  · exact .inl hTimer
  · obtain ⟨ws, n, hWs, hOut⟩ := h.gap hPend
    obtain rfl : ws = ⟨id, .open⟩ := Option.some.inj (hWs.symm.trans hSock)
    exact .inr ⟨id, n, hSock, .inr ⟨rfl, hOut⟩⟩

section

variable (h : Watch s)
include h

theorem handleFrame (env : Env) {id : Nat} (hSock : s.socket = some ⟨id, .open⟩)
    {frame : ServerFrame} (hMinds : MindsHole s (env, .message (some frame))) :
    Watch ((s.receive env id frame).handleFrame env frame) := by
  have hMinds := hMinds id hSock
  cases frame with
  | ready ready =>
    exact handleReady (h.linked.receive env hSock (.ready ready) (by simp)) env hMinds
  | record record =>
    have hLinked := h.linked.receive env hSock (.record record) (by simp)
    exact ⟨(hLinked.collect env [] record).flush _, h.attended.applyRecord h.linked env hSock hMinds⟩
  | backfill reply =>
    change Watch ((s.receive env id (.backfill reply)).handleBackfill env reply)
    unfold ConversationSocket.handleBackfill
    split
    · rename_i request hReq
      obtain ⟨p, hFind, -⟩ := Option.map_eq_some_iff.mp hReq
      obtain ⟨n, hKey⟩ := h.linked.keys p (List.mem_of_find?_eq_some hFind)
      have hEq : p.1 = reply.requestId := by simpa using List.find?_some hFind
      refine (h.receive env hSock (.backfill reply) (by simp) ?_).handleOlder env request reply
      rintro other ⟨⟩
      exact ⟨n, hEq.symm.trans hKey⟩
    · rename_i hNone
      refine ⟨?_, Attended.handleGapReply h.linked env hSock (hMinds hNone)⟩
      have hAnswered : Linked { s.receive env id (.backfill reply) with gapPending := false } :=
        h.linked.settled.receive env hSock (.backfill reply) (fun hPend => (by cases hPend))
      exact ((hAnswered.collectAll env [] reply.records).flush _).settleReply env _ _
  | gap fromSeq toSeq =>
    exact (h.receive env hSock (.gap fromSeq toSeq) (by simp) (by simp)).calm (.observe _ rfl)
  | reset reason =>
    exact resetStream (h.linked.receive env hSock (.reset reason) (by simp)) hSock reason hMinds
  | tool frame => exact (h.receive env hSock (.tool frame) (by simp) (by simp)).calm (.observe _ rfl)
  | agents => exact (h.receive env hSock .agents (by simp) (by simp)).calm (.observe _ rfl)
  | authExpiring =>
    exact (h.receive env hSock .authExpiring (by simp) (by simp)).calm (calm_reauthenticate _)
  | error message retryable =>
    refine (h.receive env hSock (.error message retryable) (by simp) (by simp)).calm
      (calm_setStatus _ _ _ ?_)
    split
    · rename_i hLive
      exact fun _ => hLive
    · exact fun hOffline => by cases hOffline

theorem forceReconnect (hGap : s.gapPending = false) : Watch s.forceReconnect :=
  dropped (h.linked.forceReconnect hGap) (isOpen_forceReconnect s)

theorem wake (env : Env) (hPing : PingFails env s → s.gapPending = false) : Watch (s.wake env) := by
  have hReconnect : s.isOpen = false → Watch { s with attempt := 0 }.clearTimers.connect := fun hClosed =>
    (dropped (h.linked.of_eq (t := { s with attempt := 0 }.clearTimers) rfl rfl rfl rfl rfl) hClosed).calm
      (calm_connect _)
  unfold ConversationSocket.wake
  split
  · exact h
  · rename_i hStopped
    split
    · exact h
    · rename_i hConnecting
      split
      · rename_i ws hSock
        split
        · rename_i hClosed
          exact hReconnect (by simp [isOpen, hSock, hClosed])
        · rename_i hOpen
          split
          · exact h
          · rename_i hStale
            split
            · rename_i hThrows
              simp only [Bool.or_eq_true, not_or] at hConnecting
              exact h.forceReconnect (hPing ⟨by simpa using hStopped, Bool.eq_false_iff.mpr hConnecting.1,
                by simpa [isOpen, hSock] using hOpen, by omega, hThrows⟩)
            · exact h.calm ⟨rfl, rfl, rfl, rfl, rfl, rfl, rfl, rfl, fun _ => rfl, id, [.ping ws.id], rfl,
                by simp [Observation.isReceived]⟩
      · rename_i hNone
        exact hReconnect (by simp [isOpen, hNone])

theorem resumeGraceElapsed (env : Env)
    (hAsks : s.isOpen = true → s.HoleKnown → s.gapPending = true ∨ ResumeAsks env s)
    (hSends : ResumeAsks env s → CanSend env s.nextRequest) : Watch (s.resumeGraceElapsed env) := by
  have hFired : Linked s.disarmResume := h.linked.of_eq rfl rfl rfl rfl rfl
  -- no request is made: there is no hole, or one is pending already
  have hIdle : ∀ t : ConversationSocket, Linked t → t.socket = s.socket → t.ahead = s.ahead →
      t.lastSeq = s.lastSeq → t.headSeq = s.headSeq → t.gapPending = s.gapPending → ¬ ResumeAsks env s → Watch t := by
    intro t ht hSock hAhead hLast hHead hGap hNot
    refine ⟨ht, fun hWatched hHole => ?_⟩
    have ⟨_, id, hWs, _⟩ := hWatched
    have hOpen : s.isOpen = true := by simp [isOpen, ← hSock, hWs]
    rw [HoleKnown, hAhead, hLast, hHead] at hHole
    exact ht.attended (hGap.trans ((hAsks hOpen hHole).resolve_right hNot)) hWatched
      (by rw [HoleKnown, hAhead, hLast, hHead]; exact hHole)
  unfold ConversationSocket.resumeGraceElapsed
  dsimp only
  split
  · rename_i hReached
    exact hIdle _ hFired rfl rfl rfl rfl rfl (fun hAsk => absurd hAsk.1 (Int.not_lt.mpr hReached))
  · rename_i hBehind
    split
    · rename_i hPend
      exact ⟨hFired, hFired.attended hPend⟩
    · rename_i hPend
      split
      · rename_i hRng
        exact hIdle _ hFired rfl rfl rfl rfl rfl (fun hAsk => absurd hAsk.2.2.1 (Int.not_le.mpr hRng))
      · rename_i hRng
        have hTaken := hFired.calm (calm_takeBudget env 0 _)
        split
        · rename_i hRef
          refine hIdle _ hTaken rfl rfl rfl rfl rfl (fun hAsk => ?_)
          have hGranted : (s.disarmResume.takeBudget env 0).2 = true := hAsk.2.2.2
          simp [hGranted] at hRef
        · rename_i hGranted
          have hBudget : (s.disarmResume.takeBudget env 0).2 = true := by simpa using hGranted
          have hCan := hSends ⟨Int.not_le.mp hBehind, Bool.eq_false_iff.mpr hPend, Int.not_lt.mp hRng, hBudget⟩
          have hNext := hTaken.calm (calm_nextRequest _)
          rcases send_cases env (s.disarmResume.takeBudget env 0).1.markPending.nextRequest
              (.backfill (.gap (s.requestCounter + 1)) s.resumeRange.1 s.resumeRange.2) with
            ⟨-, hCannot⟩ | ⟨ws, hSock, -, -, hSend⟩
          · exact absurd hCan hCannot
          · have hObserved := hNext.calm (.observe _ (o := .sent ws.id
              (.backfill (.gap (s.requestCounter + 1)) s.resumeRange.1 s.resumeRange.2)) rfl)
            change Watch ((s.disarmResume.takeBudget env 0).1.markPending.nextRequest.send env
              (.backfill (.gap (s.requestCounter + 1)) s.resumeRange.1 s.resumeRange.2)).1
            rw [hSend]
            have hSent : Linked ((s.disarmResume.takeBudget env 0).1.markPending.nextRequest.observe
                (.sent ws.id (.backfill (.gap (s.requestCounter + 1)) s.resumeRange.1 s.resumeRange.2))) :=
              ⟨fun _ => ⟨ws, _, hSock, outstanding_sent _ _ _ _ _⟩, hObserved.keys, hObserved.current,
                hObserved.past⟩
            exact ⟨hSent, hSent.attended rfl⟩

theorem connectWithToken (env : Env) (token : Option String) (constructorThrows : Bool)
    (hReplaces : Replaces s token constructorThrows → s.gapPending = false) :
    Watch (s.connectWithToken env token constructorThrows) := by
  have hSettled : Watch { s with connecting := false } :=
    h.calm (.of_core rfl)
  unfold ConversationSocket.connectWithToken
  split
  · exact h
  · rename_i hConnecting
    split
    · exact hSettled
    · rename_i hStopped
      split
      · exact hSettled.calm (calm_scheduleReconnect _ _)
      · rename_i hTok
        split
        · exact hSettled.calm (calm_scheduleReconnect _ _)
        · rename_i hThrows
          have hGap := hReplaces ⟨by simpa using hConnecting, by simpa using hStopped, by simpa using hTok,
            by simpa using hThrows⟩
          -- the new WebSocket's number is one no frame was read under
          have hOld : ∀ {id} {o : Observation}, o.isReceived = false → ReadyOn id (o :: s.trace) → id < s.created :=
            fun hNone hOn => h.linked.past _ (@readyOn_append _ [_] _ (by simpa using hNone) hOn)
          refine dropped ⟨fun hPend => absurd (hGap.symm.trans hPend) (by simp), h.linked.keys, ?_, ?_⟩ rfl
          · rintro ws ⟨⟩
            exact ⟨Nat.lt_succ_self _, fun _ hOn => absurd (hOld rfl hOn) (lt_irrefl _)⟩
          · exact fun id hOn => Nat.lt_succ_of_lt (hOld rfl hOn)

theorem onOpen (env : Env) : Watch (s.onOpen env) := by
  unfold ConversationSocket.onOpen
  split
  · rename_i id hSock
    obtain ⟨hId, hFresh⟩ := h.linked.current _ hSock
    refine ⟨⟨fun hPend => ?_, h.linked.keys, ?_, h.linked.past⟩, ?_⟩
    · obtain ⟨ws, n, hWs, hOut⟩ := h.linked.gap hPend
      obtain rfl : ws = ⟨id, .connecting⟩ := Option.some.inj (hWs.symm.trans hSock)
      exact ⟨_, n, rfl, hOut⟩
    · rintro ws ⟨⟩
      exact ⟨hId, fun hSt => (by cases hSt)⟩
    · rintro ⟨-, ws, hWs, hOn⟩
      cases hWs
      exact absurd hOn (hFresh rfl)
  · exact h

theorem closing :
    Watch { s with socket := s.socket.map (fun ws => { ws with readyState := .closing }) } := by
  refine dropped ⟨fun hPend => ?_, h.linked.keys, fun ws hWs => ?_, h.linked.past⟩ ?_
  · obtain ⟨ws, n, hWs, hOut⟩ := h.linked.gap hPend
    exact ⟨{ ws with readyState := .closing }, n, by simp [hWs], hOut⟩
  · obtain ⟨old, hOld, rfl⟩ := Option.map_eq_some_iff.mp hWs
    exact ⟨(h.linked.current old hOld).1, fun hSt => (by cases hSt)⟩
  · cases s.socket <;> simp [isOpen]

theorem onClose (env : Env) (code : Nat) : Watch (s.onClose env code) := by
  unfold ConversationSocket.onClose
  split
  · have hForgotten : Linked ({ s with socket := none }.clearTimers.forgetConnection.settleBackoff env) :=
      h.linked.dropped rfl rfl rfl (fun _ hp => nomatch hp) rfl
    exact (dropped hForgotten rfl).calm (calm_settleClose _ code)
  · exact h

theorem step (stimulus : Env × Input) (hMinds : MindsHole s stimulus) : Watch (s.step stimulus) := by
  obtain ⟨env, input⟩ := stimulus
  cases input with
  | start => exact h.calm (calm_start s)
  | stop =>
    have hGone : Linked { { s with stopped := true }.clearTimers with socket := none } :=
      h.linked.dropped rfl rfl hMinds h.linked.keys rfl
    exact (dropped hGone rfl).calm (calm_setStatus _ _ _ (by simp))
  | retryNow => exact h.calm (calm_retryNow s)
  | requestOlder oldestHeldSeq =>
    change Watch (s.requestOlder env oldestHeldSeq).1
    unfold ConversationSocket.requestOlder
    dsimp only
    split
    · exact h
    · exact h.requestOlderRange env _ _
  | requestOlderRange fromSeq toSeq => exact h.requestOlderRange env fromSeq toSeq
  | cancelTurn turnId => exact h.calm (calm_send env s _)
  | wake => exact h.wake env hMinds
  | token token constructorThrows => exact h.connectWithToken env token constructorThrows hMinds
  | opened => exact h.onOpen env
  | closing => exact h.closing
  | message frame =>
    change Watch (s.onMessage env frame)
    unfold ConversationSocket.onMessage
    split
    · exact h
    · rename_i ws hSock
      split
      · exact h
      · rename_i hOpen
        obtain ⟨id, readyState⟩ := ws
        obtain rfl : readyState = .open := by simpa using hOpen
        cases frame with
        | none => exact h.calm (.of_core rfl)
        | some frame => exact h.handleFrame env hSock hMinds
  | closed code => exact h.onClose env code
  | reconnectTimer =>
    change Watch (if s.reconnectTimer then { s with reconnectTimer := false }.connect else s)
    split
    · have hFired : Watch { s with reconnectTimer := false } :=
        h.calm (.of_core rfl)
      exact hFired.calm (calm_connect _)
    · exact h
  | resumeTimer =>
    change Watch (if s.resumeTimer then s.resumeGraceElapsed env else s)
    split
    · rename_i hArmed
      obtain ⟨hAsks, hSends⟩ := hMinds hArmed
      exact h.resumeGraceElapsed env hAsks hSends
    · exact h
  | probeTimer =>
    unfold ConversationSocket.step
    dsimp only
    split
    · rename_i probedAt hProbe
      have hFired : Watch { s with probeTimer := none } :=
        h.calm (.of_core rfl)
      unfold ConversationSocket.probeElapsed
      dsimp only
      split
      · rename_i hSilent
        exact hFired.forceReconnect (hMinds (by rw [hProbe, hSilent]))
      · exact hFired
    · exact h
  | keepaliveTimer isActive =>
    change Watch (if s.keepaliveTimer then s.keepaliveElapsed env isActive else s)
    split
    · exact h.calm (calm_keepaliveElapsed env s isActive)
    · exact h
  | reauthTimer isActive =>
    change Watch (if s.reauthTimer then s.reauthElapsed isActive else s)
    split
    · exact h.calm (calm_reauthElapsed s isActive)
    · exact h
  | reauthToken token => exact h.calm (calm_reauthenticateWithToken env s token)

end

end Watch

theorem watch_create (initialCursor : Option ConversationSocketCursor) (now : Int) :
    Watch (create initialCursor now) := by
  have hFresh : ∀ t : ConversationSocket, t.socket = none → t.gapPending = false → t.olderRequests = [] →
      t.trace = [] → Watch t := by
    intro t hSock hGap hOlder hTrace
    refine .dropped ⟨fun hPend => absurd hPend (by simp [hGap]), by simp [hOlder], by simp [hSock], ?_⟩
      (by simp [isOpen, hSock])
    rintro id ⟨ready, hMem⟩
    simp [hTrace] at hMem
  unfold create
  split
  · exact hFresh _ rfl rfl rfl rfl
  · split <;> exact hFresh _ rfl rfl rfl rfl

def holeRun : List (Env × Input) :=
  connectWith 0 { epoch := 1, headSeq := 0, windowStartSeq := 0, floorSeq := 0 } ++
    [(⟨0, fun _ => false⟩, .message (some (.record (skippedRow 0)))),
      (⟨0, fun _ => false⟩, .message (some (.record (skippedRow 9))))]

def truncatedRun : List (Env × Input) :=
  holeRun ++ [(⟨0, fun _ => false⟩, .message (some (.backfill
    ⟨.gap 1, 1, 4, false, [skippedRow 1, skippedRow 2, skippedRow 3, skippedRow 4]⟩)))]

end ConversationSocket

end Stella.Conversation
