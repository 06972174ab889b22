import Stella.Conversation.Hub.Window
import Stella.Conversation.Socket.Follow

/-! # A resume, from the connect to the last row

A client with a cursor takes the frames of its connect one by one, then fires its grace timer or
takes the answer to a backfill, whichever is next.
-/

namespace Stella.Conversation

open Gapless Archive List

def Observation.request : Observation → Option (RequestId × Int × Int)
  | .sent _ (.backfill requestId fromSeq toSeq) => some (requestId, fromSeq, toSeq)
  | _ => none

def gained (before after : ConversationSocket) : List Observation :=
  after.trace.take (after.trace.length - before.trace.length)

theorem gained_append {before after : ConversationSocket} {added : List Observation}
    (h : after.trace = added ++ before.trace) : gained before after = added := by
  unfold gained
  rw [h, length_append, Nat.add_sub_cancel, take_left']
  rfl

structure Session where
  client : ConversationSocket
  pending : List (RequestId × Int × Int)

namespace Session

def input (session : Session) (now : Int) (input : ConversationSocket.Input) : Session :=
  let client := session.client.step (⟨now, fun _ => false⟩, input)
  ⟨client, session.pending ++ (gained session.client client).reverse.filterMap Observation.request⟩

def receive (session : Session) (now : Int) (frames : List ServerFrame) : Session :=
  frames.foldl (fun session frame => session.input now (.message (some frame))) session

def round (session : Session) (now : Int) (answer : RequestId × Int × Int → List ServerFrame) : Session :=
  match session.pending with
  | [] => session.input now .resumeTimer
  | request :: rest => { session with pending := rest }.receive now (answer request)

end Session

/-- A client, the connect it made, and what follows: round `n` happens at `clock n`, where a
backfill is read from the journals `serving n`, before and after its awaits. -/
structure Resume where
  client : ConversationSocket
  connect : Connect
  moments : Moments
  objects : SegmentRow → Option SegmentObject
  size : JournalRecord → Nat
  frames : List ServerFrame
  opened : Int
  clock : Nat → Int
  serving : Nat → Journal × Journal

namespace Resume

variable (r : Resume)

def answer (n : Nat) (request : RequestId × Int × Int) : List ServerFrame :=
  Hub.handleBackfill (r.serving n).1 (r.serving n).2 r.objects r.size request.1 request.2.1 request.2.2

def session : Nat → Session
  | 0 => (⟨r.client, []⟩ : Session).receive r.opened r.frames
  | n + 1 => (session n).round (r.clock n) (r.answer n)

/-- The journal whose head `upgrade` goes by: a conversation with no owner is bound first. -/
def headRead : Journal :=
  if r.moments.entered.ownerId = "" then
    (r.connect.lookup.join.bind fun record => r.moments.looked.bindOwner record r.connect.conversationId).getD
      r.moments.looked
  else r.moments.entered

/-- The head the client is told in `ready`. -/
def headSeq : Int := r.moments.accepted.head.headSeq

/-- A client whose cursor `s` can be resumed has its connect accepted, with neither a `reset` nor a
`gap`; in between and afterwards rows are committed. -/
structure Starts (s : Int) : Prop where
  cursor : Hub.Resumable r.moments.entered s
  whole : Whole r.moments.entered r.objects
  looked : r.moments.entered.Commits r.moments.looked
  opening : r.headRead.Commits r.moments.opening
  read : r.moments.opening.Commits r.moments.read
  accepted : r.moments.read.Commits r.moments.accepted
  serving : ∀ n, r.moments.accepted.Commits (r.serving n).1 ∧ (r.serving n).1.Commits (r.serving n).2
  since : r.connect.since = some s
  epoch : ∀ told ∈ r.connect.epoch, told = r.moments.entered.head.epoch
  frames : Hub.upgrade r.connect r.moments r.objects = .ok r.frames
  noReset : ∀ reason, .reset reason ∉ r.frames
  noGap : ∀ fromSeq toSeq, .gap fromSeq toSeq ∉ r.frames
  connected : ∃ id, r.client.socket = some ⟨id, .open⟩
  lastSeq : r.client.lastSeq = s
  told : r.client.epoch = r.connect.epoch
  ahead : r.client.ahead = []
  older : r.client.olderRequests = []
  idle : r.client.gapPending = false

/-- Nothing is reset, and in the end exactly the rows above `s` up to the head of `ready` were emitted,
each once and in order. -/
structure Delivers (s : Int) : Prop where
  window : s < r.headSeq → ∀ ready, .ready ready ∈ r.frames → ready.windowStartSeq ≤ s + 1
  noReset : ∀ n, neverReset (gained r.client (r.session n).client)
  ordered : ∀ n, RunFrom JournalRecord.position (s + 1) (emitted (gained r.client (r.session n).client))
  ends : ∃ n, ∀ m ≥ n, (emitted (gained r.client (r.session m).client)).length = r.headSeq - s

def Budgeted : Prop :=
  ∀ n, (r.session n).pending = [] → (r.session n).client.resumeTimer = true →
    ((r.session n).client.budget.take (r.clock n) 0).2 = true

end Resume

/-! ## One input -/

namespace Session

open ConversationSocket

theorem input_eq (session : Session) {now : Int} {input : ConversationSocket.Input}
    {client : ConversationSocket} {added : List Observation}
    (hStep : session.client.step (⟨now, fun _ => false⟩, input) = client)
    (hTrace : client.trace = added ++ session.client.trace) :
    session.input now input = ⟨client, session.pending ++ added.reverse.filterMap Observation.request⟩ := by
  unfold Session.input
  dsimp only
  rw [hStep, gained_append hTrace]

theorem step_message {s : ConversationSocket} {id : Nat} (hSock : s.socket = some ⟨id, .open⟩) (env : Env)
    (frame : ServerFrame) : s.step (env, .message (some frame)) = (s.receive env id frame).handleFrame env frame := by
  unfold step onMessage
  dsimp only
  rw [hSock]
  rfl

theorem step_resumeTimer {s : ConversationSocket} (h : s.resumeTimer = true) (env : Env) :
    s.step (env, .resumeTimer) = s.resumeGraceElapsed env := by
  unfold step
  dsimp only
  rw [if_pos h]

theorem input_idle {session : Session} (h : session.client.resumeTimer = false) (now : Int) :
    session.input now .resumeTimer = session := by
  have hStep : session.client.step (⟨now, fun _ => false⟩, .resumeTimer) = session.client := by
    unfold step
    dsimp only
    rw [if_neg (by rw [h]; exact Bool.false_ne_true)]
  rw [input_eq session hStep (nil_append _).symm]
  exact congrArg (Session.mk session.client) (append_nil _)

theorem receive_gone {session : Session} (h : session.client.socket = none) (now : Int) (frames : List ServerFrame) :
    session.receive now frames = session := by
  induction frames with
  | nil => rfl
  | cons frame rest ih =>
    have hStep : session.client.step (⟨now, fun _ => false⟩, .message (some frame)) = session.client := by
      unfold step onMessage
      dsimp only
      rw [h]
    have hInput : session.input now (.message (some frame)) = session := by
      rw [input_eq session hStep (nil_append _).symm]
      exact congrArg (Session.mk session.client) (append_nil _)
    unfold receive
    rw [foldl_cons, hInput]
    exact ih

end Session

/-! ## How far a client has come -/

namespace Resume

open ConversationSocket

/-- What a client emitted since `start` is the run from `s + 1` up to `d`. -/
def Told (start client : ConversationSocket) (s d : Int) : Prop :=
  ∃ added, client.trace = added ++ start.trace ∧ neverReset added ∧
    RunFrom JournalRecord.position (s + 1) (emitted added) ∧ (emitted added).length = d - s

namespace Told

variable {start client after : ConversationSocket} {s d : Int}

theorem refl (start : ConversationSocket) (s : Int) : Told start start s s :=
  ⟨[], rfl, fun _ h => absurd h not_mem_nil, trivial, by simp [emitted]⟩

theorem of_trace (h : Told start client s d) (hTrace : after.trace = client.trace) : Told start after s d := by
  unfold Told
  rw [hTrace]
  exact h

theorem silent (h : Told start client s d) {o : Observation} (hReset : o.isReset = false)
    (hEmitted : o.emittedRecords = []) (hTrace : after.trace = o :: client.trace) : Told start after s d := by
  obtain ⟨added, hAdded, hNever, hRun, hLen⟩ := h
  have hEq : emitted (o :: added) = emitted added := by
    rw [emitted, hEmitted, append_nil]
  refine ⟨o :: added, by rw [hTrace, hAdded]; rfl, (neverReset_cons o added).mpr ⟨hReset, hNever⟩, ?_, ?_⟩
  · rwa [hEq]
  · rwa [hEq]

theorem records (h : Told start client s d) (records : List JournalRecord)
    (hRecs : RunFrom JournalRecord.position (d + 1) records)
    (hTrace : after.trace = .event (.records records) :: client.trace) :
    Told start after s (d + records.length) := by
  obtain ⟨added, hAdded, hNever, hRun, hLen⟩ := h
  refine ⟨.event (.records records) :: added, by rw [hTrace, hAdded]; rfl,
    (neverReset_cons _ added).mpr ⟨rfl, hNever⟩, ?_, ?_⟩
  · refine (runFrom_append _ _ _).mpr ⟨hRun, ?_⟩
    rwa [hLen, show s + 1 + (d - s) = d + 1 by omega]
  · have hRecordsOf : (Observation.event (.records records)).emittedRecords = records := rfl
    rw [emitted, hRecordsOf, length_append]
    push_cast
    rw [hLen]
    omega

theorem gained (h : Told start client s d) : neverReset (gained start client) ∧
    RunFrom JournalRecord.position (s + 1) (emitted (Conversation.gained start client)) ∧
    (emitted (Conversation.gained start client)).length = d - s := by
  obtain ⟨added, hAdded, hKept⟩ := h
  rwa [gained_append hAdded]

end Told

/-- An open connection at `d`, of a resume from `s` up to `head`. -/
structure Level (start : ConversationSocket) (s head : Int) (client : ConversationSocket) (d : Int) : Prop where
  connected : ∃ id, client.socket = some ⟨id, .open⟩
  lastSeq : client.lastSeq = d
  headSeq : client.headSeq = head
  moored : client.Moored
  ahead : client.ahead = []
  older : client.olderRequests = []
  above : -1 ≤ s ∧ s ≤ d ∧ d ≤ head
  told : Told start client s d

structure Idle (start : ConversationSocket) (s head : Int) (session : Session) (d : Int) : Prop where
  level : Level start s head session.client d
  pending : session.pending = []
  free : session.client.gapPending = false
  armed : session.client.resumeTimer = graceArmed head d

/-- The rows from `d + 1` up to some `t` are asked for. -/
structure Asking (start : ConversationSocket) (s head : Int) (session : Session) (d : Int) : Prop where
  level : Level start s head session.client d
  asked : ∃ counter t, session.pending = [(.gap counter, d + 1, t)] ∧ d + 1 ≤ t ∧ t ≤ head
  grounded : 0 ≤ d

structure Stalled (start : ConversationSocket) (s head : Int) (session : Session) (d : Int) : Prop where
  level : Level start s head session.client d
  pending : session.pending = []
  disarmed : session.client.resumeTimer = false

section Rounds

variable {start : ConversationSocket} {s head d : Int} {session : Session}

theorem Stalled.round (h : Stalled start s head session d) (now : Int)
    (answer : RequestId × Int × Int → List ServerFrame) : session.round now answer = session := by
  unfold Session.round
  rw [h.pending]
  exact Session.input_idle h.disarmed now

theorem Idle.record (h : Idle start s head session d) (now : Int) {record : JournalRecord}
    (hNext : record.position = d + 1) (hLe : d + 1 ≤ head) :
    Idle start s head (session.input now (.message (some (.record record)))) (d + 1) := by
  obtain ⟨id, hSock⟩ := h.level.connected
  have hAbove := h.level.above
  have hReceived : (session.client.receive ⟨now, fun _ => false⟩ id (.record record)).Moored := h.level.moored
  have hHead : max head record.position = head := max_eq_left (by omega)
  have hStep := Session.step_message hSock ⟨now, fun _ => false⟩ (.record record)
  rw [handleFrame, applyRecord_follows _ hReceived h.level.ahead (hNext.trans (by rw [← h.level.lastSeq]; rfl))] at hStep
  have hTrace : (session.client.step (⟨now, fun _ => false⟩, .message (some (.record record)))).trace =
      [.event (.records [record]), .received id (.record record)] ++ session.client.trace := by
    rw [hStep]
    rfl
  rw [Session.input_eq session rfl hTrace]
  have hTold : Told start (session.client.receive ⟨now, fun _ => false⟩ id (.record record)) s d :=
    h.level.told.silent rfl rfl rfl
  refine ⟨⟨⟨id, ?_⟩, ?_, ?_, ?_, ?_, ?_, by omega, ?_⟩, ?_, ?_, ?_⟩
  · rw [hStep]
    exact hSock
  · rw [hStep]
    exact hNext
  · rw [hStep]
    exact (congrArg (max · record.position) h.level.headSeq).trans hHead
  · intro hFresh
    rw [hStep] at hFresh
    have hNone : record.position < 0 := hFresh
    omega
  · rw [hStep]
  · rw [hStep]
    exact h.level.older
  · refine hTold.records [record] ⟨hNext, trivial⟩ ?_
    rw [hTrace]
    rfl
  · rw [h.pending]
    rfl
  · rw [hStep]
    exact h.free
  · rw [hStep, ← hNext]
    change graceArmed (max session.client.headSeq record.position) record.position = _
    rw [h.level.headSeq, hHead]

theorem Idle.records (h : Idle start s head session d) (now : Int) {records : List JournalRecord}
    (hRun : RunFrom JournalRecord.position (d + 1) records) (hLe : d + records.length ≤ head) :
    Idle start s head (session.receive now (records.map ServerFrame.record)) (d + records.length) := by
  induction records generalizing session d with
  | nil => simpa [Session.receive] using h
  | cons record rest ih =>
    rw [length_cons] at hLe ⊢
    have hNext := h.record now hRun.1 (by omega)
    have hRest := ih hNext (hRun.1 ▸ hRun.2) (by omega)
    rw [show d + ((rest.length + 1 : Nat) : Int) = d + 1 + rest.length by omega]
    exact hRest

theorem idle_of_ready {id : Nat} (hSock : start.socket = some ⟨id, .open⟩) (hLast : start.lastSeq = s)
    (hAhead : start.ahead = []) (hOlder : start.olderRequests = []) (hFree : start.gapPending = false)
    {ready : ReadyFrame} (hEpoch : ∀ told ∈ start.epoch, told = ready.epoch) (hWin : ready.windowStartSeq = s + 1)
    (hNear : 0 ≤ s → ready.headSeq - s ≤ maxCatchupResumeRecords) (hFrom : -1 ≤ s) (hHead : s ≤ ready.headSeq)
    (now : Int) : Idle start s ready.headSeq ((⟨start, []⟩ : Session).input now (.message (some (.ready ready)))) s := by
  have hStep := Session.step_message hSock ⟨now, fun _ => false⟩ (.ready ready)
  have hKnown : (start.receive ⟨now, fun _ => false⟩ id (.ready ready)).epochChanged ready = false := by
    change start.epoch.any (fun epoch => epoch != ready.epoch) = false
    cases hTold : start.epoch with
    | none => rfl
    | some told => simpa using hEpoch told hTold
  have hBridged : (start.receive ⟨now, fun _ => false⟩ id (.ready ready)).unbridgeable ready = false := by
    change (decide (0 ≤ start.lastSeq) && decide (start.lastSeq + 1 < ready.windowStartSeq)) = false
    rw [hLast, hWin]
    simp
  have hClose : (start.receive ⟨now, fun _ => false⟩ id (.ready ready)).tooFarBehind ready = false := by
    change (decide (0 ≤ start.lastSeq) &&
      decide ((maxCatchupResumeRecords : Int) < ready.headSeq - start.lastSeq)) = false
    rw [hLast, Bool.and_eq_false_iff, decide_eq_false_iff_not, decide_eq_false_iff_not]
    by_cases hFresh : 0 ≤ s
    · have := hNear hFresh
      omega
    · exact .inl hFresh
  obtain ⟨period, timer, told, hReady⟩ := handleReady_follows ⟨now, fun _ => false⟩ hKnown hBridged hClose
  rw [handleFrame, hReady] at hStep
  have hTrace : (start.step (⟨now, fun _ => false⟩, .message (some (.ready ready)))).trace =
      ((told.map (fun message => Observation.event (.status .live message true))).toList ++
        [.event (.ready ready), .received id (.ready ready)]) ++ start.trace := by
    rw [hStep, append_assoc]
    rfl
  rw [Session.input_eq ⟨start, []⟩ rfl hTrace]
  have hReceived : Told start (start.receive ⟨now, fun _ => false⟩ id (.ready ready)) s s :=
    (Told.refl start s).silent rfl rfl rfl
  have hTold : Told start ((start.receive ⟨now, fun _ => false⟩ id (.ready ready)).onEvent (.ready ready)) s s :=
    hReceived.silent rfl rfl rfl
  refine ⟨⟨⟨id, ?_⟩, ?_, ?_, ?_, ?_, ?_, ⟨hFrom, le_refl s, hHead⟩, ?_⟩, ?_, ?_, ?_⟩
  · rw [hStep]
    exact hSock
  · rw [hStep]
    exact hLast
  · rw [hStep]
  · intro _
    rw [hStep]
    change ready.windowStartSeq = start.lastSeq + 1
    rw [hLast, hWin]
  · rw [hStep]
    exact hAhead
  · rw [hStep]
    exact hOlder
  · cases told with
    | none => exact hTold.of_trace hTrace
    | some message => exact hTold.silent rfl rfl hTrace
  · cases told <;> rfl
  · rw [hStep]
    exact hFree
  · rw [hStep, ← hLast]
    rfl

theorem Idle.asks (h : Idle start s head session d) (hBehind : d < head) (hGrounded : 0 ≤ d) {now : Int}
    (hTok : (session.client.budget.take now 0).2 = true) (answer : RequestId × Int × Int → List ServerFrame) :
    Asking start s head (session.round now answer) d := by
  obtain ⟨id, hSock⟩ := h.level.connected
  have hTimer : session.client.resumeTimer = true := by
    rw [h.armed]
    simp [graceArmed]
    omega
  have hLast := h.level.lastSeq
  have hHead := h.level.headSeq
  have hRecs : (maxResumeRecords : Int) = 2000 := rfl
  have hStep : session.client.step (⟨now, fun _ => false⟩, .resumeTimer) =
      session.client.resumeGraceElapsed ⟨now, fun _ => false⟩ := Session.step_resumeTimer hTimer _
  have hGranted : (session.client.budget.take (⟨now, fun _ => false⟩ : Env).now 0).2 = true := hTok
  rw [resumeGraceElapsed_asks rfl hSock h.free (by omega) (by omega) hGranted, hLast, hHead] at hStep
  have hTrace : (session.client.step (⟨now, fun _ => false⟩, .resumeTimer)).trace =
      [.sent id (.backfill (.gap (session.client.requestCounter + 1)) (d + 1)
        (min head (d + 1 + maxResumeRecords - 1)))] ++ session.client.trace := by
    rw [hStep]
    rfl
  unfold Session.round
  rw [h.pending]
  dsimp only
  rw [Session.input_eq session rfl hTrace, h.pending]
  refine ⟨⟨⟨id, ?_⟩, ?_, ?_, ?_, ?_, ?_, h.level.above, ?_⟩, ⟨_, _, rfl, by omega, min_le_left _ _⟩, hGrounded⟩
  · rw [hStep]
    exact hSock
  · rw [hStep]
  · rw [hStep]
  · intro hFresh
    rw [hStep] at hFresh
    exact absurd hGrounded (not_le.mpr hFresh)
  · rw [hStep]
    exact h.level.ahead
  · rw [hStep]
    exact h.level.older
  · exact h.level.told.silent rfl rfl hTrace

theorem Idle.refused (h : Idle start s head session d) (hBehind : d < head) (hGrounded : 0 ≤ d) {now : Int}
    (hTok : (session.client.budget.take now 0).2 = false) (answer : RequestId × Int × Int → List ServerFrame) :
    Stalled start s head (session.round now answer) d := by
  have hTimer : session.client.resumeTimer = true := by
    rw [h.armed]
    simp [graceArmed]
    omega
  have hLast := h.level.lastSeq
  have hHead := h.level.headSeq
  have hStep : session.client.step (⟨now, fun _ => false⟩, .resumeTimer) =
      session.client.resumeGraceElapsed ⟨now, fun _ => false⟩ := Session.step_resumeTimer hTimer _
  have hNone : (session.client.budget.take (⟨now, fun _ => false⟩ : Env).now 0).2 = false := hTok
  rw [resumeGraceElapsed_refused (by omega) h.free (by omega) hNone] at hStep
  have hTrace : (session.client.step (⟨now, fun _ => false⟩, .resumeTimer)).trace = [] ++ session.client.trace := by
    rw [hStep]
    rfl
  unfold Session.round
  rw [h.pending]
  dsimp only
  rw [Session.input_eq session rfl hTrace, h.pending, hStep]
  exact ⟨⟨h.level.connected, hLast, hHead, h.level.moored, h.level.ahead, h.level.older, h.level.above,
    h.level.told.of_trace rfl⟩, rfl, rfl⟩

theorem Asking.answered (h : Asking start s head session d) (now : Int)
    {answer : RequestId × Int × Int → List ServerFrame}
    (hAns : ∀ counter t, d + 1 ≤ t → t ≤ head → ∃ records complete, answer (.gap counter, d + 1, t) =
        [.backfill ⟨.gap counter, d + 1, d + 1 + records.length - 1, complete, records⟩] ∧
      Hub.Window (d + 1) t records) :
    ∃ k : Nat, 0 < k ∧ Idle start s head (session.round now answer) (d + k) := by
  obtain ⟨id, hSock⟩ := h.level.connected
  obtain ⟨counter, t, hPend, hFrom, hTo⟩ := h.asked
  obtain ⟨records, complete, hFrames, hWin⟩ := hAns counter t hFrom hTo
  have hReaches := hWin.reaches
  have hLast := h.level.lastSeq
  have hGrounded := h.grounded
  have hAbove := h.level.above
  have hPos : 0 < records.length := length_pos_iff.mpr hWin.some
  refine ⟨records.length, hPos, ?_⟩
  let frame : BackfillFrame := ⟨.gap counter, d + 1, d + 1 + records.length - 1, complete, records⟩
  have hReceived : (session.client.receive ⟨now, fun _ => false⟩ id (.backfill frame)).Moored := h.level.moored
  have hRun : RunFrom JournalRecord.position
      ((session.client.receive ⟨now, fun _ => false⟩ id (.backfill frame)).lastSeq + 1) frame.records := by
    change RunFrom _ (session.client.lastSeq + 1) records
    rw [hLast]
    exact hWin.run
  have hStep := Session.step_message hSock ⟨now, fun _ => false⟩ (.backfill frame)
  rw [handleFrame, handleBackfill_follows _ hReceived h.level.ahead h.level.older
    (by change -1 ≤ session.client.lastSeq; omega) hWin.some hRun
    (by change d + 1 + (records.length : Int) - 1 ≤ session.client.lastSeq + records.length; omega)] at hStep
  have hTrace : (session.client.step (⟨now, fun _ => false⟩, .message (some (.backfill frame)))).trace =
      [.event (.records records), .received id (.backfill frame)] ++ session.client.trace := by
    rw [hStep]
    rfl
  have hMax : max session.client.headSeq (session.client.lastSeq + records.length) = head := by
    rw [h.level.headSeq, hLast]
    exact max_eq_left (by omega)
  have hTold : Told start (session.client.receive ⟨now, fun _ => false⟩ id (.backfill frame)) s d :=
    h.level.told.silent rfl rfl rfl
  unfold Session.round
  rw [hPend]
  dsimp only
  rw [hFrames]
  change Idle start s head (Session.input { session with pending := [] } now (.message (some (.backfill frame)))) _
  rw [Session.input_eq { session with pending := [] } rfl hTrace]
  refine ⟨⟨⟨id, ?_⟩, ?_, ?_, ?_, ?_, ?_, by omega, ?_⟩, rfl, ?_, ?_⟩
  · rw [hStep]
    exact hSock
  · rw [hStep, ← hLast]
    rfl
  · rw [hStep]
    exact hMax
  · intro hFresh
    rw [hStep] at hFresh
    have hNone : session.client.lastSeq + (records.length : Int) < 0 := hFresh
    omega
  · rw [hStep]
  · rw [hStep]
    exact h.level.older
  · exact hTold.records records hWin.run (by rw [hTrace]; rfl)
  · rw [hStep]
  · rw [hStep]
    change graceArmed (max session.client.headSeq (session.client.lastSeq + records.length))
      (session.client.lastSeq + records.length) = _
    rw [hMax, hLast]

end Rounds

/-! ## The opening -/

section Opening

variable {r : Resume} {s : Int}

section

variable (h : r.Starts s)
include h

theorem Starts.frames_eq : r.frames = Hub.openingFrames r.connect r.moments.accepted
    (Hub.openingWindow r.headRead.head r.moments.opening r.moments.read r.objects r.connect.since r.connect.epoch) := by
  have hFrames := h.frames
  unfold headRead
  unfold Hub.upgrade at hFrames
  dsimp only at hFrames
  split at hFrames
  · cases hFrames
  split at hFrames
  · cases hFrames
  split at hFrames
  · cases hFrames
  split at hFrames
  · next hNone =>
    rw [if_pos hNone]
    split at hFrames
    · cases hFrames
    · cases hFrames
    · next record hLookup =>
      split at hFrames
      · cases hFrames
      · next bound hBound =>
        have hHead : ((r.connect.lookup.join.bind fun record =>
            r.moments.looked.bindOwner record r.connect.conversationId).getD r.moments.looked) = bound := by
          rw [hLookup, Option.join_some, Option.bind_some, hBound, Option.getD_some]
        rw [hHead]
        split at hFrames
        · cases hFrames
        split at hFrames
        · cases hFrames
        split at hFrames
        · cases hFrames
        exact (Except.ok.inj hFrames).symm
  · next hOwned =>
    rw [if_neg hOwned]
    split at hFrames
    · cases hFrames
    split at hFrames
    · cases hFrames
    split at hFrames
    · cases hFrames
    exact (Except.ok.inj hFrames).symm

theorem Starts.headRead_spec : Whole r.headRead r.objects ∧
    r.moments.entered.head.headSeq ≤ r.headRead.head.headSeq ∧
    r.headRead.head.floorSeq = r.moments.entered.head.floorSeq ∧
    r.headRead.head.epoch = r.moments.entered.head.epoch := by
  have hLooked : Whole r.moments.looked r.objects ∧
      r.moments.entered.head.headSeq ≤ r.moments.looked.head.headSeq ∧
      r.moments.looked.head.floorSeq = r.moments.entered.head.floorSeq ∧
      r.moments.looked.head.epoch = r.moments.entered.head.epoch :=
    ⟨h.whole.commits h.looked, h.looked.headSeq_le h.whole.resident, floorSeq_commits h.looked, h.looked.epoch⟩
  unfold headRead
  split
  · cases hBound : r.connect.lookup.join.bind fun record =>
        r.moments.looked.bindOwner record r.connect.conversationId with
    | none => exact hLooked
    | some bound =>
      obtain ⟨record, -, hBind⟩ := Option.bind_eq_some_iff.mp hBound
      have hKeeps : (Whole r.moments.looked r.objects → Whole bound r.objects) ∧ _ := Hub.bindOwner_keeps hBind
      obtain ⟨hWhole, hHead, hFloor, hEpoch⟩ := hKeeps
      rw [Option.getD_some, hHead, hFloor, hEpoch]
      exact ⟨hWhole hLooked.1, hLooked.2⟩
  · exact ⟨h.whole, le_rfl, rfl, rfl⟩

theorem Starts.whole_headRead : Whole r.headRead r.objects := h.headRead_spec.1

theorem Starts.epoch_accepted : r.moments.accepted.head.epoch = r.moments.entered.head.epoch :=
  ((h.opening.trans h.read).trans h.accepted).epoch.trans h.headRead_spec.2.2.2

theorem Starts.resident_accepted : r.moments.accepted.Resident :=
  h.accepted.resident (h.read.resident (h.opening.resident h.whole_headRead.resident))

theorem Starts.headSeq_le : r.headRead.head.headSeq ≤ r.headSeq :=
  ((h.opening.trans h.read).trans h.accepted).headSeq_le h.whole_headRead.resident

theorem Starts.resumable : Hub.Resumable r.headRead s := by
  have hCursor := h.cursor
  obtain ⟨-, hGrown, hSameFloor, hSameEpoch⟩ := h.headRead_spec
  have hFloor : r.headRead.head.floorSeq - 1 ≤ s := by
    rw [hSameFloor]
    exact hCursor.floor
  have hHead : s ≤ r.headRead.head.headSeq := hCursor.head.trans hGrown
  refine ⟨hFloor, hHead, ?_⟩
  by_contra hFar
  have hKnown : r.connect.epoch.any (fun told => told ≠ r.headRead.head.epoch) = false := by
    cases hTold : r.connect.epoch with
    | none => rfl
    | some told => simpa [hSameEpoch] using h.epoch told hTold
  refine h.noReset .window ?_
  rw [h.frames_eq, h.since]
  unfold Hub.openingWindow
  dsimp only
  rw [if_neg (by omega), hKnown, if_neg Bool.false_ne_true, if_neg (by omega), if_neg (by omega),
    if_pos (not_le.mp hFar)]
  simp [Hub.openingFrames, Hub.newestWindow]

theorem Starts.opens : ∃ records,
    r.frames = .ready (Hub.readyFrame r.connect r.moments.accepted records) :: records.map ServerFrame.record ∧
      (r.headRead.head.headSeq = s → records = []) ∧
      (s < r.headRead.head.headSeq → Hub.Window (s + 1) r.headSeq records) := by
  have hEpoch : ∀ told ∈ r.connect.epoch, told = r.headRead.head.epoch := by
    rw [h.headRead_spec.2.2.2]
    exact h.epoch
  obtain ⟨records, hWin, hAt, hBelow⟩ :=
    Hub.openingWindow_resumable h.resumable h.whole_headRead h.opening h.read hEpoch
  refine ⟨Hub.toppedUp r.moments.accepted records, ?_, fun hEq => ?_, fun hLt => ?_⟩
  · rw [h.frames_eq, h.since, hWin]
    rfl
  · rw [hAt hEq]
    rfl
  · exact (hBelow hLt).toppedUp h.resident_accepted h.headSeq_le

end

theorem readyFrame_window {connect : Connect} {fresh : Journal} {records : List JournalRecord} {first head : Int}
    (h : Hub.Window first head records) : (Hub.readyFrame connect fresh records).windowStartSeq = first := by
  have hRun := h.run
  have hNe := h.some
  cases records with
  | nil => exact absurd rfl hNe
  | cons record rest => exact hRun.1

end Opening

/-! ## The rounds -/

section Runs

variable {r : Resume} {s : Int} {n : Nat}

/-- Round `n` finds the client done, or behind and at least half as many rows further. -/
def Running (r : Resume) (s : Int) (n : Nat) : Prop :=
  (∃ d, Idle r.client s r.headSeq (r.session n) d ∧ (d = r.headSeq ∨ 0 ≤ d ∧ (n : Int) ≤ 2 * (d - s))) ∨
    ∃ d, Asking r.client s r.headSeq (r.session n) d ∧ (n : Int) ≤ 2 * (d - s) + 1

/-- The client's timer found no token at round `n`, below the head. -/
structure Refused (r : Resume) (s : Int) (n : Nat) : Prop where
  pending : (r.session n).pending = []
  timer : (r.session n).client.resumeTimer = true
  token : ((r.session n).client.budget.take (r.clock n) 0).2 = false
  stalled : ∃ d < r.headSeq, Stalled r.client s r.headSeq (r.session (n + 1)) d

theorem Starts.running_zero (h : r.Starts s) (hAt : r.headRead.head.headSeq = s → r.headSeq = s)
    (hNear : 0 ≤ s → r.headSeq - s ≤ maxCatchupResumeRecords) : Running r s 0 := by
  obtain ⟨id, hSock⟩ := h.connected
  obtain ⟨records, hFrames, hNone, hSome⟩ := h.opens
  have hHead := h.resumable.head
  have hFloor := h.resumable.floor
  have hLe := h.headSeq_le
  have hEpoch : ∀ told ∈ r.client.epoch,
      told = (Hub.readyFrame r.connect r.moments.accepted records).epoch := by
    intro told hTold
    rw [h.told] at hTold
    exact (h.epoch told hTold).trans h.epoch_accepted.symm
  have hWin : (Hub.readyFrame r.connect r.moments.accepted records).windowStartSeq = s + 1 := by
    by_cases hEq : r.headRead.head.headSeq = s
    · rw [hNone hEq]
      change r.headSeq + 1 = s + 1
      rw [hAt hEq]
    · exact readyFrame_window (hSome (by omega))
  have hReady := idle_of_ready hSock h.lastSeq h.ahead h.older h.idle hEpoch hWin hNear (by omega)
    (hHead.trans hLe) r.opened
  have hSession : r.session 0 = ((⟨r.client, []⟩ : Session).input r.opened
      (.message (some (.ready (Hub.readyFrame r.connect r.moments.accepted records))))).receive r.opened
      (records.map ServerFrame.record) := by
    unfold session
    rw [hFrames]
    rfl
  left
  rw [hSession]
  by_cases hEq : r.headRead.head.headSeq = s
  · rw [hNone hEq] at hReady ⊢
    exact ⟨s, hReady, .inl (hAt hEq).symm⟩
  · have hRun := hSome (by omega)
    have hReaches := hRun.reaches
    refine ⟨s + records.length, hReady.records r.opened hRun.run ?_, .inr ⟨by omega, by push_cast; omega⟩⟩
    change s + records.length ≤ r.headSeq
    omega

theorem Running.step (h : r.Starts s) (hRuns : Running r s n) : Running r s (n + 1) ∨ Refused r s n := by
  obtain ⟨d, hIdle, hFar⟩ | ⟨d, hAsking, hFar⟩ := hRuns
  · have hAbove := hIdle.level.above
    have hGrown := h.headSeq_le
    by_cases hDone : d = r.headSeq
    · have hTimer : (r.session n).client.resumeTimer = false := by
        rw [hIdle.armed, hDone]
        simp [graceArmed]
      have hEq : r.session (n + 1) = r.session n := (⟨hIdle.level, hIdle.pending, hTimer⟩ :
        Stalled r.client s r.headSeq (r.session n) d).round _ _
      left; left
      rw [hEq]
      exact ⟨d, hIdle, .inl hDone⟩
    · obtain ⟨hGrounded, hCnt⟩ := hFar.resolve_left hDone
      have hBehind : d < r.headSeq := by omega
      cases hTok : ((r.session n).client.budget.take (r.clock n) 0).2 with
      | true =>
        left; right
        exact ⟨d, hIdle.asks hBehind hGrounded hTok (r.answer n), by push_cast; omega⟩
      | false =>
        right
        refine ⟨hIdle.pending, ?_, hTok, d, hBehind, hIdle.refused hBehind hGrounded hTok (r.answer n)⟩
        rw [hIdle.armed]
        simp [graceArmed]
        omega
  · have hServing := h.serving n
    have hCommits : r.headRead.Commits (r.serving n).1 :=
      ((h.opening.trans h.read).trans h.accepted).trans hServing.1
    have hWhole := h.whole_headRead.commits hCommits
    have hHead : r.headSeq ≤ (r.serving n).1.head.headSeq := hServing.1.headSeq_le h.resident_accepted
    have hFloor : ((r.serving n).1.head.floorSeq : Int) ≤ d + 1 := by
      have hResumable := h.resumable.floor
      have hAbove := hAsking.level.above
      rw [floorSeq_commits hCommits]
      omega
    have hAns : ∀ counter t, d + 1 ≤ t → t ≤ r.headSeq →
        ∃ records complete, r.answer n (.gap counter, d + 1, t) =
          [.backfill ⟨.gap counter, d + 1, d + 1 + records.length - 1, complete, records⟩] ∧
        Hub.Window (d + 1) t records := fun counter t hFrom hTo =>
      Hub.handleBackfill_spec hWhole hServing.2 r.size (.gap counter) hFloor hFrom (hTo.trans hHead)
    obtain ⟨k, hPos, hIdle⟩ := hAsking.answered (r.clock n) hAns
    have hGrounded := hAsking.grounded
    left; left
    exact ⟨d + k, hIdle, .inr ⟨by omega, by push_cast; omega⟩⟩

theorem Stalled.session {d : Int} (h : Stalled r.client s r.headSeq (r.session n) d) (m : Nat) :
    r.session (n + m) = r.session n := by
  induction m with
  | zero => rfl
  | succ m ih =>
    have hRound : r.session (n + m + 1) = (r.session (n + m)).round (r.clock (n + m)) (r.answer (n + m)) := rfl
    rw [← Nat.add_assoc, hRound, ih]
    exact h.round _ _

theorem Refused.not_delivers (h : Refused r s n) : ¬ r.Delivers s := by
  intro hDelivers
  obtain ⟨d, hBehind, hStalled⟩ := h.stalled
  obtain ⟨first, hEnds⟩ := hDelivers.ends
  have hLen := hEnds (n + 1 + first) (by omega)
  rw [hStalled.session first, hStalled.level.told.gained.2.2] at hLen
  omega

theorem refused_of_running (h : Running r s n) (hPend : (r.session n).pending = [])
    (hTimer : (r.session n).client.resumeTimer = true)
    (hTok : ((r.session n).client.budget.take (r.clock n) 0).2 = false) : Refused r s n := by
  obtain ⟨d, hIdle, hFar⟩ | ⟨d, hAsking, -⟩ := h
  · have hBehind : d < r.headSeq := by
      have hArmed := hIdle.armed.symm.trans hTimer
      unfold graceArmed at hArmed
      simp at hArmed
      exact hArmed.2
    obtain ⟨hGrounded, -⟩ := hFar.resolve_left hBehind.ne
    exact ⟨hPend, hTimer, hTok, d, hBehind, hIdle.refused hBehind hGrounded hTok (r.answer n)⟩
  · obtain ⟨counter, t, hAsked, -⟩ := hAsking.asked
    rw [hPend] at hAsked
    cases hAsked

theorem Running.told (h : Running r s n) : ∃ d, Told r.client (r.session n).client s d := by
  obtain ⟨d, hIdle, -⟩ | ⟨d, hAsking, -⟩ := h
  · exact ⟨d, hIdle.level.told⟩
  · exact ⟨d, hAsking.level.told⟩

theorem delivers_of_running (h : r.Starts s) (hAt : r.headRead.head.headSeq = s → r.headSeq = s)
    (hRuns : ∀ n, Running r s n) : r.Delivers s := by
  have hGrown := h.headSeq_le
  have hHead := h.resumable.head
  refine ⟨fun hRows ready hReady => ?_, fun n => ?_, fun n => ?_, (2 * (r.headSeq - s) + 2).toNat, fun m hm => ?_⟩
  · obtain ⟨records, hFrames, -, hSome⟩ := h.opens
    rw [hFrames] at hReady
    obtain hEq | hRec := mem_cons.mp hReady
    · cases hEq
      have hBelow : s < r.headRead.head.headSeq := by
        by_contra hNot
        have hSame := hAt (by omega)
        omega
      rw [readyFrame_window (hSome hBelow)]
    · obtain ⟨record, -, hEq⟩ := mem_map.mp hRec
      cases hEq
  · obtain ⟨d, hTold⟩ := (hRuns n).told
    exact hTold.gained.1
  · obtain ⟨d, hTold⟩ := (hRuns n).told
    exact hTold.gained.2.1
  · obtain ⟨d, hIdle, hDone | ⟨-, hFar⟩⟩ | ⟨d, hAsking, hFar⟩ := hRuns m
    · rw [hIdle.level.told.gained.2.2, hDone]
    · have hAbove := hIdle.level.above
      omega
    · have hAbove := hAsking.level.above
      omega

theorem not_delivers_of_far (h : r.Starts s) (hFresh : 0 ≤ s)
    (hFar : (maxCatchupResumeRecords : Int) < r.headSeq - s) : ¬ r.Delivers s := by
  intro hDelivers
  obtain ⟨id, hSock⟩ := h.connected
  obtain ⟨records, hFrames, -, -⟩ := h.opens
  have hRecs : (maxCatchupResumeRecords : Int) = 300 := rfl
  let ready := Hub.readyFrame r.connect r.moments.accepted records
  have hWin : ready.windowStartSeq ≤ s + 1 :=
    hDelivers.window (by omega) ready (by rw [hFrames]; exact mem_cons_self)
  let start := r.client.receive ⟨r.opened, fun _ => false⟩ id (.ready ready)
  have hKnown : start.epochChanged ready = false := by
    change r.client.epoch.any (fun epoch => epoch != ready.epoch) = false
    cases hTold : r.client.epoch with
    | none => rfl
    | some told =>
      have hEq : ready.epoch = r.moments.entered.head.epoch := h.epoch_accepted
      rw [h.told] at hTold
      simpa [hEq] using h.epoch told hTold
  have hBridged : start.unbridgeable ready = false := by
    change (decide (0 ≤ r.client.lastSeq) && decide (r.client.lastSeq + 1 < ready.windowStartSeq)) = false
    rw [h.lastSeq, Bool.and_eq_false_iff, decide_eq_false_iff_not, decide_eq_false_iff_not]
    exact .inr (by omega)
  have hTooFar : (start.adopted ⟨r.opened, fun _ => false⟩ ready).tooFarBehind ready = true := by
    obtain ⟨period, timer, hAdopted⟩ := adopted_keeps ⟨r.opened, fun _ => false⟩ start ready
    rw [hAdopted]
    change (decide (0 ≤ r.client.lastSeq) &&
      decide ((maxCatchupResumeRecords : Int) < r.headSeq - r.client.lastSeq)) = true
    rw [h.lastSeq, Bool.and_eq_true, decide_eq_true_eq, decide_eq_true_eq]
    exact ⟨hFresh, hFar⟩
  have hStep : r.client.step (⟨r.opened, fun _ => false⟩, .message (some (.ready ready))) =
      ((start.adopted ⟨r.opened, fun _ => false⟩ ready).resetStream .window).forceReconnect := by
    rw [Session.step_message hSock, handleFrame]
    unfold handleReady
    rw [hKnown, hBridged, if_neg Bool.false_ne_true, if_neg Bool.false_ne_true]
    unfold openStream
    rw [hTooFar, if_pos rfl]
  obtain ⟨added, hTrace, hReset⟩ : ∃ added,
      (r.client.step (⟨r.opened, fun _ => false⟩, .message (some (.ready ready)))).trace =
        added ++ r.client.trace ∧ .event (.reset .window) ∈ added := by
    obtain ⟨told, hTold⟩ := forceReconnect_trace
      ((start.adopted ⟨r.opened, fun _ => false⟩ ready).resetStream .window)
    obtain ⟨period, timer, hAdopted⟩ := adopted_keeps ⟨r.opened, fun _ => false⟩ start ready
    refine ⟨told ++ [.event (.reset .window), .received id (.ready ready)], ?_, by simp⟩
    rw [hStep, hTold, hAdopted, append_assoc]
    rfl
  have hGone : (r.client.step (⟨r.opened, fun _ => false⟩, .message (some (.ready ready)))).socket = none := by
    rw [hStep]
    exact forceReconnect_socket _
  have hSession : (r.session 0).client =
      r.client.step (⟨r.opened, fun _ => false⟩, .message (some (.ready ready))) := by
    have hInput : r.session 0 = ((⟨r.client, []⟩ : Session).input r.opened (.message (some (.ready ready)))).receive
        r.opened (records.map ServerFrame.record) := by
      unfold session
      rw [hFrames]
      rfl
    rw [hInput, Session.receive_gone hGone]
    rfl
  have hNever := hDelivers.noReset 0
  rw [hSession, gained_append hTrace] at hNever
  exact absurd (hNever _ hReset) (by decide)

theorem not_delivers_of_stale (h : r.Starts s) (hAt : r.headRead.head.headSeq = s) (hRows : s < r.headSeq) :
    ¬ r.Delivers s := by
  intro hDelivers
  obtain ⟨records, hFrames, hNone, -⟩ := h.opens
  have hWin := hDelivers.window hRows (Hub.readyFrame r.connect r.moments.accepted records)
    (by rw [hFrames]; exact mem_cons_self)
  rw [hNone hAt] at hWin
  have hAbove : r.headSeq + 1 ≤ s + 1 := hWin
  omega

end Runs

/-- A resume delivers its rows exactly when nothing was committed behind a cursor at the head, not
too much was committed behind any other, and the budget outlasts the backfills. -/
theorem delivers_iff {r : Resume} {s : Int} (h : r.Starts s) :
    r.Delivers s ↔ (r.headRead.head.headSeq = s → r.headSeq = s) ∧
      (0 ≤ s → r.headSeq - s ≤ maxCatchupResumeRecords) ∧ r.Budgeted := by
  have hHead := h.resumable.head
  have hGrown := h.headSeq_le
  refine ⟨fun hDelivers => ?_, fun ⟨hAt, hNear, hBudget⟩ => ?_⟩
  · have hAt : r.headRead.head.headSeq = s → r.headSeq = s := by
      intro hEq
      by_contra hNot
      exact not_delivers_of_stale h hEq (by omega) hDelivers
    have hNear : 0 ≤ s → r.headSeq - s ≤ maxCatchupResumeRecords := by
      intro hFresh
      by_contra hNot
      exact not_delivers_of_far h hFresh (by omega) hDelivers
    have hRunning : ∀ n, Running r s n := by
      intro n
      induction n with
      | zero => exact h.running_zero hAt hNear
      | succ n ih => exact (ih.step h).resolve_right fun hRefused => hRefused.not_delivers hDelivers
    refine ⟨hAt, hNear, fun n hPending hTimer => ?_⟩
    by_contra hToken
    exact (refused_of_running (hRunning n) hPending hTimer (by simpa using hToken)).not_delivers hDelivers
  · refine delivers_of_running h hAt fun n => ?_
    induction n with
    | zero => exact h.running_zero hAt hNear
    | succ n ih =>
      refine (ih.step h).resolve_right fun hRefused => ?_
      have hToken := hBudget n hRefused.pending hRefused.timer
      rw [hRefused.token] at hToken
      cases hToken

def twoRows : Journal := cutJournal [] 0
def threeRows : Journal :=
  { twoRows with rows := twoRows.rows ++ [{ userRow 2 with seq := 2 }], nextSeq := 3 }

/-- A resume from `s` with the third row committed while the connect waits. -/
def lateRow (s : Int) : Resume :=
  let connect : Connect :=
    { isWebSocketUpgrade := true, protocol := some 1, since := some s, epoch := some 1, callerId := "owner",
      conversationId := "conversation", lookup := none, hasSlot := true, stillFits := true, authExpiresAtMs := 0,
      now := 0, live := none }
  let moments : Moments := ⟨twoRows, twoRows, threeRows, threeRows, threeRows⟩
  { client :=
      { budget := .full 0, stopped := false, socket := some ⟨0, .open⟩, lastSeq := s, headSeq := s, epoch := some 1 },
    connect, moments, objects := fun _ => none, size := fun _ => 1,
    frames := ((Hub.upgrade connect moments fun _ => none).toOption).getD [],
    opened := 1, clock := fun n => n + 2, serving := fun _ => (threeRows, threeRows) }

theorem threeRows_commits : twoRows.Commits threeRows := ⟨[userRow], rfl⟩

theorem twoRows_whole : Whole twoRows fun _ => none := by
  have hSegmented : twoRows.Segmented [] none := by
    refine ⟨rfl, rfl, ?_, ?_, ?_, ?_⟩ <;> simp
  exact whole_of_segmented (cutJournal_resident [] 0) hSegmented fun _ h => absurd h not_mem_nil

theorem lateRow_frames :
    (∃ ready row new, (lateRow 0).frames = [.ready ready, .record row, .record new]) ∧
      ∃ ready, (lateRow 1).frames = [.ready ready] :=
  ⟨⟨_, _, _, rfl⟩, ⟨_, rfl⟩⟩

theorem lateRow_starts {s : Int} (h : s = 0 ∨ s = 1) : (lateRow s).Starts s := by
  have hHead : twoRows.head.headSeq = 1 := rfl
  have hFloor : (twoRows.head.floorSeq : Int) = 0 := rfl
  have hRecs : (maxCatchupResumeRecords : Int) = 300 := rfl
  have hPlain : ∀ frame ∈ (lateRow s).frames, (∃ ready, frame = .ready ready) ∨ ∃ record, frame = .record record := by
    obtain ⟨⟨ready, row, new, hOne⟩, ready', hNone⟩ := lateRow_frames
    obtain rfl | rfl := h
    · rw [hOne]
      simp
    · rw [hNone]
      simp
  refine ⟨⟨?_, ?_, ?_⟩, twoRows_whole, .refl _, threeRows_commits, .refl _, .refl _, fun _ => ⟨.refl _, .refl _⟩, rfl,
    ?_, ?_, ?_, ?_, ⟨0, rfl⟩, rfl, rfl, rfl, rfl, rfl⟩
  · change twoRows.head.floorSeq - 1 ≤ s
    omega
  · change s ≤ twoRows.head.headSeq
    omega
  · change twoRows.head.headSeq - s ≤ _
    omega
  · intro told hTold
    exact (Option.some.inj hTold).symm
  · obtain rfl | rfl := h <;> rfl
  · intro reason hReset
    obtain ⟨ready, hEq⟩ | ⟨record, hEq⟩ := hPlain _ hReset <;> cases hEq
  · intro fromSeq toSeq hGap
    obtain ⟨ready, hEq⟩ | ⟨record, hEq⟩ := hPlain _ hGap <;> cases hEq

/-- A cursor below the head gets its row and the late one. -/
theorem lateRow_delivers : (lateRow 0).Delivers 0 := by
  refine (delivers_iff (lateRow_starts (Or.inl rfl))).mpr ⟨fun h => absurd h (by decide), fun _ => by decide, ?_⟩
  have hDone : ((lateRow 0).session 0).pending = [] ∧ ((lateRow 0).session 0).client.resumeTimer = false := ⟨rfl, rfl⟩
  have hSame : ∀ n, (lateRow 0).session n = (lateRow 0).session 0 := by
    intro n
    induction n with
    | zero => rfl
    | succ n ih =>
      have hRound : (lateRow 0).session (n + 1) =
          ((lateRow 0).session n).round ((lateRow 0).clock n) ((lateRow 0).answer n) := rfl
      rw [hRound, ih]
      unfold Session.round
      rw [hDone.1]
      exact Session.input_idle hDone.2 _
  intro n _ hTimer
  rw [hSame n, hDone.2] at hTimer
  cases hTimer

/-- A cursor at the head is told that the window begins above the late row, and starts over. -/
theorem lateRow_starts_over : (lateRow 1).Starts 1 ∧ ¬ (lateRow 1).Delivers 1 :=
  ⟨lateRow_starts (Or.inr rfl), not_delivers_of_stale (lateRow_starts (Or.inr rfl)) rfl (by decide)⟩

end Resume

end Stella.Conversation
