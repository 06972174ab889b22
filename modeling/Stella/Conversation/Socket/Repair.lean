import Stella.Conversation.Socket.Trace

/-! # Repair state and the connection it belongs to

A gap or scrollback request is outstanding on the WebSocket it was sent on until a reply with its
id is read from that WebSocket.
-/

namespace Stella.Conversation

open Transition

namespace Observation

def asks (id : Nat) (requestId : RequestId) : Observation → Bool
  | .sent ws (.backfill r _ _) => ws == id && r == requestId
  | _ => false

def answers (id : Nat) (requestId : RequestId) : Observation → Bool
  | .received ws (.backfill frame) => ws == id && frame.requestId == requestId
  | _ => false

def sentOn (id : Nat) : Observation → Bool
  | .sent ws _ => ws == id
  | _ => false

def gapAsked : Observation → Option Nat
  | .sent _ (.backfill (.gap n) _ _) => some n
  | _ => none

def isReadyOn (id : Nat) : Observation → Bool
  | .received ws (.ready _) => ws == id
  | _ => false

def isReceived : Observation → Bool
  | .received _ _ => true
  | _ => false

theorem answers_of_not_received {o : Observation} (h : o.isReceived = false) (id : Nat) (requestId : RequestId) :
    o.answers id requestId = false := by
  cases o <;> first | rfl | cases h

end Observation

def Outstanding (id : Nat) (requestId : RequestId) : List Observation → Prop
  | [] => False
  | o :: older => o.asks id requestId = true ∨ (o.answers id requestId = false ∧ Outstanding id requestId older)

instance decidableOutstanding (id : Nat) (requestId : RequestId) :
    ∀ trace : List Observation, Decidable (Outstanding id requestId trace)
  | [] => .isFalse not_false
  | _ :: older => @instDecidableOr _ _ _ (@instDecidableAnd _ _ _ (decidableOutstanding id requestId older))

/-- A `ready` was read from that WebSocket. -/
def ReadyOn (id : Nat) (trace : List Observation) : Prop := ∃ ready, Observation.received id (.ready ready) ∈ trace

variable {id : Nat} {requestId : RequestId} {obs trace : List Observation}

theorem outstanding_append
    (hObs : ∀ o ∈ obs, o.answers id requestId = false) (h : Outstanding id requestId trace) :
    Outstanding id requestId (obs ++ trace) := by
  induction obs with
  | nil => exact h
  | cons o obs ih =>
    exact .inr ⟨hObs o List.mem_cons_self, ih (fun p hp => hObs p (List.mem_cons_of_mem _ hp))⟩

theorem outstanding_sent (id : Nat) (requestId : RequestId) (fromSeq toSeq : Int) (trace : List Observation) :
    Outstanding id requestId (.sent id (.backfill requestId fromSeq toSeq) :: trace) :=
  .inl (by simp [Observation.asks])

theorem readyOn_append (hObs : ∀ o ∈ obs, o.isReceived = false)
    (h : ReadyOn id (obs ++ trace)) : ReadyOn id trace := by
  obtain ⟨ready, hReady⟩ := h
  rcases List.mem_append.mp hReady with hReady | hReady
  · cases hObs _ hReady
  · exact ⟨ready, hReady⟩

theorem Outstanding.sent
    (h : Outstanding id requestId trace) :
    ∃ fromSeq toSeq, Observation.sent id (.backfill requestId fromSeq toSeq) ∈ trace := by
  induction trace with
  | nil => cases h
  | cons o older ih =>
    rcases h with hAsks | ⟨-, h⟩
    · cases o with
      | sent ws frame =>
        cases frame with
        | backfill r fromSeq toSeq =>
          obtain ⟨rfl, rfl⟩ : ws = id ∧ r = requestId := by simpa [Observation.asks] using hAsks
          exact ⟨fromSeq, toSeq, List.mem_cons_self⟩
        | _ => cases hAsks
      | _ => cases hAsks
    · obtain ⟨fromSeq, toSeq, hMem⟩ := ih h
      exact ⟨fromSeq, toSeq, List.mem_cons_of_mem _ hMem⟩

theorem Outstanding.gapAsked {n : Nat} (h : Outstanding id (.gap n) trace) :
    n ∈ trace.filterMap Observation.gapAsked := by
  obtain ⟨fromSeq, toSeq, hMem⟩ := h.sent
  exact List.mem_filterMap.mpr ⟨_, hMem, rfl⟩

theorem readyOn_of_any (h : trace.any (Observation.isReadyOn id) = true) :
    ReadyOn id trace := by
  obtain ⟨o, hMem, hReady⟩ := List.any_eq_true.mp h
  cases o with
  | received ws frame =>
    cases frame with
    | ready ready =>
      obtain rfl : ws = id := by simpa [Observation.isReadyOn] using hReady
      exact ⟨ready, hMem⟩
    | _ => cases hReady
  | _ => cases hReady

namespace ConversationSocket

/-- Same connection, same repair state, same stream, nothing read; the resume timer stays as it
is while the connection is open, and the status does not turn live. -/
structure Calm (s t : ConversationSocket) : Prop where
  socket : t.socket = s.socket
  created : t.created = s.created
  gapPending : t.gapPending = s.gapPending
  olderRequests : t.olderRequests = s.olderRequests
  ahead : t.ahead = s.ahead
  lastSeq : t.lastSeq = s.lastSeq
  headSeq : t.headSeq = s.headSeq
  windowStartSeq : t.windowStartSeq = s.windowStartSeq
  timer : s.isOpen = true → t.resumeTimer = s.resumeTimer
  status : t.status = .live → s.status = .live
  trace : ∃ obs, t.trace = obs ++ s.trace ∧ ∀ o ∈ obs, o.isReceived = false

/-- The fields a `Calm` step leaves as they are. -/
def core (s : ConversationSocket) :=
  (s.socket, s.created, s.gapPending, s.olderRequests, s.ahead, s.lastSeq, s.headSeq, s.windowStartSeq,
    s.resumeTimer, s.status, s.trace)

namespace Calm

variable {t : ConversationSocket}

theorem of_core {s : ConversationSocket} (h : t.core = s.core) : Calm s t := by
  simp only [core, Prod.mk.injEq] at h
  obtain ⟨hSock, hCreated, hGap, hOlder, hAhead, hLast, hHead, hWin, hTimer, hStat, hTrace⟩ := h
  exact ⟨hSock, hCreated, hGap, hOlder, hAhead, hLast, hHead, hWin, fun _ => hTimer, fun hLive => hStat ▸ hLive,
    [], hTrace, by simp⟩

theorem refl (s : ConversationSocket) : Calm s s := .of_core rfl

theorem isOpen {s : ConversationSocket} (h : Calm s t) : t.isOpen = s.isOpen := by
  unfold ConversationSocket.isOpen
  rw [h.socket]

variable {u : ConversationSocket}

theorem trans {s : ConversationSocket} (h : Calm s t) (h' : Calm t u) : Calm s u := by
  obtain ⟨obs, hObs, hNone⟩ := h.trace
  obtain ⟨obs', hObs', hNone'⟩ := h'.trace
  refine ⟨h'.socket.trans h.socket, h'.created.trans h.created, h'.gapPending.trans h.gapPending,
    h'.olderRequests.trans h.olderRequests, h'.ahead.trans h.ahead, h'.lastSeq.trans h.lastSeq,
    h'.headSeq.trans h.headSeq, h'.windowStartSeq.trans h.windowStartSeq,
    fun hOpen => (h'.timer (h.isOpen.trans hOpen)).trans (h.timer hOpen), fun hLive => h.status (h'.status hLive),
    obs' ++ obs, ?_, ?_⟩
  · rw [hObs', hObs, List.append_assoc]
  · intro o ho
    rcases List.mem_append.mp ho with ho | ho
    · exact hNone' o ho
    · exact hNone o ho

theorem after {s : ConversationSocket} (h' : Calm t u) (h : Calm s t) : Calm s u := h.trans h'

theorem observe (s : ConversationSocket) {o : Observation} (h : o.isReceived = false) : Calm s (s.observe o) :=
  ⟨rfl, rfl, rfl, rfl, rfl, rfl, rfl, rfl, fun _ => rfl, id, [o], rfl, by simpa using h⟩

end Calm

theorem calm_setStatus (s : ConversationSocket) {status : SocketStatus} (message : Option String)
    (retryable : Bool) (h : status = .live → s.status = .live) : Calm s (s.setStatus status message retryable) := by
  unfold setStatus
  split
  · exact .refl s
  · exact ⟨rfl, rfl, rfl, rfl, rfl, rfl, rfl, rfl, fun _ => rfl, h, [_], rfl, by simp [Observation.isReceived]⟩

theorem calm_takeBudget (env : Env) (reserve : Nat) (s : ConversationSocket) :
    Calm s (s.takeBudget env reserve).1 :=
  .of_core rfl

theorem calm_nextRequest (s : ConversationSocket) : Calm s s.nextRequest :=
  .of_core rfl

/-- A frame handed to `send` now reaches the current WebSocket. -/
def CanSend (env : Env) (s : ConversationSocket) : Prop :=
  s.isOpen = true ∧ env.sendThrows s.requestCounter = false

theorem send_cases (env : Env) (s : ConversationSocket) (frame : ClientFrame) :
    (s.send env frame = (s, false) ∧ ¬ CanSend env s) ∨
      ∃ ws, s.socket = some ws ∧ ws.readyState = .open ∧ env.sendThrows s.requestCounter = false ∧
        s.send env frame = (s.observe (.sent ws.id frame), true) := by
  unfold send CanSend isOpen
  split
  · rename_i hSock
    exact .inl ⟨rfl, by simp [hSock]⟩
  · rename_i ws hSock
    split
    · rename_i hClosed
      exact .inl ⟨rfl, by simp [hSock, hClosed]⟩
    · rename_i hOpen
      split
      · rename_i hThrows
        exact .inl ⟨rfl, by simp [hThrows]⟩
      · rename_i hThrows
        exact .inr ⟨ws, hSock, by simpa using hOpen, by simpa using hThrows, rfl⟩

theorem calm_send (env : Env) (s : ConversationSocket) (frame : ClientFrame) : Calm s (s.send env frame).1 := by
  rcases send_cases env s frame with ⟨h, _⟩ | ⟨ws, _, _, _, h⟩
  · rw [h]
    exact .refl s
  · rw [h]
    exact .observe s rfl

section

variable (s : ConversationSocket)

theorem calm_connect : Calm s s.connect := by
  unfold connect
  split
  · exact .refl s
  · refine (calm_setStatus _ none true (by simp)).after ?_
    exact .of_core rfl

theorem calm_scheduleReconnect (message : Option String) :
    Calm s (s.scheduleReconnect message) := by
  unfold scheduleReconnect
  split
  · exact .refl s
  · have hOffline : Calm s (s.setStatus .offline (message.filter (· ≠ "")) true) :=
      calm_setStatus s _ true (by simp)
    refine hOffline.trans ?_
    exact .of_core rfl

theorem calm_block (message : String) (retryable : Bool) :
    Calm s (s.block message retryable) := by
  refine (calm_setStatus _ _ _ (by simp)).after ?_
  exact .of_core rfl

theorem calm_settleClose (code : Nat) : Calm s (s.settleClose code) := by
  unfold settleClose
  split
  · exact calm_block s _ _
  · split
    · split
      · exact calm_block s _ _
      · refine (calm_scheduleReconnect _ _).after ?_
        exact .of_core rfl
    · exact calm_scheduleReconnect s _

theorem calm_start : Calm s s.start := by
  unfold start
  split
  · exact .refl s
  · refine (calm_connect _).after ?_
    exact .of_core rfl

end

theorem calm_clearTimers {s : ConversationSocket} (h : s.isOpen = false) : Calm s s.clearTimers :=
  ⟨rfl, rfl, rfl, rfl, rfl, rfl, rfl, rfl, fun hOpen => absurd hOpen (by simp [h]), id, [], rfl, by simp⟩

section

variable (s : ConversationSocket)

theorem calm_retryNow : Calm s s.retryNow := by
  have hCleared : Calm s { s with attempt := 0, authRetryUsed := false, noProgressBackfills := 0 } :=
    .of_core rfl
  unfold retryNow
  dsimp only
  split
  · exact hCleared.trans (calm_start _)
  · split
    · exact hCleared
    · rename_i hClosed
      refine hCleared.trans ((calm_clearTimers ?_).trans (calm_connect _))
      unfold isOpen
      cases hSock : s.socket with
      | none => rfl
      | some ws =>
        simp [hSock] at hClosed ⊢
        exact hClosed.2.1

theorem calm_reauthenticate : Calm s s.reauthenticate := by
  unfold reauthenticate
  split
  · exact .refl s
  · exact .of_core rfl

theorem calm_reauthElapsed (isActive : Bool) : Calm s (s.reauthElapsed isActive) := by
  have hFired : Calm s { s with reauthTimer := false } :=
    .of_core rfl
  have hArmed : ∀ t : ConversationSocket, Calm t t.scheduleReauth := fun t =>
    .of_core rfl
  unfold reauthElapsed
  dsimp only
  split
  · exact hFired
  · split
    · exact hFired.trans ((calm_reauthenticate _).trans (hArmed _))
    · exact hFired.trans (hArmed _)

end

theorem calm_reauthenticateWithToken (env : Env) (s : ConversationSocket) (token : Option String) :
    Calm s (s.reauthenticateWithToken env token) := by
  have hDone : ∀ t : ConversationSocket, Calm t { t with reauthInFlight := false } := fun t =>
    .of_core rfl
  unfold reauthenticateWithToken
  dsimp only
  split
  · split
    · exact (calm_send env s _).trans (hDone _)
    · exact hDone s
  · exact hDone s

theorem calm_keepaliveElapsed (env : Env) (s : ConversationSocket) (isActive : Bool) :
    Calm s (s.keepaliveElapsed env isActive) := by
  unfold keepaliveElapsed
  split
  · split
    · exact .refl s
    · exact .observe s rfl
  · exact .refl s

/-- The ping of `wake` throws, and the WebSocket is dropped. -/
def PingFails (env : Env) (s : ConversationSocket) : Prop :=
  s.stopped = false ∧ s.connecting = false ∧ s.isOpen = true ∧ socketStaleMs ≤ env.now - s.lastFrameAtMs ∧
    env.sendThrows s.requestCounter = true

def Replaces (s : ConversationSocket) (token : Option String) (constructorThrows : Bool) : Prop :=
  s.connecting = true ∧ s.stopped = false ∧ token.any isSubprotocolSafe = true ∧ constructorThrows = false

def ResumeAsks (env : Env) (s : ConversationSocket) : Prop :=
  s.lastSeq < s.headSeq ∧ s.gapPending = false ∧ s.resumeRange.1 ≤ s.resumeRange.2 ∧
    (s.takeBudget env 0).2 = true

theorem requestGap_cases (env : Env) (s : ConversationSocket) (throughSeq : Int) :
    (s.requestGap env throughSeq = (s, true) ∧ (s.gapPending = true ∨ throughSeq ≤ s.lastSeq)) ∨
    (∃ t, s.requestGap env throughSeq = (t, false) ∧ Calm s t ∧
      ¬ ((s.takeBudget env 0).2 = true ∧ CanSend env s.nextRequest)) ∨
    (∃ t ws n, s.requestGap env throughSeq = (t.markPending, true) ∧ Calm s t ∧
      s.socket = some ws ∧ Outstanding ws.id (.gap n) t.trace) := by
  unfold requestGap
  dsimp only
  split
  · rename_i hPend
    exact .inl ⟨rfl, .inl hPend⟩
  · split
    · rename_i hRng
      refine .inl ⟨rfl, .inr ?_⟩
      have : maxResumeRecords = 2000 := rfl
      omega
    · have hTaken : Calm s ((s.takeBudget env 0).1.nextRequest) :=
        (calm_takeBudget env 0 s).trans (calm_nextRequest _)
      split
      · rename_i hRef
        exact .inr (.inl ⟨_, rfl, calm_takeBudget env 0 s, fun hAsks => by simp [hAsks.1] at hRef⟩)
      · rcases send_cases env (s.takeBudget env 0).1.nextRequest
            (.backfill (.gap (s.takeBudget env 0).1.nextRequest.requestCounter) (s.lastSeq + 1)
              (min throughSeq (s.lastSeq + 1 + maxResumeRecords - 1))) with ⟨hSend, hCannot⟩ | ⟨ws, hSock, _, _, hSend⟩
        · rw [hSend]
          exact .inr (.inl ⟨_, rfl, hTaken, fun hAsks => hCannot hAsks.2⟩)
        · rw [hSend]
          simp only [Bool.not_true, Bool.false_eq_true, if_false]
          refine .inr (.inr ⟨(s.takeBudget env 0).1.nextRequest.observe (.sent ws.id _), ws, _, rfl,
            hTaken.trans (.observe _ rfl), hTaken.socket ▸ hSock, outstanding_sent _ _ _ _ _⟩)

end ConversationSocket

end Stella.Conversation
