import Stella.Conversation.Socket.Repair

/-! # Repair state does not outlive its connection

`RepairScoped` ties `gapPending` and the keys of `olderRequests` to requests that are outstanding
on the current WebSocket.
-/

namespace Stella.Conversation

open Transition

namespace ConversationSocket

structure RepairScoped (s : ConversationSocket) : Prop where
  gap : s.gapPending = true → ∃ ws n, s.socket = some ws ∧ Outstanding ws.id (.gap n) s.trace
  older : ∀ p ∈ s.olderRequests, ∃ ws n, s.socket = some ws ∧ p.1 = .older n ∧ Outstanding ws.id p.1 s.trace

def Clear (s : ConversationSocket) : Prop := s.gapPending = false ∧ s.olderRequests.isEmpty = true

instance (s : ConversationSocket) : Decidable s.Clear := inferInstanceAs (Decidable (_ ∧ _))

namespace Clear

variable {s t : ConversationSocket}

theorem repairScoped (h : s.Clear) : RepairScoped s :=
  ⟨fun hPend => absurd hPend (by simp [h.1]), fun p hp => absurd hp (by simp [List.isEmpty_iff.mp h.2])⟩

theorem of_eq (h : s.Clear) (hGap : t.gapPending = s.gapPending) (hOlder : t.olderRequests = s.olderRequests) :
    t.Clear :=
  ⟨hGap.trans h.1, by rw [hOlder]; exact h.2⟩

theorem calm (h : s.Clear) (hCalm : Calm s t) : t.Clear := h.of_eq hCalm.gapPending hCalm.olderRequests

theorem forceReconnect (h : s.Clear) : s.forceReconnect.Clear := by
  have hDrop : Clear { s with socket := none }.clearTimers := h
  unfold ConversationSocket.forceReconnect
  dsimp only
  split
  · exact hDrop.calm (calm_connect _)
  · exact hDrop

end Clear

theorem clear_resetStream (s : ConversationSocket) (reason : ResetReason) : (s.resetStream reason).Clear := ⟨rfl, rfl⟩

theorem clear_handleClose (env : Env) (s : ConversationSocket) (code : Nat) : (s.handleClose env code).Clear :=
  Clear.calm ⟨rfl, rfl⟩ (calm_settleClose _ code)

namespace RepairScoped

variable {s t : ConversationSocket}

section

variable (h : RepairScoped s)
include h

theorem extend (hSock : t.socket = s.socket) (hGap : t.gapPending = s.gapPending)
    (hOlder : t.olderRequests = s.olderRequests)
    (hTrace : ∃ obs, t.trace = obs ++ s.trace ∧ ∀ o ∈ obs, o.isReceived = false) : RepairScoped t := by
  obtain ⟨obs, hObs, hNone⟩ := hTrace
  have hKeeps : ∀ {id requestId}, Outstanding id requestId s.trace → Outstanding id requestId t.trace := by
    intro id requestId hOut
    rw [hObs]
    exact outstanding_append (fun o ho => o.answers_of_not_received (hNone o ho) id requestId) hOut
  constructor
  · intro hPend
    obtain ⟨ws, n, hWs, hOut⟩ := h.gap (hGap ▸ hPend)
    exact ⟨ws, n, hSock.trans hWs, hKeeps hOut⟩
  · intro p hp
    obtain ⟨ws, n, hWs, hKey, hOut⟩ := h.older p (hOlder ▸ hp)
    exact ⟨ws, n, hSock.trans hWs, hKey, hKeeps hOut⟩

theorem calm (hCalm : Calm s t) : RepairScoped t :=
  h.extend hCalm.socket hCalm.gapPending hCalm.olderRequests hCalm.trace

theorem of_eq (hSock : t.socket = s.socket) (hGap : t.gapPending = s.gapPending)
    (hOlder : t.olderRequests = s.olderRequests) (hTrace : t.trace = s.trace) : RepairScoped t :=
  h.extend hSock hGap hOlder ⟨[], hTrace, by simp⟩

theorem observe {o : Observation} (hNone : o.isReceived = false) :
    RepairScoped (s.observe o) :=
  h.calm (.observe s hNone)

theorem setStatus (status : SocketStatus) (message : Option String) (retryable : Bool) :
    RepairScoped (s.setStatus status message retryable) := by
  unfold ConversationSocket.setStatus
  split
  · exact h
  · exact h.extend rfl rfl rfl ⟨[_], rfl, by simp [Observation.isReceived]⟩

theorem requestGap (env : Env) (throughSeq : Int) :
    RepairScoped (s.requestGap env throughSeq).1 := by
  rcases requestGap_cases env s throughSeq with ⟨hEq, _⟩ | ⟨t, hEq, hCalm, _⟩ | ⟨t, ws, n, hEq, hCalm, hSock, hOut⟩
  · rw [hEq]
    exact h
  · rw [hEq]
    exact h.calm hCalm
  · rw [hEq]
    exact ⟨fun _ => ⟨ws, n, hCalm.socket.trans hSock, hOut⟩, (h.calm hCalm).older⟩

theorem collect (env : Env) (applied : List JournalRecord) (record : JournalRecord) :
    RepairScoped (s.collect env applied record).1 := by
  have hAnchored : RepairScoped s.anchored := by
    unfold ConversationSocket.anchored
    split
    · exact h.of_eq rfl rfl rfl rfl
    · exact h
  unfold ConversationSocket.collect
  dsimp only
  split
  · exact hAnchored
  · split
    · split
      · exact (clear_resetStream _ _).forceReconnect.repairScoped
      · exact requestGap (s := s.anchored.buffer record) (hAnchored.of_eq rfl rfl rfl rfl) env _
    · exact hAnchored.of_eq rfl rfl rfl rfl

theorem collectAll (env : Env) (applied records : List JournalRecord) :
    RepairScoped (s.collectAll env applied records).1 := by
  induction records generalizing s applied with
  | nil => exact h
  | cons record rest ih => exact ih (h.collect env applied record) _

theorem flush (applied : List JournalRecord) : RepairScoped (s.flush applied) := by
  unfold ConversationSocket.flush
  split
  · exact h
  · exact h.extend rfl rfl rfl ⟨[_], rfl, by simp [Observation.isReceived]⟩

theorem receive (env : Env) (id : Nat) (frame : ServerFrame)
    (hFrame : ∀ reply, frame ≠ .backfill reply) : RepairScoped (s.receive env id frame) := by
  have hKeeps : ∀ {ws requestId}, Outstanding ws requestId s.trace →
      Outstanding ws requestId (.received id frame :: s.trace) := by
    intro ws requestId hOut
    refine .inr ⟨?_, hOut⟩
    cases frame with
    | backfill reply => exact absurd rfl (hFrame reply)
    | _ => rfl
  constructor
  · intro hPend
    obtain ⟨ws, n, hSock, hOut⟩ := h.gap hPend
    exact ⟨ws, n, hSock, hKeeps hOut⟩
  · intro p hp
    obtain ⟨ws, n, hSock, hKey, hOut⟩ := h.older p hp
    exact ⟨ws, n, hSock, hKey, hKeeps hOut⟩

theorem receive_reply (env : Env) (id : Nat) (frame : BackfillFrame) :
    (s.gapPending = true → (∀ n, frame.requestId ≠ .gap n) →
      ∃ ws n, s.socket = some ws ∧ Outstanding ws.id (.gap n) (s.receive env id (.backfill frame)).trace) ∧
    ∀ p ∈ s.olderRequests, p.1 ≠ frame.requestId →
      ∃ ws n, s.socket = some ws ∧ p.1 = .older n ∧
        Outstanding ws.id p.1 (s.receive env id (.backfill frame)).trace := by
  constructor
  · intro hPend hOther
    obtain ⟨ws, n, hSock, hOut⟩ := h.gap hPend
    exact ⟨ws, n, hSock, .inr ⟨by simp [Observation.answers, hOther n], hOut⟩⟩
  · intro p hp hOther
    obtain ⟨ws, n, hSock, hKey, hOut⟩ := h.older p hp
    exact ⟨ws, n, hSock, hKey, .inr ⟨by simp [Observation.answers, hOther.symm], hOut⟩⟩

variable {frame : BackfillFrame} {request : OlderRequest}

theorem forgetOlder (env : Env) (id : Nat)
    (hReq : s.olderRequestOf frame.requestId = some request) :
    RepairScoped ((s.receive env id (.backfill frame)).forgetOlder frame.requestId) := by
  obtain ⟨p, hFind, -⟩ := Option.map_eq_some_iff.mp hReq
  have hKeyEq : p.1 = frame.requestId := by simpa using List.find?_some hFind
  obtain ⟨-, m, -, hKey, -⟩ := h.older p (List.mem_of_find?_eq_some hFind)
  obtain ⟨hGap, hOlder⟩ := h.receive_reply env id frame
  constructor
  · intro hPend
    refine hGap hPend (fun n hEq => ?_)
    rw [hEq, hKey] at hKeyEq
    cases hKeyEq
  · intro q hq
    obtain ⟨hMem, hNe⟩ := List.mem_filter.mp hq
    exact hOlder q hMem (by simpa using hNe)

theorem gapAnswered (env : Env) (id : Nat)
    (hNone : s.olderRequestOf frame.requestId = none) :
    RepairScoped { s.receive env id (.backfill frame) with gapPending := false } := by
  obtain ⟨-, hOlder⟩ := h.receive_reply env id frame
  refine ⟨fun hPend => (by simp at hPend), fun p hp => hOlder p hp (fun hEq => ?_)⟩
  have hFind := Option.map_eq_none_iff.mp hNone
  exact absurd (List.find?_eq_none.mp hFind p hp) (by simp [hEq])

theorem addOlder {ws : WebSocket} (hSock : s.socket = some ws) (n : Nat)
    (request : OlderRequest) (hOut : Outstanding ws.id (.older n) s.trace) :
    RepairScoped { s with olderRequests := s.olderRequests ++ [(.older n, request)] } := by
  refine ⟨h.gap, fun p hp => ?_⟩
  rcases List.mem_append.mp hp with hp | hp
  · exact h.older p hp
  · obtain rfl := List.mem_singleton.mp hp
    exact ⟨ws, n, hSock, rfl, hOut⟩

theorem handleOlder (env : Env) (id : Nat)
    (hReq : s.olderRequestOf frame.requestId = some request) :
    RepairScoped ((s.receive env id (.backfill frame)).handleOlder env request frame) := by
  have hForgotten := h.forgetOlder env id hReq
  have hTaken : ∀ t : ConversationSocket, RepairScoped t → RepairScoped (t.nextRequest.takeBudget env 4).1 :=
    fun t ht => (ht.calm (calm_nextRequest t)).calm (calm_takeBudget env 4 _)
  unfold ConversationSocket.handleOlder
  dsimp only
  split
  · split
    · exact (hTaken _ hForgotten).observe rfl
    · split
      · exact ((hTaken _ hForgotten).calm (calm_send env _ _)).observe rfl
      · rename_i hDelivered
        rcases send_cases env _ _ with ⟨hSend, _⟩ | ⟨ws, hSock, _, _, hSend⟩
        · rw [hSend] at hDelivered
          simp at hDelivered
        · rw [hSend]
          exact ((hTaken _ hForgotten).observe rfl).addOlder hSock _ _ (outstanding_sent _ _ _ _ _)
  · exact hForgotten.observe rfl

theorem requestOlderRange (env : Env) (fromSeq toSeq : Int) :
    RepairScoped (s.requestOlderRange env fromSeq toSeq).1 := by
  have hTaken := h.calm (calm_takeBudget env 4 s)
  have hNext := hTaken.calm (calm_nextRequest _)
  unfold ConversationSocket.requestOlderRange
  dsimp only
  split
  · exact h
  · split
    · exact hTaken
    · split
      · exact hNext.calm (calm_send env _ _)
      · rename_i hDelivered
        rcases send_cases env _ _ with ⟨hSend, _⟩ | ⟨ws, hSock, _, _, hSend⟩
        · rw [hSend] at hDelivered
          simp at hDelivered
        · rw [hSend]
          exact (hNext.observe rfl).addOlder hSock _ _ (outstanding_sent _ _ _ _ _)

end

end RepairScoped

def GivesUp (env : Env) (s : ConversationSocket) (before toSeq : Int) : Prop :=
  s.lastSeq < s.throughSeq toSeq ∧
    ((s.lastSeq ≤ before ∧ maxNoProgressBackfills ≤ s.noProgressBackfills + 1) ∨
      (s.gapPending = false ∧ ((s.noteProgress before).requestGap env (s.throughSeq toSeq)).2 = false))

/-- The condition on one step: a WebSocket is dropped or replaced without `onclose` only while
nothing is pending, a resume request is really sent, and a recovery is given up only while no
scrollback request is in flight. -/
def KeepsRepair (s : ConversationSocket) : Env × Input → Prop
  | (_, .stop) => s.Clear
  | (env, .wake) => PingFails env s → s.Clear
  | (_, .token token constructorThrows) => Replaces s token constructorThrows → s.Clear
  | (_, .probeTimer) => s.probeTimer = some s.lastFrameAtMs → s.Clear
  | (env, .resumeTimer) => s.resumeTimer = true → ResumeAsks env s → CanSend env s.nextRequest
  | (env, .message (some (.backfill frame))) =>
    ∀ id, s.socket = some ⟨id, .open⟩ → s.olderRequestOf frame.requestId = none →
      GivesUp env ((s.receive env id (.backfill frame)).placeReply env frame) s.lastSeq frame.toSeq →
      ((s.receive env id (.backfill frame)).placeReply env frame).olderRequests.isEmpty = true
  | _ => True

namespace RepairScoped

variable {s t : ConversationSocket}

theorem failGapRecovery (h : s.olderRequests.isEmpty = true) : RepairScoped s.failGapRecovery := by
  have hClear : Clear { { s with socket := none, stopped := true }.clearTimers with gapPending := false } := ⟨rfl, h⟩
  exact hClear.repairScoped.setStatus _ _ _

section

variable (h : RepairScoped s)
include h

theorem settleReply (env : Env) (before toSeq : Int)
    (hGivesUp : GivesUp env s before toSeq → s.olderRequests.isEmpty = true) :
    RepairScoped (s.settleReply env before toSeq) := by
  have hNoted : RepairScoped (s.noteProgress before) := h.of_eq rfl rfl rfl rfl
  unfold ConversationSocket.settleReply
  split
  · exact h.of_eq rfl rfl rfl rfl
  · rename_i hShort
    split
    · rename_i hStuck
      exact failGapRecovery (hGivesUp ⟨by omega, .inl ⟨by omega, hStuck.2⟩⟩)
    · unfold ConversationSocket.repairOrFail
      dsimp only
      split
      · exact hNoted
      · rename_i hPend
        split
        · exact hNoted.requestGap env _
        · rename_i hRef
          have hEmpty := hGivesUp ⟨by omega, .inr ⟨Bool.eq_false_iff.mpr hPend, by simpa using hRef⟩⟩
          refine failGapRecovery ?_
          rcases requestGap_cases env (s.noteProgress before) (s.throughSeq toSeq) with
            ⟨hEq, _⟩ | ⟨t, hEq, hCalm, _⟩ | ⟨t, ws, n, hEq, _⟩
          · rw [hEq]
            exact hEmpty
          · rw [hEq, hCalm.olderRequests]
            exact hEmpty
          · exact absurd (by rw [hEq]) hRef

theorem handleGapReply (env : Env) (id : Nat) {frame : BackfillFrame}
    (hNone : s.olderRequestOf frame.requestId = none)
    (hGivesUp : GivesUp env ((s.receive env id (.backfill frame)).placeReply env frame) s.lastSeq frame.toSeq →
      ((s.receive env id (.backfill frame)).placeReply env frame).olderRequests.isEmpty = true) :
    RepairScoped ((s.receive env id (.backfill frame)).handleGapReply env frame) :=
  (((h.gapAnswered env id hNone).collectAll env [] frame.records).flush _).settleReply env _ _ hGivesUp

theorem openStream (ready : ReadyFrame) : RepairScoped (s.openStream ready) := by
  unfold ConversationSocket.openStream
  split
  · exact (clear_resetStream s .window).forceReconnect.repairScoped
  · exact ((h.observe rfl).setStatus _ _ _).of_eq rfl rfl rfl rfl

theorem handleReady (env : Env) (ready : ReadyFrame) :
    RepairScoped (s.handleReady env ready) := by
  have hAdopted : RepairScoped (s.adopted env ready) := by
    unfold adopted learnReauthPeriod
    dsimp only
    split <;> exact h.of_eq rfl rfl rfl rfl
  unfold ConversationSocket.handleReady
  split
  · exact (clear_resetStream _ _).repairScoped.openStream ready
  · split
    · exact (clear_resetStream _ _).repairScoped.openStream ready
    · exact hAdopted.openStream ready

theorem handleFrame (env : Env) {id : Nat} (hSock : s.socket = some ⟨id, .open⟩)
    {frame : ServerFrame} (hKeeps : KeepsRepair s (env, .message (some frame))) :
    RepairScoped ((s.receive env id frame).handleFrame env frame) := by
  cases frame with
  | ready ready => exact (h.receive env id (.ready ready) (by simp)).handleReady env ready
  | record record =>
    exact ((h.receive env id (.record record) (by simp)).collect env [] record).flush _
  | backfill frame =>
    change RepairScoped ((s.receive env id (.backfill frame)).handleBackfill env frame)
    unfold ConversationSocket.handleBackfill
    split
    · rename_i request hReq
      exact h.handleOlder env id hReq
    · rename_i hNone
      exact h.handleGapReply env id hNone (hKeeps id hSock hNone)
  | gap fromSeq toSeq => exact (h.receive env id (.gap fromSeq toSeq) (by simp)).observe rfl
  | reset reason => exact (clear_resetStream _ reason).repairScoped
  | tool frame => exact (h.receive env id (.tool frame) (by simp)).observe rfl
  | agents => exact (h.receive env id .agents (by simp)).observe rfl
  | authExpiring =>
    exact (h.receive env id .authExpiring (by simp)).calm (calm_reauthenticate _)
  | error message retryable =>
    exact (h.receive env id (.error message retryable) (by simp)).setStatus _ _ _

theorem wake (env : Env) (hPing : PingFails env s → s.Clear) : RepairScoped (s.wake env) := by
  have hReconnect : ∀ t : ConversationSocket, RepairScoped t → RepairScoped { t with attempt := 0 }.clearTimers.connect :=
    fun t ht => (ht.of_eq (t := { t with attempt := 0 }.clearTimers) rfl rfl rfl rfl).calm (calm_connect _)
  unfold ConversationSocket.wake
  split
  · exact h
  · rename_i hStopped
    split
    · exact h
    · rename_i hConnecting
      split
      · rename_i ws hSock
        split
        · exact hReconnect s h
        · rename_i hOpen
          split
          · exact h
          · rename_i hStale
            split
            · rename_i hThrows
              refine (hPing ⟨by simpa using hStopped, ?_, ?_, by omega, hThrows⟩).forceReconnect.repairScoped
              · simp only [Bool.or_eq_true, not_or] at hConnecting
                exact Bool.eq_false_iff.mpr hConnecting.1
              · unfold isOpen
                rw [hSock]
                simpa using hOpen
            · exact h.extend rfl rfl rfl ⟨[.ping ws.id], rfl, by simp [Observation.isReceived]⟩
      · exact hReconnect s h

theorem probeElapsed (probedAt : Int) (hProbe : s.lastFrameAtMs = probedAt → s.Clear) :
    RepairScoped (s.probeElapsed probedAt) := by
  unfold ConversationSocket.probeElapsed
  dsimp only
  split
  · rename_i hSilent
    exact (Clear.of_eq (t := { s with probeTimer := none }) (hProbe hSilent) rfl rfl).forceReconnect.repairScoped
  · exact h.of_eq rfl rfl rfl rfl

theorem resumeGraceElapsed (env : Env) (hAsks : ResumeAsks env s → CanSend env s.nextRequest) :
    RepairScoped (s.resumeGraceElapsed env) := by
  have hFired : RepairScoped s.disarmResume := h.of_eq rfl rfl rfl rfl
  have hTaken := hFired.calm (calm_takeBudget env 0 _)
  unfold ConversationSocket.resumeGraceElapsed
  dsimp only
  split
  · exact hFired
  · rename_i hBehind
    split
    · exact hFired
    · rename_i hPend
      split
      · exact hFired
      · rename_i hRng
        split
        · exact hTaken
        · rename_i hGranted
          have hBudget : (s.disarmResume.takeBudget env 0).2 = true := by simpa using hGranted
          obtain ⟨hOpen, hThrows⟩ := hAsks ⟨Int.not_le.mp hBehind, Bool.eq_false_iff.mpr hPend,
            Int.not_lt.mp hRng, hBudget⟩
          unfold ConversationSocket.send
          split
          · rename_i hNone
            have hSock : s.socket = none := hNone
            simp [isOpen, nextRequest, hSock] at hOpen
          · rename_i ws hSome
            have hSock : s.socket = some ws := hSome
            have hSt : ws.readyState = .open := by simpa [isOpen, nextRequest, hSock] using hOpen
            rw [if_neg (by simp [hSt]), if_neg (by rw [Bool.not_eq_true]; exact hThrows)]
            exact ⟨fun _ => ⟨ws, _, hSock, outstanding_sent _ _ _ _ _⟩, (hTaken.observe rfl).older⟩

theorem connectWithToken (env : Env) (token : Option String) (constructorThrows : Bool)
    (hReplaces : Replaces s token constructorThrows → s.Clear) :
    RepairScoped (s.connectWithToken env token constructorThrows) := by
  have hSettled : RepairScoped { s with connecting := false } := h.of_eq rfl rfl rfl rfl
  unfold ConversationSocket.connectWithToken
  split
  · exact h
  · rename_i hConnecting
    split
    · exact hSettled
    · rename_i hStopped
      split
      · exact hSettled.calm (calm_scheduleReconnect _ _)
      · rename_i hTok
        split
        · exact hSettled.calm (calm_scheduleReconnect _ _)
        · rename_i hThrows
          have hClear := hReplaces ⟨by simpa using hConnecting, by simpa using hStopped, by simpa using hTok,
            by simpa using hThrows⟩
          exact Clear.repairScoped ⟨hClear.1, hClear.2⟩

theorem step (stimulus : Env × Input) (hKeeps : KeepsRepair s stimulus) :
    RepairScoped (s.step stimulus) := by
  obtain ⟨env, input⟩ := stimulus
  cases input with
  | start => exact h.calm (calm_start s)
  | stop =>
    have hClear : Clear { { s with stopped := true }.clearTimers with socket := none } := hKeeps
    exact hClear.repairScoped.setStatus _ _ _
  | retryNow => exact h.calm (calm_retryNow s)
  | requestOlder oldestHeldSeq =>
    change RepairScoped (s.requestOlder env oldestHeldSeq).1
    unfold ConversationSocket.requestOlder
    dsimp only
    split
    · exact h
    · exact h.requestOlderRange env _ _
  | requestOlderRange fromSeq toSeq => exact h.requestOlderRange env fromSeq toSeq
  | cancelTurn turnId => exact h.calm (calm_send env s _)
  | wake => exact h.wake env hKeeps
  | token token constructorThrows => exact h.connectWithToken env token constructorThrows hKeeps
  | opened =>
    change RepairScoped (s.onOpen env)
    unfold ConversationSocket.onOpen
    split
    · rename_i id hSock
      refine ⟨fun hPend => ?_, fun p hp => ?_⟩
      · obtain ⟨ws, n, hWs, hOut⟩ := h.gap hPend
        obtain rfl : ws = ⟨id, .connecting⟩ := Option.some.inj (hWs.symm.trans hSock)
        exact ⟨_, n, rfl, hOut⟩
      · obtain ⟨ws, n, hWs, hKey, hOut⟩ := h.older p hp
        obtain rfl : ws = ⟨id, .connecting⟩ := Option.some.inj (hWs.symm.trans hSock)
        exact ⟨_, n, rfl, hKey, hOut⟩
    · exact h
  | closing =>
    refine ⟨fun hPend => ?_, fun p hp => ?_⟩
    · obtain ⟨ws, n, hWs, hOut⟩ := h.gap hPend
      exact ⟨{ ws with readyState := .closing }, n, by simp [ConversationSocket.step, hWs], hOut⟩
    · obtain ⟨ws, n, hWs, hKey, hOut⟩ := h.older p hp
      exact ⟨{ ws with readyState := .closing }, n, by simp [ConversationSocket.step, hWs], hKey, hOut⟩
  | message frame =>
    change RepairScoped (s.onMessage env frame)
    unfold ConversationSocket.onMessage
    split
    · exact h
    · rename_i ws hSock
      split
      · exact h
      · rename_i hOpen
        obtain ⟨id, readyState⟩ := ws
        obtain rfl : readyState = .open := by simpa using hOpen
        cases frame with
        | none => exact h.of_eq rfl rfl rfl rfl
        | some frame => exact h.handleFrame env hSock hKeeps
  | closed code =>
    change RepairScoped (s.onClose env code)
    unfold ConversationSocket.onClose
    split
    · exact (clear_handleClose env _ code).repairScoped
    · exact h
  | reconnectTimer =>
    change RepairScoped (if s.reconnectTimer then { s with reconnectTimer := false }.connect else s)
    split
    · exact (h.of_eq (t := { s with reconnectTimer := false }) rfl rfl rfl rfl).calm (calm_connect _)
    · exact h
  | resumeTimer =>
    change RepairScoped (if s.resumeTimer then s.resumeGraceElapsed env else s)
    split
    · rename_i hArmed
      exact h.resumeGraceElapsed env (hKeeps hArmed)
    · exact h
  | probeTimer =>
    unfold ConversationSocket.step
    dsimp only
    split
    · rename_i probedAt hProbe
      exact h.probeElapsed probedAt (fun hSilent => hKeeps (by rw [hProbe, hSilent]))
    · exact h
  | keepaliveTimer isActive =>
    change RepairScoped (if s.keepaliveTimer then s.keepaliveElapsed env isActive else s)
    split
    · exact h.calm (calm_keepaliveElapsed env s isActive)
    · exact h
  | reauthTimer isActive =>
    change RepairScoped (if s.reauthTimer then s.reauthElapsed isActive else s)
    split
    · exact h.calm (calm_reauthElapsed s isActive)
    · exact h
  | reauthToken token => exact h.calm (calm_reauthenticateWithToken env s token)

end

end RepairScoped

theorem clear_create (initialCursor : Option ConversationSocketCursor) (now : Int) :
    (create initialCursor now).Clear := by
  unfold create
  split
  · exact ⟨rfl, rfl⟩
  · split <;> exact ⟨rfl, rfl⟩

/-- In every run whose steps meet the condition, repair state belongs to the current connection. -/
theorem repair_scoped (initialCursor : Option ConversationSocketCursor) (now : Int) (inputs : List (Env × Input))
    (h : Along ConversationSocket.step KeepsRepair (create initialCursor now) inputs) :
    RepairScoped (run ConversationSocket.step (create initialCursor now) inputs) :=
  run_invariant (fun _ stimulus hInv hKeeps => hInv.step stimulus hKeeps)
    (clear_create initialCursor now).repairScoped h

def repairRun : List (Env × Input) :=
  connectWith 0 { epoch := 1, headSeq := 5, windowStartSeq := 0, floorSeq := 0 } ++
    [(⟨0, fun _ => false⟩, .message (some (.record (skippedRow 3)))),
      (⟨0, fun _ => false⟩, .message (some (.backfill ⟨.gap 1, 0, 2, true, [skippedRow 0]⟩)))]

theorem repair_scoped_repairRun :
    (run ConversationSocket.step (create none 0) repairRun).gapPending = true ∧
      RepairScoped (run ConversationSocket.step (create none 0) repairRun) := by
  refine ⟨by decide, repair_scoped none 0 repairRun ?_⟩
  exact ⟨trivial, fun _ => by decide, trivial, trivial, trivial, fun _ _ _ _ => rfl, trivial⟩

def probeRun : List (Env × Input) :=
  connectWith 0 { epoch := 1, headSeq := 5, windowStartSeq := 0, floorSeq := 0 } ++
    [(⟨0, fun _ => false⟩, .message (some (.record (skippedRow 3)))), (⟨100000, fun _ => false⟩, .wake),
      (⟨110000, fun _ => false⟩, .probeTimer), (⟨110000, fun _ => false⟩, .token (some "token") false),
      (⟨110000, fun _ => false⟩, .opened)]

/-- On the replacement nothing was ever sent, yet a gap request counts as pending. -/
theorem probeRun_not_repairScoped :
    ¬ RepairScoped (run ConversationSocket.step (create none 0) probeRun) := by
  intro h
  have hPending : (run ConversationSocket.step (create none 0) probeRun).gapPending = true := by decide
  have hCurrent : (run ConversationSocket.step (create none 0) probeRun).socket = some ⟨1, .open⟩ := by decide
  have hUnsent : ∀ o ∈ (run ConversationSocket.step (create none 0) probeRun).trace, o.sentOn 1 = false := by decide
  obtain ⟨ws, n, hSocket, hOut⟩ := h.gap hPending
  obtain rfl : ws = ⟨1, .open⟩ := Option.some.inj (hSocket.symm.trans hCurrent)
  obtain ⟨fromSeq, toSeq, hSent⟩ := hOut.sent
  cases hUnsent _ hSent

end ConversationSocket

end Stella.Conversation
