import Stella.Conversation.Socket.Trace

/-! # Callbacks that leave the record stream alone

Connecting, closing, timers, scrollback and gap requests neither move the cursor nor emit
records.
-/

namespace Stella.Conversation

namespace ConversationSocket

/-- The record stream is untouched: same cursor and window, no new buffered record, and
nothing in the trace that the stream depends on. -/
structure Quiet (s t : ConversationSocket) : Prop where
  lastSeq : t.lastSeq = s.lastSeq
  windowStartSeq : t.windowStartSeq = s.windowStartSeq
  ahead : t.ahead ⊆ s.ahead
  trace : ∃ obs, t.trace = obs ++ s.trace ∧ ∀ o ∈ obs, o.Silent

namespace Quiet

theorem of_eq {s t : ConversationSocket} (hLast : t.lastSeq = s.lastSeq)
    (hWin : t.windowStartSeq = s.windowStartSeq) (hAhead : t.ahead = s.ahead)
    (hTrace : t.trace = s.trace) : Quiet s t :=
  ⟨hLast, hWin, by simp [hAhead], [], by simp [hTrace], by simp⟩

theorem refl (s : ConversationSocket) : Quiet s s := of_eq rfl rfl rfl rfl

theorem trans {s t u : ConversationSocket} (h : Quiet s t) (h' : Quiet t u) : Quiet s u := by
  obtain ⟨obs, hObs, hSilent⟩ := h.trace
  obtain ⟨obs', hObs', hSilent'⟩ := h'.trace
  refine ⟨h'.lastSeq.trans h.lastSeq, h'.windowStartSeq.trans h.windowStartSeq,
    fun _ hr => h.ahead (h'.ahead hr), obs' ++ obs, ?_, ?_⟩
  · rw [hObs', hObs, List.append_assoc]
  · intro o ho
    rcases List.mem_append.mp ho with ho | ho
    · exact hSilent' o ho
    · exact hSilent o ho

theorem after {s t u : ConversationSocket} (h' : Quiet t u) (h : Quiet s t) : Quiet s u := h.trans h'

theorem observe (s : ConversationSocket) {o : Observation} (h : o.Silent) : Quiet s (s.observe o) :=
  ⟨rfl, rfl, fun _ hr => hr, [o], rfl, by simpa using h⟩

end Quiet

theorem quiet_setStatus (s : ConversationSocket) (status : SocketStatus) (message : Option String)
    (retryable : Bool) : Quiet s (s.setStatus status message retryable) := by
  unfold setStatus
  split
  · exact .refl s
  · exact Quiet.after (.observe _ ⟨rfl, rfl, rfl, rfl⟩) (.of_eq rfl rfl rfl rfl)

theorem quiet_clearTimers (s : ConversationSocket) : Quiet s s.clearTimers := .of_eq rfl rfl rfl rfl

theorem quiet_send (env : Env) (s : ConversationSocket) (frame : ClientFrame) :
    Quiet s (s.send env frame).1 := by
  unfold send
  split
  · exact .refl s
  · split
    · exact .refl s
    · split
      · exact .refl s
      · exact .observe _ ⟨rfl, rfl, rfl, rfl⟩

theorem quiet_takeBudget (env : Env) (reserve : Nat) (s : ConversationSocket) :
    Quiet s (s.takeBudget env reserve).1 := .of_eq rfl rfl rfl rfl

section

variable (s : ConversationSocket)

theorem quiet_connect : Quiet s s.connect := by
  unfold connect
  split
  · exact .refl s
  · exact Quiet.after (quiet_setStatus _ _ _ _) (.of_eq rfl rfl rfl rfl)

theorem quiet_scheduleReconnect (message : Option String) :
    Quiet s (s.scheduleReconnect message) := by
  unfold scheduleReconnect
  split
  · exact .refl s
  · exact Quiet.trans (quiet_setStatus s _ _ _) (.of_eq rfl rfl rfl rfl)

theorem quiet_forceReconnect : Quiet s s.forceReconnect := by
  unfold forceReconnect
  have hDrop : Quiet s { s with socket := none }.clearTimers := .of_eq rfl rfl rfl rfl
  dsimp only
  split
  · exact hDrop.trans (quiet_connect _)
  · exact hDrop

end

theorem quiet_connectWithToken (env : Env) (s : ConversationSocket) (token : Option String)
    (constructorThrows : Bool) : Quiet s (s.connectWithToken env token constructorThrows) := by
  have hDone : Quiet s { s with connecting := false } := .of_eq rfl rfl rfl rfl
  unfold connectWithToken
  split
  · exact .refl s
  · split
    · exact hDone
    · split
      · exact hDone.trans (quiet_scheduleReconnect _ _)
      · split
        · exact hDone.trans (quiet_scheduleReconnect _ _)
        · exact Quiet.after (.observe _ ⟨rfl, rfl, rfl, rfl⟩) (.of_eq rfl rfl rfl rfl)

section

variable (s : ConversationSocket)

theorem quiet_start : Quiet s s.start := by
  unfold start
  split
  · exact .refl s
  · exact Quiet.after (quiet_connect _) (.of_eq rfl rfl rfl rfl)

theorem quiet_stop : Quiet s s.stop :=
  Quiet.after (quiet_setStatus _ _ _ _) (.of_eq rfl rfl rfl rfl)

theorem quiet_retryNow : Quiet s s.retryNow := by
  have hCleared : Quiet s { s with attempt := 0, authRetryUsed := false, noProgressBackfills := 0 } :=
    .of_eq rfl rfl rfl rfl
  unfold retryNow
  dsimp only
  split
  · exact hCleared.trans (quiet_start _)
  · split
    · exact hCleared
    · exact hCleared.trans ((quiet_clearTimers _).trans (quiet_connect _))

theorem quiet_forgetConnection : Quiet s s.forgetConnection :=
  ⟨rfl, rfl, by simp [forgetConnection], [], rfl, by simp⟩

theorem quiet_block (message : String) (retryable : Bool) :
    Quiet s (s.block message retryable) := (quiet_setStatus _ _ _ _).after (.of_eq rfl rfl rfl rfl)

theorem quiet_settleClose (code : Nat) : Quiet s (s.settleClose code) := by
  unfold settleClose
  split
  · exact quiet_block s _ _
  · split
    · split
      · exact quiet_block s _ _
      · exact (quiet_scheduleReconnect _ _).after (.of_eq rfl rfl rfl rfl)
    · exact quiet_scheduleReconnect s _

end

theorem quiet_handleClose (env : Env) (s : ConversationSocket) (code : Nat) :
    Quiet s (s.handleClose env code) :=
  (quiet_settleClose _ code).after ((quiet_forgetConnection _).trans (.of_eq rfl rfl rfl rfl))

theorem quiet_armResumeGrace (s : ConversationSocket) : Quiet s s.armResumeGrace := .of_eq rfl rfl rfl rfl

theorem quiet_resumeGraceElapsed (env : Env) (s : ConversationSocket) :
    Quiet s (s.resumeGraceElapsed env) := by
  have hFired : Quiet s s.disarmResume := .of_eq rfl rfl rfl rfl
  unfold resumeGraceElapsed
  dsimp only
  split
  · exact hFired
  · split
    · exact hFired
    · split
      · exact hFired
      · split
        · exact hFired.trans (quiet_takeBudget env 0 _)
        · exact hFired.trans ((quiet_takeBudget env 0 _).trans
            (Quiet.after (quiet_send env _ _) (.of_eq rfl rfl rfl rfl)))

theorem quiet_requestGap (env : Env) (s : ConversationSocket) (throughSeq : Int) :
    Quiet s (s.requestGap env throughSeq).1 := by
  unfold requestGap
  dsimp only
  split
  · exact .refl s
  · split
    · exact .refl s
    · split
      · exact quiet_takeBudget env 0 s
      · have hSent : ∀ frame, Quiet s (((s.takeBudget env 0).1.nextRequest).send env frame).1 := fun frame =>
          (quiet_takeBudget env 0 s).trans (Quiet.after (quiet_send env _ frame) (.of_eq rfl rfl rfl rfl))
        split
        · exact hSent _
        · exact (hSent _).trans (.of_eq rfl rfl rfl rfl)

theorem quiet_failGapRecovery (s : ConversationSocket) : Quiet s s.failGapRecovery :=
  Quiet.after (quiet_setStatus _ _ _ _) (.of_eq rfl rfl rfl rfl)

theorem quiet_noteProgress (s : ConversationSocket) (before : Int) : Quiet s (s.noteProgress before) :=
  .of_eq rfl rfl rfl rfl

section

variable (env : Env)

theorem quiet_settleReply (s : ConversationSocket) (before toSeq : Int) :
    Quiet s (s.settleReply env before toSeq) := by
  have hNoted := quiet_noteProgress s before
  unfold settleReply
  split
  · exact .of_eq rfl rfl rfl rfl
  · split
    · exact hNoted.trans (quiet_failGapRecovery _)
    · unfold repairOrFail
      dsimp only
      split
      · exact hNoted
      · have hReq := hNoted.trans (quiet_requestGap env (s.noteProgress before) (s.throughSeq toSeq))
        split
        · exact hReq
        · exact hReq.trans (quiet_failGapRecovery _)

theorem quiet_handleOlder (s : ConversationSocket) (request : OlderRequest)
    (frame : BackfillFrame) : Quiet s (s.handleOlder env request frame) := by
  have hForget : Quiet s (s.forgetOlder frame.requestId) := .of_eq rfl rfl rfl rfl
  have hAns : ∀ (t : ConversationSocket) records complete fromSeq toSeq, Quiet s t →
      Quiet s (t.onEvent (.older records complete fromSeq toSeq)) :=
    fun t _ _ _ _ h => h.trans (.observe t ⟨rfl, rfl, rfl, rfl⟩)
  unfold handleOlder
  dsimp only
  split
  · have hTaken : Quiet s ((s.forgetOlder frame.requestId).nextRequest.takeBudget env 4).1 :=
      hForget.trans (Quiet.after (quiet_takeBudget env 4 _) (.of_eq rfl rfl rfl rfl))
    split
    · exact hAns _ _ _ _ _ hTaken
    · split
      · exact hAns _ _ _ _ _ (hTaken.trans (quiet_send env _ _))
      · exact (hTaken.trans (quiet_send env _ _)).trans (.of_eq rfl rfl rfl rfl)
  · exact hAns _ _ _ _ _ hForget

theorem quiet_requestOlderRange (s : ConversationSocket) (fromSeq toSeq : Int) :
    Quiet s (s.requestOlderRange env fromSeq toSeq).1 := by
  unfold requestOlderRange
  dsimp only
  split
  · exact .refl s
  · split
    · exact quiet_takeBudget env 4 s
    · have hSent : ∀ frame, Quiet s (((s.takeBudget env 4).1.nextRequest).send env frame).1 := fun frame =>
        (quiet_takeBudget env 4 s).trans (Quiet.after (quiet_send env _ frame) (.of_eq rfl rfl rfl rfl))
      split
      · exact hSent _
      · exact (hSent _).trans (.of_eq rfl rfl rfl rfl)

theorem quiet_requestOlder (s : ConversationSocket) (oldestHeldSeq : Int) :
    Quiet s (s.requestOlder env oldestHeldSeq).1 := by
  unfold requestOlder
  split
  · exact .refl s
  · exact quiet_requestOlderRange env s _ _

theorem quiet_wake (s : ConversationSocket) : Quiet s (s.wake env) := by
  have hReconnect : Quiet s { s with attempt := 0 }.clearTimers.connect :=
    Quiet.after (quiet_connect _) (.of_eq rfl rfl rfl rfl)
  unfold wake
  split
  · exact .refl s
  · split
    · exact .refl s
    · split
      · split
        · exact hReconnect
        · split
          · exact .refl s
          · split
            · exact quiet_forceReconnect s
            · exact (Quiet.observe s ⟨rfl, rfl, rfl, rfl⟩).trans (.of_eq rfl rfl rfl rfl)
      · exact hReconnect

end

theorem quiet_probeElapsed (s : ConversationSocket) (probedAt : Int) : Quiet s (s.probeElapsed probedAt) := by
  have hFired : Quiet s { s with probeTimer := none } := .of_eq rfl rfl rfl rfl
  unfold probeElapsed
  dsimp only
  split
  · exact hFired.trans (quiet_forceReconnect _)
  · exact hFired

theorem quiet_keepaliveElapsed (env : Env) (s : ConversationSocket) (isActive : Bool) :
    Quiet s (s.keepaliveElapsed env isActive) := by
  unfold keepaliveElapsed
  split
  · split
    · exact .refl s
    · exact .observe s ⟨rfl, rfl, rfl, rfl⟩
  · exact .refl s

theorem quiet_reauthenticate (s : ConversationSocket) : Quiet s s.reauthenticate := by
  unfold reauthenticate
  split
  · exact .refl s
  · exact .of_eq rfl rfl rfl rfl

theorem quiet_reauthElapsed (s : ConversationSocket) (isActive : Bool) : Quiet s (s.reauthElapsed isActive) := by
  have hFired : Quiet s { s with reauthTimer := false } := .of_eq rfl rfl rfl rfl
  unfold reauthElapsed
  dsimp only
  split
  · exact hFired
  · split
    · exact hFired.trans ((quiet_reauthenticate _).trans (.of_eq rfl rfl rfl rfl))
    · exact hFired.trans (.of_eq rfl rfl rfl rfl)

theorem quiet_reauthenticateWithToken (env : Env) (s : ConversationSocket) (token : Option String) :
    Quiet s (s.reauthenticateWithToken env token) := by
  unfold reauthenticateWithToken
  dsimp only
  split
  · split
    · exact (quiet_send env s _).trans (.of_eq rfl rfl rfl rfl)
    · exact .of_eq rfl rfl rfl rfl
  · exact .of_eq rfl rfl rfl rfl

theorem quiet_onOpen (env : Env) (s : ConversationSocket) : Quiet s (s.onOpen env) := by
  unfold onOpen
  split
  · exact .of_eq rfl rfl rfl rfl
  · exact .refl s

theorem quiet_onClose (env : Env) (s : ConversationSocket) (code : Nat) : Quiet s (s.onClose env code) := by
  unfold onClose
  split
  · exact Quiet.after (quiet_handleClose env _ code) (.of_eq rfl rfl rfl rfl)
  · exact .refl s

theorem quiet_step (s : ConversationSocket) (env : Env) (input : Input)
    (h : ∀ frame, input ≠ .message (some frame)) : Quiet s (s.step (env, input)) := by
  cases input with
  | start => exact quiet_start s
  | stop => exact quiet_stop s
  | retryNow => exact quiet_retryNow s
  | requestOlder oldestHeldSeq => exact quiet_requestOlder env s oldestHeldSeq
  | requestOlderRange fromSeq toSeq => exact quiet_requestOlderRange env s fromSeq toSeq
  | cancelTurn turnId => exact quiet_send env s _
  | wake => exact quiet_wake env s
  | token token constructorThrows => exact quiet_connectWithToken env s token constructorThrows
  | opened => exact quiet_onOpen env s
  | closing => exact .of_eq rfl rfl rfl rfl
  | message frame =>
    cases frame with
    | some frame => exact absurd rfl (h frame)
    | none =>
      change Quiet s (s.onMessage env none)
      unfold onMessage
      split
      · exact .refl s
      · split
        · exact .refl s
        · exact .of_eq rfl rfl rfl rfl
  | closed code => exact quiet_onClose env s code
  | reconnectTimer =>
    change Quiet s (if s.reconnectTimer then { s with reconnectTimer := false }.connect else s)
    split
    · exact Quiet.after (quiet_connect _) (.of_eq rfl rfl rfl rfl)
    · exact .refl s
  | resumeTimer =>
    change Quiet s (if s.resumeTimer then s.resumeGraceElapsed env else s)
    split
    · exact quiet_resumeGraceElapsed env s
    · exact .refl s
  | probeTimer =>
    unfold step
    dsimp only
    split
    · exact quiet_probeElapsed s _
    · exact .refl s
  | keepaliveTimer isActive =>
    change Quiet s (if s.keepaliveTimer then s.keepaliveElapsed env isActive else s)
    split
    · exact quiet_keepaliveElapsed env s isActive
    · exact .refl s
  | reauthTimer isActive =>
    change Quiet s (if s.reauthTimer then s.reauthElapsed isActive else s)
    split
    · exact quiet_reauthElapsed s isActive
    · exact .refl s
  | reauthToken token => exact quiet_reauthenticateWithToken env s token

end ConversationSocket

end Stella.Conversation
