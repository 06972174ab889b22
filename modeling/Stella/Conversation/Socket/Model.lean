import Stella.Conversation.Protocol

/-! # ConversationSocket

The client transport of `conversation-socket.ts`: one WebSocket, a cursor, a buffer of records
that arrived early, and the backfill requests that close holes.
-/

namespace Stella.Conversation

inductive SocketStatus
  | idle
  | connecting
  | live
  | offline
  | blocked
  deriving DecidableEq

inductive ConversationSocketEvent
  | ready (ready : ReadyFrame)
  | records (records : List JournalRecord)
  | older (records : List JournalRecord) (complete : Option Bool) (fromSeq toSeq : Option Int)
  | reset (reason : ResetReason)
  | gap (fromSeq toSeq : Int)
  | tool (frame : ToolFrame)
  | agents
  | status (status : SocketStatus) (message : Option String) (retryable : Bool)

structure ConversationSocketCursor where
  epoch : Int
  lastSeq : Int
  headSeq : Int
  floorSeq : Int
  windowStartSeq : Int

def ConversationSocketCursor.Valid (cursor : ConversationSocketCursor) : Prop :=
  0 ≤ cursor.epoch ∧ -1 ≤ cursor.lastSeq ∧ cursor.headSeq = cursor.lastSeq ∧ 0 ≤ cursor.floorSeq ∧
    cursor.floorSeq ≤ cursor.windowStartSeq ∧ (cursor.lastSeq < 0 ∨ cursor.windowStartSeq ≤ cursor.lastSeq)

instance (cursor : ConversationSocketCursor) : Decidable cursor.Valid :=
  inferInstanceAs (Decidable (_ ∧ _ ∧ _ ∧ _ ∧ _ ∧ (_ ∨ _)))

inductive ReadyState
  | connecting
  | open
  | closing
  deriving DecidableEq

structure WebSocket where
  id : Nat
  readyState : ReadyState
  deriving DecidableEq

inductive Observation
  | opened (socket : Nat) (since epoch : Option Int)
  | received (socket : Nat) (frame : ServerFrame)
  | sent (socket : Nat) (frame : ClientFrame)
  | ping (socket : Nat)
  | event (event : ConversationSocketEvent)

structure OlderRequest where
  fromSeq : Int
  toSeq : Int
  nextSeq : Int
  records : List JournalRecord

def backoffResetMs : Int := 30000
def maxNoProgressBackfills : Nat := 3
def keepaliveIntervalMs : Int := 30000

def closeMessage (code : Nat) : String :=
  if code = closeBadRequest then "Stella could not read this conversation request."
  else if code = closeUnauthenticated then "Your session expired. Reconnecting…"
  else if code = closeForbidden then "This conversation belongs to another account."
  else if code = closeNotFound then "This conversation is no longer available."
  else if code = closeProtocolVersion then "Stella was updated. Reload to keep chatting."
  else if code = closeDeleted then "This conversation was deleted."
  else if code = closeFrameTooLarge then "This conversation contains data this app cannot safely load."
  else if code = closeRateLimited then "Too many requests. Reconnecting…"
  else if code = closeTooManySockets then "Too many devices are watching this conversation."
  else "Lost the connection to Stella. Reconnecting…"

/-- A refilling budget for outgoing backfills. `tokens` counts in three-thousandths of a
token: a millisecond earns one, since `rateBackfillPerMin` of them come back a minute. -/
structure BackfillBudget where
  tokens : Int
  refilledAt : Int

namespace BackfillBudget

def tokenUnits : Int := 60000 / rateBackfillPerMin

def full (now : Int) : BackfillBudget := ⟨rateBackfillPerMin * tokenUnits, now⟩

def refill (budget : BackfillBudget) (now : Int) : BackfillBudget :=
  let gained := now - budget.refilledAt
  if tokenUnits ≤ gained then ⟨min (rateBackfillPerMin * tokenUnits) (budget.tokens + gained), now⟩ else budget

/-- Whether a request is granted while keeping `reserve` tokens back, and what is left. -/
def take (budget : BackfillBudget) (now : Int) (reserve : Nat) : BackfillBudget × Bool :=
  let refilled := budget.refill now
  if refilled.tokens < (1 + reserve) * tokenUnits then (refilled, false)
  else ({ refilled with tokens := refilled.tokens - tokenUnits }, true)

end BackfillBudget

structure ConversationSocket where
  socket : Option WebSocket := none
  stopped : Bool := true
  attempt : Nat := 0
  reconnectTimer : Bool := false
  resumeTimer : Bool := false
  probeTimer : Option Int := none
  keepaliveTimer : Bool := false
  reauthTimer : Bool := false
  reauthPeriodMs : Int := 0
  liveSinceMs : Int := 0
  lastFrameAtMs : Int := 0
  status : SocketStatus := .idle
  lastSeq : Int := -1
  epoch : Option Int := none
  headSeq : Int := -1
  windowStartSeq : Int := 0
  floorSeq : Int := 0
  ahead : List JournalRecord := []
  gapPending : Bool := false
  noProgressBackfills : Nat := 0
  requestCounter : Nat := 0
  olderRequests : List (RequestId × OlderRequest) := []
  budget : BackfillBudget
  authRetryUsed : Bool := false
  reauthInFlight : Bool := false
  connecting : Bool := false
  created : Nat := 0
  trace : List Observation := []

/-- What a callback reads from its surroundings: the clock, and whether `send` throws when
the request of that number is handed to an open WebSocket. -/
structure Env where
  now : Int
  sendThrows : Nat → Bool := fun _ => false

namespace ConversationSocket

/-- The constructor, run at time `now`. -/
def create (initialCursor : Option ConversationSocketCursor) (now : Int) : ConversationSocket :=
  match initialCursor with
  | none => { budget := .full now }
  | some cursor =>
    if cursor.Valid then
      { budget := .full now, epoch := some cursor.epoch, lastSeq := cursor.lastSeq, headSeq := cursor.headSeq,
        floorSeq := cursor.floorSeq, windowStartSeq := cursor.windowStartSeq }
    else { budget := .full now }

def observe (s : ConversationSocket) (o : Observation) : ConversationSocket := { s with trace := o :: s.trace }

def onEvent (s : ConversationSocket) (event : ConversationSocketEvent) : ConversationSocket :=
  s.observe (.event event)

def isOpen (s : ConversationSocket) : Bool :=
  match s.socket with
  | some ws => ws.readyState == .open
  | none => false

def setStatus (s : ConversationSocket) (status : SocketStatus) (message : Option String) (retryable : Bool) :
    ConversationSocket :=
  if s.status = status ∧ status ≠ .blocked ∧ message = none then s
  else { s with status }.onEvent (.status status (message.filter (· ≠ "")) retryable)

def clearTimers (s : ConversationSocket) : ConversationSocket :=
  { s with reconnectTimer := false, resumeTimer := false, probeTimer := none, keepaliveTimer := false,
           reauthTimer := false }

def nextRequest (s : ConversationSocket) : ConversationSocket := { s with requestCounter := s.requestCounter + 1 }

/-- `send`: the frame reaches the current WebSocket, or the call answers false. -/
def send (env : Env) (s : ConversationSocket) (frame : ClientFrame) : ConversationSocket × Bool :=
  match s.socket with
  | none => (s, false)
  | some ws =>
    if ws.readyState ≠ .open then (s, false)
    else if env.sendThrows s.requestCounter then (s, false)
    else (s.observe (.sent ws.id frame), true)

def takeBudget (env : Env) (reserve : Nat) (s : ConversationSocket) : ConversationSocket × Bool :=
  let (budget, granted) := s.budget.take env.now reserve
  ({ s with budget }, granted)

/-- `connect` up to the token request; its continuation is `connectWithToken`. -/
def connect (s : ConversationSocket) : ConversationSocket :=
  if s.stopped ∨ s.connecting then s
  else { s with connecting := true }.setStatus .connecting none true

def scheduleReconnect (s : ConversationSocket) (message : Option String) : ConversationSocket :=
  if s.stopped then s
  else
    let s := s.setStatus .offline (message.filter (· ≠ "")) true
    { s with attempt := s.attempt + 1, reconnectTimer := true }

/-- `connect` from the answer of `getToken` on; `token` is none where it threw. -/
def connectWithToken (env : Env) (s : ConversationSocket) (token : Option String) (constructorThrows : Bool) :
    ConversationSocket :=
  if !s.connecting then s
  else if s.stopped then { s with connecting := false }
  else if !(token.any isSubprotocolSafe) then
    { s with connecting := false }.scheduleReconnect (some "Waiting for your session…")
  else if constructorThrows then { s with connecting := false }.scheduleReconnect none
  else
    let since := if 0 ≤ s.lastSeq then some s.lastSeq else none
    { s with
      connecting := false, socket := some ⟨s.created, .connecting⟩, created := s.created + 1,
      lastFrameAtMs := env.now }.observe (.opened s.created since s.epoch)

def start (s : ConversationSocket) : ConversationSocket :=
  if !s.stopped then s else { s with stopped := false, attempt := 0 }.connect

def stop (s : ConversationSocket) : ConversationSocket :=
  { s with stopped := true }.clearTimers |> fun s => { s with socket := none }.setStatus .idle none true

def retryNow (s : ConversationSocket) : ConversationSocket :=
  let s := { s with attempt := 0, authRetryUsed := false, noProgressBackfills := 0 }
  if s.stopped then s.start
  else if s.connecting || s.socket.any (fun ws => ws.readyState == .open || ws.readyState == .connecting) then s
  else s.clearTimers.connect

/-- The socket is dropped without its `onclose` running, and a new connect begins. -/
def forceReconnect (s : ConversationSocket) : ConversationSocket :=
  let s := { s with socket := none }.clearTimers
  if !s.stopped then s.connect else s

def forgetConnection (s : ConversationSocket) : ConversationSocket :=
  { s with gapPending := false, noProgressBackfills := 0, ahead := [], olderRequests := [] }

def settleBackoff (env : Env) (s : ConversationSocket) : ConversationSocket :=
  { s with
    attempt := if env.now - s.liveSinceMs > backoffResetMs ∧ s.liveSinceMs ≠ 0 then 0 else s.attempt
    liveSinceMs := 0 }

def block (s : ConversationSocket) (message : String) (retryable : Bool) : ConversationSocket :=
  { s with stopped := true }.setStatus .blocked (some message) retryable

def settleClose (s : ConversationSocket) (code : Nat) : ConversationSocket :=
  if code ∈ terminalCloseCodes then s.block (closeMessage code) (code = closeProtocolVersion)
  else if code = closeUnauthenticated then
    if s.authRetryUsed then s.block "Stella could not verify your session. Sign in again." true
    else
      { s with authRetryUsed := true, attempt := max s.attempt 1 }.scheduleReconnect (some (closeMessage code))
  else s.scheduleReconnect (if code = 1000 then none else some (closeMessage code))

def handleClose (env : Env) (s : ConversationSocket) (code : Nat) : ConversationSocket :=
  (s.clearTimers.forgetConnection.settleBackoff env).settleClose code

def resetStream (s : ConversationSocket) (reason : ResetReason) : ConversationSocket :=
  { s with lastSeq := -1, ahead := [], gapPending := false, noProgressBackfills := 0, olderRequests := [] }.onEvent
    (.reset reason)

/-- `armResumeGrace`: the timer is armed while the head is ahead of the cursor. -/
def armResumeGrace (s : ConversationSocket) : ConversationSocket :=
  { s with resumeTimer := !(decide (s.headSeq < 0) || decide (s.headSeq ≤ s.lastSeq)) }

def resumeRange (s : ConversationSocket) : Int × Int :=
  let fromSeq := if 0 ≤ s.lastSeq then s.lastSeq + 1 else max s.floorSeq (s.headSeq - initialWindowRecords + 1)
  (fromSeq, min s.headSeq (fromSeq + maxResumeRecords - 1))

def disarmResume (s : ConversationSocket) : ConversationSocket := { s with resumeTimer := false }

def markPending (s : ConversationSocket) : ConversationSocket := { s with gapPending := true }

def resumeGraceElapsed (env : Env) (s : ConversationSocket) : ConversationSocket :=
  let s := s.disarmResume
  if s.headSeq ≤ s.lastSeq then s
  else if s.gapPending then s
  else
    let (fromSeq, toSeq) := s.resumeRange
    if toSeq < fromSeq then s
    else
      let (s, granted) := s.takeBudget env 0
      if !granted then s
      else
        let s := s.markPending.nextRequest
        (s.send env (.backfill (.gap s.requestCounter) fromSeq toSeq)).1

/-- `requestGap`: asks for the hole up to `throughSeq`, unless a repair is already pending. -/
def requestGap (env : Env) (s : ConversationSocket) (throughSeq : Int) : ConversationSocket × Bool :=
  if s.gapPending then (s, true)
  else
    let fromSeq := s.lastSeq + 1
    let toSeq := min throughSeq (fromSeq + maxResumeRecords - 1)
    if toSeq < fromSeq then (s, true)
    else
      let (s, granted) := s.takeBudget env 0
      if !granted then (s, false)
      else
        let s := s.nextRequest
        let (s, delivered) := s.send env (.backfill (.gap s.requestCounter) fromSeq toSeq)
        if !delivered then (s, false) else (s.markPending, true)

/-- `ahead.set(record.seq, record)`: a seq already held keeps its place. -/
def aheadSet (ahead : List JournalRecord) (record : JournalRecord) : List JournalRecord :=
  if ahead.any (fun r => r.seq == record.seq) then
    ahead.map (fun r => if r.seq == record.seq then record else r)
  else ahead ++ [record]

def drainAhead : Nat → Int → List JournalRecord → List JournalRecord → Int × List JournalRecord × List JournalRecord
  | 0, lastSeq, ahead, applied => (lastSeq, ahead, applied)
  | fuel + 1, lastSeq, ahead, applied =>
    match ahead.find? (fun r => r.position == lastSeq + 1) with
    | none => (lastSeq, ahead, applied)
    | some next => drainAhead fuel next.position (ahead.filter (fun r => r.seq != next.seq)) (applied ++ [next])

/-- A fresh view is anchored at the window the last `ready` promised. -/
def anchored (s : ConversationSocket) : ConversationSocket :=
  if s.lastSeq < 0 then { s with lastSeq := s.windowStartSeq - 1 } else s

def buffer (s : ConversationSocket) (record : JournalRecord) : ConversationSocket :=
  { s with ahead := aheadSet s.ahead record }

def moveTo (s : ConversationSocket) (lastSeq : Int) (ahead : List JournalRecord) : ConversationSocket :=
  { s with lastSeq, ahead }

def collect (env : Env) (s : ConversationSocket) (applied : List JournalRecord) (record : JournalRecord) :
    ConversationSocket × List JournalRecord :=
  let s := s.anchored
  if record.position ≤ s.lastSeq then (s, applied)
  else if s.lastSeq + 1 < record.position then
    if maxBufferedAhead ≤ s.ahead.length then ((s.resetStream .window).forceReconnect, applied)
    else (((s.buffer record).requestGap env (record.position - 1)).1, applied)
  else
    let (lastSeq, ahead, applied) := drainAhead s.ahead.length record.position s.ahead (applied ++ [record])
    (s.moveTo lastSeq ahead, applied)

def collectAll (env : Env) : ConversationSocket → List JournalRecord → List JournalRecord →
    ConversationSocket × List JournalRecord
  | s, applied, [] => (s, applied)
  | s, applied, record :: rest =>
    let (s, applied) := s.collect env applied record
    collectAll env s applied rest

def flush (s : ConversationSocket) (applied : List JournalRecord) : ConversationSocket :=
  if applied.isEmpty then s
  else ({ s with headSeq := max s.headSeq s.lastSeq }.onEvent (.records applied)).armResumeGrace

def applyRecord (env : Env) (s : ConversationSocket) (record : JournalRecord) : ConversationSocket :=
  let (s, applied) := s.collect env [] record
  s.flush applied

def failGapRecovery (s : ConversationSocket) : ConversationSocket :=
  let s := { s with socket := none, stopped := true }.clearTimers
  { s with gapPending := false }.setStatus .blocked
    (some "Stella couldn't recover part of this conversation. Retry to load it safely.") true

def olderRequestOf (s : ConversationSocket) (requestId : RequestId) : Option OlderRequest :=
  (s.olderRequests.find? (fun p => p.1 == requestId)).map Prod.snd

def forgetOlder (s : ConversationSocket) (requestId : RequestId) : ConversationSocket :=
  { s with olderRequests := s.olderRequests.filter (fun p => p.1 != requestId) }

def handleOlder (env : Env) (s : ConversationSocket) (request : OlderRequest) (frame : BackfillFrame) :
    ConversationSocket :=
  let s := s.forgetOlder frame.requestId
  let records := request.records ++ frame.records.filter (fun r => request.nextSeq ≤ r.position)
  let lastSeq := (records.getLast?.map JournalRecord.position).getD (request.nextSeq - 1)
  let answer (s : ConversationSocket) :=
    s.onEvent (.older records (some (frame.complete && decide (request.toSeq ≤ lastSeq)))
      (some request.fromSeq) (some request.toSeq))
  if !frame.complete && decide (lastSeq < request.toSeq) then
    let s := s.nextRequest
    let requestId := RequestId.older s.requestCounter
    let (s, granted) := s.takeBudget env 4
    if !granted then answer s
    else
      let (s, delivered) := s.send env (.backfill requestId (lastSeq + 1) request.toSeq)
      if !delivered then answer s
      else
        { s with olderRequests :=
            s.olderRequests ++ [(requestId, { request with nextSeq := lastSeq + 1, records })] }
  else answer s

def throughSeq (s : ConversationSocket) (toSeq : Int) : Int :=
  s.ahead.foldl (fun bound r => min bound (r.position - 1)) toSeq

def placeReply (env : Env) (s : ConversationSocket) (frame : BackfillFrame) : ConversationSocket :=
  let (s, applied) := { s with gapPending := false }.collectAll env [] frame.records
  s.flush applied

def noteProgress (s : ConversationSocket) (before : Int) : ConversationSocket :=
  { s with noProgressBackfills := if before < s.lastSeq then 0 else s.noProgressBackfills + 1 }

def repairOrFail (env : Env) (s : ConversationSocket) (throughSeq : Int) : ConversationSocket :=
  if s.gapPending then s
  else
    let (s, repaired) := s.requestGap env throughSeq
    if repaired then s else s.failGapRecovery

/-- What a placed reply leaves to do, `before` being the cursor it arrived at. -/
def settleReply (env : Env) (s : ConversationSocket) (before toSeq : Int) : ConversationSocket :=
  if s.throughSeq toSeq ≤ s.lastSeq then { s with noProgressBackfills := 0 }
  else if ¬ before < s.lastSeq ∧ maxNoProgressBackfills ≤ s.noProgressBackfills + 1 then
    (s.noteProgress before).failGapRecovery
  else (s.noteProgress before).repairOrFail env (s.throughSeq toSeq)

def handleGapReply (env : Env) (s : ConversationSocket) (frame : BackfillFrame) : ConversationSocket :=
  (s.placeReply env frame).settleReply env s.lastSeq frame.toSeq

def handleBackfill (env : Env) (s : ConversationSocket) (frame : BackfillFrame) : ConversationSocket :=
  match s.olderRequestOf frame.requestId with
  | some request => s.handleOlder env request frame
  | none => s.handleGapReply env frame

def scheduleReauth (s : ConversationSocket) : ConversationSocket :=
  { s with reauthTimer := decide (0 < s.reauthPeriodMs) }

def adoptReady (env : Env) (s : ConversationSocket) (ready : ReadyFrame) : ConversationSocket :=
  { s with
    liveSinceMs := env.now, authRetryUsed := false, reauthInFlight := false, headSeq := ready.headSeq,
    windowStartSeq := ready.windowStartSeq, floorSeq := ready.floorSeq }

def learnReauthPeriod (s : ConversationSocket) (ready : ReadyFrame) : ConversationSocket :=
  let window := ready.authExpiresAtMs - ready.serverTimeMs
  if 0 < window then { s with reauthPeriodMs := max 30000 (window - reAuthLeadMs) }.scheduleReauth else s

def epochChanged (s : ConversationSocket) (ready : ReadyFrame) : Bool :=
  s.epoch.any (fun epoch => epoch != ready.epoch)

def unbridgeable (s : ConversationSocket) (ready : ReadyFrame) : Bool :=
  decide (0 ≤ s.lastSeq) && decide (s.lastSeq + 1 < ready.windowStartSeq)

def tooFarBehind (s : ConversationSocket) (ready : ReadyFrame) : Bool :=
  decide (0 ≤ s.lastSeq) && decide ((maxCatchupResumeRecords : Int) < ready.headSeq - s.lastSeq)

def openStream (s : ConversationSocket) (ready : ReadyFrame) : ConversationSocket :=
  if s.tooFarBehind ready then (s.resetStream .window).forceReconnect
  else ((s.onEvent (.ready ready)).setStatus .live none true).armResumeGrace

def setEpoch (s : ConversationSocket) (epoch : Int) : ConversationSocket := { s with epoch := some epoch }

/-- The fields a `ready` overwrites, before it is decided whether the stream survives it. -/
def adopted (env : Env) (s : ConversationSocket) (ready : ReadyFrame) : ConversationSocket :=
  ((s.adoptReady env ready).learnReauthPeriod ready).setEpoch ready.epoch

def handleReady (env : Env) (s : ConversationSocket) (ready : ReadyFrame) : ConversationSocket :=
  if s.epochChanged ready then ((s.adopted env ready).resetStream .epoch).openStream ready
  else if s.unbridgeable ready then ((s.adopted env ready).resetStream .window).openStream ready
  else (s.adopted env ready).openStream ready

def reauthenticate (s : ConversationSocket) : ConversationSocket :=
  if s.reauthInFlight then s else { s with reauthInFlight := true }

def handleFrame (env : Env) (s : ConversationSocket) : ServerFrame → ConversationSocket
  | .ready ready => s.handleReady env ready
  | .record record => s.applyRecord env record
  | .backfill frame => s.handleBackfill env frame
  | .gap fromSeq toSeq => s.onEvent (.gap fromSeq toSeq)
  | .reset reason => s.resetStream reason
  | .tool frame => s.onEvent (.tool frame)
  | .agents => s.onEvent .agents
  | .authExpiring => s.reauthenticate
  | .error message retryable =>
    s.setStatus (if s.status = .live then .live else .offline) (some message) retryable

def requestOlderRange (env : Env) (s : ConversationSocket) (fromSeq toSeq : Int) : ConversationSocket × Bool :=
  if toSeq < fromSeq ∨ fromSeq < s.floorSeq then (s, false)
  else
    let (s, granted) := s.takeBudget env 4
    if !granted then (s, false)
    else
      let s := s.nextRequest
      let requestId := RequestId.older s.requestCounter
      let (s, delivered) := s.send env (.backfill requestId fromSeq toSeq)
      if !delivered then (s, false)
      else ({ s with olderRequests := s.olderRequests ++ [(requestId, ⟨fromSeq, toSeq, fromSeq, []⟩)] }, true)

def requestOlder (env : Env) (s : ConversationSocket) (oldestHeldSeq : Int) : ConversationSocket × Bool :=
  if oldestHeldSeq ≤ s.floorSeq then (s, false)
  else
    let toSeq := oldestHeldSeq - 1
    s.requestOlderRange env (max s.floorSeq (toSeq - backfillBatchRecords + 1)) toSeq

def wake (env : Env) (s : ConversationSocket) : ConversationSocket :=
  if s.stopped then s
  else if s.connecting || s.socket.any (fun ws => ws.readyState == .connecting) then s
  else
    match s.socket with
    | some ws =>
      if ws.readyState ≠ .open then { s with attempt := 0 }.clearTimers.connect
      else if env.now - s.lastFrameAtMs < socketStaleMs then s
      else if env.sendThrows s.requestCounter then s.forceReconnect
      else { s.observe (.ping ws.id) with probeTimer := some s.lastFrameAtMs }
    | none => { s with attempt := 0 }.clearTimers.connect

def probeElapsed (s : ConversationSocket) (probedAt : Int) : ConversationSocket :=
  let s := { s with probeTimer := none }
  if s.lastFrameAtMs = probedAt then s.forceReconnect else s

def keepaliveElapsed (env : Env) (s : ConversationSocket) (isActive : Bool) : ConversationSocket :=
  match s.socket with
  | some ws =>
    if ws.readyState ≠ .open ∨ isActive = false ∨ env.now - s.lastFrameAtMs < keepaliveIntervalMs ∨
        env.sendThrows s.requestCounter then s
    else s.observe (.ping ws.id)
  | none => s

def reauthElapsed (s : ConversationSocket) (isActive : Bool) : ConversationSocket :=
  let s := { s with reauthTimer := false }
  if !s.isOpen then s
  else (if isActive then s.reauthenticate else s).scheduleReauth

/-- The continuation of `reauthenticate` once its token request settled. -/
def reauthenticateWithToken (env : Env) (s : ConversationSocket) (token : Option String) : ConversationSocket :=
  let s := match token with
    | some token => if isSubprotocolSafe token then (s.send env (.auth token)).1 else s
    | none => s
  { s with reauthInFlight := false }

inductive Input
  | start
  | stop
  | retryNow
  | requestOlder (oldestHeldSeq : Int)
  | requestOlderRange (fromSeq toSeq : Int)
  | cancelTurn (turnId : String)
  | wake
  | token (token : Option String) (constructorThrows : Bool)
  | opened
  | closing
  | message (frame : Option ServerFrame)
  | closed (code : Nat)
  | reconnectTimer
  | resumeTimer
  | probeTimer
  | keepaliveTimer (isActive : Bool)
  | reauthTimer (isActive : Bool)
  | reauthToken (token : Option String)

def receive (env : Env) (s : ConversationSocket) (id : Nat) (frame : ServerFrame) : ConversationSocket :=
  { s with lastFrameAtMs := env.now }.observe (.received id frame)

/-- `onmessage` of the current WebSocket; a pong or an unreadable frame only stamps the clock. -/
def onMessage (env : Env) (s : ConversationSocket) (frame : Option ServerFrame) : ConversationSocket :=
  match s.socket with
  | none => s
  | some ws =>
    if ws.readyState ≠ .open then s
    else
      match frame with
      | none => { s with lastFrameAtMs := env.now }
      | some frame => (s.receive env ws.id frame).handleFrame env frame

def onOpen (env : Env) (s : ConversationSocket) : ConversationSocket :=
  match s.socket with
  | some ⟨id, .connecting⟩ =>
    { s with socket := some ⟨id, .open⟩, lastFrameAtMs := env.now, keepaliveTimer := true }
  | _ => s

def onClose (env : Env) (s : ConversationSocket) (code : Nat) : ConversationSocket :=
  match s.socket with
  | some _ => { s with socket := none }.handleClose env code
  | none => s

def step (s : ConversationSocket) (stimulus : Env × Input) : ConversationSocket :=
  let env := stimulus.1
  match stimulus.2 with
  | .start => s.start
  | .stop => s.stop
  | .retryNow => s.retryNow
  | .requestOlder oldestHeldSeq => (s.requestOlder env oldestHeldSeq).1
  | .requestOlderRange fromSeq toSeq => (s.requestOlderRange env fromSeq toSeq).1
  | .cancelTurn turnId => (s.send env (.cancel turnId)).1
  | .wake => s.wake env
  | .token token constructorThrows => s.connectWithToken env token constructorThrows
  | .opened => s.onOpen env
  | .closing => { s with socket := s.socket.map (fun ws => { ws with readyState := .closing }) }
  | .message frame => s.onMessage env frame
  | .closed code => s.onClose env code
  | .reconnectTimer => if s.reconnectTimer then { s with reconnectTimer := false }.connect else s
  | .resumeTimer => if s.resumeTimer then s.resumeGraceElapsed env else s
  | .probeTimer =>
    match s.probeTimer with
    | some probedAt => s.probeElapsed probedAt
    | none => s
  | .keepaliveTimer isActive => if s.keepaliveTimer then s.keepaliveElapsed env isActive else s
  | .reauthTimer isActive => if s.reauthTimer then s.reauthElapsed isActive else s
  | .reauthToken token => s.reauthenticateWithToken env token

end ConversationSocket

def skippedRow (seq : Nat) : JournalRecord := { seq, turnId := "turn", createdAtMs := 0, body := .skipped none }

/-- The inputs that bring a fresh socket to its first `ready`. -/
def connectWith (now : Int) (ready : ReadyFrame) : List (Env × ConversationSocket.Input) :=
  [(⟨now, fun _ => false⟩, .start), (⟨now, fun _ => false⟩, .token (some "token") false),
    (⟨now, fun _ => false⟩, .opened), (⟨now, fun _ => false⟩, .message (some (.ready ready)))]

end Stella.Conversation
