import Stella.AgentThreads.Events

/-! # Operations on agent threads

The parts of each handler between its awaits, as far as they write the rows of threads, turns and
jobs.
-/

namespace Stella.AgentThreads

def dispatchMaxAttempts : Nat := 3
def dispatchRetryMs : Int := 15000
def deviceAvailabilityRetryMs : Int := 10000
def deviceAvailabilityWaitMs : Int := 60 * 60000

def attemptTurn (now : Int) (thread : ThreadRow) (turnId clientMsgId fingerprint : String) : TurnRow where
  turnId := turnId
  threadId := some thread.threadId
  conversationId := some thread.conversationId
  ownerGeneration := thread.ownerGeneration
  attemptGeneration := some thread.attemptGeneration
  status := .running
  clientMsgId := some clientMsgId
  spawnFingerprint := some fingerprint
  dispatchId := none
  createdAt := now
  updatedAt := now

structure NewAttempt where
  turnId : String
  clientMsgId : String
  fingerprint : String

structure SpawnOnDevice where
  threadId : String
  conversationId : String
  ownerGeneration : String
  parentTurnId : String
  parentThreadId : Option String
  targetDeviceId : String
  description : String
  attempt : NewAttempt

structure SpawnFromDesktop where
  threadId : String
  conversationId : String
  ownerGeneration : String
  originDeviceId : String
  originConversationId : String
  targetDeviceId : Option String
  description : String
  attempt : NewAttempt

structure ContinueFromDesktop where
  threadId : String
  ownerGeneration : String
  originDeviceId : String
  originConversationId : String
  expectedAttemptGeneration : Int
  expectedTerminalUpdatedAt : Int
  description : String
  attempt : NewAttempt

structure CloudDevice where
  threadId : String
  conversationId : String
  ownerGeneration : String

structure CancelThread where
  threadId : String
  ownerGeneration : String
  originDeviceId : String
  originConversationId : String
  expectedAttemptGeneration : Int
  expectedThreadUpdatedAt : Int

structure AcknowledgeDelivery where
  threadId : String
  originDeviceId : String
  ownerGeneration : String
  attemptGeneration : Int
  terminalUpdatedAt : Int

structure StartComputer where
  threadId : String
  conversationId : String
  ownerGeneration : String
  parentThreadId : Option String
  originDeviceId : String
  description : String
  agentType : String
  attemptGeneration : Int

structure ComputerAttempt where
  threadId : String
  originDeviceId : String
  ownerGeneration : String
  attemptGeneration : Int

inductive Handed
  | accepted (dispatchId : String)
  /-- `unavailable`: a code of a device that may become available. -/
  | refused (unavailable retryable : Bool) (message : String)

def ThreadRow.onDevice (thread : ThreadRow) : Bool := thread.executorDeviceId.any (· ≠ "")

def newThread (now : Int) (threadId conversationId ownerGeneration description : String) : ThreadRow where
  threadId := threadId
  conversationId := conversationId
  ownerGeneration := some ownerGeneration
  parentTurnId := none
  parentThreadId := none
  executorDeviceId := none
  originDeviceId := none
  originConversationId := none
  originDeliveryAckAt := none
  description := description
  onComputer := false
  agentType := "general"
  attemptGeneration := 1
  status := .running
  resultJson := none
  errorMessage := none
  createdAt := now
  updatedAt := now

def deviceThread (now : Int) (args : SpawnOnDevice) : ThreadRow :=
  { newThread now args.threadId args.conversationId args.ownerGeneration (clip args.description 1000) with
    parentTurnId := some args.parentTurnId, parentThreadId := args.parentThreadId,
    executorDeviceId := some args.targetDeviceId, onComputer := true }

def desktopThread (now : Int) (args : SpawnFromDesktop) : ThreadRow :=
  { newThread now args.threadId args.conversationId args.ownerGeneration (clip args.description 1000) with
    originDeviceId := some args.originDeviceId, originConversationId := some args.originConversationId,
    executorDeviceId := args.targetDeviceId, onComputer := args.targetDeviceId.isSome }

def computerThread (now : Int) (args : StartComputer) : ThreadRow :=
  { newThread now args.threadId args.conversationId args.ownerGeneration args.description with
    parentThreadId := args.parentThreadId, originDeviceId := some args.originDeviceId,
    originConversationId := some args.conversationId, onComputer := true, agentType := args.agentType }

def resumedPatch (now attemptGeneration : Int) (row : ThreadRow) : ThreadRow :=
  { row with
    status := .running, attemptGeneration := attemptGeneration, originDeliveryAckAt := none, resultJson := none,
    errorMessage := none, updatedAt := now }

/-- `continueDeviceForCloud` leaves the acknowledgement. -/
def continuedPatch (now attemptGeneration : Int) (description : String) (row : ThreadRow) : ThreadRow :=
  { row with
    status := .running, attemptGeneration := attemptGeneration, description := description, resultJson := none,
    errorMessage := none, updatedAt := now }

def pausedPatch (now attemptGeneration : Int) (row : ThreadRow) : ThreadRow :=
  if row.attemptGeneration = attemptGeneration ∧ row.status.active then
    { row with status := .canceled, errorMessage := some "Paused by orchestrator.", updatedAt := now }
  else row

def failedPatch (now attemptGeneration : Int) (message : String) (row : ThreadRow) : ThreadRow :=
  if row.attemptGeneration = attemptGeneration ∧ row.status = .running then
    { row with status := .failed, errorMessage := some (clip message 2000), updatedAt := now }
  else row

def settledPatch (now : Int) (status : Status) (resultJson errorMessage : Option String) (row : ThreadRow) : ThreadRow :=
  { row with
    status := status, resultJson := resultJson, originDeliveryAckAt := none, updatedAt := now
    errorMessage := if status = .completed then none else
      some (clip (errorMessage.getD (if status = .canceled then "The agent was stopped." else "The agent failed.")) 2000) }

def turnStatusPatch (now : Int) (status : Status) (row : TurnRow) : TurnRow :=
  { row with status := status, updatedAt := now }

def turnFailedPatch (now : Int) (row : TurnRow) : TurnRow :=
  if row.status.active then turnStatusPatch now .failed row else row

namespace Db

/-- `INSERT` throws where the turn or the client's message id is taken. -/
def startAttempt (db : Db) (now : Int) (thread : ThreadRow) (attempt : NewAttempt) : Db :=
  if db.turns.any (fun r => r.turnId = attempt.turnId ∨ r.clientMsgId = some attempt.clientMsgId) then db
  else
    let row := attemptTurn now thread attempt.turnId attempt.clientMsgId attempt.fingerprint
    Db.schedule { db with turns := db.turns ++ [row], prompts := db.prompts ++ [attempt.turnId] } now
      ⟨thread.threadId, attempt.turnId, thread.attemptGeneration, 1, 0⟩

/-- `replayAttempt`: the request has its attempt already. -/
def replays (db : Db) (attempt : NewAttempt) : Bool := db.turns.any (fun r => r.clientMsgId = some attempt.clientMsgId)

def spawn (db : Db) (now : Int) (row : ThreadRow) (attempt : NewAttempt) : Db :=
  if db.replays attempt || (db.readThread row.threadId).isSome then db
  else Db.startAttempt { db with threads := db.threads ++ [row] } now row attempt

def spawnOnDeviceForCloud (db : Db) (now : Int) (args : SpawnOnDevice) : Db :=
  db.spawn now (deviceThread now args) args.attempt

def spawnFromDesktop (db : Db) (now : Int) (args : SpawnFromDesktop) : Db :=
  db.spawn now (desktopThread now args) args.attempt

def resume (db : Db) (now : Int) (threadId : String) (patch : ThreadRow → ThreadRow) (attempt : NewAttempt) : Db :=
  let resumed := db.setThread threadId patch
  match resumed.readThread threadId with
  | none => resumed
  | some thread => resumed.startAttempt now thread attempt

def continueFromDesktop (db : Db) (now : Int) (args : ContinueFromDesktop) : Db :=
  match db.readThread args.threadId with
  | none => db
  | some thread =>
    if thread.ownerGeneration ≠ some args.ownerGeneration ∨ thread.originDeviceId ≠ some args.originDeviceId ∨
        thread.originConversationId ≠ some args.originConversationId then db
    else if thread.status.active then db
    else if thread.attemptGeneration ≠ args.expectedAttemptGeneration ∨
        thread.updatedAt ≠ args.expectedTerminalUpdatedAt then db
    else db.resume now args.threadId (fun row => { resumedPatch now (thread.attemptGeneration + 1) row with
      description := clip args.description 1000 }) args.attempt

def readCloudDeviceThread (db : Db) (args : CloudDevice) : Option ThreadRow :=
  (db.readThread args.threadId).filter (fun thread => thread.onDevice && thread.originDeviceId = none &&
    thread.conversationId = args.conversationId && thread.ownerGeneration = some args.ownerGeneration)

/-- `continueDeviceForCloud` up to its check of the destination. -/
def continueDeviceForCloud (db : Db) (args : CloudDevice) (description clientMsgId fingerprint : String) : Db :=
  match db.readCloudDeviceThread args with
  | none => db
  | some thread =>
    if thread.status.active then db else db.park (.continueDevice thread clientMsgId fingerprint description)

def continuedDevice (db : Db) (now : Int) (thread : ThreadRow) (description : String) (attempt : NewAttempt) : Db :=
  db.resume now thread.threadId (continuedPatch now (thread.attemptGeneration + 1) (clip description 1000)) attempt

/-- `deliverAgentMessage` up to its call to the host. -/
def deliverAgentMessage (db : Db) (target ownerGeneration messageId : String) : Db :=
  match db.readThread target with
  | none => db
  | some thread =>
    if thread.ownerGeneration.any (· ≠ ownerGeneration) then db
    else if !thread.onDevice && thread.onComputer then db
    else if thread.status.active && thread.onDevice then db
    else db.park (.message thread messageId)

def deliveredMessage (db : Db) (now : Int) (thread : ThreadRow) (attempt : NewAttempt) : Db :=
  if thread.status.active && db.turns.any (fun r => r.threadId = some thread.threadId &&
      r.attemptGeneration = some thread.attemptGeneration && r.turnId ∈ db.prompts) then db
  else match db.readThread thread.threadId with
    | none => db
    | some current =>
      if current.attemptGeneration ≠ thread.attemptGeneration then db
      else db.resume now thread.threadId (resumedPatch now (current.attemptGeneration + 1)) attempt

/-- `ORDER BY created_at DESC LIMIT 1`. -/
def newestTurn : List TurnRow → Option TurnRow
  | [] => none
  | row :: rows =>
    match newestTurn rows with
    | none => some row
    | some newest => if row.createdAt < newest.createdAt then some newest else some row

def runningTurn (db : Db) (thread : ThreadRow) : Option TurnRow :=
  -- A row is the one that its primary key reads.
  newestTurn (db.turns.filter (fun r => db.readTurn r.turnId = some r && r.threadId = some thread.threadId &&
    r.attemptGeneration = some thread.attemptGeneration && r.status.active))

def attemptTurns (db : Db) (thread : ThreadRow) : List String :=
  (db.turns.filter (fun r => r.threadId = some thread.threadId &&
    r.attemptGeneration = some thread.attemptGeneration)).map TurnRow.turnId

def pause (db : Db) (now : Int) (thread : ThreadRow) (turnId : String) : Db :=
  (db.setTurn turnId (turnStatusPatch now .canceled)).setThread thread.threadId (pausedPatch now thread.attemptGeneration)

/-- `stopDeviceAttempt` once it found its turn, up to its call to the gate. -/
def stopTurn (db : Db) (now : Int) (thread : ThreadRow) (turn : TurnRow) : Db :=
  Db.pause ((db.cancelJob turn.turnId).dropPrompt turn.turnId) now thread turn.turnId

def failAttempt (db : Db) (now : Int) (job : DispatchJob) (message : String) : Db :=
  (db.setTurn job.turnId (turnFailedPatch now)).setThread job.threadId (failedPatch now job.attemptGeneration message)

/-- `cancelThread` after the agent was asked to stop. -/
def canceledThread (db : Db) (now : Int) (thread : ThreadRow) (turnId : String) : Db :=
  Db.cancelJob (db.pause now thread turnId) turnId

def acknowledgeDelivery (db : Db) (now : Int) (args : AcknowledgeDelivery) : Db :=
  match db.readThread args.threadId with
  | none => db
  | some thread =>
    if thread.originDeviceId ≠ some args.originDeviceId ∨ thread.ownerGeneration ≠ some args.ownerGeneration then db
    else if thread.attemptGeneration ≠ args.attemptGeneration ∨ thread.updatedAt ≠ args.terminalUpdatedAt then db
    else if !thread.status.terminal && thread.status ≠ .waitingForUser then db
    else if thread.originDeliveryAckAt.isSome then db
    else
      let acked := db.setThread args.threadId (fun row => { row with originDeliveryAckAt := some now })
      { acked with acknowledged := db.acknowledged ++ [(thread.threadId, thread.attemptGeneration, thread.updatedAt)] }

def startComputerThread (db : Db) (now : Int) (args : StartComputer) : Db :=
  match db.readThread args.threadId with
  | some existing =>
    if !existing.onComputer ∨ existing.executorDeviceId ≠ none ∨ existing.conversationId ≠ args.conversationId ∨
        existing.originDeviceId ≠ some args.originDeviceId ∨
        existing.ownerGeneration ≠ some args.ownerGeneration then db
    else if args.attemptGeneration ≤ existing.attemptGeneration then db
    else db.setThread args.threadId (fun row => { resumedPatch now args.attemptGeneration row with
      description := args.description, agentType := args.agentType })
  | none => if args.attemptGeneration ≠ 1 then db else { db with threads := db.threads ++ [computerThread now args] }

def readComputerThread (db : Db) (args : ComputerAttempt) : Option ThreadRow :=
  (db.readThread args.threadId).filter (fun row => row.onComputer && row.executorDeviceId = none &&
    row.originDeviceId = some args.originDeviceId && row.ownerGeneration = some args.ownerGeneration)

/-- `completeComputerThread` and `cancelComputerThread`: only the running attempt ends. -/
def endComputerThread (db : Db) (args : ComputerAttempt) (patch : ThreadRow → ThreadRow) : Db :=
  match db.readComputerThread args with
  | none => db
  | some row =>
    if row.attemptGeneration ≠ args.attemptGeneration ∨ row.status ≠ .running then db
    else db.setThread row.threadId patch

def completeComputerThread (db : Db) (now : Int) (args : ComputerAttempt) (failed : Bool)
    (resultJson errorMessage : Option String) : Db :=
  db.endComputerThread args (fun row => { row with
    status := if failed then .failed else .completed, resultJson, errorMessage, updatedAt := now })

def cancelComputerThread (db : Db) (now : Int) (args : ComputerAttempt) (reason : Option String) : Db :=
  db.endComputerThread args (fun row => { row with
    status := .canceled, errorMessage := some (reason.getD "Canceled on this computer."), updatedAt := now })

def settleDeviceAttempt (db : Db) (now : Int) (turnId : String) (status : Status)
    (resultJson errorMessage : Option String) : Db :=
  match db.readTurn turnId with
  | none => db
  | some turn =>
    match turn.threadId.filter (· ≠ "") with
    | none => db
    | some threadId =>
      if turn.status.terminal then db
      else
        let told := (db.setTurn turnId (turnStatusPatch now status)).dropPrompt turnId
        match told.readThread threadId with
        | none => told
        | some thread =>
          if !thread.onDevice ∨ some thread.attemptGeneration ≠ turn.attemptGeneration ∨ !thread.status.active then told
          else told.setThread thread.threadId (settledPatch now status resultJson errorMessage)

def waitForAvailableDevice (db : Db) (now : Int) (turn : TurnRow) (availabilityRetries : Nat) : Option Db :=
  match turn.threadId.filter (· ≠ ""), turn.attemptGeneration with
  | some threadId, some attemptGeneration =>
    if deviceAvailabilityWaitMs ≤ now - turn.createdAt then none
    else some (db.schedule (now + deviceAvailabilityRetryMs)
      ⟨threadId, turn.turnId, attemptGeneration, 1, availabilityRetries + 1⟩)
  | _, _ => none

def retry (db : Db) (now : Int) (job : DispatchJob) : Db :=
  db.schedule (now + dispatchRetryMs) { job with attempt := job.attempt + 1 }

/-- `runDispatch` up to its call. -/
def runDispatch (db : Db) (runAt : Int) (job : DispatchJob) : Db :=
  match db.readThread job.threadId, db.readTurn job.turnId with
  | some thread, some turn =>
    if thread.attemptGeneration ≠ job.attemptGeneration ∨ thread.status ≠ .running ∨ turn.status ≠ .running then
      db.dropJob job.turnId runAt
    else if thread.onDevice then db.park (.deviceDispatch runAt job turn)
    else db.park (.dispatch runAt job)
  | _, _ => db.dropJob job.turnId runAt

/-- `runDispatch` for the cloud after its call. -/
def ranDispatch (db : Db) (now runAt : Int) (job : DispatchJob) : Handed → Db
  | .accepted _ => (db.dropPrompt job.turnId).dropJob job.turnId runAt
  | .refused _ retryable message =>
    let told := if retryable && job.attempt < dispatchMaxAttempts then db.retry now job
      else (db.failAttempt now job message).dropPrompt job.turnId
    told.dropJob job.turnId runAt

/-- `runDeviceDispatch` after the gate answered. -/
def ranDeviceDispatch (db : Db) (now runAt : Int) (job : DispatchJob) (turn : TurnRow) : Handed → Db
  | .accepted dispatchId =>
    (db.setTurn turn.turnId (fun row => { row with dispatchId := some dispatchId })).dropJob job.turnId runAt
  | .refused unavailable retryable message =>
    let waits := if unavailable then db.waitForAvailableDevice now turn job.availabilityRetries else none
    let told := waits.getD (if retryable && job.attempt < dispatchMaxAttempts then db.retry now job
      else (db.dropPrompt turn.turnId).settleDeviceAttempt now turn.turnId .failed none (some message))
    told.dropJob job.turnId runAt

def deviceSettled (db : Db) (now : Int) (turnId : String) (requeue : Nat) (status : Status) (unavailable : Bool)
    (resultJson errorMessage : Option String) : Db :=
  match db.readTurn turnId with
  | none => db
  | some turn =>
    if turn.status.terminal then db
    else
      let waits := if unavailable then db.waitForAvailableDevice now turn requeue else none
      waits.getD (db.settleDeviceAttempt now turnId status resultJson errorMessage)

end Db

end Stella.AgentThreads
