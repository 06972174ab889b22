import Stella.AgentThreads.Model

/-! # Owner events of agent threads

`applyAgentThreadEvent`: what the turn plane reports about attempts, in whatever order it
arrives.
-/

namespace Stella.AgentThreads

structure TurnStarted where
  turnId : String
  /-- `turnKind` is `agent`. -/
  isAgent : Bool
  threadId : Option String
  conversationId : String
  ownerGeneration : String
  attemptGeneration : Option Int
  clientMsgId : Option String
  createdAt : Int

structure TurnEvent where
  turnId : String
  attemptGeneration : Option Int
  /-- `eventKind` is `output_files`. -/
  outputFiles : Bool
  terminal : Bool
  terminalStatus : Option Status
  createdAt : Int

structure ThreadSpawned where
  threadId : String
  conversationId : String
  ownerGeneration : String
  parentTurnId : String
  parentThreadId : Option String
  originDeviceId : Option String
  originConversationId : Option String
  attemptGeneration : Int
  description : String
  createdAt : Int

structure ThreadCompleted where
  threadId : String
  ownerGeneration : String
  attemptGeneration : Int
  /-- Final, or `waiting_for_user`. -/
  status : Status
  resultJson : Option String
  errorMessage : Option String
  completedAt : Int

inductive AgentThreadEvent
  | turnStarted (event : TurnStarted)
  | turnEvent (event : TurnEvent)
  | threadSpawned (event : ThreadSpawned)
  | threadCompleted (event : ThreadCompleted)

def startedRow (event : TurnStarted) : TurnRow where
  turnId := event.turnId
  threadId := event.threadId
  conversationId := some event.conversationId
  ownerGeneration := some event.ownerGeneration
  attemptGeneration := event.attemptGeneration
  status := .running
  clientMsgId := event.clientMsgId
  spawnFingerprint := none
  dispatchId := none
  createdAt := event.createdAt
  updatedAt := event.createdAt

def spawnedRow (event : ThreadSpawned) : ThreadRow where
  threadId := event.threadId
  conversationId := event.conversationId
  ownerGeneration := some event.ownerGeneration
  parentTurnId := some event.parentTurnId
  parentThreadId := event.parentThreadId
  executorDeviceId := none
  originDeviceId := event.originDeviceId
  originConversationId := event.originConversationId
  originDeliveryAckAt := none
  description := clip event.description 1000
  onComputer := false
  agentType := "general"
  attemptGeneration := event.attemptGeneration
  status := .running
  resultJson := none
  errorMessage := none
  createdAt := event.createdAt
  updatedAt := event.createdAt

def parentPatch (event : ThreadSpawned) (row : ThreadRow) : ThreadRow :=
  { row with parentTurnId := some event.parentTurnId }

def respawnPatch (event : ThreadSpawned) (row : ThreadRow) : ThreadRow :=
  { row with
    status := .running, attemptGeneration := event.attemptGeneration, description := clip event.description 1000,
    originDeliveryAckAt := none, resultJson := none, errorMessage := none,
    updatedAt := max row.updatedAt event.createdAt }

def completedPatch (event : ThreadCompleted) (row : ThreadRow) : ThreadRow :=
  { row with
    status := event.status, attemptGeneration := event.attemptGeneration, resultJson := event.resultJson,
    errorMessage := event.errorMessage, updatedAt := max (row.updatedAt + 1) event.completedAt }

def turnTerminalPatch (event : TurnEvent) (row : TurnRow) : TurnRow :=
  if row.status = .running ∨ row.status = .resuming ∨ row.status = .waitingForUser then
    { row with status := event.terminalStatus.getD .failed, updatedAt := event.createdAt }
  else row

namespace Db

/-- `ON CONFLICT DO NOTHING`: another turn may hold the client's message id. -/
def insertTurn (db : Db) (row : TurnRow) : Db :=
  if db.turns.any (fun r => r.turnId = row.turnId ∨ (row.clientMsgId.isSome ∧ r.clientMsgId = row.clientMsgId)) then db
  else { db with turns := db.turns ++ [row] }

def stale (thread : ThreadRow) (event : ThreadCompleted) : Bool :=
  (thread.ownerGeneration.any (fun generation => generation ≠ event.ownerGeneration)) ||
    decide (event.attemptGeneration < thread.attemptGeneration) ||
    (decide (event.attemptGeneration = thread.attemptGeneration) && !thread.status.active &&
      decide (thread.status ≠ .waitingForUser))

def applyAgentThreadEvent (db : Db) : AgentThreadEvent → Db
  | .turnStarted event =>
    if !event.isAgent || (db.readTurn event.turnId).isSome then db else db.insertTurn (startedRow event)
  | .turnEvent event =>
    match db.readTurn event.turnId with
    | none => db
    | some turn =>
      if turn.threadId.all (· = "") then db
      else if event.attemptGeneration.any (fun told => turn.attemptGeneration.any (fun own => told ≠ own)) then db
      else if event.outputFiles then db
      else if event.terminal then db.setTurn event.turnId (turnTerminalPatch event)
      else db
  | .threadSpawned event =>
    match db.readThread event.threadId with
    | none => { db with threads := db.threads ++ [spawnedRow event] }
    | some thread =>
      if event.attemptGeneration ≤ thread.attemptGeneration then
        if event.attemptGeneration = thread.attemptGeneration ∧ thread.parentTurnId = none then
          db.setThread event.threadId (parentPatch event)
        else db
      else db.setThread event.threadId (respawnPatch event)
  | .threadCompleted event =>
    match db.readThread event.threadId with
    | none => db
    | some thread => if stale thread event then db else db.setThread event.threadId (completedPatch event)

end Db

theorem insertTurn_readThread (db : Db) (row : TurnRow) (t : String) :
    (db.insertTurn row).readThread t = db.readThread t := by
  unfold Db.insertTurn
  split <;> rfl

end Stella.AgentThreads
