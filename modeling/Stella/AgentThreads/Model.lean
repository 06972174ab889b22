import Stella.Library.Rows

/-! # Agent threads of an owner

The rows of `agent-threads.ts`: a thread and its attempts, each attempt a turn. The columns no
modelled function reads are left out.
-/

namespace Stella.AgentThreads

inductive Status
  | running
  | resuming
  | waitingForUser
  | completed
  | failed
  | canceled
  deriving DecidableEq

def Status.terminal : Status → Bool
  | .completed | .failed | .canceled => true
  | _ => false

def Status.active : Status → Bool
  | .running | .resuming => true
  | _ => false

structure ThreadRow where
  threadId : String
  conversationId : String
  ownerGeneration : Option String
  parentTurnId : Option String
  parentThreadId : Option String
  executorDeviceId : Option String
  originDeviceId : Option String
  originConversationId : Option String
  originDeliveryAckAt : Option Int
  description : String
  /-- `placement` is `computer`, and not `cloud`. -/
  onComputer : Bool
  agentType : String
  attemptGeneration : Int
  status : Status
  resultJson : Option String
  errorMessage : Option String
  createdAt : Int
  updatedAt : Int

structure TurnRow where
  turnId : String
  threadId : Option String
  conversationId : Option String
  ownerGeneration : Option String
  attemptGeneration : Option Int
  status : Status
  clientMsgId : Option String
  spawnFingerprint : Option String
  dispatchId : Option String
  createdAt : Int
  updatedAt : Int
  deriving DecidableEq

structure DispatchJob where
  threadId : String
  turnId : String
  attemptGeneration : Int
  attempt : Nat
  availabilityRetries : Nat

inductive Task
  | continueDevice (thread : ThreadRow) (controlRequestId fingerprint description : String)
  | message (thread : ThreadRow) (messageId : String)
  | cancel (thread : ThreadRow) (turnId : String)
  /-- A stop of an attempt with these turns, whose dispatch is asked to be canceled. -/
  | stop (turnIds : List String) (dispatchId : String)
  | dispatch (runAt : Int) (job : DispatchJob)
  | deviceDispatch (runAt : Int) (job : DispatchJob) (turn : TurnRow)

structure Db where
  threads : List ThreadRow
  turns : List TurnRow
  /-- The turns whose prompt is kept for a dispatch. -/
  prompts : List String
  /-- The queued dispatches: one for each turn, with the time it is due. -/
  jobs : List (Int × DispatchJob)
  tasks : List Task
  /-- What devices have acknowledged: a thread, an attempt and its `updated_at`. -/
  acknowledged : List (String × Int × Int)

def emptyDb : Db := ⟨[], [], [], [], [], []⟩

def clip (value : String) (max : Nat) : String :=
  if max < value.length then String.ofList (value.toList.take (max - 1)) ++ "…" else value

namespace Db

def readThread (db : Db) (threadId : String) : Option ThreadRow := Rows.lookup ThreadRow.threadId db.threads threadId

def readTurn (db : Db) (turnId : String) : Option TurnRow := Rows.lookup TurnRow.turnId db.turns turnId

def setThread (db : Db) (threadId : String) (patch : ThreadRow → ThreadRow) : Db :=
  { db with threads := Rows.modify ThreadRow.threadId db.threads threadId patch }

def setTurn (db : Db) (turnId : String) (patch : TurnRow → TurnRow) : Db :=
  { db with turns := Rows.modify TurnRow.turnId db.turns turnId patch }

def dropPrompt (db : Db) (turnId : String) : Db := { db with prompts := db.prompts.filter (· ≠ turnId) }

def schedule (db : Db) (runAt : Int) (job : DispatchJob) : Db :=
  { db with jobs := db.jobs.filter (fun j => j.2.turnId ≠ job.turnId) ++ [(runAt, job)] }

def cancelJob (db : Db) (turnId : String) : Db := { db with jobs := db.jobs.filter (fun j => j.2.turnId ≠ turnId) }

def dropJob (db : Db) (turnId : String) (runAt : Int) : Db :=
  { db with jobs := db.jobs.filter (fun j => !(j.2.turnId = turnId && j.1 = runAt)) }

def park (db : Db) (task : Task) : Db := { db with tasks := db.tasks ++ [task] }

end Db

theorem readThread_setThread {db : Db} {t : String} (patch : ThreadRow → ThreadRow)
    (hKey : ∀ row, (patch row).threadId = row.threadId) (id : String) : (db.setThread id patch).readThread t =
      (db.readThread t).map (fun row => if t = id then patch row else row) :=
  Rows.lookup_modify hKey _ _ _

theorem readTurn_setTurn {db : Db} {t : String} (patch : TurnRow → TurnRow)
    (hKey : ∀ row, (patch row).turnId = row.turnId) (id : String) : (db.setTurn id patch).readTurn t =
      (db.readTurn t).map (fun row => if t = id then patch row else row) :=
  Rows.lookup_modify hKey _ _ _

end Stella.AgentThreads
