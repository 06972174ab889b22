import Stella.AgentThreads.Operations
import Stella.Library.Transition

/-! # Handlers in any interleaving

The owner's rows beside the gate's dispatches of device attempts. A handler that
waits for another object is parked with what it read, and goes on, or is lost with
its object, whatever happened meanwhile.
-/

namespace Stella.AgentThreads

structure GateDispatch where
  dispatchId : String
  turnId : String
  requeue : Nat
  terminal : Bool
  cancelRequested : Bool
  deriving DecidableEq

structure World where
  db : Db
  dispatches : List GateDispatch
  /-- The turns of the device attempts that were stopped with success. -/
  stopped : List String

def emptyWorld : World := ⟨emptyDb, [], []⟩

inductive Input
  | spawnOnDevice (now : Int) (args : SpawnOnDevice)
  | spawnFromDesktop (now : Int) (args : SpawnFromDesktop)
  | continueFromDesktop (now : Int) (args : ContinueFromDesktop)
  | continueDevice (args : CloudDevice) (description clientMsgId fingerprint : String)
  | message (target ownerGeneration messageId : String)
  | cancelDevice (now : Int) (args : CloudDevice)
  | cancelThread (now : Int) (args : CancelThread)
  | acknowledge (now : Int) (args : AcknowledgeDelivery)
  | startComputer (now : Int) (args : StartComputer)
  | completeComputer (now : Int) (args : ComputerAttempt) (failed : Bool) (resultJson errorMessage : Option String)
  | cancelComputer (now : Int) (args : ComputerAttempt) (reason : Option String)
  | ownerEvent (event : AgentThreadEvent)
  | deviceSettled (now : Int) (turnId : String) (requeue : Nat) (status : Status) (unavailable : Bool)
      (resultJson errorMessage : Option String)
  /-- The alarm takes up a queued dispatch. -/
  | runJob (i : Nat)
  /-- The gate admits the dispatch that a parked handler submits. -/
  | gateAdmits (i : Nat) (dispatchId : String)
  | gateEnds (dispatchId : String)
  /-- A parked handler goes on; `turnId` is what it mints. -/
  | proceed (i : Nat) (now : Int) (turnId : String) (answer : Handed)
  /-- It is lost, or its call fails or is refused. -/
  | lose (i : Nat)

namespace World

def withDb (w : World) (db : Db) : World := { w with db }

def dropTask (w : World) (i : Nat) : World := { w with db := { w.db with tasks := w.db.tasks.eraseIdx i } }

/-- `stopDeviceAttempt`: with no running turn there is nothing to do; with no dispatch it ends at once. -/
def stopDeviceAttempt (w : World) (now : Int) (thread : ThreadRow) : World :=
  match (if thread.status.active then w.db.runningTurn thread else none) with
  | none => { w with stopped := w.db.attemptTurns thread ++ w.stopped }
  | some turn =>
    match turn.dispatchId.filter (· ≠ "") with
    | none => { w with db := w.db.stopTurn now thread turn, stopped := w.db.attemptTurns thread ++ w.stopped }
    | some dispatchId =>
      w.withDb ((w.db.stopTurn now thread turn).park (.stop (w.db.attemptTurns thread) dispatchId))

def cancelDeviceForCloud (w : World) (now : Int) (args : CloudDevice) : World :=
  match w.db.readCloudDeviceThread args with
  | none => w
  | some thread => w.stopDeviceAttempt now thread

/-- `cancelThread` up to its call. -/
def cancelThread (w : World) (now : Int) (args : CancelThread) : World :=
  match w.db.readThread args.threadId with
  | none => w
  | some thread =>
    if thread.ownerGeneration ≠ some args.ownerGeneration ∨ thread.originDeviceId ≠ some args.originDeviceId ∨
        thread.originConversationId ≠ some args.originConversationId then w
    else if !thread.status.active then
      if thread.onDevice then { w with stopped := w.db.attemptTurns thread ++ w.stopped } else w
    else if thread.attemptGeneration ≠ args.expectedAttemptGeneration ∨
        thread.updatedAt ≠ args.expectedThreadUpdatedAt then w
    else match w.db.runningTurn thread with
      | none => w
      | some turn =>
        if thread.onDevice then w.stopDeviceAttempt now thread
        else w.withDb (w.db.park (.cancel thread turn.turnId))

def runJob (w : World) (i : Nat) : World :=
  match w.db.jobs[i]? with
  | none => w
  | some (runAt, job) => w.withDb (w.db.runDispatch runAt job)

def gateAdmits (w : World) (i : Nat) (dispatchId : String) : World :=
  match w.db.tasks[i]? with
  | some (.deviceDispatch _ job turn) =>
    if w.dispatches.any (fun d => d.dispatchId = dispatchId ∨
        (d.turnId = turn.turnId ∧ d.requeue = job.availabilityRetries)) then w
    else { w with dispatches := w.dispatches ++ [⟨dispatchId, turn.turnId, job.availabilityRetries, false, false⟩] }
  | _ => w

def gateEnds (w : World) (dispatchId : String) : World :=
  { w with dispatches := Rows.modify GateDispatch.dispatchId w.dispatches dispatchId (fun d => { d with terminal := true }) }

def requestCancel (w : World) (dispatchId : String) : World :=
  { w with dispatches := Rows.modify GateDispatch.dispatchId w.dispatches dispatchId (fun d => { d with cancelRequested := true }) }

def answers (w : World) (job : DispatchJob) (turn : TurnRow) : Handed → Bool
  | .accepted dispatchId => w.dispatches.any (fun d => d.dispatchId = dispatchId && d.turnId = turn.turnId &&
      d.requeue = job.availabilityRetries)
  | .refused _ _ _ => true

def proceedTask (w : World) (now : Int) (turnId : String) (answer : Handed) : Task → World
  | .continueDevice thread clientMsgId fingerprint description =>
    w.withDb (w.db.continuedDevice now thread description ⟨turnId, clientMsgId, fingerprint⟩)
  | .message thread messageId => w.withDb (w.db.deliveredMessage now thread ⟨turnId, messageId, "agent-message"⟩)
  | .cancel thread stopTurnId => w.withDb (w.db.canceledThread now thread stopTurnId)
  | .stop turnIds dispatchId => { w.requestCancel dispatchId with stopped := turnIds ++ w.stopped }
  | .dispatch runAt job => w.withDb (w.db.ranDispatch now runAt job answer)
  | .deviceDispatch runAt job turn =>
    if w.answers job turn answer then w.withDb (w.db.ranDeviceDispatch now runAt job turn answer) else w

def proceed (w : World) (i : Nat) (now : Int) (turnId : String) (answer : Handed) : World :=
  match w.db.tasks[i]? with
  | none => w
  | some task => (w.dropTask i).proceedTask now turnId answer task

def step (w : World) : Input → World
  | .spawnOnDevice now args => w.withDb (w.db.spawnOnDeviceForCloud now args)
  | .spawnFromDesktop now args => w.withDb (w.db.spawnFromDesktop now args)
  | .continueFromDesktop now args => w.withDb (w.db.continueFromDesktop now args)
  | .continueDevice args description clientMsgId fingerprint =>
    w.withDb (w.db.continueDeviceForCloud args description clientMsgId fingerprint)
  | .message target ownerGeneration messageId => w.withDb (w.db.deliverAgentMessage target ownerGeneration messageId)
  | .cancelDevice now args => w.cancelDeviceForCloud now args
  | .cancelThread now args => w.cancelThread now args
  | .acknowledge now args => w.withDb (w.db.acknowledgeDelivery now args)
  | .startComputer now args => w.withDb (w.db.startComputerThread now args)
  | .completeComputer now args failed resultJson errorMessage =>
    w.withDb (w.db.completeComputerThread now args failed resultJson errorMessage)
  | .cancelComputer now args reason => w.withDb (w.db.cancelComputerThread now args reason)
  | .ownerEvent event => w.withDb (w.db.applyAgentThreadEvent event)
  | .deviceSettled now turnId requeue status unavailable resultJson errorMessage =>
    w.withDb (w.db.deviceSettled now turnId requeue status unavailable resultJson errorMessage)
  | .runJob i => w.runJob i
  | .gateAdmits i dispatchId => w.gateAdmits i dispatchId
  | .gateEnds dispatchId => w.gateEnds dispatchId
  | .proceed i now turnId answer => w.proceed i now turnId answer
  | .lose i => w.dropTask i

end World

end Stella.AgentThreads
