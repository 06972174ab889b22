import Stella.Library.Rows
import Stella.Library.Transition

/-! # Media jobs

A row for each job, the owner jobs that poll and expire it, and the calls in flight, cut at their
awaits.
-/

namespace Stella.Media

open Stella.Rows

inductive MediaStatus
  | submitting
  | queued
  | running
  | succeeded
  | failed
  | canceled
  deriving DecidableEq

def MediaStatus.terminal : MediaStatus → Bool
  | .succeeded | .failed | .canceled => true
  | _ => false

structure MediaJobError where
  message : String
  code : Option String := none

structure JobRow where
  jobId : String
  clientRequestKey : Option String
  model : String
  status : MediaStatus
  /-- The stored request: its input and its hash. -/
  input : String
  hash : String
  providerRequestId : Option String := none
  outputs : Option String := none
  error : Option MediaJobError := none
  costMicroCents : Option Int := none
  billed : Bool := false
  webhookToken : String

def JobRow.ended (row : JobRow) : Bool := row.status.terminal

namespace JobRow

def fail (error : MediaJobError) (row : JobRow) : JobRow :=
  if row.ended then row else { row with status := .failed, error := some error }

def cancel (row : JobRow) : JobRow := { row with status := .canceled }

def succeed (output : String) (cost : Option Int) (row : JobRow) : JobRow :=
  { row with
    status := .succeeded, outputs := some output, costMicroCents := cost, billed := cost.any (fun cost => 0 < cost)
    error := none }

def submit (requestId : String) (inProgress : Bool) (row : JobRow) : JobRow :=
  { row with
    providerRequestId := some requestId
    status := if row.status = .submitting then if inProgress then .running else .queued else row.status }

def assume (row : JobRow) : JobRow := { row with status := if row.status = .submitting then .running else row.status }

end JobRow

inductive PollPayload
  | attempt (n : Nat)
  | result (payload : String)

structure PollJob where
  jobId : String
  payload : PollPayload

structure MediaCharge where
  jobId : String
  costMicroCents : Int

structure MediaDb where
  rows : List JobRow := []
  polls : List PollJob := []
  expires : List String := []
  charges : List MediaCharge := []

namespace MediaDb

variable (db : MediaDb)

def getRow (jobId : String) : Option JobRow := lookup JobRow.jobId db.rows jobId

def insertJob (row : JobRow) : MediaDb :=
  { db with
    rows := db.rows ++ [row]
    polls := upsert PollJob.jobId db.polls ⟨row.jobId, .attempt 0⟩
    expires := db.expires.insert row.jobId }

def update (jobId : String) (f : JobRow → JobRow) : MediaDb := { db with rows := modify JobRow.jobId db.rows jobId f }

def schedulePoll (jobId : String) (payload : PollPayload) : MediaDb :=
  { db with polls := upsert PollJob.jobId db.polls ⟨jobId, payload⟩ }

def clearJobs (jobId : String) : MediaDb :=
  { db with polls := erase PollJob.jobId db.polls jobId, expires := erase id db.expires jobId }

def failJob (jobId : String) (error : MediaJobError) : MediaDb :=
  (db.update jobId (JobRow.fail error)).clearJobs jobId

def recordUsage (charge : MediaCharge) : MediaDb := { db with charges := db.charges ++ [charge] }

/-- `completeJob` from the stored outputs on. -/
def completeJob (price : String → String → String → Option Int) (row : JobRow) (payload output : String) : MediaDb :=
  match db.getRow row.jobId with
  | none => db
  | some current =>
    if current.ended then db
    else
      let cost := price row.model row.input payload
      let charged := match cost with
        | some cost => if 0 < cost then db.recordUsage ⟨row.jobId, cost⟩ else db
        | none => db
      (charged.update row.jobId (JobRow.succeed output cost)).clearJobs row.jobId

def cancelJob (jobId : String) : MediaDb :=
  match db.getRow jobId with
  | none => db
  | some row =>
    if row.ended then db else (db.update jobId JobRow.cancel).clearJobs jobId

end MediaDb

/-! ## Calls in flight -/

inductive StartStage
  | staging
  | submitting
  | done
  deriving DecidableEq

structure StartCall where
  jobId : String
  stage : StartStage

inductive PollStage
  | asking
  | storing (payload : String)
  | done
  deriving DecidableEq

structure PollCall where
  /-- The row as the poll read it. -/
  row : JobRow
  attempt : Nat
  stage : PollStage

structure JoinedStart where
  key : String
  hash : String
  jobId : String

structure MediaWorld where
  db : MediaDb := {}
  inFlight : List String := []
  starts : List StartCall := []
  polls : List PollCall := []
  /-- The jobs submitted to the provider. -/
  submitted : List String := []
  joined : List JoinedStart := []

structure GenerateRequest where
  jobId : String
  clientRequestKey : Option String
  model : String
  input : String
  hash : String
  webhookToken : String

inductive StageOutcome
  | stored (input : String)
  | threw (error : MediaJobError)

inductive SubmitOutcome
  | accepted (requestId : String) (inProgress : Bool)
  | refused (error : MediaJobError)
  /-- The provider may have accepted it. -/
  | ambiguous

inductive PollOutcome
  | succeeded (payload : String)
  | failed (error : MediaJobError)
  | pending (running : Bool)
  | threw

inductive WebhookEvent
  | ok (result : Option String)
  | error (error : MediaJobError)

inductive MediaInput
  | startJob (request : GenerateRequest) (admitted : Bool)
  /-- The sources of the start at this place are staged, or not. -/
  | staged (place : Nat) (outcome : StageOutcome)
  | submitted (place : Nat) (outcome : SubmitOutcome)
  | cancelJob (jobId : String)
  | cancelByKey (key : String)
  | falWebhook (jobId token : String) (requestId : Option String) (event : WebhookEvent)
  | runPoll (jobId : String) (payload : PollPayload)
  /-- What the provider answers the poll at this place. -/
  | asked (place : Nat) (outcome : PollOutcome)
  /-- The outputs of the poll at this place are stored, or not. -/
  | stored (place : Nat) (output : Option String)
  /-- The owner job of a poll is over. -/
  | pollOver (jobId : String)
  | runExpire (jobId : String)
  /-- The isolate is replaced. -/
  | restart

namespace MediaWorld

variable (price : String → String → String → Option Int) (w : MediaWorld)

def withDb (db : MediaDb) : MediaWorld := { w with db }

def withStart (place : Nat) (call : StartCall) (stage : StartStage) : MediaWorld :=
  { w with starts := w.starts.set place { call with stage } }

/-- `inFlight.delete` at the end of a start. -/
def endStart (place : Nat) (call : StartCall) : MediaWorld :=
  { w.withStart place call .done with inFlight := erase id w.inFlight call.jobId }

def startJob (request : GenerateRequest) (admitted : Bool) : MediaWorld :=
  match request.clientRequestKey.bind fun key => w.db.rows.find? (fun row => row.clientRequestKey = some key) with
  | some existing =>
    if existing.hash = request.hash then
      { w with joined := w.joined ++ request.clientRequestKey.toList.map fun key => ⟨key, request.hash, existing.jobId⟩ }
    else w
  | none =>
    if !admitted || (w.db.getRow request.jobId).isSome then w
    else
      let row : JobRow :=
        { jobId := request.jobId, clientRequestKey := request.clientRequestKey, model := request.model
          status := .submitting, input := request.input, hash := request.hash, webhookToken := request.webhookToken }
      { w with
        db := w.db.insertJob row
        inFlight := w.inFlight.insert request.jobId
        starts := w.starts ++ [⟨request.jobId, .staging⟩]
        joined := w.joined ++ request.clientRequestKey.toList.map fun key => ⟨key, request.hash, request.jobId⟩ }

def staged (place : Nat) (call : StartCall) : StageOutcome → MediaWorld
  | .threw error => (w.withDb (w.db.failJob call.jobId error)).endStart place call
  | .stored input =>
    let w := w.withDb (w.db.update call.jobId fun row => { row with input })
    if (w.db.getRow call.jobId).any fun row => row.status = .canceled then w.endStart place call
    else { w.withStart place call .submitting with submitted := w.submitted ++ [call.jobId] }

def submitAnswered (place : Nat) (call : StartCall) : SubmitOutcome → MediaWorld
  | .accepted requestId inProgress =>
    (w.withDb (w.db.update call.jobId (JobRow.submit requestId inProgress))).endStart place call
  | .refused error => (w.withDb (w.db.failJob call.jobId error)).endStart place call
  | .ambiguous =>
    (w.withDb (w.db.update call.jobId JobRow.assume)).endStart place call

def falWebhook (jobId token : String) (requestId : Option String) (event : WebhookEvent) : MediaWorld :=
  match w.db.getRow jobId with
  | none => w
  | some row =>
    if row.webhookToken ≠ token || row.ended then w
    else if requestId.any fun requestId => row.providerRequestId.any fun known => requestId ≠ known then w
    else
      let db := w.db.update jobId fun row =>
        { row with providerRequestId := row.providerRequestId <|> requestId }
      match event with
      | .ok result => { w with db := db.schedulePoll jobId ((result.map PollPayload.result).getD (.attempt 0)) }
      | .error error => { w with db := db.failJob jobId error }

def submissionLost : MediaJobError :=
  ⟨"Stella lost this request while submitting it and did not resubmit it.", some "submission_lost"⟩

def runPoll (jobId : String) (payload : PollPayload) : MediaWorld :=
  match w.db.getRow jobId with
  | none => w
  | some row =>
    if row.ended then w
    else
      match payload with
      | .result result => { w with polls := w.polls ++ [⟨row, 0, .storing result⟩] }
      | .attempt attempt =>
        if row.providerRequestId.isSome then { w with polls := w.polls ++ [⟨row, attempt, .asking⟩] }
        else if jobId ∈ w.inFlight then { w with db := w.db.schedulePoll jobId (.attempt (attempt + 1)) }
        else if row.status = .submitting then { w with db := w.db.failJob jobId submissionLost }
        else w

def asked (place : Nat) (call : PollCall) : PollOutcome → MediaWorld
  | .succeeded payload => { w with polls := w.polls.set place { call with stage := .storing payload } }
  | .failed error =>
    { w with db := w.db.failJob call.row.jobId error, polls := w.polls.set place { call with stage := .done } }
  | .pending running =>
    let db := if running && call.row.status = .queued then w.db.update call.row.jobId fun row => { row with status := .running }
      else w.db
    { w with
      db := db.schedulePoll call.row.jobId (.attempt (call.attempt + 1))
      polls := w.polls.set place { call with stage := .done } }
  | .threw => { w with polls := w.polls.set place { call with stage := .done } }

def runExpire (jobId : String) : MediaWorld :=
  match w.db.getRow jobId with
  | none => { w with db := { w.db with expires := erase id w.db.expires jobId } }
  | some row =>
    if row.ended then { w with db := { w.db with expires := erase id w.db.expires jobId } }
    else { w with db := w.db.failJob jobId ⟨"Media generation took too long.", some "timeout"⟩ }

def step : MediaInput → MediaWorld
  | .startJob request admitted => w.startJob request admitted
  | .staged place outcome =>
    match w.starts[place]? with
    | some ⟨jobId, .staging⟩ => w.staged place ⟨jobId, .staging⟩ outcome
    | _ => w
  | .submitted place outcome =>
    match w.starts[place]? with
    | some ⟨jobId, .submitting⟩ => w.submitAnswered place ⟨jobId, .submitting⟩ outcome
    | _ => w
  | .cancelJob jobId => { w with db := w.db.cancelJob jobId }
  | .cancelByKey key =>
    match w.db.rows.find? (fun row => row.clientRequestKey = some key) with
    | some row => { w with db := w.db.cancelJob row.jobId }
    | none => w
  | .falWebhook jobId token requestId event => w.falWebhook jobId token requestId event
  | .runPoll jobId payload => w.runPoll jobId payload
  | .asked place outcome =>
    match w.polls[place]? with
    | some ⟨row, attempt, .asking⟩ => w.asked place ⟨row, attempt, .asking⟩ outcome
    | _ => w
  | .stored place output =>
    match w.polls[place]? with
    | some ⟨row, attempt, .storing payload⟩ =>
      { w with
        db := match output with
          | some output => w.db.completeJob price row payload output
          | none => w.db
        polls := w.polls.set place ⟨row, attempt, .done⟩ }
    | _ => w
  | .pollOver jobId => { w with db := { w.db with polls := erase PollJob.jobId w.db.polls jobId } }
  | .runExpire jobId => w.runExpire jobId
  | .restart => { w with inFlight := [], starts := [], polls := [] }

end MediaWorld

end Stella.Media
