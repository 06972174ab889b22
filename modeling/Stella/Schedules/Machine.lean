import Mathlib.Algebra.GroupWithZero.Nat
import Stella.Library.Transition
import Stella.Schedules.Model

/-! # Fires and the alarm's passes

A pass takes the due jobs and runs them one after another. The fire of a job is
parked while it waits for the owner's snapshot and while the turn it starts is
answered; calls of the owner and other passes go on in between.
-/

namespace Stella.Schedules

/-- How `finishFire` is told a fire ended; `retry` holds whether it is the same fire again. -/
structure Outcome where
  error : Option String
  retry : Option Bool
  pause : Bool
  oneShot : Bool

structure Snapshot where
  writable : Bool
  plan : Plan
  unlimited : Bool
  fireId : String
  conversationId : String

/-- A start succeeds, is refused with a `ScheduledTurnError`, or fails in a way that may have started it. -/
inductive StartAnswer
  | started
  | refused (message : String) (retryable conversationGone : Bool)
  | failed (message : String)
  deriving DecidableEq

inductive Await
  | snapshot
  | start (fireId : String) (oneShot pinned : Bool)
  | restart (fireId : String) (oneShot : Bool) (conversationId : String)
  deriving DecidableEq

def Await.fireId : Await → Option String
  | .snapshot => none
  | .start fireId _ _ => some fireId
  | .restart fireId _ _ => some fireId

namespace Db

def finishFire (db : Db) (now : Nat) (scheduleId fireId : String) (outcome : Outcome) : Db :=
  match db.readRow scheduleId with
  | none => db
  | some row =>
    -- removed or rewritten since the claim
    if row.activeFireId ≠ some fireId then db
    else match outcome.error.filter (· ≠ "") with
      | none =>
        (db.setRow scheduleId fun r =>
          { r with activeFireId := none, lastError := none, lastErrorAt := none, failureCount := 0 }).arm
          scheduleId row.status row.nextRunAt none
      | some error =>
        let failureCount := row.failureCount + 1
        let retryAt := now + fireRetryDelayMs
        let retry := !outcome.pause && outcome.retry.isSome && failureCount ≤ maxFireRetries &&
          (if outcome.oneShot then row.status = .done else retryAt < row.nextRunAt)
        let status := if outcome.pause then .paused else if retry && outcome.oneShot then .active else row.status
        let nextRunAt := if retry then retryAt else row.nextRunAt
        let again := if retry && outcome.retry = some true then some fireId else none
        (db.setRow scheduleId fun r =>
          { r with activeFireId := again, lastError := some error, lastErrorAt := some now, failureCount, status,
                   nextRunAt }).arm scheduleId status nextRunAt again

def dailyFires : Plan → Nat
  | .free => 24
  | .go => 60
  | .pro => 120

def planLabel : Plan → String
  | .free => "Free"
  | .go => "Go"
  | .pro => "Pro"

/-- `enforceOwnerRateLimit`: none when the limit is reached. -/
def enforceOwnerRateLimit (db : Db) (now count : Nat) : Option Db :=
  match db.fires with
  | none => some { db with fires := some ⟨now, 1⟩ }
  | some window =>
    if now - window.windowStart < dayMs then
      if count ≤ window.count then none else some { db with fires := some { window with count := window.count + 1 } }
    else some { db with fires := some ⟨now, 1⟩ }

def claim (db : Db) (now : Nat) (scheduleId fireId : String) (oneShot : Bool) (nextRunAt : Nat) : Db :=
  db.setRow scheduleId fun r =>
    { r with activeFireId := some fireId, lastRunAt := some now, nextRunAt, status := if oneShot then .done else .active }

def spend (db : Db) (now : Nat) (row : Row) (fireId : String) (retrying : Bool) (s : Snapshot) : Db × Option Await :=
  let oneShot := row.schedule.oneShot
  if !s.writable then
    (db.finishFire now row.scheduleId fireId
      ⟨some "This run was skipped: your cloud account isn't accepting work right now.", none, false, oneShot⟩, none)
  else
    let count := if s.unlimited then unlimitedDailyFires else dailyFires s.plan
    match if retrying then some db else db.enforceOwnerRateLimit now count with
    | none =>
      let error := s!"This run was skipped: today's {count} scheduled runs on the {planLabel s.plan} plan are used up."
      (db.finishFire now row.scheduleId fireId ⟨some error, none, false, oneShot⟩, none)
    | some db =>
      -- the conversation is pinned before the start
      (db.setRow row.scheduleId fun r => { r with conversationId := some (row.conversationId.getD s.conversationId) },
        some (.start fireId oneShot row.conversationId.isSome))

/-- `fire` from the snapshot to its start, or to its end. -/
def fire (cron : CronLib) (db : Db) (now : Nat) (job : Job) (s : Snapshot) : Db × Option Await :=
  match db.readRow job.scheduleId with
  | none => (db, none)
  | some row =>
    if row.status ≠ .active then (db, none)
    else if now < row.nextRunAt then (db.arm job.scheduleId row.status row.nextRunAt none, none)
    else
      let retrying := job.fireId.isSome && job.fireId = row.activeFireId
      let fireId := if retrying then job.fireId.getD s.fireId else s.fireId
      match if row.schedule.oneShot then .ok row.nextRunAt else computeNextRunAt cron row.schedule (now + 1000) with
      | .error message =>
        ((db.setRow job.scheduleId fun r => { r with activeFireId := some fireId }).finishFire now job.scheduleId fireId
          ⟨some message, none, true, false⟩, none)
      | .ok nextRunAt =>
        (db.claim now job.scheduleId fireId row.schedule.oneShot nextRunAt).spend now row fireId retrying s

/-- `fire` from an answer of its start. -/
def fireStarted (db : Db) (now : Nat) (job : Job) (fireId : String) (oneShot : Bool) : StartAnswer → Db
  | .started => db.finishFire now job.scheduleId fireId ⟨none, none, false, false⟩
  | .refused message retryable _ =>
    db.finishFire now job.scheduleId fireId ⟨some message, if retryable then some false else none, false, oneShot⟩
  | .failed message => db.finishFire now job.scheduleId fireId ⟨some message, some true, false, oneShot⟩

def pinRestarted (db : Db) (job : Job) (fireId conversationId : String) : Db :=
  if (db.readRow job.scheduleId).any (fun row => row.activeFireId = some fireId) then
    db.setRow job.scheduleId fun r => { r with conversationId := some conversationId }
  else db

def jobEnded (db : Db) (job : Job) : Db :=
  { db with jobs := db.jobs.filter fun j =>
      !(j.scheduleId = job.scheduleId && j.runAt = job.runAt && j.attempts = job.attempts) }

def jobFailed (db : Db) (now : Nat) (job : Job) : Db :=
  let attempts := job.attempts + 1
  if fireMaxAttempts ≤ attempts then db.cancel job.scheduleId
  else { db with jobs := db.jobs.map fun j =>
    if j.scheduleId = job.scheduleId ∧ j.runAt = job.runAt then
      { j with attempts, runAt := now + min jobMaxBackoffMs (1000 * 2 ^ (attempts - 1)) }
    else j }

end Db

structure Pass where
  now : Nat
  job : Job
  stage : Await
  rest : List Job
  deriving DecidableEq

structure World where
  db : Db
  passes : List Pass

def emptyWorld : World := ⟨emptyDb, []⟩

inductive Input
  | create (now : Nat) (input : Db.CreateInput) (isAnonymous : Bool) (scheduleId : String)
  | update (now : Nat) (input : Db.UpdateInput) (isAnonymous : Bool)
  | remove (now : Nat) (requestId intent scheduleId : String)
  | runNow (now : Nat) (scheduleId : String)
  | purge
  /-- The alarm goes off; jobs of other kinds take `others` places of the batch. -/
  | runDueJobs (now others : Nat)
  /-- The snapshot that pass `i` waits for is answered. -/
  | snapshot (i : Nat) (answer : Snapshot)
  | snapshotFails (i : Nat)
  /-- The start that pass `i` waits for is answered; `conversationId` is what a fresh start mints. -/
  | start (i : Nat) (answer : StartAnswer) (conversationId : String)

namespace World

def call (w : World) (written : Option Db) : World := { w with db := written.getD w.db }

def runDueJobs (w : World) (now others : Nat) : World :=
  match ((w.db.jobs.filter fun j => j.runAt ≤ now).insertionSort (fun a b => a.runAt ≤ b.runAt)).take
      (jobBatch - others) with
  | [] => w
  | job :: rest => { w with passes := w.passes ++ [⟨now, job, .snapshot, rest⟩] }

/-- Pass `i` takes up its next job, or is over. -/
def next (w : World) (i : Nat) (pass : Pass) (db : Db) : World :=
  ⟨db, match pass.rest with
    | [] => w.passes.eraseIdx i
    | job :: rest => w.passes.set i ⟨pass.now, job, .snapshot, rest⟩⟩

def parkAt (w : World) (i : Nat) (pass : Pass) (db : Db) (stage : Await) : World :=
  ⟨db, w.passes.set i { pass with stage }⟩

variable (cron : CronLib)

def snapshot (w : World) (i : Nat) (answer : Snapshot) : World :=
  match w.passes[i]? with
  | some ⟨now, job, .snapshot, rest⟩ =>
    match w.db.fire cron now job answer with
    | (db, none) => w.next i ⟨now, job, .snapshot, rest⟩ (db.jobEnded job)
    | (db, some stage) => w.parkAt i ⟨now, job, .snapshot, rest⟩ db stage
  | _ => w

def snapshotFails (w : World) (i : Nat) : World :=
  match w.passes[i]? with
  | some ⟨now, job, .snapshot, rest⟩ => w.next i ⟨now, job, .snapshot, rest⟩ (w.db.jobFailed now job)
  | _ => w

def start (w : World) (i : Nat) (answer : StartAnswer) (conversationId : String) : World :=
  match w.passes[i]? with
  | some ⟨now, job, .start fireId oneShot pinned, rest⟩ =>
    match answer, pinned with
    | .refused _ _ true, true =>
      w.parkAt i ⟨now, job, .start fireId oneShot pinned, rest⟩ w.db (.restart fireId oneShot conversationId)
    | _, _ =>
      w.next i ⟨now, job, .start fireId oneShot pinned, rest⟩
        ((w.db.fireStarted now job fireId oneShot answer).jobEnded job)
  | some ⟨now, job, .restart fireId oneShot conversationId, rest⟩ =>
    let db := if answer = .started then w.db.pinRestarted job fireId conversationId else w.db
    w.next i ⟨now, job, .restart fireId oneShot conversationId, rest⟩
      ((db.fireStarted now job fireId oneShot answer).jobEnded job)
  | _ => w

def step (w : World) : Input → World
  | .create now input isAnonymous scheduleId =>
    w.call (w.db.createSchedule cron now input isAnonymous scheduleId)
  | .update now input isAnonymous => w.call (w.db.updateSchedule cron now input isAnonymous)
  | .remove now requestId intent scheduleId => w.call (w.db.removeSchedule now requestId intent scheduleId)
  | .runNow now scheduleId => w.call (w.db.runNow now scheduleId)
  | .purge => w.call (some w.db.purge)
  | .runDueJobs now others => w.runDueJobs now others
  | .snapshot i answer => w.snapshot cron i answer
  | .snapshotFails i => w.snapshotFails i
  | .start i answer conversationId => w.start i answer conversationId

end World

end Stella.Schedules
