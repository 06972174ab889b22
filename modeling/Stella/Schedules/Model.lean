import Stella.Library.Rows
import Mathlib.Data.List.Sort

/-! # Schedules of an owner and the jobs that fire them

A schedule is a row with the time of its next run; the alarm's jobs are a table beside it, keyed
by the schedule.
-/

namespace Stella.Schedules

structure CronLib where
  reads : String → Option String → Bool
  nextRun : String → Option String → Nat → Option Nat
  after : ∀ {expr tz now next}, nextRun expr tz now = some next → now < next

inductive LocalCronSchedule
  | atMs (ms : Nat)
  | every (everyMs : Nat) (anchorMs : Option Nat)
  | cron (expr : String) (tz : Option String)

def LocalCronSchedule.oneShot : LocalCronSchedule → Bool
  | .atMs _ => true
  | _ => false

inductive Status
  | active | paused | done
  deriving DecidableEq

inductive Action
  | create | update | remove
  deriving DecidableEq

inductive Plan
  | free | go | pro

def maxSchedules : Nat := 25
def minIntervalMs : Nat := 15 * 60000
def fireRetryDelayMs : Nat := 60000
def maxFireRetries : Nat := 3
def dayMs : Nat := 24 * 60 * 60000
def receiptTtlMs : Nat := 7 * dayMs
def unlimitedDailyFires : Nat := 800
def jobBatch : Nat := 32
def fireMaxAttempts : Nat := 10
def jobMaxBackoffMs : Nat := 60 * 60000

structure Row where
  scheduleId : String
  conversationId : Option String
  schedule : LocalCronSchedule
  nextRunAt : Nat
  lastRunAt : Option Nat
  status : Status
  lastError : Option String
  lastErrorAt : Option Nat
  failureCount : Nat
  activeFireId : Option String

/-- A job of the kind `schedules.fire`; its id is the schedule's. -/
structure Job where
  scheduleId : String
  fireId : Option String
  runAt : Nat
  attempts : Nat
  deriving DecidableEq

structure Receipt where
  requestId : String
  action : Action
  intent : String
  createdAt : Nat

structure RateWindow where
  windowStart : Nat
  count : Nat

structure Db where
  rows : List Row
  jobs : List Job
  receipts : List Receipt
  /-- The owner's count of scheduled runs. -/
  fires : Option RateWindow

def emptyDb : Db := ⟨[], [], [], none⟩

/-! ## Times -/

section Times

variable (cron : CronLib)

def computeNextRunAt (schedule : LocalCronSchedule) (now : Nat) : Except String Nat :=
  match schedule with
  | .atMs ms => .ok (max ms now)
  | .every everyMs anchorMs =>
    let everyMs := max 1 everyMs
    let anchor := anchorMs.getD now
    .ok (if now < anchor then anchor else anchor + max 1 ((now - anchor + (everyMs - 1)) / everyMs) * everyMs)
  | .cron expr tz =>
    if !cron.reads expr tz then .error s!"\"{expr}\" is not a cron expression Stella can read."
    else match cron.nextRun expr tz now with
      | none => .error s!"\"{expr}\" has no future run times. Pick a different schedule."
      | some next => .ok next

def intervalMs (schedule : LocalCronSchedule) (now : Nat) : Except String (Option Nat) :=
  match schedule with
  | .atMs _ => .ok none
  | .every everyMs _ => .ok (some everyMs)
  | .cron expr tz =>
    if !cron.reads expr tz then .error s!"\"{expr}\" is not a cron expression Stella can read."
    else .ok ((cron.nextRun expr tz now).bind fun first => (cron.nextRun expr tz first).map (· - first))

def assertAllowed (schedule : LocalCronSchedule) (now : Nat) : Except String Unit :=
  match intervalMs cron schedule now with
  | .error message => .error message
  | .ok (some interval) =>
    if interval < minIntervalMs then .error "Schedules can run at most once every 15 minutes. Space this one out."
    else .ok ()
  | .ok none => .ok ()

variable {cron}

theorem roundUp_ge (gap every : Nat) (h : 0 < every) : gap ≤ max 1 ((gap + (every - 1)) / every) * every := by
  have hDiv := Nat.div_add_mod (gap + (every - 1)) every
  have hMod := Nat.mod_lt (gap + (every - 1)) h
  have hMul : every * ((gap + (every - 1)) / every) ≤ max 1 ((gap + (every - 1)) / every) * every := by
    rw [Nat.mul_comm]
    exact Nat.mul_le_mul_right every (Nat.le_max_right _ _)
  omega

variable {schedule : LocalCronSchedule} {now : Nat}

theorem computeNextRunAt_ge {next : Nat}
    (h : computeNextRunAt cron schedule now = .ok next) : now ≤ next := by
  cases schedule with
  | atMs ms =>
    obtain rfl : max ms now = next := Except.ok.inj h
    exact Nat.le_max_right ms now
  | every everyMs anchorMs =>
    have hNext := Except.ok.inj h
    have hRound := roundUp_ge (now - anchorMs.getD now) (max 1 everyMs) (by omega)
    split at hNext <;> omega
  | cron expr tz =>
    unfold computeNextRunAt at h
    dsimp only at h
    split at h
    · cases h
    · split at h
      · cases h
      · next hRun =>
        obtain rfl := Except.ok.inj h
        exact (cron.after hRun).le

theorem computeNextRunAt_error {message : String}
    (h : computeNextRunAt cron schedule now = .error message) : message ≠ "" := by
  have hQuote : ∀ a b : String, "\"" ++ a ++ b ≠ "" := by
    intro a b hEmpty
    have hLen := congrArg String.length hEmpty
    rw [String.length_append, String.length_append] at hLen
    have hOne : "\"".length = 1 := by decide
    have hNone : "".length = 0 := by decide
    omega
  cases schedule with
  | atMs ms => cases h
  | every everyMs anchorMs => cases h
  | cron expr tz =>
    unfold computeNextRunAt at h
    dsimp only at h
    split at h
    · cases h
      exact hQuote expr _
    · split at h
      · cases h
        exact hQuote expr _
      · cases h

end Times

namespace Db

def readRow (db : Db) (scheduleId : String) : Option Row := Rows.lookup Row.scheduleId db.rows scheduleId

def jobsOf (db : Db) (scheduleId : String) : List Job := db.jobs.filter (fun j => j.scheduleId = scheduleId)

def setRow (db : Db) (scheduleId : String) (f : Row → Row) : Db :=
  { db with rows := Rows.modify Row.scheduleId db.rows scheduleId f }

/-- `jobs.cancel` -/
def cancel (db : Db) (scheduleId : String) : Db :=
  { db with jobs := db.jobs.filter (fun j => j.scheduleId ≠ scheduleId) }

def arm (db : Db) (scheduleId : String) (status : Status) (nextRunAt : Nat) (fireId : Option String) : Db :=
  if status = .active then
    { db.cancel scheduleId with jobs := (db.cancel scheduleId).jobs ++ [⟨scheduleId, fireId, nextRunAt, 0⟩] }
  else db.cancel scheduleId

/-! ## Writes, replayed by request id -/

def withReceipt (db : Db) (now : Nat) (requestId : String) (action : Action) (intent : String)
    (write : Db → Option Db) : Option Db :=
  match Rows.lookup Receipt.requestId db.receipts requestId with
  | some receipt => if receipt.action ≠ action ∨ receipt.intent ≠ intent then none else some db
  | none => (write db).map fun db =>
      { db with receipts := db.receipts.filter (fun r => now - receiptTtlMs ≤ r.createdAt) ++
          [⟨requestId, action, intent, now⟩] }

structure CreateInput where
  requestId : String
  intent : String
  schedule : LocalCronSchedule
  conversationId : Option String

structure UpdateInput where
  requestId : String
  intent : String
  scheduleId : String
  schedule : Option LocalCronSchedule
  status : Option {status : Status // status ≠ .done}

def live (db : Db) : Nat := (db.rows.filter (fun r => r.status ≠ .done)).length

variable (cron : CronLib)

/-- `scheduleId` is minted. -/
def createSchedule (db : Db) (now : Nat) (input : CreateInput) (isAnonymous : Bool) (scheduleId : String) : Option Db :=
  if isAnonymous then none
  else db.withReceipt now input.requestId .create input.intent fun db =>
    match assertAllowed cron input.schedule now, computeNextRunAt cron input.schedule now with
    | .ok (), .ok nextRunAt =>
      if maxSchedules ≤ db.live ∨ (db.readRow scheduleId).isSome then none
      else
        let row : Row := ⟨scheduleId, input.conversationId, input.schedule, nextRunAt, none, .active, none, none, 0, none⟩
        some ({ db with rows := db.rows ++ [row] }.arm scheduleId .active nextRunAt none)
    | _, _ => none

def movedTo (row : Row) (now : Nat) (input : UpdateInput) : Option Nat :=
  match input.schedule with
  | none => some row.nextRunAt
  | some schedule =>
    match assertAllowed cron schedule now with
    | .error _ => none
    | .ok () => (computeNextRunAt cron schedule now).toOption

def resumedAt (row : Row) (now : Nat) (input : UpdateInput) (nextRunAt : Nat) : Option Nat :=
  if input.status.map Subtype.val = some .active ∧ row.status ≠ .active then
    (computeNextRunAt cron (input.schedule.getD row.schedule) now).toOption
  else some nextRunAt

def updateSchedule (db : Db) (now : Nat) (input : UpdateInput) (isAnonymous : Bool) : Option Db :=
  if isAnonymous ∧ input.status.map Subtype.val = some .active then none
  else db.withReceipt now input.requestId .update input.intent fun db =>
    (db.readRow input.scheduleId).bind fun row =>
    (movedTo cron row now input).bind fun moved =>
    (resumedAt cron row now input moved).map fun nextRunAt =>
      let status := (input.status.map Subtype.val).getD row.status
      let written := db.setRow input.scheduleId fun r =>
        { r with schedule := input.schedule.getD row.schedule, nextRunAt, status }
      if status ≠ row.status ∨ nextRunAt ≠ row.nextRunAt then written.arm input.scheduleId status nextRunAt none
      else written

def removeSchedule (db : Db) (now : Nat) (requestId intent scheduleId : String) : Option Db :=
  db.withReceipt now requestId .remove intent fun db =>
    some { db.cancel scheduleId with rows := Rows.erase Row.scheduleId db.rows scheduleId }

def runNow (db : Db) (now : Nat) (scheduleId : String) : Option Db :=
  match db.readRow scheduleId with
  | none => none
  | some row =>
    if row.status ≠ .active then none
    else some ((db.setRow scheduleId fun r => { r with nextRunAt := now }).arm scheduleId row.status now none)

def purge (db : Db) : Db :=
  { db with rows := [], receipts := [],
            jobs := db.jobs.filter (fun j => !db.rows.any (fun r => r.scheduleId = j.scheduleId)) }

end Db

end Stella.Schedules
