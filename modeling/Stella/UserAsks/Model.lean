import Mathlib.Data.String.Basic
import Stella.Library.Rows

/-! # User asks

`user-asks.ts` for one owner: the questions, their answers, the pushes on record, the jobs armed
for them, and the escalations that wait for the push service.
-/

namespace Stella.UserAsks

open Stella.Rows

def minutesPerDay : Int := 24 * 60

def maxOpenAsks : Nat := 32

def retentionMs : Int := 7 * 24 * 60 * 60000

def pushWindowMs : Int := 60 * 60000

def pushRetentionMs : Int := 25 * 60 * 60000

def blockingTtlMs : Int := 24 * 60 * 60000

def escalationStepMs : Int := 90000

def pushLevelFloor : Nat := 2

def breakthroughLevel : Nat := 4

def cloudOriginDeviceId : String := "stella-cloud"

def isCloudOrigin (originDeviceId : String) : Bool := originDeviceId = cloudOriginDeviceId

inductive UserAskState
  | pending
  | defaulted
  | answered
  | answeredLate
  | canceled
  | expired
  deriving DecidableEq

def userAskIsOpen (state : UserAskState) : Bool := state = .pending || state = .defaulted

structure AskRow (δ : Type) where
  askId : String
  toolCallId : String
  threadId : String
  originDeviceId : String
  state : UserAskState
  urgency : Nat
  escalationLevel : Nat
  deadlineAt : Int
  expiresAt : Int
  revision : Nat
  nextEscalationAt : Option Int
  localOffsetMinutes : Option Int
  detail : δ
  updatedAt : Int
  /-- Tells the asks apart that had one id one after another. -/
  serial : Nat

structure StoredAnswer (α : Type) where
  askId : String
  answer : α
  late : Bool
  answeredAt : Int
  revision : Nat

structure PushRow where
  askId : String
  level : Nat
  sentAt : Int

inductive AskJob
  | defaultJob
  | expireJob
  | repeatJob
  | cloudEscalateJob
  | deliverLateJob
  deriving DecidableEq

structure ArmedJob where
  job : AskJob
  askId : String
  runAt : Int

def ArmedJob.id (armed : ArmedJob) : AskJob × String := (armed.job, armed.askId)

structure UserAskQuietHours where
  enabled : Bool
  startMinute : Int
  endMinute : Int

structure UserAskEscalationPolicy where
  ceiling : Nat := 3
  quietHours : UserAskQuietHours := ⟨true, 22 * 60, 8 * 60⟩
  quietHoursCeiling : Nat := 1
  maxPerHour : Nat := 6
  timeZone : Option String := none

def clampUrgency (level : Nat) : Nat := min 4 (max 1 level)

def clampUserAskTimeoutMs : Option Int → Int
  | some timeoutMs => if timeoutMs ≤ 0 then 3 * 60000 else min (3 * 60000) (max 30000 timeoutMs)
  | none => 3 * 60000

def isWithinQuietHours (quietHours : UserAskQuietHours) (minute : Int) : Bool :=
  quietHours.enabled && quietHours.startMinute ≠ quietHours.endMinute &&
    if quietHours.startMinute < quietHours.endMinute then quietHours.startMinute ≤ minute && minute < quietHours.endMinute
    else quietHours.startMinute ≤ minute || minute < quietHours.endMinute

def effectiveEscalationCeiling (policy : UserAskEscalationPolicy) (requested : Nat) (minute : Int) : Nat :=
  min requested (if isWithinQuietHours policy.quietHours minute then min policy.ceiling policy.quietHoursCeiling else policy.ceiling)

def nextEscalationLevel (current ceiling : Nat) : Option Nat := if ceiling ≤ current then none else some (current + 1)

inductive PushPath
  | escalate
  | repeatBreakthrough
  | cloud (repeatOnly : Bool)
  deriving DecidableEq

structure PushCall where
  askId : String
  now : Int
  level : Nat
  /-- The hourly limit that it read. -/
  limit : Nat
  path : PushPath
  /-- How many pushes had been recorded when it began. -/
  recordedBefore : Nat

inductive PushOutcome
  | sent
  | noPushTarget
  | sendFailed
  deriving DecidableEq

structure Recorded where
  sentAt : Int
  limit : Nat

structure Acceptance where
  serial : Nat
  given : Nat
  revision : Nat

structure AskStore (δ α : Type) where
  asks : List (AskRow δ) := []
  answers : List (StoredAnswer α) := []
  pushes : List PushRow := []
  policy : UserAskEscalationPolicy := {}
  jobs : List ArmedJob := []
  calls : List PushCall := []
  clock : Int := 0
  nextSerial : Nat := 0
  accepted : List Acceptance := []
  /-- Every push that was ever recorded, the latest first. -/
  recorded : List Recorded := []

structure RegisterArgs (δ : Type) where
  askId : String
  toolCallId : String
  threadId : String
  originDeviceId : String
  urgency : Option Nat
  blocking : Bool
  timeoutMs : Option Int
  localMinuteOfDay : Option Int
  detail : δ

structure UserAskAnswer (α : Type) where
  askId : String
  revision : Nat
  answer : α

structure AskEnv (δ α : Type) where
  userAskHasDefaults : δ → Bool
  validateAnswer : δ → α → Bool
  minuteOfDayInZone : Int → String → Option Int
  /-- Of the orchestrator. -/
  cloudThreadId : String

inductive AskAction (δ α : Type)
  | register (args : RegisterArgs δ)
  | answer (askId : String) (answer : UserAskAnswer α)
  | cancel (askId : String)
  | escalate (askId : String) (level : Nat) (deviceId : Option String) (localMinuteOfDay : Option Int)
  | repeatBreakthrough (askId : String)
  | escalateCloud (askId : String)
  | default (askId : String)
  | expire (askId : String)
  | sweep
  /-- The push service has answered the call at this place. -/
  | resume (place : Nat) (outcome : PushOutcome)
  | policy (policy : UserAskEscalationPolicy)
  /-- A job that was run goes. -/
  | settle (job : AskJob) (askId : String)
  | restart

structure AskInput (δ α : Type) where
  elapsed : Nat
  action : AskAction δ α

def utcMinuteOfDay (now : Int) : Int := now / 60000 % minutesPerDay

def localMinuteOf (now : Int) (offsetMinutes : Option Int) : Int := (utcMinuteOfDay now + offsetMinutes.getD 0) % minutesPerDay

def offsetFromLocalMinute (now : Int) (localMinuteOfDay : Option Int) : Option Int :=
  localMinuteOfDay.map fun minute => (minute - utcMinuteOfDay now) % minutesPerDay

namespace AskStore

variable {δ α : Type} (env : AskEnv δ α) (w : AskStore δ α)

def quietHoursMinute (fallbackOffsetMinutes : Option Int) : Int :=
  match w.policy.timeZone with
  | some timeZone => (env.minuteOfDayInZone w.clock timeZone).getD (localMinuteOf w.clock none)
  | none => localMinuteOf w.clock fallbackOffsetMinutes

def readRow (askId : String) : Option (AskRow δ) := lookup AskRow.askId w.asks askId

def schedule (job : AskJob) (askId : String) (runAt : Int) : AskStore δ α :=
  { w with jobs := upsert ArmedJob.id w.jobs ⟨job, askId, runAt⟩ }

def cancelJob (job : AskJob) (askId : String) : AskStore δ α := { w with jobs := erase ArmedJob.id w.jobs (job, askId) }

def update (askId : String) (f : AskRow δ → AskRow δ) : AskStore δ α := { w with asks := modify AskRow.askId w.asks askId f }

def pushesInWindow (now : Int) : Nat := w.pushes.countP fun push => now - pushWindowMs ≤ push.sentAt

def closeAsk (askId : String) (state : UserAskState) : AskStore δ α :=
  ((((w.update askId fun row =>
    { row with state, revision := row.revision + 1, nextEscalationAt := none, updatedAt := w.clock }).cancelJob .defaultJob
      askId).cancelJob .expireJob askId).cancelJob .repeatJob askId).cancelJob .cloudEscalateJob askId

def rowOf (args : RegisterArgs δ) : AskRow δ where
  askId := args.askId
  toolCallId := args.toolCallId
  threadId := args.threadId
  originDeviceId := args.originDeviceId
  state := .pending
  urgency := clampUrgency (args.urgency.getD 1)
  escalationLevel := 1
  deadlineAt := w.clock + clampUserAskTimeoutMs args.timeoutMs
  expiresAt := w.clock + blockingTtlMs
  revision := 1
  nextEscalationAt := none
  localOffsetMinutes := offsetFromLocalMinute w.clock args.localMinuteOfDay
  detail := args.detail
  updatedAt := w.clock
  serial := w.nextSerial

def registerAsk (args : RegisterArgs δ) : AskStore δ α :=
  -- A replay is answered and a conflict throws: nothing is written.
  if (w.readRow args.askId).isSome || (w.asks.any fun row => row.toolCallId = args.toolCallId) then w
  else if maxOpenAsks ≤ (w.asks.countP fun row => userAskIsOpen row.state) then w
  else
    let row := w.rowOf args
    let w : AskStore δ α := { w with asks := w.asks ++ [row], nextSerial := w.nextSerial + 1 }
    let w := if !args.blocking && env.userAskHasDefaults args.detail then w.schedule .defaultJob args.askId row.deadlineAt else w
    let w := w.schedule .expireJob args.askId row.expiresAt
    if isCloudOrigin args.originDeviceId then w.schedule .cloudEscalateJob args.askId (w.clock + escalationStepMs) else w

def answerAsk (askId : String) (answer : UserAskAnswer α) : AskStore δ α :=
  match w.readRow askId with
  | none => w
  | some row =>
    if answer.askId ≠ askId || (lookup StoredAnswer.askId w.answers askId).isSome || !userAskIsOpen row.state ||
        answer.revision ≠ row.revision || !env.validateAnswer row.detail answer.answer then w
    else
      let late : Bool := row.state = .defaulted
      let w : AskStore δ α := { w with
        answers := w.answers ++ [⟨askId, answer.answer, late, w.clock, answer.revision⟩]
        accepted := w.accepted ++ [⟨row.serial, answer.revision, row.revision⟩] }
      let w := w.closeAsk askId (if late then .answeredLate else .answered)
      if isCloudOrigin row.originDeviceId && row.threadId = env.cloudThreadId && (late || row.deadlineAt ≤ w.clock) then
        w.schedule .deliverLateJob askId w.clock
      else w

def cancelAsk (askId : String) : AskStore δ α :=
  match w.readRow askId with
  | none => w
  | some row => if userAskIsOpen row.state then w.closeAsk askId .canceled else w

def sendAskPush (askId : String) (level : Nat) (path : PushPath) : AskStore δ α :=
  { w with calls := w.calls ++ [⟨askId, w.clock, level, w.policy.maxPerHour, path, w.recorded.length⟩] }

def escalateAsk (askId : String) (requested : Nat) (deviceId : Option String) (localMinuteOfDay : Option Int) : AskStore δ α :=
  match w.readRow askId with
  | none => w
  | some row =>
    if (deviceId.any fun deviceId => deviceId ≠ row.originDeviceId) && !isCloudOrigin row.originDeviceId then w
    else if !userAskIsOpen row.state then w
    else
      let offset := if localMinuteOfDay.isSome then offsetFromLocalMinute w.clock localMinuteOfDay else row.localOffsetMinutes
      let allowed := effectiveEscalationCeiling w.policy (clampUrgency requested) (w.quietHoursMinute env offset)
      let later := w.update askId fun row =>
        { row with
          localOffsetMinutes := offset
          escalationLevel := max allowed (clampUrgency row.escalationLevel)
          revision := row.revision + 1
          nextEscalationAt := if breakthroughLevel ≤ allowed then some (w.clock + escalationStepMs) else none
          updatedAt := w.clock }
      if allowed < pushLevelFloor then later.cancelJob .repeatJob askId
      else if w.policy.maxPerHour ≤ w.pushesInWindow w.clock then later.cancelJob .repeatJob askId
      else later.sendAskPush askId allowed .escalate

def repeatBreakthrough (askId : String) : AskStore δ α :=
  match w.readRow askId with
  | none => w
  | some row =>
    if row.state ≠ .pending || clampUrgency row.escalationLevel < breakthroughLevel then w
    else
      let allowed := effectiveEscalationCeiling w.policy breakthroughLevel (w.quietHoursMinute env row.localOffsetMinutes)
      if allowed < breakthroughLevel || w.policy.maxPerHour ≤ w.pushesInWindow w.clock then
        w.update askId fun row => { row with nextEscalationAt := none, updatedAt := w.clock }
      else w.sendAskPush askId breakthroughLevel .repeatBreakthrough

def escalateCloudAsk (askId : String) : AskStore δ α :=
  match w.readRow askId with
  | none => w
  | some row =>
    if row.state ≠ .pending || !isCloudOrigin row.originDeviceId then w
    else
      let ceiling := effectiveEscalationCeiling w.policy (clampUrgency row.urgency) (w.quietHoursMinute env row.localOffsetMinutes)
      let current := clampUrgency row.escalationLevel
      let stepped := nextEscalationLevel current ceiling
      let level := stepped.getD current
      if (stepped.isNone && (level < breakthroughLevel || ceiling < breakthroughLevel)) || level < pushLevelFloor ||
          w.policy.maxPerHour ≤ w.pushesInWindow w.clock then
        w.schedule .cloudEscalateJob askId (w.clock + escalationStepMs)
      else w.sendAskPush askId level (.cloud stepped.isNone)

def recordPush (call : PushCall) : AskStore δ α :=
  { w with pushes := w.pushes ++ [⟨call.askId, call.level, call.now⟩], recorded := ⟨call.now, call.limit⟩ :: w.recorded }

def goOn (call : PushCall) (outcome : PushOutcome) : AskStore δ α :=
  let next := call.now + escalationStepMs
  match call.path with
  | .escalate =>
    if breakthroughLevel ≤ call.level && outcome = .sent then w.schedule .repeatJob call.askId next else w.cancelJob .repeatJob call.askId
  | .repeatBreakthrough =>
    if outcome = .noPushTarget then w.update call.askId fun row => { row with nextEscalationAt := none, updatedAt := call.now }
    else
      (w.update call.askId fun row => { row with nextEscalationAt := some next, updatedAt := call.now }).schedule .repeatJob call.askId
        next
  | .cloud repeatOnly =>
    if outcome = .noPushTarget then w.update call.askId fun row => { row with nextEscalationAt := none, updatedAt := call.now }
    else
      (w.update call.askId fun row =>
        if repeatOnly then { row with nextEscalationAt := some next, updatedAt := call.now }
        else
          { row with
            escalationLevel := call.level, revision := row.revision + 1, nextEscalationAt := some next
            updatedAt := call.now }).schedule .cloudEscalateJob call.askId next

def resume (call : PushCall) (outcome : PushOutcome) : AskStore δ α :=
  (if outcome = .sent then w.recordPush call else w).goOn call outcome

def defaultAsk (askId : String) : AskStore δ α :=
  match w.readRow askId with
  | none => w
  | some row =>
    if row.state ≠ .pending || w.clock < row.deadlineAt || !env.userAskHasDefaults row.detail then w
    else
      (w.update askId fun row =>
        { row with state := .defaulted, revision := row.revision + 1, nextEscalationAt := none, updatedAt := w.clock }).cancelJob
          .repeatJob askId

def expireAsk (askId : String) : AskStore δ α :=
  match w.readRow askId with
  | none => w
  | some row => if !userAskIsOpen row.state || w.clock < row.expiresAt then w else w.closeAsk askId .expired

def closeExpired (w : AskStore δ α) (rows : List (AskRow δ)) : AskStore δ α :=
  rows.foldl (fun w row => w.closeAsk row.askId .expired) w

def forgotten : List String :=
  (w.asks.filter fun row => !userAskIsOpen row.state && row.updatedAt < w.clock - retentionMs).map AskRow.askId

def sweep : AskStore δ α :=
  let w := closeExpired w (w.asks.filter fun row => userAskIsOpen row.state && row.expiresAt ≤ w.clock)
  { w with
    answers := w.answers.filter fun answer => answer.askId ∉ w.forgotten
    pushes := w.pushes.filter fun push => push.askId ∉ w.forgotten && w.clock - pushRetentionMs ≤ push.sentAt
    asks := w.asks.filter fun row => row.askId ∉ w.forgotten }

def act : AskAction δ α → AskStore δ α
  | .register args => w.registerAsk env args
  | .answer askId answer => w.answerAsk env askId answer
  | .cancel askId => w.cancelAsk askId
  | .escalate askId level deviceId localMinuteOfDay => w.escalateAsk env askId level deviceId localMinuteOfDay
  | .repeatBreakthrough askId => w.repeatBreakthrough env askId
  | .escalateCloud askId => w.escalateCloudAsk env askId
  | .default askId => w.defaultAsk env askId
  | .expire askId => w.expireAsk askId
  | .sweep => w.sweep
  | .resume place outcome =>
    match w.calls[place]? with
    | some call => { w with calls := w.calls.eraseIdx place }.resume call outcome
    | none => w
  | .policy policy => { w with policy }
  | .settle job askId => w.cancelJob job askId
  | .restart => { w with calls := [] }

def step (input : AskInput δ α) : AskStore δ α := { w with clock := w.clock + input.elapsed }.act env input.action

end AskStore

end Stella.UserAsks
