import Mathlib.Data.List.Sort
import Stella.OwnerGate.Row

/-! # The owner gate between two awaits

The object's tables and the handlers that wait for an answer from outside it.
-/

namespace Stella.OwnerGate

inductive CloudChatHandoff
  | allocating (turnId : String)
  | registered (turnId : String)
  | retired (turnId : String)

def CloudChatHandoff.turnId : CloudChatHandoff → String
  | .allocating turnId => turnId
  | .registered turnId => turnId
  | .retired turnId => turnId

/-- How a cloud start is sent: `startAdmittedChat` or the conversation's
`/turn`, a build session's turn, `startPiThread`. -/
inductive Via
  | chat (turnId : Option String)
  | session (threadId : String)
  | pi (threadId : String)

inductive Stage
  | admitting (turnId : String)
  | sent (start : Nat) (via : Via)
  | accepted (start : Nat) (via : Via) (turnId threadId : Option String)
  | refused (start : Nat) (status : Nat) (code message : String)

inductive After
  | returns
  | schedule (now : Nat)
  | alarm (now : Nat) (rest : List DispatchRow)

inductive Task
  | cloud (stage : Stage) (row : DispatchRow) (now : Nat) (after : After)
  | reporting (row : DispatchRow) (after : After)
  | stopping (now : Nat)
  | waking (now : Nat)
  | woken (now : Nat)

inductive OfferStatus
  | opened | claimed | withdrawn
  deriving DecidableEq

structure DispatchOffer where
  dispatchId : String
  deviceId : String
  presenceSessionId : String
  status : OfferStatus

inductive Outcome
  | completed | failed | canceled

def Outcome.state : Outcome → DispatchState
  | .completed => .completed
  | .failed => .failed
  | .canceled => .canceled

structure CloudDispatchTerminal where
  turnId : String
  ownerGeneration : String
  outcome : Outcome
  resultJson : Option String
  errorMessage : Option String

inductive Note
  | started (dispatchId : String) (start : Nat)
  | refused (dispatchId : String) (start : Nat)
  | acked (dispatchId : String)
  | canceled (dispatchId : String)
  deriving DecidableEq

structure Gate where
  dispatches : List DispatchRow
  offers : List DispatchOffer
  terminals : List CloudDispatchTerminal
  handoffs : List (String × CloudChatHandoff)
  alarm : Option Nat
  /-- The greatest `now` a handler has taken. -/
  clock : Nat
  tasks : List Task
  /-- The rows the running alarm has still to go through. -/
  expiring : Option (Nat × List DispatchRow)
  log : List Note

/-- `selectedDeviceRefusal`. -/
structure Refusal where
  fallbackReason : String
  errorCode : String
  errorMessage : String

/-- What the rest of the object and the platform answer while a segment runs:
the deadlines of the fence, the memory policy, the owner store and the
sockets, whether the snapshot allows the cloud sandbox (`none` when it cannot be
read) and which engine it names, a random id, whether the fence retires an
admission, whether a settled report leaves the object, the refusal of the selected
device, whether the claiming device is eligible, and whether a stale socket is dropped. -/
structure Outside where
  deadlines : List Nat
  sandbox : Option Bool
  engine : Engine
  uuid : String
  unregisters : Bool
  delivers : Bool
  refusal : Option Refusal
  eligible : Bool
  drops : Bool

def slice (n : Nat) (text : String) : String := String.ofList (text.toList.take n)

namespace Gate

def dispatchRow (g : Gate) (dispatchId : String) : Option DispatchRow :=
  g.dispatches.find? (fun row => row.dispatchId = dispatchId)

def current (g : Gate) (row : DispatchRow) : DispatchRow := (g.dispatchRow row.dispatchId).getD row

def update (g : Gate) (dispatchId : String) (patch : DispatchRow → DispatchRow) : Gate :=
  { g with dispatches := g.dispatches.map (fun row => if row.dispatchId = dispatchId then patch row else row) }

def patched (patch : DispatchRow → DispatchRow) (now : Nat) (stored : DispatchRow) : DispatchRow :=
  { patch stored with revision := (patch stored).revision + 1, updatedAt := now }

def patchDispatch (g : Gate) (row : DispatchRow) (patch : DispatchRow → DispatchRow) (now : Nat) : Gate :=
  g.update row.dispatchId (patched patch now)

def handoff (g : Gate) (dispatchId : String) : Option CloudChatHandoff :=
  (g.handoffs.find? (fun entry => entry.1 = dispatchId)).map Prod.snd

def retiredChat (g : Gate) (row : DispatchRow) : Bool :=
  match g.handoff row.dispatchId with
  | some (.retired _) => true
  | _ => false

def putHandoff (g : Gate) (dispatchId : String) (handoff : CloudChatHandoff) : Gate :=
  { g with handoffs := (dispatchId, handoff) :: g.handoffs.filter (fun entry => entry.1 ≠ dispatchId) }

def park (g : Gate) (task : Task) : Gate := { g with tasks := g.tasks ++ [task] }

def note (g : Gate) (n : Note) : Gate := { g with log := g.log ++ [n] }

def withdrawOffers (g : Gate) (dispatchId : String) (keepDeviceId : Option String) : Gate :=
  { g with offers := g.offers.map (fun offer =>
      if offer.dispatchId = dispatchId ∧ offer.status = .opened ∧ keepDeviceId ≠ some offer.deviceId
      then { offer with status := .withdrawn } else offer) }

def setOffer (g : Gate) (dispatchId deviceId : String) (status : OfferStatus) : Gate :=
  { g with offers := g.offers.map (fun offer =>
      if offer.dispatchId = dispatchId ∧ offer.deviceId = deviceId then { offer with status := status } else offer) }

def gatePatch (held : Bool) (stored : DispatchRow) : DispatchRow := { stored with gateHeld := held }

def releaseGate (g : Gate) (row : DispatchRow) : Gate :=
  if row.gateHeld then g.update row.dispatchId (gatePatch false) else g

def wakes (g : Gate) (out : Outside) (preserveExisting : Bool) : List Nat :=
  out.deadlines ++ g.dispatches.flatMap DispatchRow.deadlines ++
    (if preserveExisting then g.alarm.toList else [])

def scheduleAlarm (g : Gate) (out : Outside) (now : Nat) (preserveExisting : Bool) : Gate :=
  match (g.wakes out preserveExisting).min? with
  | none => g
  | some next => { g with alarm := some (max (now + alarmMinDelayMs) next) }

def goOn (g : Gate) (out : Outside) : After → Gate
  | .returns => g
  | .schedule now => g.scheduleAlarm out now true
  | .alarm now rest => { g with expiring := some (now, rest) }

/-- The end of a handler that patched `before` to `next`: the report of a
settled agent may leave the object; then the gate is released. -/
def settle (g : Gate) (out : Outside) (before next : DispatchRow) (after : After) : Gate :=
  if !isTerminalDispatchState before.state && isTerminalDispatchState next.state &&
      next.request.kind = .agent && out.delivers then g.park (.reporting next after)
  else (g.releaseGate next).goOn out after

/-- `patchDispatch` to a terminal state, `releaseGate` and on. -/
def patchAndSettle (g : Gate) (out : Outside) (row : DispatchRow) (patch : DispatchRow → DispatchRow)
    (now : Nat) (after : After) : Gate :=
  (g.patchDispatch row patch now).settle out row ((g.patchDispatch row patch now).current row) after

def retryPatch (code message : String) (now : Nat) (stored : DispatchRow) : DispatchRow :=
  { stored with
    cloudRetryAt := some (now + dispatchCloudRetryDelayMs)
    leaseExpiresAt := some (now + dispatchAcceptedLeaseMs)
    errorCode := some code
    errorMessage := some message }

def refusalPatch (code message : String) (stored : DispatchRow) : DispatchRow :=
  { stored with
    state := .failed
    payloadJson := none
    payloadExpiresAt := none
    leaseExpiresAt := none
    errorCode := some code
    errorMessage := some message }

def cloudRefusal (g : Gate) (out : Outside) (row : DispatchRow) (status : Nat) (code message : String)
    (now : Nat) (after : After) : Gate :=
  if status = 503 ∧ row.cloudAttempts < dispatchCloudMaxAttempts then
    ((g.patchDispatch row (retryPatch code message now) now).scheduleAlarm out now true).goOn out after
  else g.patchAndSettle out row (refusalPatch code message) now after

def send (g : Gate) (via : Via) (row : DispatchRow) (now : Nat) (after : After) : Gate :=
  (g.note (.started row.dispatchId g.log.length)).park (.cloud (.sent g.log.length via) row now after)

def turnPatch (turnId : String) (stored : DispatchRow) : DispatchRow := { stored with cloudTurnId := some turnId }

/-- The registered end of `startCloudChat`: the row is read again, and the
start goes out in the same segment. Where the dispatch has moved on the
admission is retired; if the fence does not answer, that throws. -/
def sendChat (g : Gate) (out : Outside) (row : DispatchRow) (turnId : String) (now : Nat) (after : After) : Gate :=
  if (g.dispatchRow row.dispatchId).any (fun stored => stored.state = .cloudCommitted) then
    (g.update row.dispatchId (turnPatch turnId)).send (.chat (some turnId)) row now after
  else if out.unregisters then
    ((g.putHandoff row.dispatchId (.retired turnId)).releaseGate (g.current row)).goOn out after
  else g.goOn out after

def startCloudChat (g : Gate) (out : Outside) (row : DispatchRow) (now : Nat) (after : After) : Gate :=
  match g.handoff row.dispatchId with
  | none =>
    if row.cloudAttempts = 1 then
      (g.putHandoff row.dispatchId (.allocating out.uuid)).park (.cloud (.admitting out.uuid) row now after)
    else g.send (.chat none) row now after
  | some (.allocating turnId) => g.park (.cloud (.admitting turnId) row now after)
  | some (.registered turnId) => g.sendChat out row turnId now after
  | some (.retired _) =>
    g.cloudRefusal out row 410 "owner_purged" "This cloud admission was retired." now after

def startCloudAgent (g : Gate) (out : Outside) (row : DispatchRow) (payload : DispatchPayload) (now : Nat)
    (after : After) : Gate :=
  if out.sandbox = none then g.goOn out after
  else if runsAsPiAgent (payload.execution.getD out.engine) then g.send (.pi out.uuid) row now after
  else g.send (.session out.uuid) row now after

def unsupportedPatch (unsupported : List ExecutionCapability) (stored : DispatchRow) : DispatchRow :=
  { stored with
    state := .failed
    payloadJson := none
    payloadExpiresAt := none
    leaseExpiresAt := none
    errorCode := some "CLOUD_CAPABILITY_UNAVAILABLE"
    errorMessage := some ("The cloud sandbox cannot provide the required device capability: " ++
      String.intercalate ", " (unsupported.map ExecutionCapability.text) ++ ".") }

def payloadUnavailablePatch (stored : DispatchRow) : DispatchRow :=
  { stored with
    state := .failed
    leaseExpiresAt := none
    errorCode := some "CLOUD_PAYLOAD_UNAVAILABLE"
    errorMessage := some "The dispatch payload is no longer available." }

def attemptPatch (stored : DispatchRow) : DispatchRow :=
  { stored with cloudAttempts := stored.cloudAttempts + 1, cloudRetryAt := none }

def attempt (g : Gate) (out : Outside) (row : DispatchRow) (payload : DispatchPayload) (now : Nat)
    (after : After) : Gate :=
  match row.request.kind with
  | .chat => g.startCloudChat out (g.current row) now after
  | .agent => g.startCloudAgent out (g.current row) payload now after

def runCloudBranch (g : Gate) (out : Outside) (row : DispatchRow) (now : Nat) (after : After) : Gate :=
  if row.state ≠ .cloudCommitted then g.goOn out after
  else if cloudUnsupportedCapabilities row.request.requiredCapabilities ≠ [] then
    g.patchAndSettle out row
      (unsupportedPatch (cloudUnsupportedCapabilities row.request.requiredCapabilities)) now after
  else
    match row.payloadJson with
    | none => g.patchAndSettle out row payloadUnavailablePatch now after
    | some payload => (g.update row.dispatchId attemptPatch).attempt out row payload now after

/-- What `resolveUnaccepted` writes when no cloud run follows. -/
def blockedPatch (refusal : Refusal) (stored : DispatchRow) : DispatchRow :=
  { stored with
    state := .blocked
    executorDeviceId := none
    executorPresenceSessionId := none
    offerDeadlineAt := none
    leaseExpiresAt := none
    payloadJson := none
    payloadExpiresAt := none
    fallbackReason := some refusal.fallbackReason
    errorCode := some refusal.errorCode
    errorMessage := some refusal.errorMessage }

def subscriptionRequired : Refusal :=
  ⟨"subscription-required", "SUBSCRIPTION_REQUIRED", "Running in the cloud needs a Stella subscription."⟩

def committedPatch (fallbackReason : String) (now : Nat) (stored : DispatchRow) : DispatchRow :=
  { stored with
    state := .cloudCommitted
    placement := some .cloud
    executorDeviceId := none
    executorPresenceSessionId := none
    offerDeadlineAt := none
    leaseExpiresAt := some (now + dispatchAcceptedLeaseMs)
    fallbackReason := some fallbackReason }

/-- Why a dispatch with no cloud fallback is blocked; `notAccepting` is the
text for a selected computer that is there. -/
def unavailable (out : Outside) (targetMode : ExecutionTargetMode) (notAccepting : String) : Refusal :=
  if targetMode = .device then
    out.refusal.getD ⟨"selected-device-unavailable", "SELECTED_DEVICE_UNAVAILABLE", notAccepting⟩
  else ⟨"no-eligible-paired-computer", "COMPUTER_REQUIRED_UNAVAILABLE",
    "This work requires your paired computer, but no eligible computer is reachable."⟩

def commitToCloud (g : Gate) (out : Outside) (row : DispatchRow) (now : Nat) (fallbackReason : String)
    (after : After) : Gate :=
  (g.patchDispatch row (committedPatch fallbackReason now) now).runCloudBranch out
    ((g.patchDispatch row (committedPatch fallbackReason now) now).current row) now after

def resolveUnaccepted (g : Gate) (out : Outside) (row : DispatchRow) (now : Nat) (fallbackReason : String)
    (after : After) : Gate :=
  if row.state ≠ .offering ∧ row.state ≠ .computerClaimed then g.goOn out after
  else if row.onNoEligibleComputer = .cloud then
    if row.request.kind = .agent ∧ out.sandbox = some false then
      (g.withdrawOffers row.dispatchId none).patchAndSettle out row (blockedPatch subscriptionRequired) now after
    else (g.withdrawOffers row.dispatchId none).commitToCloud out row now fallbackReason after
  else
    (g.withdrawOffers row.dispatchId none).patchAndSettle out row (blockedPatch
      (unavailable out row.request.targetMode "The selected computer did not accept the request.")) now after

end Gate

end Stella.OwnerGate
