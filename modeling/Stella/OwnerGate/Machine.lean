import Stella.OwnerGate.Gate
import Stella.Library.Transition

/-! # Requests, frames, answers and alarms

One event is one uninterrupted segment of the object: a request or an executor frame up to its
first await that leaves the object, the answer a parked handler was waiting for, or the next row
of the running alarm.
-/

namespace Stella.OwnerGate

inductive Frame
  | claim (claimRequestId : String)
  | release (reason : String)
  | ack
  | running
  | renew
  | complete (outcome : Outcome) (resultJson errorCode errorMessage : Option String)

structure Attachment where
  deviceId : String
  presenceSessionId : String

structure Submission where
  /-- `dsp:` and a fresh random id. -/
  dispatchId : String
  request : DispatchSubmitRequest
  ownerGeneration : String
  /-- The admission or the snapshot refused it. -/
  refused : Bool
  /-- `eligibleDevices` over `offerCandidateIds`. -/
  candidates : List Attachment
  /-- `presenceRow` of the requesting device. -/
  executorSession : Option String

inductive Answer
  | threw
  | ok (turnId threadId : Option String)
  | refused (status : Nat) (code message : String)
  | unregistered
  | read

inductive Event
  | submit (out : Outside) (submission : Submission) (now : Nat)
  | frame (out : Outside) (attachment : Attachment) (dispatchId : String) (frame : Frame) (now : Nat)
  | cancel (out : Outside) (dispatchId cancelRequestId : String) (reason : String) (now : Nat)
  | status (out : Outside) (dispatchId : String) (now : Nat)
  | terminal (out : Outside) (receipt : CloudDispatchTerminal) (now : Nat)
  | unregister (turnId : String)
  | other (out : Outside) (now : Nat)
  | fire (now : Nat)
  | resume (out : Outside) (task : Nat) (answer : Answer)
  | turn (out : Outside)

/-- The `dispatchId`, the request and what every new row has in common. -/
def Submission.base (submission : Submission) (now : Nat) : DispatchRow where
  dispatchId := submission.dispatchId
  request := submission.request
  ownerGeneration := submission.ownerGeneration
  state := .blocked
  placement := none
  executorDeviceId := none
  executorPresenceSessionId := none
  onNoEligibleComputer := if submission.request.subject = .computer then .blocked else .cloud
  revision := 1
  fallbackReason := none
  cancelRequestId := none
  cancelReason := none
  errorCode := none
  errorMessage := none
  resultJson := none
  cloudTurnId := none
  cloudThreadId := none
  payloadJson := none
  payloadExpiresAt := none
  offerDeadlineAt := none
  leaseExpiresAt := none
  startedAt := none
  cloudAttempts := 0
  cloudRetryAt := none
  gateHeld := false
  updatedAt := now

def Submission.keep (submission : Submission) (now : Nat) (row : DispatchRow) : DispatchRow :=
  { row with
    payloadJson := some submission.request.payload
    payloadExpiresAt := some (now + dispatchPayloadTtlMs)
    gateHeld := submission.request.kind = .agent }

/-- `mobile` needs both sides of the pairing, and the device of the pairing. -/
def Submission.mispaired (submission : Submission) : Bool :=
  let request := submission.request
  request.ingress = .mobile && (request.requestingDeviceId.isSome != request.pairGrantDeviceId.isSome ||
    (request.targetMode = .device && request.targetDeviceId ≠ request.pairGrantDeviceId))

def Submission.committed (submission : Submission) (out : Outside) (now : Nat) (fallback : Fallback)
    (reason : String) : Option DispatchRow :=
  if submission.request.kind = .agent ∧ out.sandbox ≠ some true then none
  else some (submission.keep now { submission.base now with
    state := .cloudCommitted
    placement := some .cloud
    onNoEligibleComputer := fallback
    fallbackReason := some reason
    leaseExpiresAt := some (now + dispatchAcceptedLeaseMs) })

def Submission.accepted (submission : Submission) (now : Nat) (reason deviceId : String) : DispatchRow :=
  { submission.base now with
    state := .computerAccepted
    placement := some .computer
    executorDeviceId := some deviceId
    executorPresenceSessionId := submission.executorSession
    fallbackReason := some reason
    leaseExpiresAt := some (now + dispatchAcceptedLeaseMs)
    gateHeld := submission.request.kind = .agent }

def Submission.offered (submission : Submission) (now : Nat) (fallback : Fallback) (reason : String) : DispatchRow :=
  submission.keep now { submission.base now with
    state := .offering
    onNoEligibleComputer := fallback
    fallbackReason := some reason
    offerDeadlineAt := some (now + dispatchOfferWindowMs) }

def Submission.unplaced (submission : Submission) (now : Nat) (refusal : Refusal) : DispatchRow :=
  { submission.base now with
    onNoEligibleComputer := .blocked
    fallbackReason := some refusal.fallbackReason
    errorCode := some refusal.errorCode
    errorMessage := some refusal.errorMessage }

/-- The row `submit` inserts, or none when the request is refused. -/
def Submission.row (submission : Submission) (out : Outside) (now : Nat) : Option DispatchRow :=
  match decideDispatchPlacement submission.request.ingress submission.request.subject
      submission.request.targetMode with
  | .commit .cloud reason => submission.committed out now (submission.base now).onNoEligibleComputer reason
  | .commit .computer reason => submission.request.requestingDeviceId.map (submission.accepted now reason)
  | .blocked reason => some (submission.unplaced now ⟨reason, "COMPUTER_REQUIRED_UNAVAILABLE",
      "This work requires a computer, but this execution surface cannot safely provide one."⟩)
  | .offer fallback reason =>
    if submission.mispaired then none
    else if submission.candidates ≠ [] then some (submission.offered now fallback reason)
    else if fallback = .cloud then submission.committed out now fallback "no-eligible-paired-computer"
    else some (submission.unplaced now (Gate.unavailable out submission.request.targetMode
      "The selected computer is online but isn't accepting work right now. It may still be starting up, be signed out, have cloud sync off, or not allow work from other devices."))

namespace Gate

def openOffers (g : Gate) (row : DispatchRow) (candidates : List Attachment) : Gate :=
  { g with offers := g.offers ++ candidates.map (fun candidate =>
      ⟨row.dispatchId, candidate.deviceId, candidate.presenceSessionId, .opened⟩) }

def route (g : Gate) (out : Outside) (row : DispatchRow) (candidates : List Attachment) (now : Nat) : Gate :=
  if row.state = .offering then (g.openOffers row candidates).scheduleAlarm out now true
  else if row.state = .cloudCommitted then g.runCloudBranch out row now (.schedule now)
  else g.scheduleAlarm out now true

def submit (g : Gate) (out : Outside) (submission : Submission) (now : Nat) : Gate :=
  if g.dispatches.any (fun row => row.request.idempotencyKey = submission.request.idempotencyKey) ||
      submission.refused then g
  else
    match submission.row out now with
    | none => g
    | some row => { g with dispatches := g.dispatches ++ [row] }.route out row submission.candidates now

def openOffer (g : Gate) (dispatchId : String) (attachment : Attachment) : Bool :=
  g.offers.any (fun offer => offer.dispatchId = dispatchId ∧ offer.status = .opened ∧
    offer.deviceId = attachment.deviceId ∧ offer.presenceSessionId = attachment.presenceSessionId)

def sameClaim (row : DispatchRow) (attachment : Attachment) : Bool :=
  row.state = .computerClaimed && row.executorDeviceId = some attachment.deviceId &&
    row.executorPresenceSessionId = some attachment.presenceSessionId && row.cancelRequestId = none

def claimedPatch (attachment : Attachment) (now : Nat) (stored : DispatchRow) : DispatchRow :=
  { stored with
    state := .computerClaimed
    executorDeviceId := some attachment.deviceId
    executorPresenceSessionId := some attachment.presenceSessionId
    leaseExpiresAt := some (now + dispatchClaimLeaseMs) }

def handleClaim (g : Gate) (out : Outside) (attachment : Attachment) (row : DispatchRow)
    (claimRequestId : String) (now : Nat) : Gate :=
  if claimRequestId = "" ∨ sameClaim row attachment then g
  else if row.state ≠ .offering ∨ ¬ row.offerDeadlineAt.any (fun deadline => now < deadline) then g
  else if ¬ g.openOffer row.dispatchId attachment ∨ ¬ out.eligible then g
  else
    (((g.setOffer row.dispatchId attachment.deviceId .claimed).withdrawOffers row.dispatchId
      (some attachment.deviceId)).patchDispatch row (claimedPatch attachment now) now).scheduleAlarm out now true

def owned (state : DispatchState) : Bool :=
  state = .computerAccepted || state = .computerRunning || state = .reconciliationRequired

/-- A completion, of `complete` and of a receipt. -/
def completedPatch (outcome : Outcome) (resultJson errorCode errorMessage : Option String)
    (stored : DispatchRow) : DispatchRow :=
  { stored with
    state := outcome.state
    resultJson := resultJson
    payloadJson := none
    payloadExpiresAt := none
    leaseExpiresAt := none
    errorCode := (errorCode.map (slice 128)).or stored.errorCode
    errorMessage := (errorMessage.map (slice 1024)).or stored.errorMessage }

def releasedPatch (stored : DispatchRow) : DispatchRow :=
  { stored with
    state := .offering
    executorDeviceId := none
    executorPresenceSessionId := none
    leaseExpiresAt := none }

def ackPatch (now : Nat) (stored : DispatchRow) : DispatchRow :=
  { stored with
    state := .computerAccepted
    placement := some .computer
    payloadJson := none
    payloadExpiresAt := none
    leaseExpiresAt := some (now + dispatchAcceptedLeaseMs) }

/-- `running` and `renew`: a state the executing side names, and a new lease. -/
def leasePatch (state : DispatchState) (startedAt : Option Nat) (now : Nat) (stored : DispatchRow) : DispatchRow :=
  { stored with
    state := state
    startedAt := startedAt.or stored.startedAt
    leaseExpiresAt := some (now + dispatchAcceptedLeaseMs) }

def renewedState (row : DispatchRow) : DispatchState :=
  if row.state = .reconciliationRequired then
    (if row.startedAt.isSome then .computerRunning else .computerAccepted)
  else row.state

def ownsDispatch (row : DispatchRow) (attachment : Attachment) : Bool :=
  row.executorDeviceId = some attachment.deviceId &&
    row.executorPresenceSessionId = some attachment.presenceSessionId

def handleRelease (g : Gate) (out : Outside) (attachment : Attachment) (row : DispatchRow) (reason : String)
    (now : Nat) : Gate :=
  ((g.patchDispatch row releasedPatch now).setOffer row.dispatchId attachment.deviceId .withdrawn).resolveUnaccepted
    out ((g.patchDispatch row releasedPatch now).current row) now
    ("computer-claim-released:" ++ slice 160 reason) .returns

def handleOwnedFrame (g : Gate) (out : Outside) (attachment : Attachment) (row : DispatchRow) (frame : Frame)
    (now : Nat) : Gate :=
  match frame with
  | .claim _ => g
  | .release reason =>
    if row.state ≠ .computerClaimed then g else g.handleRelease out attachment row reason now
  | .ack =>
    if row.state ≠ .computerClaimed ∨ ¬ row.leaseExpiresAt.any (fun lease => now < lease) then g
    else (g.patchDispatch row (ackPatch now) now).note (.acked row.dispatchId)
  | .running =>
    if ¬ owned row.state then g
    else g.patchDispatch row (leasePatch .computerRunning (some (row.startedAt.getD now)) now) now
  | .renew =>
    if ¬ (owned row.state ∨ row.state = .cancelPending) then g
    else g.patchDispatch row (leasePatch (renewedState row) none now) now
  | .complete outcome resultJson errorCode errorMessage =>
    if ¬ (owned row.state ∨ row.state = .cancelPending) then g
    else
      g.patchAndSettle out row (completedPatch outcome resultJson errorCode errorMessage) now (.schedule now)

def handleExecutorFrame (g : Gate) (out : Outside) (attachment : Attachment) (dispatchId : String)
    (frame : Frame) (now : Nat) : Gate :=
  match g.dispatchRow dispatchId with
  | none => g
  | some row =>
    match frame with
    | .claim claimRequestId => g.handleClaim out attachment row claimRequestId now
    | frame => if ownsDispatch row attachment then g.handleOwnedFrame out attachment row frame now else g

def receiptOf (g : Gate) (row : DispatchRow) : Option CloudDispatchTerminal :=
  if row.placement = some .cloud then
    row.cloudTurnId.bind (fun turnId => g.terminals.find? (fun receipt =>
      receipt.turnId = turnId ∧ receipt.ownerGeneration = row.ownerGeneration))
  else none

def receiptPatch (receipt : CloudDispatchTerminal) (stored : DispatchRow) : DispatchRow :=
  { stored with
    state := receipt.outcome.state
    errorMessage := receipt.errorMessage
    payloadJson := none
    payloadExpiresAt := none
    leaseExpiresAt := none }

def dispatchStatus (g : Gate) (out : Outside) (dispatchId : String) (now : Nat) : Gate :=
  match g.dispatchRow dispatchId with
  | none => g
  | some row =>
    match g.receiptOf row with
    | none => g
    | some receipt =>
      if isTerminalDispatchState row.state then g
      else g.patchAndSettle out row (receiptPatch receipt) now (.schedule now)

def keepReceipt (g : Gate) (receipt : CloudDispatchTerminal) : Gate :=
  if g.terminals.any (fun kept => kept.turnId = receipt.turnId ∧ kept.ownerGeneration = receipt.ownerGeneration)
  then g else { g with terminals := g.terminals ++ [receipt] }

def recordCloudDispatchTerminal (g : Gate) (out : Outside) (receipt : CloudDispatchTerminal) (now : Nat) : Gate :=
  match g.dispatches.find? (fun row => row.cloudTurnId = some receipt.turnId ∧
      row.ownerGeneration = receipt.ownerGeneration ∧ row.placement = some .cloud) with
  | none => g.keepReceipt receipt
  | some row => (g.keepReceipt receipt).dispatchStatus out row.dispatchId now

def stopPatch (cancelRequestId reason : String) (stored : DispatchRow) : DispatchRow :=
  { stored with
    cancelRequestId := some cancelRequestId
    cancelReason := if reason = "" then stored.cancelReason else some (slice 512 reason) }

def canceledPatch (cancelRequestId reason : String) (stored : DispatchRow) : DispatchRow :=
  { stopPatch cancelRequestId reason stored with
    state := .canceled
    payloadJson := none
    payloadExpiresAt := none
    offerDeadlineAt := none
    leaseExpiresAt := none
    executorDeviceId := none
    executorPresenceSessionId := none }

def cancelPendingPatch (cancelRequestId reason : String) (stored : DispatchRow) : DispatchRow :=
  { stopPatch cancelRequestId reason stored with state := .cancelPending }

def cancelsOutright (row : DispatchRow) : Bool :=
  row.state = .offering || row.state = .computerClaimed ||
    (row.state = .cloudCommitted && row.cloudTurnId = none)

def stopRunning (g : Gate) (out : Outside) (row : DispatchRow) (cancelRequestId reason : String) (now : Nat) : Gate :=
  if row.placement = some .cloud ∧ row.cloudTurnId.isSome ∧
      (row.request.kind = .chat ∨ row.cloudThreadId.isSome) then
    (g.patchDispatch row (cancelPendingPatch cancelRequestId reason) now).park (.stopping now)
  else (g.patchDispatch row (cancelPendingPatch cancelRequestId reason) now).scheduleAlarm out now true

def cancelDispatch (g : Gate) (out : Outside) (dispatchId cancelRequestId reason : String) (now : Nat) : Gate :=
  match g.dispatchRow dispatchId with
  | none => g
  | some row =>
    if cancelRequestId = "" ∨ row.cancelRequestId.any (fun id => id ≠ cancelRequestId) then g
    else if isTerminalDispatchState row.state then
      if row.state = .canceled then g.note (.canceled dispatchId) else g
    else if cancelsOutright row then
      ((g.withdrawOffers dispatchId none).note (.canceled dispatchId)).patchAndSettle out row
        (canceledPatch cancelRequestId reason) now (.schedule now)
    else (g.withdrawOffers dispatchId none).stopRunning out row cancelRequestId reason now

def unregister (g : Gate) (turnId : String) : Gate :=
  match g.handoffs.find? (fun entry => entry.2.turnId = turnId) with
  | none => g
  | some entry =>
    (g.putHandoff entry.1 (.retired turnId)).update entry.1 (gatePatch false)

def reconcilePatch (state : DispatchState) (stored : DispatchRow) : DispatchRow :=
  { stored with
    state := .reconciliationRequired
    leaseExpiresAt := none
    fallbackReason := some (state.text ++ "-lease-expired") }

def dropPayloadPatch (stored : DispatchRow) : DispatchRow :=
  { stored with payloadJson := none, payloadExpiresAt := none }

/-- One row of `expireDispatches`, as it was selected. -/
def expireRow (g : Gate) (out : Outside) (row : DispatchRow) (now : Nat) (after : After) : Gate :=
  if row.offerLapsed now then g.resolveUnaccepted out row now "computer-offer-expired-unaccepted" after
  else if row.retryDue now then g.runCloudBranch out row now after
  else if row.state = .computerClaimed ∧ row.leaseLapsed now then
    g.resolveUnaccepted out row now "computer-claim-expired" after
  else if leased row.state ∧ row.leaseLapsed now then
    (g.patchDispatch row (reconcilePatch row.state) now).goOn out after
  else if row.payloadJson.isSome then (g.update row.dispatchId dropPayloadPatch).goOn out after
  else g.goOn out after

/-- `SELECT … ORDER BY updated_at ASC LIMIT 64`. -/
def selectExpired (g : Gate) (now : Nat) : List DispatchRow :=
  ((g.dispatches.filter (fun row => row.expired now)).insertionSort
    (fun a b => a.updatedAt ≤ b.updatedAt)).take 64

def runningPatch (turnId threadId : Option String) (now : Nat) (stored : DispatchRow) : DispatchRow :=
  { stored with
    state := .cloudRunning
    placement := some .cloud
    cloudTurnId := turnId
    cloudRetryAt := none
    errorCode := none
    errorMessage := none
    cloudThreadId := threadId.or stored.cloudThreadId
    payloadJson := none
    payloadExpiresAt := none
    leaseExpiresAt := none
    startedAt := some now }

def admitted (g : Gate) (out : Outside) (turnId : String) (row : DispatchRow) (now : Nat) (after : After) :
    Answer → Option Gate
  | .threw => some (g.goOn out after)
  | .refused status code message => some (g.cloudRefusal out row status code message now after)
  | .unregistered =>
    some ((g.update row.dispatchId (gatePatch true)).cloudRefusal out (gatePatch true row) 410 "owner_purged"
      "This account's cloud admission is unavailable." now after)
  | .ok _ _ =>
    if g.retiredChat row then
      some ((g.update row.dispatchId (gatePatch true)).cloudRefusal out (gatePatch true row) 410 "owner_purged"
        "This cloud admission was retired." now after)
    else
      some (((g.update row.dispatchId (gatePatch true)).putHandoff row.dispatchId (.registered turnId)).sendChat out
        (gatePatch true row) turnId now after)
  | .read => none

def retires (via : Via) (status : Nat) : Option String :=
  match via with
  | .chat (some turnId) => if 400 ≤ status ∧ status < 500 then some turnId else none
  | _ => none

def startRefused (g : Gate) (out : Outside) (start : Nat) (via : Via) (row : DispatchRow) (now : Nat)
    (after : After) (status : Nat) (code message : String) : Gate :=
  match retires via status with
  | none =>
    (g.note (.refused row.dispatchId start)).park (.cloud (.refused start status code message) row now after)
  | some turnId =>
    if out.unregisters then
      ((g.note (.refused row.dispatchId start)).putHandoff row.dispatchId (.retired turnId)).park
        (.cloud (.refused start status code message) row now after)
    else (g.note (.refused row.dispatchId start)).goOn out after

/-- A start answers. `startPiThread` has no refusal of its own. -/
def answered (g : Gate) (out : Outside) (start : Nat) (via : Via) (row : DispatchRow) (now : Nat)
    (after : After) : Answer → Option Gate
  | .threw => some (g.goOn out after)
  | .ok turnId threadId =>
    match via with
    | .pi thread =>
      some (((g.releaseGate row).patchDispatch row (runningPatch (some row.dispatchId) (some thread) now) now).goOn
        out after)
    | via => some (g.park (.cloud (.accepted start via turnId threadId) row now after))
  | .refused status code message =>
    match via with
    | .pi _ => none
    | via => some (g.startRefused out start via row now after status code message)
  | _ => none

def bodyRead (g : Gate) (out : Outside) (via : Via) (turnId threadId : Option String) (row : DispatchRow)
    (now : Nat) (after : After) : Answer → Option Gate
  | .threw => some (g.goOn out after)
  | .read =>
    match via with
    | .chat registered =>
      if registered.any (fun id => turnId ≠ some id) then some (g.goOn out after)
      else if (g.dispatchRow row.dispatchId).any (fun stored => stored.state ≠ .cloudCommitted) then
        some (g.goOn out after)
      else some ((g.patchDispatch row (runningPatch turnId none now) now).goOn out after)
    | .session thread | .pi thread =>
      some ((g.patchDispatch row (runningPatch (some (turnId.getD row.dispatchId))
        (some (threadId.getD thread)) now) now).goOn out after)
  | _ => none

def expire (g : Gate) (now : Nat) : Gate := { g with expiring := some (now, g.selectExpired now) }

def resume (g : Gate) (out : Outside) : Task → Answer → Option Gate
  | .cloud (.admitting turnId) row now after, answer => g.admitted out turnId row now after answer
  | .cloud (.sent start via) row now after, answer => g.answered out start via row now after answer
  | .cloud (.accepted _ via turnId threadId) row now after, answer =>
    g.bodyRead out via turnId threadId row now after answer
  | .cloud (.refused _ status code message) row now after, .read =>
    some (g.cloudRefusal out row status code message now after)
  | .reporting row after, .read => some ((g.releaseGate row).goOn out after)
  | .stopping now, .read => some (g.scheduleAlarm out now true)
  | .waking now, .read =>
    if out.drops then some ((g.scheduleAlarm out now true).expire now) else some (g.expire now)
  | .waking now, .threw => some (g.scheduleAlarm out now false)
  | .woken now, .read => some (g.scheduleAlarm out now false)
  | _, _ => none

/-- The handler of `now` starts. -/
def tick (g : Gate) (now : Nat) : Gate := { g with clock := max g.clock now }

def segment (g : Gate) : Event → Option Gate
  | .turn out =>
    match g.expiring with
    | none => none
    | some (now, []) => some ({ g with expiring := none }.park (.woken now))
    | some (now, row :: rest) => some ({ g with expiring := none }.expireRow out row now (.alarm now rest))
  | event =>
    if g.expiring.isSome then none
    else
      match event with
      | .submit out submission now =>
        if (g.dispatchRow submission.dispatchId).isSome then none
        else some ((g.tick now).submit out submission now)
      | .frame out attachment dispatchId frame now =>
        some ((g.tick now).handleExecutorFrame out attachment dispatchId frame now)
      | .cancel out dispatchId cancelRequestId reason now =>
        some ((g.tick now).cancelDispatch out dispatchId cancelRequestId reason now)
      | .status out dispatchId now => some ((g.tick now).dispatchStatus out dispatchId now)
      | .terminal out receipt now => some ((g.tick now).recordCloudDispatchTerminal out receipt now)
      | .unregister turnId => some (g.unregister turnId)
      | .other out now => some ((g.tick now).scheduleAlarm out now true)
      | .fire now =>
        if g.alarm.any (fun wake => wake ≤ now) then
          some ({ g.tick now with alarm := none }.park (.waking now))
        else none
      | .resume out task answer =>
        match g.tasks[task]? with
        | none => none
        | some parked => { g with tasks := g.tasks.eraseIdx task }.resume out parked answer
      | .turn _ => none

def step (g : Gate) (event : Event) : Gate := (g.segment event).getD g

def empty : Gate := ⟨[], [], [], [], none, 0, [], none, []⟩

end Gate

end Stella.OwnerGate
