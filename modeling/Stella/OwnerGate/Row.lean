import Mathlib.Data.List.Basic

/-! # Dispatch rows

One row of the owner gate's `dispatches` table, the pure placement policy that gives a row its
first state, and the deadlines a row can wait for.
-/

namespace Stella.OwnerGate

inductive DispatchState
  | offering | computerClaimed | computerAccepted | computerRunning
  | cloudCommitted | cloudRunning | cancelPending | reconciliationRequired
  | blocked | completed | failed | canceled
  deriving DecidableEq

inductive ExecutionKind
  | chat | agent
  deriving DecidableEq

inductive ExecutionIngress
  | desktop | mobile | browser | cloud | schedule
  deriving DecidableEq

inductive ExecutionSubject
  | portable | computer | cloud
  deriving DecidableEq

inductive ExecutionTargetMode
  | automatic | cloud | device
  deriving DecidableEq

inductive ExecutionCapability
  | chat | agent | computerUse | localFiles | localApps | attachments
  deriving DecidableEq

/-- `placement` and the two fallbacks of `on_no_eligible_computer`. -/
inductive Placement
  | computer | cloud
  deriving DecidableEq

inductive Fallback
  | cloud | blocked
  deriving DecidableEq

/-- The engine of a `CloudExecutionSelection`. -/
inductive Engine
  | stella | chatgpt | other
  deriving DecidableEq

def runsAsPiAgent (engine : Engine) : Bool := engine = .stella || engine = .chatgpt

structure DispatchPayload where
  prompt : String
  execution : Option Engine

structure DispatchSubmitRequest where
  idempotencyKey : String
  kind : ExecutionKind
  ingress : ExecutionIngress
  subject : ExecutionSubject
  targetMode : ExecutionTargetMode
  targetDeviceId : Option String
  requestingDeviceId : Option String
  pairGrantDeviceId : Option String
  conversationId : String
  parentTurnId : Option String
  threadId : Option String
  requiredCapabilities : List ExecutionCapability
  payload : DispatchPayload

structure DispatchRow where
  dispatchId : String
  /-- The request: the idempotency key and every routing fact of the fingerprint. -/
  request : DispatchSubmitRequest
  ownerGeneration : String
  state : DispatchState
  placement : Option Placement
  executorDeviceId : Option String
  executorPresenceSessionId : Option String
  onNoEligibleComputer : Fallback
  revision : Nat
  fallbackReason : Option String
  cancelRequestId : Option String
  cancelReason : Option String
  errorCode : Option String
  errorMessage : Option String
  resultJson : Option String
  cloudTurnId : Option String
  cloudThreadId : Option String
  payloadJson : Option DispatchPayload
  payloadExpiresAt : Option Nat
  offerDeadlineAt : Option Nat
  leaseExpiresAt : Option Nat
  startedAt : Option Nat
  cloudAttempts : Nat
  cloudRetryAt : Option Nat
  gateHeld : Bool
  updatedAt : Nat

def dispatchOfferWindowMs : Nat := 4000
def dispatchClaimLeaseMs : Nat := 30000
def dispatchAcceptedLeaseMs : Nat := 120000
def dispatchPayloadTtlMs : Nat := 900000
def dispatchCloudRetryDelayMs : Nat := 1000
def dispatchCloudMaxAttempts : Nat := 2
def alarmMinDelayMs : Nat := 1000

def isTerminalDispatchState (state : DispatchState) : Bool :=
  state = .completed || state = .failed || state = .canceled || state = .blocked

def cloudProvidedCapabilities : List ExecutionCapability := [.chat, .agent, .attachments]

def cloudUnsupportedCapabilities (required : List ExecutionCapability) : List ExecutionCapability :=
  required.filter (fun capability => !cloudProvidedCapabilities.contains capability)

def ExecutionCapability.text : ExecutionCapability → String
  | .chat => "chat"
  | .agent => "agent"
  | .computerUse => "computer-use"
  | .localFiles => "local-files"
  | .localApps => "local-apps"
  | .attachments => "attachments"

def ExecutionIngress.text : ExecutionIngress → String
  | .desktop => "desktop"
  | .mobile => "mobile"
  | .browser => "browser"
  | .cloud => "cloud"
  | .schedule => "schedule"

def DispatchState.text : DispatchState → String
  | .offering => "offering"
  | .computerClaimed => "computer_claimed"
  | .computerAccepted => "computer_accepted"
  | .computerRunning => "computer_running"
  | .cloudCommitted => "cloud_committed"
  | .cloudRunning => "cloud_running"
  | .cancelPending => "cancel_pending"
  | .reconciliationRequired => "reconciliation_required"
  | .blocked => "blocked"
  | .completed => "completed"
  | .failed => "failed"
  | .canceled => "canceled"

inductive DispatchPolicyDecision
  | commit (placement : Placement) (reason : String)
  | offer (onNoEligibleComputer : Fallback) (reason : String)
  | blocked (reason : String)

def decideDispatchPlacement (ingress : ExecutionIngress) (subject : ExecutionSubject)
    (targetMode : ExecutionTargetMode) : DispatchPolicyDecision :=
  if targetMode = .cloud then .commit .cloud "explicit-cloud"
  else if targetMode = .device then
    .offer (if subject = .computer then .blocked else .cloud) "explicit-device"
  else if subject = .cloud then .commit .cloud "hosted-subject"
  else if ingress = .desktop then .commit .computer "desktop-ingress"
  else if ingress = .mobile then
    .offer .cloud (if subject = .computer then "paired-computer-preferred-for-computer-work"
      else "paired-computer-preferred")
  else if subject = .computer then .blocked "computer-unavailable-for-ingress"
  else .commit .cloud (ingress.text ++ "-ingress")

/-- States whose lease `scheduleAlarm` and `expireDispatches` look at. -/
def leased (state : DispatchState) : Bool :=
  state = .computerClaimed || state = .computerAccepted || state = .computerRunning ||
    state = .cloudCommitted || state = .cancelPending

namespace DispatchRow

/-- The deadlines a row waits for: the columns `scheduleAlarm` takes minima of. -/
def deadlines (row : DispatchRow) : List Nat :=
  (if row.state = .offering then row.offerDeadlineAt.toList else []) ++
  (if leased row.state then row.leaseExpiresAt.toList else []) ++
  (if row.state = .cloudCommitted then row.cloudRetryAt.toList else []) ++
  (if row.payloadJson.isSome then row.payloadExpiresAt.toList else [])

def offerLapsed (row : DispatchRow) (now : Nat) : Bool :=
  row.state = .offering && row.offerDeadlineAt.any (· ≤ now)

def leaseLapsed (row : DispatchRow) (now : Nat) : Bool := row.leaseExpiresAt.any (· ≤ now)

def retryDue (row : DispatchRow) (now : Nat) : Bool :=
  row.state = .cloudCommitted && row.cloudRetryAt.any (· ≤ now)

/-- The rows `expireDispatches` selects. -/
def expired (row : DispatchRow) (now : Nat) : Bool :=
  row.offerLapsed now || row.retryDue now || (leased row.state && row.leaseLapsed now) ||
    (row.payloadJson.isSome && row.payloadExpiresAt.any (· ≤ now))

theorem mem_deadlines {row : DispatchRow} {d : Nat} : d ∈ row.deadlines ↔
    row.state = .offering ∧ row.offerDeadlineAt = some d ∨
    leased row.state = true ∧ row.leaseExpiresAt = some d ∨
    row.state = .cloudCommitted ∧ row.cloudRetryAt = some d ∨
    row.payloadJson.isSome = true ∧ row.payloadExpiresAt = some d := by
  simp only [deadlines, List.mem_append, or_assoc]
  refine or_congr ?_ (or_congr ?_ (or_congr ?_ ?_)) <;> split <;> simp_all

end DispatchRow

end Stella.OwnerGate
