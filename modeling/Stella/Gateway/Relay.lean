import Stella.Gateway.Gate
import Stella.Library.Fallible

/-! # The managed lane, from the owner's admission on

`handleManagedRelay` over the answers of what it calls. Beside the flags that it keeps
itself stand the books: what was granted to the request, and each call that accounts for
it.
-/

namespace Stella.Gateway

open Stella.Fallible

structure GatewayError where
  status : Nat
  code : String
  message : String
  retryable : Bool := false
  upstreamStatus : Option Nat := none

inductive RelayError
  | gateway (error : GatewayError)
  /-- A call failed. -/
  | thrown (message : String)

/-! ## What the provider answers -/

inductive AbortCause
  | client
  | idle
  | duration
  | budget

structure TokenEstimate where
  inputTokens : Nat
  outputTokens : Nat

structure RelayUsage where
  inputTokens : Option Nat := none
  outputTokens : Option Nat := none
  cachedInputTokens : Option Nat := none
  cacheWriteInputTokens : Option Nat := none
  cacheWrite1hInputTokens : Option Nat := none
  reasoningTokens : Option Nat := none
  costMicroCents : Option ℚ := none

/-- The arguments of `computeUsageCostMicroCents` beside the price. -/
structure UsageCostArgs where
  inputTokens : Nat
  outputTokens : Nat
  cachedInputTokens : Option Nat := none
  cacheWriteInputTokens : Option Nat := none
  cacheWrite1hInputTokens : Option Nat := none
  reasoningTokens : Option Nat := none

structure StreamRead where
  byteLength : Nat
  /-- What the usage parser knows after it. -/
  usage : Option RelayUsage
  /-- The length of the output text so far. -/
  outputTextLength : Nat
  /-- The parser or the assembler throws. -/
  malformed : Bool

inductive JsonText
  | unread
  | malformed (empty : Bool)
  | noObject
  | object (text : String)

inductive UpstreamBody
  | json (text : JsonText)
  | missing
  /-- The reads, whether a further one throws, whether `reader.cancel` and the tail do, and what is assembled. -/
  | stream (reads : List StreamRead) (breaks cancelThrows tailThrows : Bool) (assembled : Except String String)

structure Upstream where
  status : Nat
  /-- The scrubbed body of an error. -/
  errorBody : String
  body : UpstreamBody
  /-- What the usage parser knows at the end. -/
  usage : Option RelayUsage
  /-- Why the controller had aborted if the body's read throws. -/
  cause : Option AbortCause

def Upstream.ok (upstream : Upstream) : Bool := 200 ≤ upstream.status && upstream.status ≤ 299

def maxUpstreamStreamBytes : Nat := 64 * 1024 * 1024

/-- A request whose model, price and provider are known. A model without a positive price is refused before. -/
structure Priced where
  estimate : TokenEstimate
  estimatedMicroCents : ℚ
  positive : 0 < estimatedMicroCents
  cost : UsageCostArgs → ℚ

inductive TierBudgetReserveResult
  | ok (minute : Int)
  | refused (resetAt : Int)

structure RelayRequest where
  requestId : String
  generation : String
  jti : String
  probe : Bool
  /-- `claims.ledgerScope === "owner-relay-v2"` -/
  ownerRelayV2 : Bool
  anonymous : Bool
  admitRelay : Except RelayError GateAdmission
  /-- The checks between the admission and the reservations. -/
  priced : Except RelayError Priced
  /-- The tier has a ceiling and the capability a budget. -/
  tierCeiling : Bool
  reserveTier : Except RelayError TierBudgetReserveResult
  reserve : Except RelayError LedgerReserveResult
  admitAndReserve : Except RelayError (GateAdmission × Option LedgerReserveResult)
  /-- The provider's answer, or why the controller had aborted when the fetch threw. -/
  fetch : Except (Option AbortCause) Upstream
  /-- A settle that fails does so without effect. -/
  settleFails : Bool
  lastSettleFails : Bool

def RelayRequest.combinedAccounting (r : RelayRequest) : Bool := !r.probe && r.ownerRelayV2

/-! ## Flags and books -/

structure TierReservation where
  estimateMicroCents : ℚ
  minute : Int

inductive GatewayUsageOutcome
  | succeeded
  | failed
  | aborted

structure GatewayUsageTokens where
  inputTokens : Nat
  outputTokens : Nat
  cachedInputTokens : Option Nat := none
  cacheWriteTokens : Option Nat := none
  reasoningTokens : Option Nat := none
  costMicroCents : Option ℚ := none
  reported : Bool

structure GatewayUsageEvent where
  requestId : String
  usage : GatewayUsageTokens
  chargedMicroCents : ℚ
  outcome : GatewayUsageOutcome
  upstreamStatus : Option Nat

structure SettleCall where
  chargedMicroCents : ℚ
  refundRequest : Bool
  result : Option (Nat × String)
  took : Bool

structure TierSettleCall where
  estimateMicroCents : ℚ
  actualMicroCents : ℚ
  minute : Int
  deriving DecidableEq

structure Books where
  /-- This request's own admission created the owner's row and kept it. -/
  ownRow : Bool := false
  ledgerGranted : Bool := false
  tierGranted : Bool := false
  settles : List SettleCall := []
  tierSettles : List TierSettleCall := []
  events : List GatewayUsageEvent := []
  releases : List String := []

structure Relaying where
  ownerAdmitted : Bool := false
  tierReservation : Option TierReservation := none
  tierActualMicroCents : ℚ := 0
  ledger : Bool := false
  ledgerReserved : Bool := false
  ledgerSettled : Bool := false
  firstUpstreamByte : Bool := false
  books : Books := {}

abbrev RelayM (α : Type) : Type := Fallible RelayError Relaying α

structure RelayResponse where
  status : Int
  body : String
  replayed : Bool := false

def refuse {α : Type} (error : GatewayError) : RelayM α := Fallible.throw (.gateway error)

def gatewaySignInRequiredMessage : String :=
  "Stella models need a Stella account. Sign in, or connect Claude Code, ChatGPT or an API key."

def concurrencyLimitError : GatewayError :=
  ⟨429, "concurrency_limit", "This account has too many model requests in flight.", false, none⟩

def rateLimitedError : GatewayError :=
  ⟨429, "rate_limited", "This account is sending model requests too quickly.", false, none⟩

/-! ## Reservations -/

namespace RelayRequest

variable (r : RelayRequest)

def reserveTierBudget (priced : Priced) : RelayM Unit := do
  match ← answered r.reserveTier with
  | .ok minute =>
    modify fun s =>
      { s with
        tierReservation := some ⟨priced.estimatedMicroCents, minute⟩
        books := { s.books with tierGranted := true } }
  | .refused _ =>
    refuse (if r.anonymous then ⟨403, "sign_in_required", gatewaySignInRequiredMessage, false, none⟩
      else ⟨429, "tier_paused", "Managed model access is paused for this plan.", true, none⟩)

def reserveRequestTierBudget (priced : Priced) : RelayM Unit :=
  if !r.probe && r.tierCeiling then r.reserveTierBudget priced else pure ()

def isReserved : Option LedgerReserveResult → Bool
  | some (.reserved _) => true
  | _ => false

def reserveLedger : RelayM LedgerReserveResult :=
  if r.ownerRelayV2 then do
    match ← answered r.admitAndReserve with
    | (.concurrencyLimit _, _) => refuse concurrencyLimitError
    | (.rateLimited _, _) => refuse rateLimitedError
    | (.ok duplicate, reservation) =>
      modify fun s =>
        { s with
          ownerAdmitted := !duplicate && isReserved reservation
          books := { s.books with ownRow := !duplicate && isReserved reservation } }
      match reservation with
      | none => refuse ⟨503, "internal", "Model admission did not return a reservation.", false, none⟩
      | some reservation => pure reservation
  else answered r.reserve

end RelayRequest

/-! ## The outcome of a request -/

structure RelayReport where
  outcome : GatewayUsageOutcome
  tokens : GatewayUsageTokens
  chargedMicroCents : ℚ
  upstreamStatus : Option Nat
  refundRequest : Bool
  result : Option (Nat × String) := none

namespace RelayRequest

variable (r : RelayRequest)

def settleReport (report : RelayReport) : RelayM Unit := do
  modify fun s =>
    { s with
      books := { s.books with
        settles := s.books.settles ++ [⟨report.chargedMicroCents, report.refundRequest, report.result, !r.settleFails⟩] } }
  (if r.settleFails then Fallible.throw (.thrown "The ledger settlement failed.") else pure () : RelayM Unit)
  modify fun s => { s with ledgerSettled := true }

def sendUsage (report : RelayReport) : RelayM Unit :=
  if r.probe then pure ()
  else
    modify fun s =>
      { s with
        books := { s.books with
          events := s.books.events ++
            [⟨r.requestId, report.tokens, report.chargedMicroCents, report.outcome, report.upstreamStatus⟩] } }

def finish (report : RelayReport) : RelayM Unit := do
  modify fun s => { s with tierActualMicroCents := report.chargedMicroCents }
  let s ← get
  (if s.ledger && s.ledgerReserved then r.settleReport report else pure () : RelayM Unit)
  r.sendUsage report

end RelayRequest

def usageTokens (usage : Option RelayUsage) (estimate : TokenEstimate) : GatewayUsageTokens :=
  match usage with
  | some usage =>
    if usage.inputTokens.isSome || usage.outputTokens.isSome then
      { inputTokens := usage.inputTokens.getD 0
        outputTokens := usage.outputTokens.getD 0
        cachedInputTokens := usage.cachedInputTokens
        cacheWriteTokens := usage.cacheWriteInputTokens
        reasoningTokens := usage.reasoningTokens
        costMicroCents := usage.costMicroCents
        reported := true }
    else { inputTokens := estimate.inputTokens, outputTokens := estimate.outputTokens, reported := false }
  | none => { inputTokens := estimate.inputTokens, outputTokens := estimate.outputTokens, reported := false }

namespace Priced

variable (priced : Priced)

def chargeFor (usage : Option RelayUsage) : ℚ :=
  match usage with
  | none => priced.estimatedMicroCents
  | some usage =>
    if usage.inputTokens.isNone && usage.outputTokens.isNone then priced.estimatedMicroCents
    else
      usage.costMicroCents.getD
        (priced.cost
          { inputTokens := usage.inputTokens.getD 0
            outputTokens := usage.outputTokens.getD 0
            cachedInputTokens := usage.cachedInputTokens
            cacheWriteInputTokens := usage.cacheWriteInputTokens
            cacheWrite1hInputTokens := usage.cacheWrite1hInputTokens
            reasoningTokens := usage.reasoningTokens })

def runningCostFor (outputTokens : Nat) : ℚ :=
  priced.cost { inputTokens := priced.estimate.inputTokens, outputTokens := 0 } +
    priced.cost { inputTokens := 0, outputTokens }

end Priced

def budgetExhaustedError : GatewayError :=
  ⟨402, "budget_exhausted", "This capability's spending budget is exhausted.", false, none⟩

def abortedError : Option AbortCause → GatewayError
  | some .client => ⟨499, "canceled", "The caller canceled the request.", false, none⟩
  | some .idle => ⟨504, "upstream_timeout", "The model provider stopped sending data.", true, none⟩
  | some .duration => ⟨504, "upstream_timeout", "The model completion exceeded the maximum duration.", true, none⟩
  | some .budget => budgetExhaustedError
  | none => ⟨502, "upstream_error", "The model provider connection failed.", true, none⟩

def GatewayError.abortedOutcome (failure : GatewayError) : GatewayUsageOutcome :=
  if failure.code = "canceled" then .aborted else .failed

def GatewayError.cutOff (failure : GatewayError) : Bool := failure.code = "canceled" || failure.code = "upstream_timeout"

/-! ## Reading the provider -/

inductive StreamOutcome
  | threw
  | tooLarge
  | stopped (chargedMicroCents : ℚ) (tokens : GatewayUsageTokens)
  | complete

def stopTokens (usage : Option RelayUsage) (estimate : TokenEstimate) (outputTokens : Nat) : GatewayUsageTokens :=
  match usage with
  | some usage =>
    usageTokens (some { usage with
      inputTokens := some (usage.inputTokens.getD estimate.inputTokens), outputTokens := some outputTokens }) estimate
  | none => { inputTokens := estimate.inputTokens, outputTokens, reported := false }

def readStream (priced : Priced) (hardLimit : Option ℚ) (breaks cancelThrows : Bool) :
    List StreamRead → Bool → Nat → Bool × StreamOutcome
  | [], first, _ => (first, if breaks then .threw else .complete)
  | read :: reads, first, received =>
    let first := first || 0 < read.byteLength
    let received := received + read.byteLength
    if maxUpstreamStreamBytes < received then (first, if cancelThrows then .threw else .tooLarge)
    else if read.malformed then (first, .threw)
    else
      let outputTokens := (read.usage.bind RelayUsage.outputTokens).getD ((read.outputTextLength + 3) / 4)
      let runningCost := priced.runningCostFor outputTokens
      if hardLimit.any (fun limit => limit < runningCost) then
        (first, if cancelThrows then .threw else .stopped runningCost (stopTokens read.usage priced.estimate outputTokens))
      else readStream priced hardLimit breaks cancelThrows reads first received

inductive BodyOutcome
  | threw
  | stopped (chargedMicroCents : ℚ) (tokens : GatewayUsageTokens)
  | failed (message : String)
  | assembled (text : String)

def readBody (priced : Priced) (hardLimit : Option ℚ) : UpstreamBody → Bool × BodyOutcome
  | .json .unread => (false, .threw)
  | .json (.malformed empty) => (!empty, .threw)
  | .json .noObject => (true, .failed "The model provider returned a non-object JSON body.")
  | .json (.object text) => (true, .assembled text)
  | .missing => (false, .failed "The model provider returned an empty stream.")
  | .stream reads breaks cancelThrows tailThrows assembled =>
    match readStream priced hardLimit breaks cancelThrows reads false 0 with
    | (first, .threw) => (first, .threw)
    | (first, .stopped charged tokens) => (first, .stopped charged tokens)
    | (first, .tooLarge) =>
      (first, if tailThrows then .threw else .failed "The model provider stream exceeded the size limit.")
    | (first, .complete) =>
      (first,
        if tailThrows then .threw
        else
          match assembled with
          | .ok text => .assembled text
          | .error message => .failed message)

namespace RelayRequest

variable (r : RelayRequest)

def respond (priced : Priced) (upstream : Upstream) : BodyOutcome → RelayM RelayResponse
  | .threw => do
    let s ← get
    let failure := abortedError upstream.cause
    r.finish
      { outcome := failure.abortedOutcome
        tokens := usageTokens upstream.usage priced.estimate
        chargedMicroCents :=
          if !s.firstUpstreamByte then 0
          else if failure.cutOff then priced.chargeFor upstream.usage
          else if upstream.usage.isSome then priced.chargeFor upstream.usage else 0
        upstreamStatus := some upstream.status
        refundRequest := !s.firstUpstreamByte }
    refuse failure
  | .stopped charged tokens => do
    r.finish
      { outcome := .failed, tokens, chargedMicroCents := charged, upstreamStatus := some upstream.status,
        refundRequest := false }
    refuse budgetExhaustedError
  | .failed message => do
    let s ← get
    r.finish
      { outcome := .failed
        tokens := usageTokens upstream.usage priced.estimate
        chargedMicroCents := if upstream.usage.isSome then priced.chargeFor upstream.usage else 0
        upstreamStatus := some upstream.status
        refundRequest := !s.firstUpstreamByte }
    refuse ⟨502, "upstream_error", message, true, some upstream.status⟩
  | .assembled text => do
    r.finish
      { outcome := .succeeded
        tokens := usageTokens upstream.usage priced.estimate
        chargedMicroCents := priced.chargeFor upstream.usage
        upstreamStatus := some upstream.status
        refundRequest := false
        result := some (upstream.status, text) }
    pure ⟨upstream.status, text, false⟩

def dispatch (priced : Priced) (hardLimit : Option ℚ) : RelayM RelayResponse :=
  match r.fetch with
  | .error cause => do
    let s ← get
    let failure := abortedError cause
    r.finish
      { outcome := failure.abortedOutcome
        tokens := usageTokens none priced.estimate
        chargedMicroCents := if s.firstUpstreamByte && failure.cutOff then priced.estimatedMicroCents else 0
        upstreamStatus := none
        refundRequest := !s.firstUpstreamByte }
    refuse failure
  | .ok upstream =>
    if upstream.ok then do
      modify fun s => { s with firstUpstreamByte := (readBody priced hardLimit upstream.body).1 }
      r.respond priced upstream (readBody priced hardLimit upstream.body).2
    else do
      r.finish
        { outcome := .failed
          tokens := usageTokens none priced.estimate
          chargedMicroCents := 0
          upstreamStatus := some upstream.status
          refundRequest := true }
      if upstream.status = 401 ∨ upstream.status = 403 then
        refuse ⟨502, "upstream_error", "The model provider refused the gateway's credentials.", false, some upstream.status⟩
      else pure ⟨upstream.status, upstream.errorBody, false⟩

/-! ## The request -/

def admission : RelayM Unit :=
  if r.combinedAccounting then pure ()
  else do
    match ← answered r.admitRelay with
    | .concurrencyLimit _ => refuse concurrencyLimitError
    | .rateLimited _ => refuse rateLimitedError
    | .ok duplicate =>
      modify fun s => { s with ownerAdmitted := !duplicate, books := { s.books with ownRow := !duplicate } }

def reserved (priced : Priced) : LedgerReserveResult → RelayM RelayResponse
  | .replay status body => pure ⟨status, body, true⟩
  | .inFlight =>
    refuse ⟨409, "bad_request", "Request \"" ++ r.requestId ++ "\" is still in flight; retry after it completes.", true, none⟩
  | .budgetExhausted _ => refuse budgetExhaustedError
  | .requestLimit maxRequests =>
    refuse ⟨429, "request_limit", "This capability's request limit (" ++ toString maxRequests ++ ") has been reached.", false, none⟩
  | .reserved remaining => do
    modify fun s => { s with ledgerReserved := true, books := { s.books with ledgerGranted := true } }
    (if r.combinedAccounting then r.reserveRequestTierBudget priced else pure () : RelayM Unit)
    r.dispatch priced (remaining.map fun (remaining : Int) => priced.estimatedMicroCents + (remaining : ℚ))

def relay : RelayM RelayResponse := do
  let priced ← answered r.priced
  (if r.combinedAccounting then pure () else r.reserveRequestTierBudget priced : RelayM Unit)
  if r.probe then r.dispatch priced none
  else do
    modify fun s => { s with ledger := true }
    let reservation ← r.reserveLedger
    r.reserved priced reservation

def releaseId : String :=
  if r.combinedAccounting then JsonText.stringifyArray [r.generation, r.jti, r.requestId] else r.requestId

def releaseLedger (s : Relaying) : Relaying :=
  if s.ledger && s.ledgerReserved && !s.ledgerSettled then
    { s with
      books := { s.books with settles := s.books.settles ++ [⟨0, !s.firstUpstreamByte, none, !r.lastSettleFails⟩] } }
  else s

def settleTier (s : Relaying) : Relaying :=
  match s.tierReservation with
  | none => s
  | some reservation =>
    { s with
      books := { s.books with
        tierSettles := s.books.tierSettles ++ [⟨reservation.estimateMicroCents, s.tierActualMicroCents, reservation.minute⟩] } }

def releaseOwner (s : Relaying) : Relaying :=
  if s.ownerAdmitted then { s with books := { s.books with releases := s.books.releases ++ [r.releaseId] } } else s

def settleUp (s : Relaying) : Relaying := r.releaseOwner (settleTier (r.releaseLedger s))

def handleManagedRelay : RelayM RelayResponse := do
  r.admission
  finallyDo r.relay r.settleUp

end RelayRequest

end Stella.Gateway
