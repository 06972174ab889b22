import Stella.Billing.Stripe
import Stella.Library.Rows

/-! # Usage against the plan's windows

`usageSnapshot`, `accessFor` and the budget of a session of `billing.ts`.
-/

namespace Stella.Billing

def microCentsPerUsd : ℚ := 100000000

inductive ManagedModelAudience
  | anonymous | free | go | goFallback | pro | proFallback

namespace AccountRow

def isPaying (row : AccountRow) : Bool :=
  (row.plan ≠ .free && row.subscriptionStatus ∈ activeSubscriptionStatuses) || 0 < row.creditBalance

/-- `identityLevel`: the sign-in's level, and payment above it. -/
def identity (row : AccountRow) : Nat :=
  if row.isAnonymous then 0 else if row.isPaying then 3 else min 2 (max 1 row.identityLevel)

end AccountRow

namespace Config

def planConfig (config : Config) (row : AccountRow) : PlanConfig :=
  if row.isAnonymous then config.anonymous else config.plans row.plan

def share (config : Config) (row : AccountRow) : ℚ :=
  if !row.isAnonymous && row.plan = .free && row.identity = 1 then config.freeEmailAllowanceShare else 1

/-- `Math.round` of the limit in micro-cents. -/
def limit (config : Config) (row : AccountRow) (usd : ℚ) : Int := ⌊usd * config.share row * microCentsPerUsd + 1 / 2⌋

end Config

structure Window where
  used : Int
  limit : Int

def Window.left (window : Window) : Int := window.limit - window.used

structure UsageSnapshot where
  rolling : Window
  weekly : Window
  monthly : Window
  lifetime : Option Window
  /-- The row with its expired windows zeroed. -/
  normalized : AccountRow

def PlanConfig.rollingMs (plan : PlanConfig) : Int := max 1 ⌊plan.rollingWindowHours * 60 * 60 * 1000⌋

def AccountRow.anchor (row : AccountRow) (now : Int) : Int := if 0 < row.monthlyAnchorAt then row.monthlyAnchorAt else now

def usageSnapshot (config : Config) (row : AccountRow) (now : Int) : UsageSnapshot :=
  let plan := config.planConfig row
  let rollingActive : Bool := 0 < row.rollingStartedAt && now - plan.rollingMs ≤ row.rollingStartedAt
  let rollingUsed := if rollingActive then row.rollingUsed else 0
  let week := weekBounds now
  let weeklyActive : Bool := week.start ≤ row.weeklyStartedAt
  let weeklyUsed := if weeklyActive then row.weeklyUsed else 0
  let month := monthBounds now (row.anchor now)
  let monthlyActive : Bool := month.start ≤ row.monthlyStartedAt
  let monthlyUsed := if monthlyActive then row.monthlyUsed else 0
  { rolling := ⟨rollingUsed, config.limit row plan.rollingLimitUsd⟩
    weekly := ⟨weeklyUsed, config.limit row plan.weeklyLimitUsd⟩
    monthly := ⟨monthlyUsed, config.limit row plan.monthlyLimitUsd⟩
    lifetime := plan.lifetimeLimitUsd.map fun usd => ⟨row.totalUsed, config.limit row usd⟩
    normalized := { row with
      rollingUsed
      rollingStartedAt := if rollingActive then row.rollingStartedAt else now
      weeklyUsed
      weeklyStartedAt := if weeklyActive then row.weeklyStartedAt else week.start
      monthlyUsed
      monthlyStartedAt := if monthlyActive then row.monthlyStartedAt else month.start } }

def UsageSnapshot.room (snapshot : UsageSnapshot) : Int :=
  let windows := min (min snapshot.rolling.left snapshot.weekly.left) snapshot.monthly.left
  match snapshot.lifetime with
  | none => windows
  | some lifetime => min windows lifetime.left

def includedHeadroom (snapshot : UsageSnapshot) : Int := max 0 snapshot.room

structure BillingAccess where
  plan : Plan
  isAnonymous : Bool
  identityLevel : Nat
  unlimited : Bool
  allowed : Bool
  downgraded : Bool
  audience : ManagedModelAudience
  /-- Spend available now; none when unlimited. -/
  remainingMicroCents : Option Int

def audienceFor (current : Plan) (anonymous downgraded : Bool) : ManagedModelAudience :=
  if anonymous then .anonymous
  else match current, downgraded with
    | .free, _ => .free
    | .go, false => .go
    | .go, true => .goFallback
    | .pro, false => .pro
    | .pro, true => .proFallback

def remainingSpend (config : Config) (row : AccountRow) (now : Int) : Int :=
  includedHeadroom (usageSnapshot config row now) + max 0 row.creditBalance

def accessFor (config : Config) (row : AccountRow) (now : Int) : BillingAccess :=
  let current := if config.enabled then row.plan else .pro
  let unlimited := row.usageMode = .unlimited || !config.enabled
  let snapshot := usageSnapshot config row now
  let credit := max 0 row.creditBalance
  -- a window blocks only when neither it nor purchased credit has room
  let blocks := fun window : Window => decide (max 0 window.left + credit ≤ 0)
  let blocking := !unlimited && (snapshot.lifetime.any blocks || [snapshot.rolling, snapshot.weekly, snapshot.monthly].any blocks)
  { plan := current
    isAnonymous := row.isAnonymous
    identityLevel := row.identity
    unlimited
    allowed := !blocking || current ≠ .free
    downgraded := blocking && current ≠ .free
    audience := if blocking then audienceFor current row.isAnonymous (current ≠ .free)
      else audienceFor current (row.isAnonymous && config.enabled) false
    remainingMicroCents := if unlimited then none else some (remainingSpend config row now) }

def gatewayBudgetUnlimited : Int := -1

/-- `GATEWAY_SESSION_BUDGET_CHUNK_MICRO_CENTS` of the audience's base tier. -/
def budgetChunk : ManagedModelAudience → Int
  | .anonymous => 10000000
  | .free => 100000000
  | .go | .goFallback => 200000000
  | .pro | .proFallback => 500000000

def capabilityBudget (access : BillingAccess) (reserved : Int) : Int :=
  match access.remainingMicroCents with
  | none => gatewayBudgetUnlimited
  | some remaining => min (max 0 (remaining - reserved)) (budgetChunk access.audience)

/-! ## Grants and usage -/

def grantSettlementGraceMs : Int := 10 * 60 * 1000

def Grant.live (now : Int) (grant : Grant) : Bool := now ≤ grant.expiresAt + grantSettlementGraceMs

def Grant.unspent (grant : Grant) : Int := max 0 (grant.budget - grant.settled)

inductive Outcome
  | succeeded | failed | aborted
  deriving DecidableEq

structure GatewayUsageEvent where
  requestId : String
  capabilityId : String
  ownerId : String
  chargedMicroCents : ℚ
  outcome : Outcome
  billable : Bool

def GatewayUsageEvent.charged (event : GatewayUsageEvent) : Int := max 0 ⌊event.chargedMicroCents⌋

def GatewayUsageEvent.charges (event : GatewayUsageEvent) : Bool := event.billable && event.outcome ≠ .failed

inductive UsageAnswer
  | accepted
  | duplicate
  | rejected
  deriving DecidableEq

namespace Db

def reservedGrants (db : Db) (now : Int) : Int := ((db.grants.filter (Grant.live now)).map Grant.unspent).sum

def pruneGrants (db : Db) (now : Int) : Db := { db with grants := db.grants.filter (Grant.live now) }

variable (config : Config)

def access (db : Db) (now : Int) : BillingAccess := accessFor config (db.readAccount now) now

def reserveSessionGrant (db : Db) (now : Int) (jti : String) (expiresAt : Int) : Db :=
  let db := db.pruneGrants now
  let budget := capabilityBudget (db.access config now) (db.reservedGrants now)
  if budget = gatewayBudgetUnlimited then db
  -- a second grant of one `jti` is refused
  else if db.grants.any (fun grant => grant.jti = jti) then db
  else { db with grants := db.grants ++ [⟨jti, budget, 0, expiresAt⟩] }

def reserveUsage (db : Db) (now : Int) (id : String) (budgetMicroCents : ℚ) (expiresAt : Int) : Db :=
  let db := db.pruneGrants now
  let access := db.access config now
  let budget := max 0 ⌈budgetMicroCents⌉
  if !access.allowed then db
  else match access.remainingMicroCents with
    | none => db
    | some remaining =>
      if remaining - db.reservedGrants now < budget then db
      else { db with grants := db.grants.filter (fun grant => grant.jti ≠ id) ++ [⟨id, budget, 0, expiresAt⟩] }

def releaseReservation (db : Db) (id : String) : Db :=
  { db with grants := db.grants.filter (fun grant => grant.jti ≠ id) }

def chargedRow (row : AccountRow) (now cost : Int) : AccountRow :=
  let snapshot := usageSnapshot config row now
  let fromCredit := if row.usageMode = .unlimited then 0
    else min (max 0 row.creditBalance) (max 0 (cost - includedHeadroom snapshot))
  { snapshot.normalized with
    rollingUsed := snapshot.normalized.rollingUsed + cost
    weeklyUsed := snapshot.normalized.weeklyUsed + cost
    monthlyUsed := snapshot.normalized.monthlyUsed + cost
    totalUsed := row.totalUsed + cost
    totalRequests := row.totalRequests + 1
    creditBalance := row.creditBalance - fromCredit
    creditConsumed := row.creditConsumed + fromCredit
    updatedAt := now }

def charge (db : Db) (now cost : Int) : Db := db.setAccount (chargedRow config (db.readAccount now) now (max 0 cost))

def pruneReceipts (db : Db) (now : Int) : Db :=
  { db with receipts := db.receipts.filter (fun receipt => now - receiptRetentionMs ≤ receipt.2.2) }

def receiptId (requestId : String) : String := "gw:" ++ requestId

def claimed (db : Db) (id : String) : Bool := db.receipts.any (fun receipt => receipt.1 = id)

def settle (db : Db) (jti : String) (charged : Int) : Db :=
  { db with grants := Rows.modify Grant.jti db.grants jti (fun grant => { grant with settled := grant.settled + charged }) }

/-- One event of `applyGatewayUsage`. -/
def applyUsage (db : Db) (ownerId : String) (now : Int) (event : GatewayUsageEvent) : Db × UsageAnswer :=
  if event.ownerId ≠ ownerId then (db, .rejected)
  else if db.claimed (receiptId event.requestId) then (db, .duplicate)
  else
    let settled := { db with receipts := db.receipts ++ [(receiptId event.requestId, event.charged, now)] }.settle
      event.capabilityId event.charged
    (if event.charges then settled.charge config now event.charged else settled, .accepted)

end Db

end Stella.Billing
