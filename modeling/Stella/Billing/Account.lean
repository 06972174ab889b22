import Mathlib.Data.Rat.Floor
import Stella.Billing.Calendar

/-! # The account row

The billing row of an owner, the plan's limits, and usage against the windows.
Amounts are micro-cents. Dollars of the configuration are rationals.
-/

namespace Stella.Billing

inductive Plan
  | free
  | go
  | pro
  deriving DecidableEq

inductive UsageMode
  | default
  | unlimited
  deriving DecidableEq

structure PlanConfig where
  rollingLimitUsd : ℚ
  rollingWindowHours : ℚ
  weeklyLimitUsd : ℚ
  monthlyLimitUsd : ℚ
  /-- Spend for the account's lifetime; absent on purely windowed plans. -/
  lifetimeLimitUsd : Option ℚ

structure Config where
  enabled : Bool
  plans : Plan → PlanConfig
  anonymous : PlanConfig
  freeEmailAllowanceShare : ℚ
  stripePriceGo : String
  stripePricePro : String

/-- `planForStripePrice`; `free` is null. -/
def Config.planForStripePrice (config : Config) (priceId : Option String) : Plan :=
  if priceId.all (· = "") || !config.enabled then .free
  else if priceId = some config.stripePriceGo then .go
  else if priceId = some config.stripePricePro then .pro
  else .free

structure AccountRow where
  plan : Plan
  usageMode : UsageMode
  subscriptionStatus : String
  stripeCustomerId : Option String
  stripeSubscriptionId : Option String
  stripePriceId : Option String
  currentPeriodEnd : Int
  cancelAtPeriodEnd : Bool
  paymentMethodBrand : Option String
  paymentMethodLast4 : Option String
  monthlyAnchorAt : Int
  rollingUsed : Int
  rollingStartedAt : Int
  weeklyUsed : Int
  weeklyStartedAt : Int
  monthlyUsed : Int
  monthlyStartedAt : Int
  totalUsed : Int
  totalRequests : Nat
  creditBalance : Int
  creditPurchased : Int
  creditConsumed : Int
  isAnonymous : Bool
  identityLevel : Nat
  updatedAt : Int

def defaultAccount (now : Int) : AccountRow where
  plan := .free
  usageMode := .default
  subscriptionStatus := "none"
  stripeCustomerId := none
  stripeSubscriptionId := none
  stripePriceId := none
  currentPeriodEnd := 0
  cancelAtPeriodEnd := false
  paymentMethodBrand := none
  paymentMethodLast4 := none
  monthlyAnchorAt := now
  rollingUsed := 0
  rollingStartedAt := now
  weeklyUsed := 0
  weeklyStartedAt := (weekBounds now).start
  monthlyUsed := 0
  monthlyStartedAt := (monthBounds now now).start
  totalUsed := 0
  totalRequests := 0
  creditBalance := 0
  creditPurchased := 0
  creditConsumed := 0
  isAnonymous := false
  identityLevel := 1
  updatedAt := now

def resetWindows (row : AccountRow) (now anchor : Int) : AccountRow :=
  { row with
    rollingUsed := 0, rollingStartedAt := now, weeklyUsed := 0, weeklyStartedAt := (weekBounds now).start,
    monthlyUsed := 0, monthlyStartedAt := (monthBounds now anchor).start }

structure Grant where
  jti : String
  budget : Int
  settled : Int
  expiresAt : Int
  deriving DecidableEq

structure Db where
  account : Option AccountRow
  grants : List Grant
  /-- The receipts: an id, what it charged, and when. -/
  receipts : List (String × Int × Int)
  stripeEvents : List (String × Int)
  /-- The credited checkout sessions and their amounts. -/
  creditPurchases : List (String × Int)

def emptyDb : Db := ⟨none, [], [], [], []⟩

def Db.readAccount (db : Db) (now : Int) : AccountRow := db.account.getD (defaultAccount now)

end Stella.Billing
