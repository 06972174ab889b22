import Stella.Billing.Account

/-! # Stripe events

`applyStripeEvent` up to its fetch and after it. A fetch answers with the
subscription as Stripe holds it at some moment of the call.
-/

namespace Stella.Billing

def receiptRetentionMs : Int := 30 * 24 * 60 * 60 * 1000

structure StripeSubscription where
  id : String
  status : String
  customer : String
  cancelAtPeriodEnd : Bool
  priceId : Option String
  /-- Of its first item, else its own; in seconds. -/
  currentPeriodStart : Option Int
  currentPeriodEnd : Option Int
  /-- Brand and last four digits of an expanded payment method. -/
  card : Option (Option String × Option String)

inductive StripeObject
  /-- A checkout of mode `payment` for `usage_credit`; `chosen` is its `amountCents` when that is an integer. -/
  | creditPayment (sessionId : String) (paid : Bool) (chosen : Option Int) (amountSubtotal : Int)
  /-- A checkout, subscription or invoice event and the subscription it names. -/
  | subscription (subscriptionId : Option String)
  | customerDeleted (customer : String)
  | other

structure StripeEvent where
  id : String
  object : StripeObject

def activeSubscriptionStatuses : List String := ["active", "trialing", "past_due"]

def subscriptionPlan (config : Config) (subscription : StripeSubscription) : Plan :=
  if subscription.status ∈ activeSubscriptionStatuses then config.planForStripePrice subscription.priceId else .free

def keepsRecorded (config : Config) (row : AccountRow) (subscription : StripeSubscription) : Bool :=
  row.stripeSubscriptionId.any (fun recorded => recorded ≠ "" ∧ recorded ≠ subscription.id) &&
    subscriptionPlan config subscription = .free && row.plan ≠ .free

def subscribedRow (config : Config) (now : Int) (row : AccountRow) (subscription : StripeSubscription) : AccountRow :=
  let nextPlan := subscriptionPlan config subscription
  let periodStart := subscription.currentPeriodStart.getD 0 * 1000
  let anchor := if nextPlan = .free then row.monthlyAnchorAt else if periodStart = 0 then now else periodStart
  let base := if nextPlan = row.plan then row else { resetWindows row now anchor with usageMode := .default }
  { base with
    plan := nextPlan
    subscriptionStatus := subscription.status
    stripeCustomerId := some subscription.customer
    stripeSubscriptionId := some subscription.id
    stripePriceId := if nextPlan = .free then none else subscription.priceId
    currentPeriodEnd := subscription.currentPeriodEnd.getD 0 * 1000
    cancelAtPeriodEnd := subscription.cancelAtPeriodEnd
    paymentMethodBrand := subscription.card.elim row.paymentMethodBrand Prod.fst
    paymentMethodLast4 := subscription.card.elim row.paymentMethodLast4 Prod.snd
    monthlyAnchorAt := anchor
    updatedAt := now }

def closedRow (now : Int) (row : AccountRow) : AccountRow :=
  let base := if row.plan = .free then row else resetWindows row now row.monthlyAnchorAt
  { base with
    plan := .free
    stripeCustomerId := none
    stripeSubscriptionId := none
    stripePriceId := none
    subscriptionStatus := "none"
    cancelAtPeriodEnd := false
    currentPeriodEnd := 0
    paymentMethodBrand := none
    paymentMethodLast4 := none
    updatedAt := now }

namespace Db

def setAccount (db : Db) (row : AccountRow) : Db := { db with account := some row }

def syncSubscription (config : Config) (now : Int) (db : Db) (subscription : StripeSubscription) : Db :=
  let row := db.readAccount now
  if row.stripeCustomerId.any (fun customer => customer ≠ "" ∧ subscription.customer ≠ customer) then db.setAccount row
  else if keepsRecorded config row subscription then db.setAccount row
  else db.setAccount (subscribedRow config now row subscription)

def creditCents (chosen : Option Int) (amountSubtotal : Int) : Int :=
  match chosen.filter (0 < ·) with
  | some cents => cents
  | none => max 0 amountSubtotal

def purchaseCredit (now : Int) (db : Db) (sessionId : String) (cents : Int) : Db :=
  if db.creditPurchases.any (fun purchase => purchase.1 = sessionId) then db
  else
    let amount := cents * 1000000
    let row := db.readAccount now
    { db with
      creditPurchases := db.creditPurchases ++ [(sessionId, amount)]
      account := some { row with
        creditBalance := row.creditBalance + amount
        creditPurchased := row.creditPurchased + amount
        updatedAt := now } }

def closeCustomer (now : Int) (db : Db) (customer : String) : Db :=
  let row := db.readAccount now
  if row.stripeCustomerId = some customer then db.setAccount (closedRow now row) else db.setAccount row

def recordEvent (now : Int) (db : Db) (id : String) : Db :=
  if db.stripeEvents.any (fun event => event.1 = id) then db
  else { db with stripeEvents := (db.stripeEvents ++ [(id, now)]).filter (fun event => now - receiptRetentionMs ≤ event.2) }

def seen (db : Db) (id : String) : Bool := db.stripeEvents.any (fun event => event.1 = id)

def beginStripeEvent (now : Int) (db : Db) (event : StripeEvent) : Db ⊕ String :=
  if db.seen event.id then .inl db
  else match event.object with
    | .creditPayment sessionId paid chosen amountSubtotal =>
      let paidDb := if paid then db.purchaseCredit now sessionId (creditCents chosen amountSubtotal) else db
      .inl (paidDb.recordEvent now event.id)
    | .subscription (some subscriptionId) => if subscriptionId = "" then .inl (db.recordEvent now event.id) else .inr subscriptionId
    | .subscription none => .inl (db.recordEvent now event.id)
    | .customerDeleted customer => .inl ((db.closeCustomer now customer).recordEvent now event.id)
    | .other => .inl (db.recordEvent now event.id)

def finishStripeEvent (config : Config) (now : Int) (db : Db) (event : StripeEvent) (answer : StripeSubscription) : Db :=
  (db.syncSubscription config now answer).recordEvent now event.id

end Db

end Stella.Billing
