import Stella.Billing.Spend
import Stella.Library.Transition

/-! # Grants never hold more than is left

The owner's ledger under reservations, usage reports and purchases of credit.
-/

namespace Stella.Billing

open Stella.Transition

structure Accepted where
  requestId : String
  acceptedAt : Int
  charged : Int

structure Ledger where
  db : Db
  clock : Int
  accepted : List Accepted

inductive LedgerInput
  | reserveSession (now : Int) (jti : String) (expiresAt : Int)
  | reserveUsage (now : Int) (id : String) (budgetMicroCents : ℚ) (expiresAt : Int)
  | release (now : Int) (id : String)
  | usage (now : Int) (events : List GatewayUsageEvent)
  | purchase (now : Int) (eventId sessionId : String) (paid : Bool) (chosen : Option Int) (amountSubtotal : Int)

def LedgerInput.now : LedgerInput → Int
  | .reserveSession now _ _ => now
  | .reserveUsage now _ _ _ => now
  | .release now _ => now
  | .usage now _ => now
  | .purchase now _ _ _ _ _ => now

def AccountRow.fresh (row : AccountRow) : AccountRow :=
  { row with
    usageMode := .default, rollingUsed := 0, weeklyUsed := 0, monthlyUsed := 0, totalUsed := 0
    creditBalance := 0, creditPurchased := 0, creditConsumed := 0 }

namespace Ledger

def opened (row : Option AccountRow) : Ledger := ⟨{ emptyDb with account := row.map AccountRow.fresh }, 0, []⟩

variable (config : Config) (ownerId : String)

def applyUsage (now : Int) (l : Ledger) (event : GatewayUsageEvent) : Ledger :=
  let (db, answer) := l.db.applyUsage config ownerId now event
  { l with
    db
    accepted := if answer = .accepted then
        l.accepted ++ [⟨event.requestId, now, if event.charges then event.charged else 0⟩]
      else l.accepted }

/-- `applyGatewayUsage` starts with pruning the receipts. -/
def begin (l : Ledger) (now : Int) : Ledger := { l with db := l.db.pruneReceipts now, clock := now }

def applyGatewayUsage (l : Ledger) (now : Int) (events : List GatewayUsageEvent) : Ledger :=
  run (applyUsage config ownerId now) (l.begin now) events

def purchase (l : Ledger) (now : Int) (event : StripeEvent) : Ledger :=
  { l with
    clock := now
    db := match l.db.beginStripeEvent now event with
      | .inl db => db
      | .inr _ => l.db }

def step (l : Ledger) : LedgerInput → Ledger
  | .reserveSession now jti expiresAt => { l with clock := now, db := l.db.reserveSessionGrant config now jti expiresAt }
  | .reserveUsage now id budget expiresAt => { l with clock := now, db := l.db.reserveUsage config now id budget expiresAt }
  | .release now id => { l with clock := now, db := l.db.releaseReservation id }
  | .usage now events => l.applyGatewayUsage config ownerId now events
  | .purchase now eventId sessionId paid chosen amountSubtotal =>
    l.purchase now ⟨eventId, .creditPayment sessionId paid chosen amountSubtotal⟩

/-- A redelivery comes within the receipt retention, and an event that is charged finds its grant in place,
not past its grace, with room for it beside the usage reported before. -/
def within (now : Int) (l : Ledger) (event : GatewayUsageEvent) : Bool :=
  event.ownerId ≠ ownerId ||
    l.accepted.all (fun a => a.requestId ≠ event.requestId || now - receiptRetentionMs ≤ a.acceptedAt) &&
      (l.db.claimed (Db.receiptId event.requestId) || !event.charges ||
        (Rows.lookup Grant.jti l.db.grants event.capabilityId).any fun grant =>
          grant.live now && grant.settled + event.charged ≤ grant.budget)

def Reports (l : Ledger) : LedgerInput → Prop
  | .usage now events =>
    Along (applyUsage config ownerId now) (fun l event => l.within ownerId now event = true) (l.begin now) events
  | _ => True

instance (l : Ledger) : (input : LedgerInput) → Decidable (l.Reports config ownerId input)
  | .usage _ _ => decidableAlong ..
  | .reserveSession _ _ _ | .reserveUsage _ _ _ _ | .release _ _ | .purchase _ _ _ _ _ _ => .isTrue trivial

def Admits (l : Ledger) (input : LedgerInput) : Prop := l.clock ≤ input.now ∧ l.Reports config ownerId input

instance (l : Ledger) (input : LedgerInput) : Decidable (l.Admits config ownerId input) := instDecidableAnd

end Ledger

/-! ## What live grants hold -/

def held (now : Int) (grants : List Grant) : Int := ((grants.filter (Grant.live now)).map Grant.unspent).sum

theorem unspent_nonneg (grant : Grant) : 0 ≤ grant.unspent := Int.le_max_left 0 _

theorem held_cons (now : Int) (grant : Grant) (grants : List Grant) :
    held now (grant :: grants) = (if grant.live now then grant.unspent else 0) + held now grants := by
  unfold held
  cases hLive : grant.live now with
  | true => simp [List.filter_cons_of_pos, hLive]
  | false => simp [List.filter_cons_of_neg, hLive]

theorem held_append (now : Int) (grants : List Grant) (grant : Grant) :
    held now (grants ++ [grant]) = held now grants + if grant.live now then grant.unspent else 0 := by
  induction grants with
  | nil =>
    rw [List.nil_append, held_cons]
    exact Int.add_comm ..
  | cons first grants ih =>
    rw [List.cons_append, held_cons, held_cons, ih]
    omega

theorem held_later (grants : List Grant) {now later : Int} (h : now ≤ later) : held later grants ≤ held now grants := by
  induction grants with
  | nil => exact le_refl _
  | cons grant grants ih =>
    rw [held_cons, held_cons]
    have hGrant : (if grant.live later then grant.unspent else 0) ≤ if grant.live now then grant.unspent else 0 := by
      have hUnspent := unspent_nonneg grant
      split
      · next hLater =>
        have hNow : grant.live now = true := by
          unfold Grant.live at hLater ⊢
          rw [decide_eq_true_eq] at hLater ⊢
          omega
        rw [if_pos hNow]
      · split
        · exact hUnspent
        · exact le_refl 0
    omega

theorem held_filter (now : Int) (grants : List Grant) (p : Grant → Bool) : held now (grants.filter p) ≤ held now grants := by
  induction grants with
  | nil => exact le_refl _
  | cons grant grants ih =>
    have hNonneg : (0 : Int) ≤ if grant.live now then grant.unspent else 0 := by
      split
      · exact unspent_nonneg grant
      · exact le_refl 0
    cases hKeep : p grant with
    | true =>
      rw [List.filter_cons_of_pos hKeep, held_cons, held_cons]
      omega
    | false =>
      rw [List.filter_cons_of_neg (by simpa using hKeep), held_cons]
      omega

section Settle

variable (now : Int) (jti : String) {charged : Int}

def settled (charged : Int) (grants : List Grant) (jti : String) : List Grant :=
  Rows.modify Grant.jti grants jti (fun grant => { grant with settled := grant.settled + charged })

theorem settled_cons (grant : Grant) (grants : List Grant) :
    settled charged (grant :: grants) jti =
      (if grant.jti = jti then { grant with settled := grant.settled + charged } else grant) :: settled charged grants jti :=
  rfl

theorem held_settled_le (hCharged : 0 ≤ charged) (grants : List Grant) :
    held now (settled charged grants jti) ≤ held now grants := by
  induction grants with
  | nil => exact le_refl _
  | cons grant grants ih =>
    rw [settled_cons, held_cons, held_cons]
    have hGrant : (if (if grant.jti = jti then { grant with settled := grant.settled + charged } else grant).live now then
        (if grant.jti = jti then { grant with settled := grant.settled + charged } else grant).unspent else 0) ≤
        if grant.live now then grant.unspent else 0 := by
      split
      · have hLess : max 0 (grant.budget - (grant.settled + charged)) ≤ max 0 (grant.budget - grant.settled) := by omega
        change (if grant.live now then max 0 (grant.budget - (grant.settled + charged)) else 0) ≤ _
        split
        · exact hLess
        · exact le_refl 0
      · exact le_refl _
    omega

theorem held_settled {grants : List Grant} {grant : Grant} (hCharged : 0 ≤ charged)
    (hGrant : Rows.lookup Grant.jti grants jti = some grant) (hLive : grant.live now = true)
    (hRoom : grant.settled + charged ≤ grant.budget) :
    held now (settled charged grants jti) + charged ≤ held now grants := by
  induction grants with
  | nil => cases hGrant
  | cons first grants ih =>
    rw [settled_cons, held_cons, held_cons]
    by_cases hAt : first.jti = jti
    · have hFirst : first = grant := by
        unfold Rows.lookup at hGrant
        rw [List.find?_cons_of_pos (by simpa using hAt)] at hGrant
        exact Option.some.inj hGrant
      subst hFirst
      have hRest := held_settled_le now jti hCharged grants
      rw [if_pos hAt, if_pos hLive]
      change (if first.live now then max 0 (first.budget - (first.settled + charged)) else 0) + _ + charged ≤
        max 0 (first.budget - first.settled) + _
      rw [if_pos hLive]
      omega
    · have hRest : Rows.lookup Grant.jti grants jti = some grant := by
        unfold Rows.lookup at hGrant ⊢
        rw [List.find?_cons_of_neg (by simpa using hAt)] at hGrant
        exact hGrant
      have hLess := ih hRest
      rw [if_neg hAt]
      omega

end Settle

/-! ## What each operation keeps -/

structure Db.Sound (config : Config) (db : Db) (now : Int) : Prop where
  counted : (db.readAccount now).Counted
  mode : (db.readAccount now).usageMode = .default
  credit : 0 ≤ (db.readAccount now).creditBalance
  reserved : db.reservedGrants now ≤ remainingSpend config (db.readAccount now) now

section Operations

variable {config : Config} {db : Db} {now : Int}

theorem counted_default (now : Int) : (defaultAccount now).Counted := ⟨le_refl 0, le_refl 0, le_refl 0, le_refl 0⟩

theorem remainingSpend_default (now later : Int) :
    remainingSpend config (defaultAccount now) now ≤ remainingSpend config (defaultAccount later) later := by
  have hPlan : config.planConfig (defaultAccount later) = config.planConfig (defaultAccount now) := planConfig_congr rfl rfl
  have hLimit : ∀ usd, config.limit (defaultAccount later) usd = config.limit (defaultAccount now) usd :=
    limit_congr rfl rfl rfl
  have hUnused : ∀ now : Int, (usageSnapshot config (defaultAccount now) now).rolling.used = 0 ∧
      (usageSnapshot config (defaultAccount now) now).weekly.used = 0 ∧
      (usageSnapshot config (defaultAccount now) now).monthly.used = 0 := fun now => ⟨ite_self 0, ite_self 0, ite_self 0⟩
  have hCovers : (usageSnapshot config (defaultAccount now) now).Covers 0 (usageSnapshot config (defaultAccount later) later) := by
    obtain ⟨hRolling, hWeekly, hMonthly⟩ := hUnused now
    obtain ⟨hRolling', hWeekly', hMonthly'⟩ := hUnused later
    constructor
    · unfold Window.left
      rw [hRolling, hRolling']
      simp only [usageSnapshot, hPlan, hLimit, Int.sub_zero, le_refl]
    · unfold Window.left
      rw [hWeekly, hWeekly']
      simp only [usageSnapshot, hPlan, hLimit, Int.sub_zero, le_refl]
    · unfold Window.left
      rw [hMonthly, hMonthly']
      simp only [usageSnapshot, hPlan, hLimit, Int.sub_zero, le_refl]
    · intro window hWin
      simp only [usageSnapshot, hPlan, hLimit] at hWin ⊢
      obtain ⟨usd, hUsd, rfl⟩ := Option.map_eq_some_iff.mp hWin
      exact ⟨_, Option.map_eq_some_iff.mpr ⟨usd, hUsd, rfl⟩, by unfold Window.left; exact Int.sub_le_self _ (le_refl 0)⟩
  have hRoom := hCovers.room
  have hCredit : ∀ now, (defaultAccount now).creditBalance = 0 := fun _ => rfl
  unfold remainingSpend includedHeadroom
  rw [hCredit, hCredit]
  omega

theorem Db.Sound.later (h : db.Sound config now) {later : Int} (hNow : 0 ≤ now) (hLater : now ≤ later) :
    db.Sound config later := by
  have hHeld : db.reservedGrants later ≤ db.reservedGrants now := held_later db.grants hLater
  cases hAccount : db.account with
  | none =>
    have hRead : ∀ now, db.readAccount now = defaultAccount now := fun now => by unfold Db.readAccount; rw [hAccount]; rfl
    have hResv := h.reserved
    have hSpend := @remainingSpend_default config now later
    rw [hRead] at hResv
    refine ⟨?_, ?_, ?_, ?_⟩
    · rw [hRead]
      exact counted_default later
    · rw [hRead]
      rfl
    · rw [hRead]
      exact le_refl 0
    · rw [hRead]
      omega
  | some row =>
    have hRead : ∀ now, db.readAccount now = row := fun now => by unfold Db.readAccount; rw [hAccount]; rfl
    have hResv := h.reserved
    have hCounted := h.counted
    have hMode := h.mode
    have hCredit := h.credit
    rw [hRead] at hResv hCounted hMode hCredit
    have hSpend := @remainingSpend_later config row hCounted now later hNow hLater
    refine ⟨?_, ?_, ?_, ?_⟩
    · rw [hRead]
      exact hCounted
    · rw [hRead]
      exact hMode
    · rw [hRead]
      exact hCredit
    · rw [hRead]
      omega

theorem Db.Sound.grants (h : db.Sound config now) {db' : Db} (hAccount : db'.account = db.account)
    (hHeld : db'.reservedGrants now ≤ remainingSpend config (db.readAccount now) now) : db'.Sound config now := by
  have hRead : db'.readAccount now = db.readAccount now := by
    unfold Db.readAccount
    rw [hAccount]
  refine ⟨?_, ?_, ?_, ?_⟩
  · rw [hRead]
    exact h.counted
  · rw [hRead]
    exact h.mode
  · rw [hRead]
    exact h.credit
  · rw [hRead]
    exact hHeld

theorem access_remaining {row : AccountRow} {remaining : Int}
    (h : (accessFor config row now).remainingMicroCents = some remaining) : remaining = remainingSpend config row now := by
  unfold accessFor at h
  dsimp only at h
  split at h
  · cases h
  · exact (Option.some.inj h).symm

theorem capabilityBudget_le {access : BillingAccess} {reserved : Int}
    (h : capabilityBudget access reserved ≠ gatewayBudgetUnlimited) :
    ∃ remaining, access.remainingMicroCents = some remaining ∧
      capabilityBudget access reserved ≤ max 0 (remaining - reserved) := by
  unfold capabilityBudget at h ⊢
  split
  · next hNone =>
    rw [hNone] at h
    exact absurd rfl h
  · next remaining hSome => exact ⟨remaining, hSome, Int.min_le_left _ _⟩

section

variable (h : db.Sound config now)
include h

theorem Db.Sound.pruneGrants : (db.pruneGrants now).Sound config now :=
  h.grants rfl ((held_filter now db.grants _).trans h.reserved)

theorem Db.Sound.reserve {grants : List Grant} (hLess : held now grants ≤ db.reservedGrants now)
    {jti : String} {budget : Int} (expiresAt : Int)
    (hBudget : budget ≤ max 0 (remainingSpend config (db.readAccount now) now - db.reservedGrants now)) :
    ({ db with grants := grants ++ [⟨jti, budget, 0, expiresAt⟩] } : Db).Sound config now := by
  refine h.grants rfl ?_
  have hHeld : ({ db with grants := grants ++ [⟨jti, budget, 0, expiresAt⟩] } : Db).reservedGrants now =
      held now grants + if (⟨jti, budget, 0, expiresAt⟩ : Grant).live now then max 0 (budget - 0) else 0 :=
    held_append now grants ⟨jti, budget, 0, expiresAt⟩
  have hResv := h.reserved
  rw [hHeld]
  split <;> omega

theorem Db.Sound.reserveSession (jti : String) (expiresAt : Int) :
    (db.reserveSessionGrant config now jti expiresAt).Sound config now := by
  have hPruned := h.pruneGrants
  unfold Db.reserveSessionGrant
  dsimp only
  split
  · exact hPruned
  · next hLimited =>
    split
    · exact hPruned
    · obtain ⟨remaining, hSome, hBudget⟩ := capabilityBudget_le hLimited
      obtain rfl := access_remaining hSome
      exact hPruned.reserve (le_refl _) expiresAt hBudget

theorem Db.Sound.reserveUsage (id : String) (budgetMicroCents : ℚ) (expiresAt : Int) :
    (db.reserveUsage config now id budgetMicroCents expiresAt).Sound config now := by
  have hPruned := h.pruneGrants
  unfold Db.reserveUsage
  dsimp only
  split
  · exact hPruned
  · split
    · exact hPruned
    · next remaining hSome =>
      obtain rfl := access_remaining hSome
      split
      · exact hPruned
      · next hRoom =>
        apply hPruned.reserve (held_filter now _ _) expiresAt
        exact (not_lt.mp hRoom).trans (Int.le_max_right _ _)

theorem Db.Sound.release (id : String) : (db.releaseReservation id).Sound config now :=
  h.grants rfl ((held_filter now db.grants _).trans h.reserved)

end

variable {l : Ledger} {event : GatewayUsageEvent}

theorem within_redelivered {ownerId : String}
    (h : l.within ownerId now event = true) (hOwner : ¬ event.ownerId ≠ ownerId) :
    ∀ a ∈ l.accepted, a.requestId = event.requestId → now - receiptRetentionMs ≤ a.acceptedAt := by
  unfold Ledger.within at h
  rw [decide_eq_false hOwner, Bool.false_or, Bool.and_eq_true, List.all_eq_true] at h
  intro a ha hEq
  have hEither := h.1 a ha
  rw [Bool.or_eq_true, decide_eq_true_eq, decide_eq_true_eq] at hEither
  exact hEither.resolve_left (fun hOther => hOther hEq)

theorem within_grant {ownerId : String} (h : l.within ownerId now event = true)
    (hOwner : ¬ event.ownerId ≠ ownerId) (hNew : ¬ l.db.claimed (Db.receiptId event.requestId) = true)
    (hCharges : event.charges = true) : ∃ grant, Rows.lookup Grant.jti l.db.grants event.capabilityId = some grant ∧
      grant.live now = true ∧ grant.settled + event.charged ≤ grant.budget := by
  unfold Ledger.within at h
  rw [decide_eq_false hOwner, Bool.false_or, Bool.and_eq_true, Bool.eq_false_of_not_eq_true hNew, hCharges, Bool.not_true,
    Bool.false_or, Bool.false_or, Option.any_eq_true] at h
  obtain ⟨-, grant, hRow, hBoth⟩ := h
  rw [Bool.and_eq_true, decide_eq_true_eq] at hBoth
  exact ⟨grant, hRow, hBoth⟩

theorem charged_nonneg (event : GatewayUsageEvent) : 0 ≤ event.charged := Int.le_max_left 0 _

theorem Db.Sound.usage (h : l.db.Sound config now) {ownerId : String}
    (hWith : l.within ownerId now event = true) : (l.applyUsage config ownerId now event).db.Sound config now := by
  have hCharged := charged_nonneg event
  change (l.db.applyUsage config ownerId now event).1.Sound config now
  unfold Db.applyUsage
  split
  · exact h
  · next hOwner =>
    split
    · exact h
    · next hNew =>
      dsimp only
      have hSettled : (({ l.db with receipts := l.db.receipts ++
          [(Db.receiptId event.requestId, event.charged, now)] } : Db).settle event.capabilityId event.charged).Sound
          config now := h.grants rfl ((held_settled_le now event.capabilityId hCharged l.db.grants).trans h.reserved)
      split
      · next hCharges =>
        obtain ⟨grant, hRow, hLive, hRoom⟩ := within_grant hWith hOwner hNew hCharges
        have hHeld := held_settled now event.capabilityId hCharged hRow hLive hRoom
        have hCost : max 0 event.charged = event.charged := Int.max_eq_right hCharged
        have hSpend := @remainingSpend_charged config (l.db.readAccount now) now event.charged h.counted hCharged h.mode h.credit
        have hResv := h.reserved
        have hBalance := @charged_credit config (l.db.readAccount now) now event.charged h.credit
        unfold Db.charge
        rw [hCost]
        refine ⟨counted_charged h.counted hCharged, h.mode, hBalance, ?_⟩
        change held now (settled event.charged l.db.grants event.capabilityId) ≤ _
        change held now l.db.grants ≤ _ at hResv
        exact (by omega : held now (settled event.charged l.db.grants event.capabilityId) ≤
          remainingSpend config (l.db.readAccount now) now - event.charged).trans hSpend
      · exact hSettled

theorem creditCents_nonneg (chosen : Option Int) (amountSubtotal : Int) : 0 ≤ Db.creditCents chosen amountSubtotal := by
  unfold Db.creditCents
  split
  · next cents hSome =>
    have hPositive := (Option.filter_eq_some_iff.mp hSome).2
    rw [decide_eq_true_eq] at hPositive
    omega
  · exact Int.le_max_left 0 _

theorem Db.Sound.purchase (h : db.Sound config now) (hLoaded : config.Loaded) (hShare : config.freeEmailAllowanceShare ≤ 1)
    (sessionId : String) {cents : Int} (hCents : 0 ≤ cents) : (db.purchaseCredit now sessionId cents).Sound config now := by
  unfold Db.purchaseCredit
  split
  · exact h
  · have hAmount : 0 ≤ cents * 1000000 := by omega
    have hSpend := remainingSpend_credited hLoaded hShare (db.readAccount now) hAmount now
    have hCredit := h.credit
    refine ⟨⟨h.counted.rolling, h.counted.weekly, h.counted.monthly, h.counted.total⟩, h.mode, ?_, h.reserved.trans hSpend⟩
    change 0 ≤ (db.readAccount now).creditBalance + cents * 1000000
    omega

end Operations

end Stella.Billing
