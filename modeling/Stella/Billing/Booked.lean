import Stella.Billing.Solvent

/-! # The ledger balances and grants never overspend

Each usage request and each checkout session counts once, the credit balance is what was bought
less what was used, and what live grants hold is covered.
-/

namespace Stella.Billing

open Stella.Transition List

structure Ledger.Booked (l : Ledger) : Prop where
  balance : (l.db.readAccount l.clock).creditBalance =
    (l.db.readAccount l.clock).creditPurchased - (l.db.readAccount l.clock).creditConsumed
  purchased : (l.db.readAccount l.clock).creditPurchased = (l.db.creditPurchases.map Prod.snd).sum
  sessions : (l.db.creditPurchases.map Prod.fst).Nodup
  total : (l.db.readAccount l.clock).totalUsed = (l.accepted.map Accepted.charged).sum
  requests : (l.accepted.map Accepted.requestId).Nodup
  receipts : ∀ a ∈ l.accepted, l.clock - receiptRetentionMs ≤ a.acceptedAt →
    ∃ charged, (Db.receiptId a.requestId, charged, a.acceptedAt) ∈ l.db.receipts

def AccountRow.books (row : AccountRow) : Int × Int × Int × Int :=
  (row.creditBalance, row.creditPurchased, row.creditConsumed, row.totalUsed)

variable {l : Ledger}

theorem nodup_snoc {α : Type} {xs : List α} {x : α} (h : xs.Nodup) (hNew : x ∉ xs) : (xs ++ [x]).Nodup := by
  refine nodup_append.mpr ⟨h, pairwise_singleton _ _, fun a ha b hb hEq => ?_⟩
  rw [hEq, mem_singleton.mp hb] at ha
  exact hNew ha

theorem books_later (db : Db) (now later : Int) : (db.readAccount later).books = (db.readAccount now).books := by
  unfold Db.readAccount
  cases db.account <;> rfl

theorem Ledger.Booked.congr (h : l.Booked) {l' : Ledger}
    (hBooks : (l'.db.readAccount l'.clock).books = (l.db.readAccount l.clock).books)
    (hPurchases : l'.db.creditPurchases = l.db.creditPurchases) (hAcc : l'.accepted = l.accepted)
    (hReceipts : ∀ a ∈ l.accepted, l'.clock - receiptRetentionMs ≤ a.acceptedAt →
      ∃ charged, (Db.receiptId a.requestId, charged, a.acceptedAt) ∈ l'.db.receipts) : l'.Booked := by
  obtain ⟨hBalance, hRest⟩ := Prod.ext_iff.mp hBooks
  obtain ⟨hPurchased, hRest⟩ := Prod.ext_iff.mp hRest
  obtain ⟨hConsumed, hTotal⟩ := Prod.ext_iff.mp hRest
  change (l'.db.readAccount l'.clock).creditBalance = (l.db.readAccount l.clock).creditBalance at hBalance
  change (l'.db.readAccount l'.clock).creditPurchased = (l.db.readAccount l.clock).creditPurchased at hPurchased
  change (l'.db.readAccount l'.clock).creditConsumed = (l.db.readAccount l.clock).creditConsumed at hConsumed
  change (l'.db.readAccount l'.clock).totalUsed = (l.db.readAccount l.clock).totalUsed at hTotal
  refine ⟨?_, ?_, ?_, ?_, ?_, ?_⟩
  · rw [hBalance, hPurchased, hConsumed]
    exact h.balance
  · rw [hPurchased, hPurchases]
    exact h.purchased
  · rw [hPurchases]
    exact h.sessions
  · rw [hTotal, hAcc]
    exact h.total
  · rw [hAcc]
    exact h.requests
  · rw [hAcc]
    exact hReceipts

theorem Ledger.Booked.grants (h : l.Booked) {now : Int} (hNow : l.clock ≤ now) (grants : List Grant) :
    Ledger.Booked { l with clock := now, db := { l.db with grants } } := by
  apply h.congr
  · exact books_later l.db l.clock now
  · rfl
  · rfl
  · intro a ha hRecent
    exact h.receipts a ha (by dsimp only at hRecent; omega)

theorem Ledger.Booked.begin (h : l.Booked) {now : Int} (hNow : l.clock ≤ now) : (l.begin now).Booked := by
  apply h.congr
  · exact books_later l.db l.clock now
  · rfl
  · rfl
  · intro a ha hRecent
    change now - receiptRetentionMs ≤ a.acceptedAt at hRecent
    obtain ⟨charged, hReceipt⟩ := h.receipts a ha (by omega)
    exact ⟨charged, mem_filter.mpr ⟨hReceipt, by rw [decide_eq_true_eq]; exact hRecent⟩⟩

section Usage

variable {config : Config} {ownerId : String} {event : GatewayUsageEvent}

theorem Ledger.Booked.usage (h : l.Booked) (hWith : l.within ownerId l.clock event = true) :
    (l.applyUsage config ownerId l.clock event).Booked := by
  by_cases hOwner : event.ownerId ≠ ownerId
  · have hEq : l.applyUsage config ownerId l.clock event = l := by
      unfold Ledger.applyUsage Db.applyUsage
      rw [if_pos hOwner]
      rfl
    rw [hEq]
    exact h
  by_cases hNew : l.db.claimed (Db.receiptId event.requestId) = true
  · have hEq : l.applyUsage config ownerId l.clock event = l := by
      unfold Ledger.applyUsage Db.applyUsage
      rw [if_neg hOwner, if_pos hNew]
      rfl
    rw [hEq]
    exact h
  have hFresh : event.requestId ∉ l.accepted.map Accepted.requestId := by
    intro hMem
    obtain ⟨a, ha, hEq⟩ := mem_map.mp hMem
    obtain ⟨charged, hReceipt⟩ := h.receipts a ha (within_redelivered hWith hOwner a ha hEq)
    apply hNew
    rw [hEq] at hReceipt
    exact any_eq_true.mpr ⟨_, hReceipt, decide_eq_true rfl⟩
  have hCharged := charged_nonneg event
  have hCost : max 0 event.charged = event.charged := Int.max_eq_right hCharged
  generalize hAfter : (l.applyUsage config ownerId l.clock event) = after
  have hBoth : after.accepted = l.accepted ++ [⟨event.requestId, l.clock, if event.charges then event.charged else 0⟩] ∧
      after.clock = l.clock ∧ after.db.creditPurchases = l.db.creditPurchases ∧
      after.db.receipts = l.db.receipts ++ [(Db.receiptId event.requestId, event.charged, l.clock)] ∧
      after.db.readAccount after.clock = (if event.charges then
        Db.chargedRow config (l.db.readAccount l.clock) l.clock event.charged else l.db.readAccount l.clock) := by
    rw [← hAfter]
    unfold Ledger.applyUsage Db.applyUsage
    rw [if_neg hOwner, if_neg hNew]
    cases event.charges with
    | false => exact ⟨rfl, rfl, rfl, rfl, rfl⟩
    | true =>
      refine ⟨rfl, rfl, rfl, rfl, ?_⟩
      dsimp only
      unfold Db.charge
      rw [hCost]
      rfl
  obtain ⟨hAcc, hClock, hPurchases, hReceipts, hRow⟩ := hBoth
  have hEq : (after.db.readAccount after.clock).creditPurchased = (l.db.readAccount l.clock).creditPurchased ∧
      (after.db.readAccount after.clock).creditBalance + (after.db.readAccount after.clock).creditConsumed =
        (l.db.readAccount l.clock).creditBalance + (l.db.readAccount l.clock).creditConsumed ∧
      (after.db.readAccount after.clock).totalUsed = (l.db.readAccount l.clock).totalUsed +
        if event.charges then event.charged else 0 := by
    rw [hRow]
    cases event.charges with
    | false => exact ⟨rfl, rfl, (Int.add_zero _).symm⟩
    | true => exact ⟨rfl, by rw [if_pos rfl]; unfold Db.chargedRow; dsimp only; omega, rfl⟩
  obtain ⟨hPurchased, hCredit, hTotal⟩ := hEq
  refine ⟨?_, ?_, ?_, ?_, ?_, ?_⟩
  · have hBalance := h.balance
    omega
  · rw [hPurchased, hPurchases]
    exact h.purchased
  · rw [hPurchases]
    exact h.sessions
  · rw [hTotal, hAcc, map_append, sum_append, h.total]
    simp
  · rw [hAcc, map_append]
    exact nodup_snoc h.requests hFresh
  · intro a ha hRecent
    rw [hReceipts]
    rw [hAcc] at ha
    rw [hClock] at hRecent
    obtain hOld | hIs := mem_append.mp ha
    · obtain ⟨charged, hReceipt⟩ := h.receipts a hOld hRecent
      exact ⟨charged, mem_append_left _ hReceipt⟩
    · rw [mem_singleton.mp hIs]
      exact ⟨event.charged, mem_append_right _ (mem_singleton_self _)⟩

end Usage

theorem Ledger.Booked.purchase (h : l.Booked) {now : Int} (hNow : l.clock ≤ now) (sessionId : String) (cents : Int) :
    Ledger.Booked { l with clock := now, db := l.db.purchaseCredit now sessionId cents } := by
  have hBegin : Ledger.Booked { l with clock := now } := h.grants hNow l.db.grants
  unfold Db.purchaseCredit
  split
  · exact hBegin
  · next hNew =>
    have hBalance := hBegin.balance
    have hPurchased := hBegin.purchased
    refine ⟨?_, ?_, ?_, hBegin.total, h.requests, hBegin.receipts⟩
    · change (l.db.readAccount now).creditBalance + cents * 1000000 =
        (l.db.readAccount now).creditPurchased + cents * 1000000 - (l.db.readAccount now).creditConsumed
      change (l.db.readAccount now).creditBalance =
        (l.db.readAccount now).creditPurchased - (l.db.readAccount now).creditConsumed at hBalance
      omega
    · change (l.db.readAccount now).creditPurchased + _ = _
      change (l.db.readAccount now).creditPurchased = _ at hPurchased
      rw [map_append, sum_append, ← hPurchased]
      simp
    · rw [map_append]
      refine nodup_snoc h.sessions (fun hMem => hNew ?_)
      obtain ⟨purchase, hIn, hEq⟩ := mem_map.mp hMem
      exact any_eq_true.mpr ⟨purchase, hIn, decide_eq_true hEq⟩

/-! ## Runs -/

structure Ledger.Kept (config : Config) (l : Ledger) : Prop where
  since : 0 ≤ l.clock
  sound : l.db.Sound config l.clock
  booked : l.Booked

section Runs

variable {config : Config} {ownerId : String}

theorem kept_opened (row : Option AccountRow) : (Ledger.opened row).Kept config := by
  have hFresh : ((Ledger.opened row).db.readAccount 0).Counted ∧
      ((Ledger.opened row).db.readAccount 0).usageMode = .default ∧
      ((Ledger.opened row).db.readAccount 0).books = (0, 0, 0, 0) := by
    unfold Ledger.opened Db.readAccount
    cases row with
    | none => exact ⟨counted_default 0, rfl, rfl⟩
    | some row => exact ⟨⟨le_refl 0, le_refl 0, le_refl 0, le_refl 0⟩, rfl, rfl⟩
  obtain ⟨hCounted, hMode, hBooks⟩ := hFresh
  obtain ⟨hBalance, hRest⟩ := Prod.ext_iff.mp hBooks
  obtain ⟨hPurchased, hRest⟩ := Prod.ext_iff.mp hRest
  obtain ⟨hConsumed, hTotal⟩ := Prod.ext_iff.mp hRest
  have hSpend : 0 ≤ remainingSpend config ((Ledger.opened row).db.readAccount 0) 0 := by
    unfold remainingSpend includedHeadroom
    omega
  refine ⟨le_refl 0, ⟨hCounted, hMode, hBalance.ge, hSpend⟩, ⟨?_, hPurchased, nodup_nil, hTotal, nodup_nil, ?_⟩⟩
  · change _ = (0 : Int) at hBalance hPurchased hConsumed
    exact hBalance.trans (Int.sub_eq_zero_of_eq (hPurchased.trans hConsumed.symm)).symm
  · exact fun a ha => absurd ha not_mem_nil

theorem reserveSessionGrant_grants (db : Db) (now : Int) (jti : String) (expiresAt : Int) :
    ∃ grants, db.reserveSessionGrant config now jti expiresAt = { db with grants } := by
  unfold Db.reserveSessionGrant
  dsimp only
  split
  · exact ⟨_, rfl⟩
  · split
    · exact ⟨_, rfl⟩
    · exact ⟨_, rfl⟩

theorem reserveUsage_grants (db : Db) (now : Int) (id : String) (budgetMicroCents : ℚ) (expiresAt : Int) :
    ∃ grants, db.reserveUsage config now id budgetMicroCents expiresAt = { db with grants } := by
  unfold Db.reserveUsage
  dsimp only
  split
  · exact ⟨_, rfl⟩
  · split
    · exact ⟨_, rfl⟩
    · split
      · exact ⟨_, rfl⟩
      · exact ⟨_, rfl⟩

theorem kept_usage {l : Ledger} (h : l.Kept config) {now : Int} (hNow : l.clock ≤ now) {events : List GatewayUsageEvent}
    (hEvents : Along (Ledger.applyUsage config ownerId now) (fun l event => l.within ownerId now event = true)
      (l.begin now) events) : (l.applyGatewayUsage config ownerId now events).Kept config := by
  have hLater : l.db.Sound config now := h.sound.later h.since hNow
  have hBegin : (l.begin now).clock = now ∧ (l.begin now).db.Sound config now ∧ (l.begin now).Booked :=
    ⟨rfl, hLater.grants rfl hLater.reserved, h.booked.begin hNow⟩
  have hEv : ∀ (l : Ledger) (event : GatewayUsageEvent), l.clock = now ∧ l.db.Sound config now ∧ l.Booked →
      l.within ownerId now event = true →
      (l.applyUsage config ownerId now event).clock = now ∧ (l.applyUsage config ownerId now event).db.Sound config now ∧
        (l.applyUsage config ownerId now event).Booked := by
    rintro l event ⟨rfl, hSound, hBooked⟩ hWith
    exact ⟨rfl, hSound.usage hWith, hBooked.usage hWith⟩
  have hAfter := @run_invariant Ledger GatewayUsageEvent (Ledger.applyUsage config ownerId now) _
    (fun l => l.clock = now ∧ l.db.Sound config now ∧ l.Booked) hEv (l.begin now) events hBegin hEvents
  obtain ⟨hClock, hSound, hBooked⟩ := hAfter
  unfold Ledger.applyGatewayUsage
  refine ⟨?_, ?_, hBooked⟩
  · rw [hClock]
    exact h.since.trans hNow
  · rw [hClock]
    exact hSound

theorem kept_purchase {l : Ledger} (hLoaded : config.Loaded) (hShare : config.freeEmailAllowanceShare ≤ 1)
    (h : l.Kept config) {now : Int} (hNow : l.clock ≤ now) (eventId sessionId : String) (paid : Bool) (chosen : Option Int)
    (amountSubtotal : Int) :
    (l.purchase now ⟨eventId, .creditPayment sessionId paid chosen amountSubtotal⟩).Kept config := by
  have hLater : l.db.Sound config now := h.sound.later h.since hNow
  have hSince : 0 ≤ now := h.since.trans hNow
  have hBegin : Ledger.Kept config { l with clock := now } := ⟨hSince, hLater, h.booked.grants hNow l.db.grants⟩
  -- the event's receipt is no part of the books
  have hRec : ∀ db : Db, Ledger.Kept config { l with clock := now, db } →
      Ledger.Kept config { l with clock := now, db := db.recordEvent now eventId } := by
    intro db hKept
    unfold Db.recordEvent
    split
    · exact hKept
    · exact ⟨hKept.since, hKept.sound.grants rfl hKept.sound.reserved, hKept.booked.congr rfl rfl rfl hKept.booked.receipts⟩
  unfold Ledger.purchase Db.beginStripeEvent
  dsimp only
  split
  · next db hDone =>
    split at hDone
    · obtain rfl := Sum.inl.inj hDone
      exact hBegin
    · obtain rfl := Sum.inl.inj hDone
      apply hRec
      split
      · exact ⟨hSince, hLater.purchase hLoaded hShare sessionId (creditCents_nonneg chosen amountSubtotal),
          h.booked.purchase hNow sessionId _⟩
      · exact hBegin
  · exact hBegin

theorem kept_step {l : Ledger} (hLoaded : config.Loaded) (hShare : config.freeEmailAllowanceShare ≤ 1)
    (h : l.Kept config) (input : LedgerInput) (hAdmits : l.Admits config ownerId input) :
    (l.step config ownerId input).Kept config := by
  obtain ⟨hNow, hReports⟩ := hAdmits
  have hLater : l.db.Sound config input.now := h.sound.later h.since hNow
  have hSince : 0 ≤ input.now := h.since.trans hNow
  cases input with
  | reserveSession now jti expiresAt =>
    obtain ⟨grants, hGrants⟩ := @reserveSessionGrant_grants config l.db now jti expiresAt
    refine ⟨hSince, hLater.reserveSession jti expiresAt, ?_⟩
    unfold Ledger.step
    dsimp only
    rw [hGrants]
    exact h.booked.grants hNow grants
  | reserveUsage now id budget expiresAt =>
    obtain ⟨grants, hGrants⟩ := @reserveUsage_grants config l.db now id budget expiresAt
    refine ⟨hSince, hLater.reserveUsage id budget expiresAt, ?_⟩
    unfold Ledger.step
    dsimp only
    rw [hGrants]
    exact h.booked.grants hNow grants
  | release now id => exact ⟨hSince, hLater.release id, h.booked.grants hNow _⟩
  | usage now events => exact kept_usage h hNow hReports
  | purchase now eventId sessionId paid chosen amountSubtotal =>
    exact kept_purchase hLoaded hShare h hNow eventId sessionId paid chosen amountSubtotal

end Runs

/-- In a run whose charges are within grants that stand, live grants never hold more than is left to spend,
each request and each checkout counts once, and the credit balance is what was bought less what was used. -/
theorem covered_of_run {config : Config} (hLoaded : config.Loaded) (hShare : config.freeEmailAllowanceShare ≤ 1)
    (ownerId : String) (row : Option AccountRow) (inputs : List LedgerInput)
    (hRun : Along (Ledger.step config ownerId) (fun l input => l.Admits config ownerId input) (Ledger.opened row) inputs) :
    let l := run (Ledger.step config ownerId) (Ledger.opened row) inputs
    (∀ now, l.clock ≤ now → l.db.reservedGrants now ≤ remainingSpend config (l.db.readAccount now) now) ∧
      l.Booked ∧ 0 ≤ (l.db.readAccount l.clock).creditBalance := by
  intro l
  have hStep : ∀ (l : Ledger) (input : LedgerInput), l.Kept config → l.Admits config ownerId input →
      (l.step config ownerId input).Kept config := fun _ input h hAdmits => kept_step hLoaded hShare h input hAdmits
  have hKept : l.Kept config := @run_invariant Ledger LedgerInput (Ledger.step config ownerId) _
    (fun l => l.Kept config) hStep (Ledger.opened row) inputs (kept_opened row) hRun
  exact ⟨fun now hNow => (hKept.sound.later hKept.since hNow).reserved, hKept.booked, hKept.sound.credit⟩

/-- A deployment whose every limit is `usd`. -/
def flatConfig (usd share : ℚ) : Config where
  enabled := true
  plans := fun _ => ⟨usd, 5, usd, usd, none⟩
  anonymous := ⟨usd, 5, usd, usd, none⟩
  freeEmailAllowanceShare := share
  stripePriceGo := "price-go"
  stripePricePro := "price-pro"

def hundred : Config := flatConfig (1 / 1000000) 1

theorem hundred_loaded : hundred.Loaded := by
  have hPlan : (⟨1 / 1000000, 5, 1 / 1000000, 1 / 1000000, none⟩ : PlanConfig).Loaded := by
    constructor
    · norm_num
    · norm_num
    · norm_num
    · rintro _ ⟨⟩
  exact ⟨fun _ => hPlan, hPlan⟩

def usageOf (requestId capabilityId : String) (charged : ℚ) (billable : Bool) : GatewayUsageEvent :=
  ⟨requestId, capabilityId, "owner-1", charged, .succeeded, billable⟩

theorem covered_session :
    let l := run (Ledger.step hundred "owner-1") (Ledger.opened none)
      [.reserveSession 0 "grant-a" 1000, .usage 10 [usageOf "request-1" "grant-a" 40 true, usageOf "request-1" "grant-a" 40 true],
        .purchase 20 "event-1" "session-1" true (some 5) 0, .reserveSession 30 "grant-b" 1000]
    (∀ now, l.clock ≤ now → l.db.reservedGrants now ≤ remainingSpend hundred (l.db.readAccount now) now) ∧
      l.Booked ∧ 0 ≤ (l.db.readAccount l.clock).creditBalance :=
  covered_of_run hundred_loaded (by norm_num [hundred, flatConfig]) "owner-1" none _ (by decide +kernel)

def Ledger.overspent (config : Config) (l : Ledger) : Bool :=
  remainingSpend config (l.db.readAccount l.clock) l.clock < l.db.reservedGrants l.clock

/-- Billable usage is within each grant's budget and in time, and yet: what is not billable settles its grant, and
another grant is given what that frees; usage is reported for a reservation that was released; a purchase ends a
share of the free allowance above one. -/
theorem grants_overspent :
    let settled := run (Ledger.step hundred "owner-1") (Ledger.opened none)
      [.reserveSession 0 "grant-a" 1000, .usage 10 [usageOf "request-1" "grant-a" 60 false],
        .reserveSession 20 "grant-b" 1000, .usage 30 [usageOf "request-2" "grant-a" 100 true]]
    let released := run (Ledger.step hundred "owner-1") (Ledger.opened none)
      [.reserveUsage 0 "clip-a" 60 1000, .release 10 "clip-a", .reserveSession 20 "grant-b" 1000,
        .usage 30 [usageOf "request-1" "clip-a" 60 true]]
    let bought := run (Ledger.step (flatConfig (1 / 50) 2) "owner-1") (Ledger.opened none)
      [.reserveSession 0 "grant-a" 1000, .purchase 10 "event-1" "session-1" true (some 1) 0]
    (settled.db.grants = [⟨"grant-a", 100, 160, 1000⟩, ⟨"grant-b", 60, 0, 1000⟩] ∧ settled.overspent hundred = true) ∧
      (released.db.grants = [⟨"grant-b", 100, 0, 1000⟩] ∧ released.overspent hundred = true) ∧
      (bought.db.grants = [⟨"grant-a", 4000000, 0, 1000⟩] ∧ bought.overspent (flatConfig (1 / 50) 2) = true) := by
  decide +kernel

end Stella.Billing
