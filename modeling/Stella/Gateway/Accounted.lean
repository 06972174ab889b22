import Stella.Gateway.Relay

/-! # A request is accounted for once

Up to the report of its outcome a request has settled nothing. The report settles the
ledger and sends the event, or fails to settle and sends none; what is left open is
settled when the request ends.
-/

namespace Stella.Gateway

open Stella.Fallible List

namespace Books

variable (books : Books)

def eventMicroCents : ℚ := (books.events.head?.map GatewayUsageEvent.chargedMicroCents).getD 0

structure OneAmount : Prop where
  ledger : ∀ call ∈ books.settles, call.took = true → call.chargedMicroCents = books.eventMicroCents
  tier : ∀ call ∈ books.tierSettles, call.actualMicroCents = books.eventMicroCents

end Books

structure Accounted (r : RelayRequest) (books : Books) : Prop where
  settledOnce : books.ledgerGranted = true → (∃ call ∈ books.settles, call.took = true) →
    (books.settles.filter SettleCall.took).length = 1
  unsettled : books.ledgerGranted = false → books.settles = []
  tierOnce : books.tierSettles.length = if books.tierGranted then 1 else 0
  oneEvent : books.events.length ≤ 1
  ledgerAmount : ∀ call ∈ books.settles, call.took = true → call.chargedMicroCents = books.eventMicroCents
  /-- The tier budget is settled with that amount too, or with that of a report whose settlement failed. -/
  tierAmount : ∀ call ∈ books.tierSettles, call.actualMicroCents = books.eventMicroCents ∨
    (r.settleFails = true ∧ books.events = [] ∧
      ∃ failed ∈ books.settles, failed.took = false ∧ failed.chargedMicroCents = call.actualMicroCents)
  released : books.releases = if books.ownRow then [r.releaseId] else []

/-! ## Up to the report and after it -/

structure Kept (r : RelayRequest) (s : Relaying) : Prop where
  tierSettles : s.books.tierSettles = []
  releases : s.books.releases = []
  owner : s.ownerAdmitted = s.books.ownRow
  granted : s.ledgerReserved = s.books.ledgerGranted
  ledger : s.ledgerReserved = true → s.ledger = true
  tier : s.tierReservation.isSome = s.books.tierGranted
  probe : r.probe = true → s.tierReservation = none ∧ s.ledgerReserved = false

structure Quiet (r : RelayRequest) (s : Relaying) : Prop extends Kept r s where
  actual : s.tierActualMicroCents = 0
  unsettled : s.ledgerSettled = false
  settles : s.books.settles = []
  events : s.books.events = []

inductive Outcome (r : RelayRequest) (s : Relaying) : Prop
  | quiet (actual : s.tierActualMicroCents = 0 ∨ r.probe = true) (unsettled : s.ledgerSettled = false)
      (settles : s.books.settles = []) (events : s.books.events = [])
  | told (settled : s.ledgerSettled = true) (call : SettleCall) (event : GatewayUsageEvent)
      (settles : s.books.settles = [call]) (took : call.took = true) (amount : call.chargedMicroCents = s.tierActualMicroCents)
      (events : s.books.events = [event]) (charged : event.chargedMicroCents = s.tierActualMicroCents)
      (reserved : s.ledgerReserved = true)
  | untold (fails : r.settleFails = true) (unsettled : s.ledgerSettled = false) (call : SettleCall) (settles : s.books.settles = [call])
      (failed : call.took = false) (amount : call.chargedMicroCents = s.tierActualMicroCents)
      (events : s.books.events = []) (reserved : s.ledgerReserved = true)

structure Reported (r : RelayRequest) (s : Relaying) : Prop extends Kept r s where
  outcome : Outcome r s

namespace RelayRequest

variable {r : RelayRequest}

theorem quiet_start : Quiet r {} where
  tierSettles := rfl
  releases := rfl
  owner := rfl
  granted := rfl
  ledger h := nomatch h
  tier := rfl
  probe _ := ⟨rfl, rfl⟩
  actual := rfl
  unsettled := rfl
  settles := rfl
  events := rfl

theorem Quiet.reported {s : Relaying} (h : Quiet r s) : Reported r s :=
  ⟨h.toKept, .quiet (.inl h.actual) h.unsettled h.settles h.events⟩

/-! ## The report -/

def Ready (r : RelayRequest) (s : Relaying) : Prop := Quiet r s ∧ (r.probe = true ∨ s.ledgerReserved = true)

section

variable {s : Relaying} {report : RelayReport}

theorem finish_of_probe (hProbe : r.probe = true) (hNone : s.ledgerReserved = false) :
    r.finish report s = (.ok (), { s with tierActualMicroCents := report.chargedMicroCents }) := by
  simp [finish, sendUsage, hProbe, hNone]

theorem finish_of_settle (hProbe : r.probe = false) (hLedger : s.ledger = true) (hResv : s.ledgerReserved = true)
    (hSettles : r.settleFails = false) :
    r.finish report s = (.ok (), { s with
      tierActualMicroCents := report.chargedMicroCents
      ledgerSettled := true
      books := { s.books with
        settles := s.books.settles ++ [⟨report.chargedMicroCents, report.refundRequest, report.result, true⟩]
        events := s.books.events ++
          [⟨r.requestId, report.tokens, report.chargedMicroCents, report.outcome, report.upstreamStatus⟩] } }) := by
  simp [finish, settleReport, sendUsage, hProbe, hLedger, hResv, hSettles]

theorem finish_of_failure (hLedger : s.ledger = true) (hResv : s.ledgerReserved = true)
    (hFails : r.settleFails = true) :
    r.finish report s = (.error (.thrown "The ledger settlement failed."), { s with
      tierActualMicroCents := report.chargedMicroCents
      books := { s.books with
        settles := s.books.settles ++ [⟨report.chargedMicroCents, report.refundRequest, report.result, false⟩] } }) := by
  simp [finish, settleReport, hLedger, hResv, hFails]

end

theorem finish_spec (report : RelayReport) :
    Ends (Ready r) (r.finish report) (fun _ => Reported r) (Reported r) := by
  rintro s ⟨hQuiet, hWay⟩
  have hKept := hQuiet.toKept
  cases hProbe : r.probe with
  | true =>
    have hNone := (hKept.probe hProbe).2
    rw [finish_of_probe hProbe hNone]
    exact ⟨⟨hKept.tierSettles, hKept.releases, hKept.owner, hKept.granted, hKept.ledger, hKept.tier, hKept.probe⟩,
      .quiet (.inr hProbe) hQuiet.unsettled hQuiet.settles hQuiet.events⟩
  | false =>
    have hResv : s.ledgerReserved = true := hWay.resolve_left (by rw [hProbe]; exact Bool.false_ne_true)
    have hLedger := hKept.ledger hResv
    cases hFails : r.settleFails with
    | false =>
      rw [finish_of_settle hProbe hLedger hResv hFails, hQuiet.settles, hQuiet.events]
      exact ⟨⟨hKept.tierSettles, hKept.releases, hKept.owner, hKept.granted, hKept.ledger, hKept.tier, hKept.probe⟩,
        .told rfl _ _ rfl rfl rfl rfl rfl hResv⟩
    | true =>
      rw [finish_of_failure hLedger hResv hFails, hQuiet.settles]
      exact ⟨⟨hKept.tierSettles, hKept.releases, hKept.owner, hKept.granted, hKept.ledger, hKept.tier, hKept.probe⟩,
        .untold hFails hQuiet.unsettled _ rfl rfl rfl hQuiet.events hResv⟩

theorem finish_then {α : Type} (report : RelayReport) {next : RelayM α}
    (hNext : ∀ s, Reported r s → Reported r (next s).2) :
    Ends (Ready r) (do r.finish report; next) (fun _ => Reported r) (Reported r) := by
  refine (finish_spec report).bind fun _ s hTold => ?_
  have hAfter := hNext s hTold
  rcases hRun : next s with ⟨result, s'⟩
  rw [hRun] at hAfter
  cases result <;> exact hAfter

theorem respond_spec (priced : Priced) (upstream : Upstream) (outcome : BodyOutcome) :
    Ends (Ready r) (r.respond priced upstream outcome) (fun _ => Reported r) (Reported r) := by
  unfold respond
  cases outcome with
  | threw => exact Ends.bind (Ends.get fun _ h => h) fun _ => finish_then _ fun _ h => h
  | stopped charged tokens => exact finish_then _ fun _ h => h
  | failed message => exact Ends.bind (Ends.get fun _ h => h) fun _ => finish_then _ fun _ h => h
  | assembled text => exact finish_then _ fun _ h => h

theorem dispatch_spec (priced : Priced) (hardLimit : Option ℚ) :
    Ends (Ready r) (r.dispatch priced hardLimit) (fun _ => Reported r) (Reported r) := by
  unfold dispatch
  split
  · exact Ends.bind (Ends.get fun _ h => h) fun _ => finish_then _ fun _ h => h
  · next upstream _ =>
    split
    · refine Ends.bind (Q := fun _ => Ready r) (Ends.modify fun s hReady => ?_) fun _ => respond_spec priced upstream _
      obtain ⟨hQuiet, hWay⟩ := hReady
      exact ⟨⟨⟨hQuiet.tierSettles, hQuiet.releases, hQuiet.owner, hQuiet.granted, hQuiet.ledger, hQuiet.tier, hQuiet.probe⟩,
        hQuiet.actual, hQuiet.unsettled, hQuiet.settles, hQuiet.events⟩, hWay⟩
    · refine finish_then _ fun s h => ?_
      split <;> exact h

/-! ## Reservations -/

def Stands (r : RelayRequest) (ledger reserved : Bool) (s : Relaying) : Prop :=
  Quiet r s ∧ s.ledger = ledger ∧ s.ledgerReserved = reserved

variable {ledger reserved : Bool}

theorem Stands.reported {s : Relaying} (h : Stands r ledger reserved s) : Reported r s := Quiet.reported h.1

theorem refuse_spec {α : Type} (error : GatewayError) {P : Relaying → Prop} {Q : α → Relaying → Prop}
    (h : ∀ s, P s → Reported r s) : Ends P (refuse error : RelayM α) Q (Reported r) := Ends.throw h

theorem reserveTierBudget_spec (hProbe : r.probe = false) (priced : Priced) :
    Ends (Stands r ledger reserved) (r.reserveTierBudget priced) (fun _ => Stands r ledger reserved) (Reported r) := by
  unfold reserveTierBudget
  refine Ends.bind (Ends.answered fun _ h => h.reported) fun answer => ?_
  cases answer with
  | ok minute =>
    refine Ends.modify fun s ⟨_, hQuiet, hFlags⟩ => ⟨⟨⟨hQuiet.tierSettles, hQuiet.releases, hQuiet.owner, hQuiet.granted,
      hQuiet.ledger, rfl, fun hIs => ?_⟩, hQuiet.actual, hQuiet.unsettled, hQuiet.settles, hQuiet.events⟩, hFlags⟩
    rw [hProbe] at hIs
    cases hIs
  | refused resetAt => exact refuse_spec _ fun _ h => h.2.reported

theorem reserveRequestTierBudget_spec (priced : Priced) : Ends (Stands r ledger reserved)
    (r.reserveRequestTierBudget priced) (fun _ => Stands r ledger reserved) (Reported r) := by
  unfold reserveRequestTierBudget
  split
  · next hTier =>
    have hProbe : r.probe = false := by
      cases hIs : r.probe with
      | true => rw [hIs] at hTier; cases hTier
      | false => rfl
    exact reserveTierBudget_spec hProbe priced
  · exact Ends.pure fun _ h => h

theorem reserveLedger_spec :
    Ends (Stands r ledger reserved) r.reserveLedger (fun _ => Stands r ledger reserved) (Reported r) := by
  unfold reserveLedger
  split
  · refine Ends.bind (Ends.answered fun _ h => h.reported) fun answer => ?_
    obtain ⟨admission, reservation⟩ := answer
    cases admission with
    | concurrencyLimit resetAt => exact refuse_spec _ fun _ h => h.2.reported
    | rateLimited resetAt => exact refuse_spec _ fun _ h => h.2.reported
    | ok duplicate =>
      refine Ends.bind (Q := fun _ => Stands r ledger reserved) (Ends.modify fun s ⟨_, hQuiet, hFlags⟩ => ?_) fun _ => ?_
      · exact ⟨⟨⟨hQuiet.tierSettles, hQuiet.releases, rfl, hQuiet.granted, hQuiet.ledger, hQuiet.tier, hQuiet.probe⟩,
          hQuiet.actual, hQuiet.unsettled, hQuiet.settles, hQuiet.events⟩, hFlags⟩
      · cases reservation with
        | none => exact refuse_spec _ fun _ h => h.reported
        | some reservation => exact Ends.pure fun _ h => h
  · exact (Ends.answered fun _ h => h.reported).weaken (fun _ h => h) (fun _ _ h => h.2) fun _ h => h

theorem reserved_spec (hProbe : r.probe = false) (priced : Priced) (reservation : LedgerReserveResult) :
    Ends (Stands r true false) (r.reserved priced reservation) (fun _ => Reported r) (Reported r) := by
  unfold RelayRequest.reserved
  cases reservation with
  | replay status body => exact fun _ h => h.reported
  | inFlight => exact refuse_spec _ fun _ h => h.reported
  | budgetExhausted remaining => exact refuse_spec _ fun _ h => h.reported
  | requestLimit maxRequests => exact refuse_spec _ fun _ h => h.reported
  | reserved remaining =>
    refine Ends.bind (Q := fun _ => Stands r true true) (Ends.modify fun s ⟨hQuiet, hLedger, _⟩ => ?_) fun _ => ?_
    · refine ⟨⟨⟨hQuiet.tierSettles, hQuiet.releases, hQuiet.owner, rfl, fun _ => hLedger, hQuiet.tier, fun hIs => ?_⟩,
        hQuiet.actual, hQuiet.unsettled, hQuiet.settles, hQuiet.events⟩, hLedger, rfl⟩
      rw [hProbe] at hIs
      cases hIs
    · refine Ends.bind (Q := fun _ => Stands r true true) ?_ fun _ => ?_
      · split
        · exact reserveRequestTierBudget_spec priced
        · exact Ends.pure fun _ h => h
      · exact (dispatch_spec priced _).weaken (fun _ h => ⟨h.1, .inr h.2.2⟩) (fun _ _ h => h) fun _ h => h

theorem relay_spec : Ends (Stands r false false) r.relay (fun _ => Reported r) (Reported r) := by
  unfold relay
  refine Ends.bind (Q := fun _ => Stands r false false)
    ((Ends.answered fun _ h => h.reported).weaken (fun _ h => h) (fun _ _ h => h.2) fun _ h => h) fun priced => ?_
  refine Ends.bind (Q := fun _ => Stands r false false) ?_ fun _ => ?_
  · split
    · exact Ends.pure fun _ h => h
    · exact reserveRequestTierBudget_spec priced
  · split
    · next hProbe => exact (dispatch_spec priced none).weaken (fun _ h => ⟨h.1, .inl hProbe⟩) (fun _ _ h => h) fun _ h => h
    · next hProbe =>
      refine Ends.bind (Q := fun _ => Stands r true false) (Ends.modify fun s ⟨hQuiet, _, hResv⟩ => ?_) fun _ => ?_
      · exact ⟨⟨⟨hQuiet.tierSettles, hQuiet.releases, hQuiet.owner, hQuiet.granted, fun _ => rfl, hQuiet.tier, hQuiet.probe⟩,
          hQuiet.actual, hQuiet.unsettled, hQuiet.settles, hQuiet.events⟩, rfl, hResv⟩
      · exact Ends.bind reserveLedger_spec fun reservation => reserved_spec (Bool.not_eq_true _ ▸ hProbe) priced reservation

theorem admission_spec : Ends (fun s => s = {}) r.admission (fun _ => Stands r false false) (fun s => s = {}) := by
  unfold admission
  split
  · exact Ends.pure fun s h => h ▸ ⟨quiet_start, rfl, rfl⟩
  · refine Ends.bind (Ends.answered fun _ h => h) fun answer => ?_
    cases answer with
    | concurrencyLimit resetAt => exact Ends.throw fun _ h => h.2
    | rateLimited resetAt => exact Ends.throw fun _ h => h.2
    | ok duplicate =>
      refine Ends.modify fun s h => ?_
      have hQuiet : Quiet r s := h.2 ▸ quiet_start
      exact ⟨⟨⟨hQuiet.tierSettles, hQuiet.releases, rfl, hQuiet.granted, hQuiet.ledger, hQuiet.tier, hQuiet.probe⟩,
        hQuiet.actual, hQuiet.unsettled, hQuiet.settles, hQuiet.events⟩, h.2 ▸ rfl, h.2 ▸ rfl⟩

/-! ## The end of a request -/

theorem releaseOwner_books {s : Relaying} (h : s.ownerAdmitted = s.books.ownRow) (hNone : s.books.releases = []) :
    (r.releaseOwner s).books = { s.books with releases := if s.books.ownRow then [r.releaseId] else [] } := by
  unfold releaseOwner
  rw [h]
  split
  · rw [hNone]
    rfl
  · rw [← hNone]

theorem settleTier_books {s : Relaying} (hNone : s.books.tierSettles = []) :
    (settleTier s).books = { s.books with tierSettles := (s.tierReservation.map fun reservation =>
      (⟨reservation.estimateMicroCents, s.tierActualMicroCents, reservation.minute⟩ : TierSettleCall)).toList } := by
  unfold settleTier
  cases s.tierReservation with
  | none =>
    change s.books = _
    rw [Option.map_none, Option.toList_none, ← hNone]
  | some reservation =>
    dsimp only
    rw [hNone]
    rfl

theorem settleTier_owner (s : Relaying) : (settleTier s).ownerAdmitted = s.ownerAdmitted := by
  unfold settleTier
  split <;> rfl

theorem releaseLedger_eq (s : Relaying) (hLedger : s.ledgerReserved = true → s.ledger = true) : r.releaseLedger s = { s with
    books := { s.books with settles := s.books.settles ++
      if s.ledgerReserved && !s.ledgerSettled then [⟨0, !s.firstUpstreamByte, none, !r.lastSettleFails⟩] else [] } } := by
  obtain ⟨ownerAdmitted, tierReservation, actual, ledger, reserved, settled, first, books⟩ := s
  unfold releaseLedger
  cases reserved with
  | false => simp
  | true =>
    obtain rfl : ledger = true := hLedger rfl
    cases settled <;> simp

theorem settleUp_books {s : Relaying} (h : Kept r s) : (r.settleUp s).books = { s.books with
    settles := s.books.settles ++
      if s.ledgerReserved && !s.ledgerSettled then [⟨0, !s.firstUpstreamByte, none, !r.lastSettleFails⟩] else []
    tierSettles := (s.tierReservation.map fun reservation =>
      (⟨reservation.estimateMicroCents, s.tierActualMicroCents, reservation.minute⟩ : TierSettleCall)).toList
    releases := if s.books.ownRow then [r.releaseId] else [] } := by
  have hTier : (settleTier (r.releaseLedger s)).books = _ :=
    settleTier_books (by rw [releaseLedger_eq s h.ledger]; exact h.tierSettles)
  unfold settleUp
  rw [releaseOwner_books, hTier, releaseLedger_eq s h.ledger]
  · rw [settleTier_owner, hTier, releaseLedger_eq s h.ledger]
    exact h.owner
  · rw [hTier, releaseLedger_eq s h.ledger]
    exact h.releases

theorem mem_tierSettles {s : Relaying} {call : TierSettleCall}
    (h : call ∈ (s.tierReservation.map fun reservation =>
      (⟨reservation.estimateMicroCents, s.tierActualMicroCents, reservation.minute⟩ : TierSettleCall)).toList) :
    s.tierReservation.isSome = true ∧ call.actualMicroCents = s.tierActualMicroCents := by
  cases hTier : s.tierReservation with
  | none =>
    rw [hTier] at h
    cases h
  | some reservation =>
    rw [hTier] at h
    obtain rfl := mem_singleton.mp h
    exact ⟨rfl, rfl⟩

theorem accounted_settleUp {s : Relaying} (h : Reported r s) : Accounted r (r.settleUp s).books := by
  have hKept := h.toKept
  have hTierOnce : (s.tierReservation.map fun reservation =>
      (⟨reservation.estimateMicroCents, s.tierActualMicroCents, reservation.minute⟩ : TierSettleCall)).toList.length =
        if s.books.tierGranted then 1 else 0 := by
    rw [← hKept.tier]
    cases s.tierReservation <;> rfl
  rw [settleUp_books hKept]
  cases h.outcome with
  | quiet hActual hUnset hSettles hEvents =>
    have hNone : Books.eventMicroCents { s.books with
        settles := s.books.settles ++
          if s.ledgerReserved && !s.ledgerSettled then [⟨0, !s.firstUpstreamByte, none, !r.lastSettleFails⟩] else []
        tierSettles := (s.tierReservation.map fun reservation =>
          (⟨reservation.estimateMicroCents, s.tierActualMicroCents, reservation.minute⟩ : TierSettleCall)).toList
        releases := if s.books.ownRow then [r.releaseId] else [] } = 0 := by
      simp [Books.eventMicroCents, hEvents]
    rw [hSettles, nil_append] at hNone ⊢
    refine ⟨fun hGranted hTook => ?_, fun hGranted => ?_, hTierOnce, by simp [hEvents], fun call hCall _ => ?_,
      fun call hCall => .inl ?_, rfl⟩
    · dsimp only at hGranted hTook ⊢
      rw [hKept.granted, hGranted, hUnset] at hTook ⊢
      obtain ⟨call, hCall, hTook⟩ := hTook
      obtain rfl := mem_singleton.mp hCall
      exact congrArg List.length (filter_cons_of_pos hTook)
    · dsimp only at hGranted ⊢
      rw [hKept.granted, hGranted]
      rfl
    · rw [hNone]
      dsimp only at hCall
      split at hCall
      · rw [mem_singleton.mp hCall]
      · cases hCall
    · obtain ⟨hReservation, hAmount⟩ := mem_tierSettles hCall
      rw [hNone, hAmount]
      refine hActual.resolve_right fun hProbe => ?_
      rw [(hKept.probe hProbe).1] at hReservation
      cases hReservation
  | told hSettled call event hCalls hTook hAmount hEvents hCharged hResv =>
    have hOnly : (s.books.settles ++
        if s.ledgerReserved && !s.ledgerSettled then [⟨0, !s.firstUpstreamByte, none, !r.lastSettleFails⟩] else []) = [call] := by
      rw [hCalls, hSettled]
      simp
    have hEv : Books.eventMicroCents { s.books with
        settles := [call]
        tierSettles := (s.tierReservation.map fun reservation =>
          (⟨reservation.estimateMicroCents, s.tierActualMicroCents, reservation.minute⟩ : TierSettleCall)).toList
        releases := if s.books.ownRow then [r.releaseId] else [] } = s.tierActualMicroCents := by
      simp [Books.eventMicroCents, hEvents, hCharged]
    rw [hOnly]
    refine ⟨fun _ _ => congrArg List.length (filter_cons_of_pos hTook), fun hGranted => ?_, hTierOnce, by simp [hEvents],
      fun other hOther _ => ?_, fun other hOther => .inl ?_, rfl⟩
    · dsimp only at hGranted
      rw [← hKept.granted, hResv] at hGranted
      cases hGranted
    · rw [hEv, mem_singleton.mp hOther, hAmount]
    · rw [hEv, (mem_tierSettles hOther).2]
  | untold hFails hUnset call hCalls hFailed hAmount hEvents hResv =>
    have hBoth : (s.books.settles ++
        if s.ledgerReserved && !s.ledgerSettled then [⟨0, !s.firstUpstreamByte, none, !r.lastSettleFails⟩] else []) =
          [call, ⟨0, !s.firstUpstreamByte, none, !r.lastSettleFails⟩] := by
      rw [hCalls, hUnset, hResv]
      rfl
    have hNone : Books.eventMicroCents { s.books with
        settles := [call, ⟨0, !s.firstUpstreamByte, none, !r.lastSettleFails⟩]
        tierSettles := (s.tierReservation.map fun reservation =>
          (⟨reservation.estimateMicroCents, s.tierActualMicroCents, reservation.minute⟩ : TierSettleCall)).toList
        releases := if s.books.ownRow then [r.releaseId] else [] } = 0 := by
      simp [Books.eventMicroCents, hEvents]
    have hNotTook : ¬ call.took = true := by rw [hFailed]; exact Bool.false_ne_true
    rw [hBoth]
    refine ⟨fun _ hTook => ?_, fun hGranted => ?_, hTierOnce, by simp [hEvents], fun other hOther hTook => ?_,
      fun other hOther => .inr ⟨hFails, hEvents, call, mem_cons_self, hFailed, ?_⟩, rfl⟩
    · obtain ⟨other, hOther, hTook⟩ := hTook
      obtain rfl | hLast := mem_cons.mp hOther
      · exact absurd hTook hNotTook
      · obtain rfl := mem_singleton.mp hLast
        dsimp only
        rw [filter_cons_of_neg hNotTook, filter_cons_of_pos hTook]
        rfl
    · dsimp only at hGranted
      rw [← hKept.granted, hResv] at hGranted
      cases hGranted
    · obtain rfl | hLast := mem_cons.mp hOther
      · exact absurd hTook hNotTook
      · rw [hNone, mem_singleton.mp hLast]
    · rw [(mem_tierSettles hOther).2, hAmount]

theorem accounted_start : Accounted r ({} : Relaying).books where
  settledOnce h := nomatch h
  unsettled _ := rfl
  tierOnce := rfl
  oneEvent := Nat.zero_le 1
  ledgerAmount _ h := nomatch h
  tierAmount _ h := nomatch h
  released := rfl

def pricedRequest : Priced := ⟨⟨10, 10⟩, 20, by decide, fun args => args.inputTokens + args.outputTokens⟩

def relayRequest (settleFails : Bool) : RelayRequest where
  requestId := "request"
  generation := "generation"
  jti := "capability"
  probe := false
  ownerRelayV2 := true
  anonymous := false
  admitRelay := .ok (.ok false)
  priced := .ok pricedRequest
  tierCeiling := true
  reserveTier := .ok (.ok 1)
  reserve := .ok .inFlight
  admitAndReserve := .ok (.ok false, some (.reserved (some 1000)))
  fetch := .ok ⟨200, "", .json (.object "answer"), some { inputTokens := some 4, outputTokens := some 6 }, none⟩
  settleFails
  lastSettleFails := false

end RelayRequest

end Stella.Gateway
