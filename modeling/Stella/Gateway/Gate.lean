import Stella.Gateway.Ledger
import Stella.Library.JsonText
import Stella.Library.Transition

/-! # The relay gate of an owner

A row for each execution in flight, under its request id, and one for each admission of the last
minute.
-/

namespace Stella.Gateway

open Stella.Rows Stella.Transition List

inductive LimitsAudience
  | anonymous
  | free
  | go
  | pro

def limitsAudienceFor (audience : String) : LimitsAudience :=
  match audience with
  | "anonymous" => .anonymous
  | "go" | "go_fallback" => .go
  | "pro" | "pro_fallback" => .pro
  | _ => .free

structure OwnerRelayLimit where
  inFlight : Nat
  perMinute : Nat

def gatewayOwnerRelayLimits : LimitsAudience → OwnerRelayLimit
  | .anonymous => ⟨1, 20⟩
  | .free => ⟨2, 40⟩
  | .go => ⟨4, 80⟩
  | .pro => ⟨8, 120⟩

def scaledLimit (limit : Nat) (throttled : Bool) : Nat := if throttled then max 1 (limit / 2) else limit

def minuteMs : Int := 60000

def ownerInFlightAbandonAfterMs : Int := gatewayUpstreamMaxDurationMs + minuteMs

structure InFlightRow where
  requestId : String
  startedAt : Int
  deriving DecidableEq

inductive GateAdmission
  | ok (duplicate : Bool)
  | concurrencyLimit (resetAt : Int)
  | rateLimited (resetAt : Int)
  deriving DecidableEq

structure AdmitArgs where
  audience : String
  requestId : String
  throttled : Bool

def AdmitArgs.inFlightLimit (args : AdmitArgs) : Nat :=
  scaledLimit (gatewayOwnerRelayLimits (limitsAudienceFor args.audience)).inFlight args.throttled

def AdmitArgs.minuteLimit (args : AdmitArgs) : Nat :=
  scaledLimit (gatewayOwnerRelayLimits (limitsAudienceFor args.audience)).perMinute args.throttled

structure OwnerRelayGate where
  inFlight : List InFlightRow := []
  relayAdmissions : List Int := []
  ledger : OwnerLedgerStore := {}

def oldest (times : List Int) : Option Int := times.min?

namespace OwnerRelayGate

variable (g : OwnerRelayGate)

def unexpired (now : Int) (row : InFlightRow) : Bool := now - ownerInFlightAbandonAfterMs < row.startedAt

def sweep (now : Int) : OwnerRelayGate :=
  { g with
    inFlight := g.inFlight.filter (unexpired now)
    relayAdmissions := g.relayAdmissions.filter (fun admittedAt => now - minuteMs < admittedAt) }

def admitRelaySync (now : Int) (args : AdmitArgs) : OwnerRelayGate × GateAdmission :=
  let swept := g.sweep now
  if (lookup InFlightRow.requestId swept.inFlight args.requestId).isSome then (swept, .ok true)
  else if args.inFlightLimit ≤ swept.inFlight.length then
    (swept, .concurrencyLimit ((oldest (swept.inFlight.map InFlightRow.startedAt)).getD now + ownerInFlightAbandonAfterMs))
  else if args.minuteLimit ≤ swept.relayAdmissions.length then
    (swept, .rateLimited ((oldest swept.relayAdmissions).getD now + minuteMs))
  else
    ({ swept with
        inFlight := swept.inFlight ++ [⟨args.requestId, now⟩]
        relayAdmissions := swept.relayAdmissions ++ [now] },
      .ok false)

def deleteInFlight (requestId : String) : OwnerRelayGate :=
  { g with inFlight := erase InFlightRow.requestId g.inFlight requestId }

def admissionId (generation : String) (reservation : LedgerReserveArgs) (requestId : String) : String :=
  JsonText.stringifyArray [generation, reservation.jti, requestId]

def admitAndReserve (now : Int) (args : AdmitArgs) (generation : String) (reservation : LedgerReserveArgs) :
    OwnerRelayGate × GateAdmission × Option LedgerReserveResult :=
  let id := admissionId generation reservation args.requestId
  let (admitted, admission) := g.admitRelaySync now { args with requestId := id }
  match admission with
  | .ok duplicate =>
    let (ledger, reserved) := admitted.ledger.reserveSync now
      { reservation with requestId := args.requestId, jti := JsonText.stringifyArray [generation, reservation.jti] }
    let kept := { admitted with ledger }
    match reserved with
    | .reserved _ => (kept, admission, some reserved)
    | _ => (if duplicate then kept else kept.deleteInFlight id, admission, some reserved)
  | refused => (admitted, refused, none)

def settleCapability (generation jti : String) (args : LedgerSettleArgs) : OwnerRelayGate :=
  { g with ledger := (g.ledger.settle (JsonText.stringifyArray [generation, jti]) args).1 }

def releaseRelay (requestId : String) : OwnerRelayGate := g.deleteInFlight requestId

end OwnerRelayGate

/-! ## Executions -/

inductive RelayState
  | running
  /-- Its row has expired. -/
  | expired
  | released
  deriving DecidableEq

structure RelayExecution where
  requestId : String
  admittedAt : Int
  state : RelayState
  deriving DecidableEq

structure GateWorld where
  gate : OwnerRelayGate := {}
  clock : Int := 0
  executions : List RelayExecution := []

inductive GateInput
  | admitRelay (elapsed : Nat) (args : AdmitArgs)
  | admitAndReserve (elapsed : Nat) (args : AdmitArgs) (generation : String) (reservation : LedgerReserveArgs)
  /-- The execution at this place releases. -/
  | releaseRelay (elapsed : Nat) (place : Nat)
  | settle (elapsed : Nat) (generation jti : String) (args : LedgerSettleArgs)

/-- What a call asks `admitRelaySync`. -/
def GateInput.admission : GateInput → Option (Nat × AdmitArgs)
  | .admitRelay elapsed args => some (elapsed, args)
  | .admitAndReserve elapsed args generation reservation =>
    some (elapsed, { args with requestId := OwnerRelayGate.admissionId generation reservation args.requestId })
  | _ => none

namespace GateWorld

variable (w : GateWorld)

def expire (now : Int) (x : RelayExecution) : RelayExecution :=
  if x.state = .running ∧ x.admittedAt ≤ now - ownerInFlightAbandonAfterMs then { x with state := .expired } else x

def step : GateInput → GateWorld
  | .admitRelay elapsed args =>
    let now := w.clock + elapsed
    let (gate, admission) := w.gate.admitRelaySync now args
    ⟨gate, now, w.executions.map (expire now) ++
      if admission = .ok false then [⟨args.requestId, now, .running⟩] else []⟩
  | .admitAndReserve elapsed args generation reservation =>
    let now := w.clock + elapsed
    let (gate, admission, reserved) := w.gate.admitAndReserve now args generation reservation
    let id := OwnerRelayGate.admissionId generation reservation args.requestId
    ⟨gate, now, w.executions.map (expire now) ++
      match admission, reserved with
      | .ok false, some (.reserved _) => [⟨id, now, .running⟩]
      -- Without a reservation the call has given its row back.
      | .ok false, _ => [⟨id, now, .released⟩]
      | _, _ => []⟩
  | .releaseRelay elapsed place =>
    match w.executions[place]? with
    | none => { w with clock := w.clock + elapsed }
    | some x =>
      ⟨w.gate.releaseRelay x.requestId, w.clock + elapsed, w.executions.set place { x with state := .released }⟩
  | .settle elapsed generation jti args =>
    { w with gate := w.gate.settleCapability generation jti args, clock := w.clock + elapsed }

def OwnRelease : GateInput → Prop
  | .releaseRelay _ place =>
    ∀ x ∈ w.executions[place]?, (lookup InFlightRow.requestId w.gate.inFlight x.requestId).isSome = true → x.state = .running
  | _ => True

/-! ## What the gate promises -/

def inFlightAt (now : Int) (x : RelayExecution) : Bool :=
  x.state ≠ .released && now - x.admittedAt < ownerInFlightAbandonAfterMs

def admittedSince (now : Int) (x : RelayExecution) : Bool := now - x.admittedAt < minuteMs

structure Sound (input : GateInput) : Prop where
  limits : ∀ elapsed args, input.admission = some (elapsed, args) →
    (w.gate.admitRelaySync (w.clock + elapsed) args).2 = .ok false →
      w.executions.countP (inFlightAt (w.clock + elapsed)) < args.inFlightLimit ∧
        w.executions.countP (admittedSince (w.clock + elapsed)) < args.minuteLimit
  refused : ∀ elapsed args generation reservation, input = .admitAndReserve elapsed args generation reservation →
    (∀ remaining, (w.gate.admitAndReserve (w.clock + elapsed) args generation reservation).2.2 ≠ some (.reserved remaining)) →
      (w.step input).gate.inFlight = w.gate.inFlight.filter (OwnerRelayGate.unexpired (w.clock + elapsed))
  releases : ∀ elapsed place, input = .releaseRelay elapsed place → ∀ x ∈ w.executions[place]?,
    ∀ row ∈ w.gate.inFlight, row ∈ (w.step input).gate.inFlight ∨
      (x.state = .running ∧ row.requestId = x.requestId ∧ row.startedAt = x.admittedAt)

end GateWorld

/-! ## Rows and executions -/

def InFlightRow.mark (row : InFlightRow) : String × Int := (row.requestId, row.startedAt)

namespace RelayExecution

def isRunning (x : RelayExecution) : Bool := x.state = .running

def mark (x : RelayExecution) : String × Int := (x.requestId, x.admittedAt)

end RelayExecution

namespace GateWorld

structure Matched (w : GateWorld) : Prop where
  ids : (w.gate.inFlight.map InFlightRow.requestId).Nodup
  held : (w.gate.inFlight.map InFlightRow.mark).Perm ((w.executions.filter RelayExecution.isRunning).map RelayExecution.mark)
  aged : ∀ x ∈ w.executions, x.state = .expired → ownerInFlightAbandonAfterMs ≤ w.clock - x.admittedAt
  minute : ∃ cut, cut ≤ w.clock - minuteMs ∧
    w.gate.relayAdmissions = (w.executions.map RelayExecution.admittedAt).filter (fun admittedAt => cut < admittedAt)

variable {w : GateWorld}

theorem expire_admittedAt (now : Int) (executions : List RelayExecution) :
    (executions.map (expire now)).map RelayExecution.admittedAt = executions.map RelayExecution.admittedAt := by
  rw [map_map]
  refine map_congr_left fun x _ => ?_
  rw [Function.comp_apply]
  unfold expire
  split <;> rfl

theorem expire_held (now : Int) (executions : List RelayExecution) :
    ((executions.map (expire now)).filter RelayExecution.isRunning).map RelayExecution.mark =
      ((executions.filter RelayExecution.isRunning).map RelayExecution.mark).filter
        (fun m => now - ownerInFlightAbandonAfterMs < m.2) := by
  induction executions with
  | nil => rfl
  | cons x executions ih =>
    rw [map_cons]
    by_cases hRuns : x.state = .running
    · have hIs : x.isRunning = true := decide_eq_true hRuns
      rw [filter_cons_of_pos hIs, map_cons]
      by_cases hPast : x.admittedAt ≤ now - ownerInFlightAbandonAfterMs
      · have hExp : (expire now x).isRunning = false := by
          rw [expire, if_pos ⟨hRuns, hPast⟩]
          rfl
        rw [filter_cons_of_neg (by rw [hExp]; exact Bool.false_ne_true), ih,
          filter_cons_of_neg (by rw [decide_eq_true_iff]; exact Int.not_lt.mpr hPast)]
      · have hEq : expire now x = x := if_neg fun hBoth => hPast hBoth.2
        rw [hEq, filter_cons_of_pos hIs, map_cons, ih,
          filter_cons_of_pos (by rw [decide_eq_true_iff]; exact Int.not_le.mp hPast)]
    · have hEq : expire now x = x := if_neg fun hBoth => hRuns hBoth.1
      have hNot : ¬ x.isRunning = true := fun hIs => hRuns (of_decide_eq_true hIs)
      rw [hEq, filter_cons_of_neg hNot, filter_cons_of_neg hNot, ih]

section

variable (h : w.Matched)
include h

theorem Matched.sweep (elapsed : Nat) :
    Matched ⟨w.gate.sweep (w.clock + elapsed), w.clock + elapsed, w.executions.map (expire (w.clock + elapsed))⟩ where
  ids := (filter_sublist.map _).nodup h.ids
  held := by
    have hRows : (w.gate.inFlight.filter (OwnerRelayGate.unexpired (w.clock + elapsed))).map InFlightRow.mark =
        (w.gate.inFlight.map InFlightRow.mark).filter (fun m => w.clock + elapsed - ownerInFlightAbandonAfterMs < m.2) := by
      rw [filter_map]
      rfl
    dsimp only
    rw [expire_held]
    exact hRows ▸ h.held.filter _
  aged x hX hSt := by
    obtain ⟨old, hOld, rfl⟩ := mem_map.mp hX
    dsimp only
    unfold expire at hSt ⊢
    split
    · next hPast =>
      have hAge := hPast.2
      dsimp only
      omega
    · next hNot =>
      rw [if_neg hNot] at hSt
      have hAge := h.aged old hOld hSt
      omega
  minute := by
    obtain ⟨cut, hCut, hAdmissions⟩ := h.minute
    refine ⟨w.clock + elapsed - minuteMs, Int.le_refl _, ?_⟩
    dsimp only [OwnerRelayGate.sweep]
    rw [expire_admittedAt, hAdmissions, filter_filter]
    refine filter_congr fun admittedAt _ => ?_
    have hLater : w.clock + elapsed - minuteMs < admittedAt → cut < admittedAt := by omega
    by_cases hIn : w.clock + elapsed - minuteMs < admittedAt
    · rw [decide_eq_true hIn, decide_eq_true (hLater hIn)]
      rfl
    · rw [decide_eq_false hIn]
      rfl

variable {x : RelayExecution}

theorem Matched.minute_append (hAt : x.admittedAt = w.clock) :
    ∃ cut, cut ≤ w.clock - minuteMs ∧ w.gate.relayAdmissions ++ [w.clock] =
      ((w.executions ++ [x]).map RelayExecution.admittedAt).filter (fun admittedAt => cut < admittedAt) := by
  obtain ⟨cut, hCut, hAdmissions⟩ := h.minute
  refine ⟨cut, hCut, ?_⟩
  have hMinute : minuteMs = 60000 := rfl
  rw [map_append, filter_append, ← hAdmissions, map_singleton, hAt,
    filter_cons_of_pos (by rw [decide_eq_true_iff]; omega), filter_nil]

variable {requestId : String}

theorem Matched.entered (hFree : lookup InFlightRow.requestId w.gate.inFlight requestId = none) :
    Matched ⟨{ w.gate with
        inFlight := w.gate.inFlight ++ [⟨requestId, w.clock⟩]
        relayAdmissions := w.gate.relayAdmissions ++ [w.clock] }, w.clock,
      w.executions ++ [⟨requestId, w.clock, .running⟩]⟩ where
  ids := by
    rw [map_append, nodup_append]
    refine ⟨h.ids, pairwise_singleton _ _, fun a hA b hB hEq => ?_⟩
    obtain rfl : b = requestId := mem_singleton.mp hB
    obtain ⟨row, hRow, hId⟩ := mem_map.mp hA
    exact lookup_eq_none.mp hFree row hRow (hId.trans hEq)
  held := by
    rw [filter_append, map_append, map_append]
    exact h.held.append_right _
  aged x hX hSt := by
    obtain hOld | hNew := mem_append.mp hX
    · exact h.aged x hOld hSt
    · obtain rfl := mem_singleton.mp hNew
      cases hSt
  minute := h.minute_append rfl

theorem Matched.giveBack
    (hFree : lookup InFlightRow.requestId w.gate.inFlight requestId = none) :
    Matched ⟨OwnerRelayGate.deleteInFlight { w.gate with
        inFlight := w.gate.inFlight ++ [⟨requestId, w.clock⟩]
        relayAdmissions := w.gate.relayAdmissions ++ [w.clock] } requestId, w.clock,
      w.executions ++ [⟨requestId, w.clock, .released⟩]⟩ := by
  have hErase : erase InFlightRow.requestId (w.gate.inFlight ++ [⟨requestId, w.clock⟩]) requestId = w.gate.inFlight :=
    erase_append_self hFree rfl
  refine ⟨?_, ?_, ?_, h.minute_append rfl⟩
  · change ((erase InFlightRow.requestId (w.gate.inFlight ++ [⟨requestId, w.clock⟩]) requestId).map _).Nodup
    rw [hErase]
    exact h.ids
  · change ((erase InFlightRow.requestId (w.gate.inFlight ++ [⟨requestId, w.clock⟩]) requestId).map _).Perm _
    rw [hErase, filter_append, filter_cons_of_neg (by simp [RelayExecution.isRunning]), filter_nil,
      append_nil]
    exact h.held
  · intro x hX hSt
    obtain hOld | hNew := mem_append.mp hX
    · exact h.aged x hOld hSt
    · obtain rfl := mem_singleton.mp hNew
      cases hSt

theorem Matched.row_mark (hX : x ∈ w.executions) (hRuns : x.state = .running)
    {row : InFlightRow} (hRow : lookup InFlightRow.requestId w.gate.inFlight x.requestId = some row) : row.mark = x.mark := by
  have hIs : x.isRunning = true := decide_eq_true hRuns
  have hMem := h.held.mem_iff.mpr (mem_map_of_mem (mem_filter.mpr ⟨hX, hIs⟩))
  obtain ⟨other, hOther, hMark⟩ := mem_map.mp hMem
  have hFound := lookup_of_mem h.ids hOther
  have hId : other.requestId = x.requestId := congrArg Prod.fst hMark
  rw [hId] at hFound
  obtain rfl : other = row := Option.some.inj (hFound.symm.trans hRow)
  exact hMark

end

/-! ## Steps -/

theorem admitRelaySync_cases (g : OwnerRelayGate) (now : Int) (args : AdmitArgs) :
    (∃ admission, g.admitRelaySync now args = (g.sweep now, admission) ∧ admission ≠ .ok false) ∨
    (lookup InFlightRow.requestId (g.sweep now).inFlight args.requestId = none ∧
      (g.sweep now).inFlight.length < args.inFlightLimit ∧ (g.sweep now).relayAdmissions.length < args.minuteLimit ∧
      g.admitRelaySync now args =
        ({ g.sweep now with
            inFlight := (g.sweep now).inFlight ++ [⟨args.requestId, now⟩]
            relayAdmissions := (g.sweep now).relayAdmissions ++ [now] }, .ok false)) := by
  unfold OwnerRelayGate.admitRelaySync
  dsimp only
  cases hRow : lookup InFlightRow.requestId (g.sweep now).inFlight args.requestId with
  | some row => exact .inl ⟨_, rfl, by simp⟩
  | none =>
    rw [if_neg (by simp)]
    by_cases hFull : args.inFlightLimit ≤ (g.sweep now).inFlight.length
    · rw [if_pos hFull]
      exact .inl ⟨_, rfl, by simp⟩
    · rw [if_neg hFull]
      by_cases hBusy : args.minuteLimit ≤ (g.sweep now).relayAdmissions.length
      · rw [if_pos hBusy]
        exact .inl ⟨_, rfl, by simp⟩
      · rw [if_neg hBusy]
        exact .inr ⟨rfl, Nat.not_le.mp hFull, Nat.not_le.mp hBusy, rfl⟩

theorem Matched.ledger (h : w.Matched) (ledger : OwnerLedgerStore) : Matched { w with gate := { w.gate with ledger } } :=
  ⟨h.ids, h.held, h.aged, h.minute⟩

theorem Matched.release (h : w.Matched) {place : Nat} {x : RelayExecution} (hX : w.executions[place]? = some x)
    (hOwn : (lookup InFlightRow.requestId w.gate.inFlight x.requestId).isSome = true → x.state = .running) :
    Matched ⟨w.gate.releaseRelay x.requestId, w.clock, w.executions.set place { x with state := .released }⟩ := by
  have hPlace : place < w.executions.length := (List.getElem?_eq_some_iff.mp hX).1
  have hOld : w.executions.Perm (x :: w.executions.eraseIdx place) := perm_cons_eraseIdx hX
  have hNew : (w.executions.set place { x with state := .released }).Perm
      ({ x with state := .released } :: w.executions.eraseIdx place) := set_perm_cons_eraseIdx hPlace _
  have hAfter := (hNew.filter RelayExecution.isRunning).map RelayExecution.mark
  have hBef := (hOld.filter RelayExecution.isRunning).map RelayExecution.mark
  rw [filter_cons_of_neg (by simp [RelayExecution.isRunning])] at hAfter
  refine ⟨(filter_sublist.map _).nodup h.ids, ?_, ?_, ?_⟩
  · change ((erase InFlightRow.requestId w.gate.inFlight x.requestId).map InFlightRow.mark).Perm _
    cases hRow : lookup InFlightRow.requestId w.gate.inFlight x.requestId with
    | none =>
      have hEq : erase InFlightRow.requestId w.gate.inFlight x.requestId = w.gate.inFlight :=
        erase_eq_self (lookup_eq_none.mp hRow)
      have hIdle : ¬ x.isRunning = true := by
        intro hRuns
        have hMark := h.held.mem_iff.mpr (mem_map_of_mem
          (mem_filter.mpr ⟨mem_of_getElem? hX, hRuns⟩))
        obtain ⟨row, hMem, hRowMark⟩ := mem_map.mp hMark
        exact lookup_eq_none.mp hRow row hMem (congrArg Prod.fst hRowMark)
      rw [filter_cons_of_neg hIdle] at hBef
      rw [hEq]
      exact h.held.trans (hBef.trans hAfter.symm)
    | some row =>
      have hRuns := hOwn (by rw [hRow]; rfl)
      have hIs : x.isRunning = true := decide_eq_true hRuns
      rw [filter_cons_of_pos hIs, map_cons] at hBef
      have hRows := (perm_cons_erase h.ids hRow).map InFlightRow.mark
      have hMark : row.mark = x.mark := h.row_mark (mem_of_getElem? hX) hRuns hRow
      rw [map_cons, hMark] at hRows
      exact ((hRows.symm.trans (h.held.trans hBef)).cons_inv).trans hAfter.symm
  · intro y hY hSt
    obtain hHead | hTail := mem_cons.mp (hNew.mem_iff.mp hY)
    · rw [hHead] at hSt
      cases hSt
    · exact h.aged y (mem_of_mem_eraseIdx hTail) hSt
  · obtain ⟨cut, hCut, hAdmissions⟩ := h.minute
    refine ⟨cut, hCut, ?_⟩
    have hTimes : (w.executions.set place { x with state := .released }).map RelayExecution.admittedAt =
        w.executions.map RelayExecution.admittedAt := by
      rw [map_set]
      refine ext_getElem? fun i => ?_
      rw [getElem?_set]
      split
      · next hAt =>
        subst hAt
        rw [getElem?_map, hX]
        simp [hPlace]
      · rfl
    change w.gate.relayAdmissions = List.filter _ (List.map _ _)
    rw [hTimes]
    exact hAdmissions

theorem admitAndReserve_cases (g : OwnerRelayGate) (now : Int) (args : AdmitArgs) (generation : String)
    (reservation : LedgerReserveArgs) :
    (∃ ledger admission reserved, g.admitAndReserve now args generation reservation =
        ({ g.sweep now with ledger }, admission, reserved) ∧ admission ≠ .ok false) ∨
    (lookup InFlightRow.requestId (g.sweep now).inFlight (OwnerRelayGate.admissionId generation reservation args.requestId) = none ∧
      ∃ ledger reserved, g.admitAndReserve now args generation reservation =
        (match reserved with
          | .reserved _ =>
            { g.sweep now with
              inFlight := (g.sweep now).inFlight ++ [⟨OwnerRelayGate.admissionId generation reservation args.requestId, now⟩]
              relayAdmissions := (g.sweep now).relayAdmissions ++ [now]
              ledger }
          | _ =>
            OwnerRelayGate.deleteInFlight { g.sweep now with
              inFlight := (g.sweep now).inFlight ++ [⟨OwnerRelayGate.admissionId generation reservation args.requestId, now⟩]
              relayAdmissions := (g.sweep now).relayAdmissions ++ [now]
              ledger } (OwnerRelayGate.admissionId generation reservation args.requestId),
          .ok false, some reserved)) := by
  obtain ⟨admission, hAsk, hNot⟩ | ⟨hFree, -, -, hAsk⟩ := admitRelaySync_cases g now
    { args with requestId := OwnerRelayGate.admissionId generation reservation args.requestId }
  · refine .inl ?_
    unfold OwnerRelayGate.admitAndReserve
    dsimp only
    rw [hAsk]
    match admission, hNot with
    | .ok true, hNot =>
      dsimp only
      split
      · exact ⟨_, _, _, rfl, hNot⟩
      · rw [if_pos rfl]
        exact ⟨_, _, _, rfl, hNot⟩
    | .ok false, hNot => exact absurd rfl hNot
    | .concurrencyLimit _, hNot => exact ⟨_, _, _, rfl, hNot⟩
    | .rateLimited _, hNot => exact ⟨_, _, _, rfl, hNot⟩
  · refine .inr ⟨hFree, ?_⟩
    unfold OwnerRelayGate.admitAndReserve
    dsimp only
    rw [hAsk]
    dsimp only
    generalize OwnerLedgerStore.reserveSync _ _ _ = answer
    obtain ⟨ledger, reserved⟩ := answer
    refine ⟨ledger, reserved, ?_⟩
    cases reserved <;> rfl

theorem Matched.later (h : w.Matched) (elapsed : Nat) : Matched { w with clock := w.clock + elapsed } where
  ids := h.ids
  held := h.held
  aged x hX hSt := by
    have hAge := h.aged x hX hSt
    dsimp only
    omega
  minute := by
    obtain ⟨cut, hCut, hAdmissions⟩ := h.minute
    refine ⟨cut, ?_, hAdmissions⟩
    dsimp only
    omega

theorem Matched.step (h : w.Matched) (input : GateInput) (hOwn : w.OwnRelease input) : (w.step input).Matched := by
  cases input with
  | admitRelay elapsed args =>
    have hSwept := h.sweep elapsed
    unfold GateWorld.step
    obtain ⟨admission, hAsk, hNot⟩ | ⟨hFree, -, -, hAsk⟩ := admitRelaySync_cases w.gate (w.clock + elapsed) args
    · dsimp only
      rw [hAsk]
      dsimp only
      rw [if_neg hNot, append_nil]
      exact hSwept
    · dsimp only
      rw [hAsk]
      dsimp only
      rw [if_pos rfl]
      exact hSwept.entered hFree
  | admitAndReserve elapsed args generation reservation =>
    have hSwept := h.sweep elapsed
    unfold GateWorld.step
    obtain ⟨ledger, admission, reserved, hAsk, hNot⟩ | ⟨hFree, ledger, reserved, hAsk⟩ :=
      admitAndReserve_cases w.gate (w.clock + elapsed) args generation reservation
    · dsimp only
      rw [hAsk]
      match admission, hNot with
      | .ok true, _ =>
        rw [append_nil]
        exact hSwept.ledger ledger
      | .ok false, hNot => exact absurd rfl hNot
      | .concurrencyLimit _, _ =>
        rw [append_nil]
        exact hSwept.ledger ledger
      | .rateLimited _, _ =>
        rw [append_nil]
        exact hSwept.ledger ledger
    · dsimp only
      rw [hAsk]
      cases reserved with
      | reserved remaining => exact (hSwept.entered hFree).ledger ledger
      | _ => exact (hSwept.giveBack hFree).ledger ledger
  | releaseRelay elapsed place =>
    unfold GateWorld.step
    dsimp only
    cases hX : w.executions[place]? with
    | none => exact h.later elapsed
    | some x => exact (h.release hX (hOwn x hX)).later elapsed
  | settle elapsed generation jti args => exact (h.ledger _).later elapsed

theorem matched_empty : Matched {} where
  ids := nodup_nil
  held := List.Perm.refl _
  aged _ hX := absurd hX not_mem_nil
  minute := ⟨0 - minuteMs, Int.le_refl _, rfl⟩

/-! ## What holds while releases are their own -/

theorem Matched.countP_inFlightAt (h : w.Matched) (elapsed : Nat) :
    w.executions.countP (inFlightAt (w.clock + elapsed)) = (w.gate.sweep (w.clock + elapsed)).inFlight.length := by
  have hRows := (h.sweep elapsed).held.length_eq
  dsimp only at hRows
  rw [length_map, expire_held, filter_map, length_map, filter_filter] at hRows
  rw [hRows, countP_eq_length_filter]
  refine congrArg List.length (filter_congr fun x hX => ?_)
  unfold inFlightAt RelayExecution.isRunning
  have hAbandon : w.clock + elapsed - x.admittedAt < ownerInFlightAbandonAfterMs ↔
      w.clock + elapsed - ownerInFlightAbandonAfterMs < x.admittedAt := by omega
  cases hSt : x.state with
  | running =>
    simp only [Function.comp_apply, RelayExecution.mark, hAbandon, ne_eq, reduceCtorEq, not_false_eq_true, decide_true,
      Bool.and_true, Bool.true_and]
    exact decide_eq_decide.mpr Iff.rfl
  | expired =>
    have hAge := h.aged x hX hSt
    have hPast : ¬ w.clock + elapsed - x.admittedAt < ownerInFlightAbandonAfterMs := by omega
    simp [hPast]
  | released => simp

theorem Matched.countP_admittedSince (h : w.Matched) (elapsed : Nat) :
    w.executions.countP (admittedSince (w.clock + elapsed)) = (w.gate.sweep (w.clock + elapsed)).relayAdmissions.length := by
  obtain ⟨cut, hCut, hAdmissions⟩ := h.minute
  have hSince : admittedSince (w.clock + elapsed) =
      (fun admittedAt => decide (w.clock + elapsed - minuteMs < admittedAt) && decide (cut < admittedAt)) ∘
        RelayExecution.admittedAt := by
    funext x
    unfold admittedSince
    rw [Function.comp_apply, ← Bool.decide_and]
    exact decide_eq_decide.mpr (by omega)
  dsimp only [OwnerRelayGate.sweep]
  rw [hAdmissions, filter_filter, ← countP_eq_length_filter, countP_map, hSince]

theorem Matched.sound (h : w.Matched) (input : GateInput) (hOwn : w.OwnRelease input) : w.Sound input where
  limits elapsed args _ hOk := by
    rw [h.countP_inFlightAt, h.countP_admittedSince]
    obtain ⟨admission, hAsk, hNot⟩ | ⟨-, hInFlight, hMinute, -⟩ :=
      admitRelaySync_cases w.gate (w.clock + elapsed) args
    · rw [hAsk] at hOk
      exact absurd hOk hNot
    · exact ⟨hInFlight, hMinute⟩
  refused elapsed args generation reservation hInput hNever := by
    subst hInput
    unfold GateWorld.step
    obtain ⟨ledger, admission, reserved, hAsk, -⟩ | ⟨hFree, ledger, reserved, hAsk⟩ :=
      admitAndReserve_cases w.gate (w.clock + elapsed) args generation reservation
    · dsimp only
      rw [hAsk]
      rfl
    · rw [hAsk] at hNever
      dsimp only
      rw [hAsk]
      cases reserved with
      | reserved remaining => exact absurd rfl (hNever remaining)
      | _ => exact erase_append_self hFree rfl
  releases elapsed place hInput x hX row hRow := by
    subst hInput
    by_cases hId : row.requestId = x.requestId
    · have hFound := lookup_of_mem h.ids hRow
      rw [hId] at hFound
      have hRuns := hOwn x hX (by rw [hFound]; rfl)
      have hMark := h.row_mark (mem_of_getElem? hX) hRuns hFound
      exact .inr ⟨hRuns, hId, congrArg Prod.snd hMark⟩
    · refine .inl ?_
      unfold GateWorld.step
      dsimp only
      rw [Option.mem_def.mp hX]
      exact mem_filter.mpr ⟨hRow, decide_eq_true hId⟩

/-- In a run whose releases are their own, each next step of that kind keeps the promises. -/
theorem limits_of_run {inputs : List GateInput} (hRun : Along step OwnRelease {} inputs) {input : GateInput}
    (hOwn : (run step {} inputs).OwnRelease input) : (run step {} inputs).Sound input := by
  have hMatched : (run step {} inputs).Matched :=
    run_invariant (fun _ input hBefore hOwn => hBefore.step input hOwn) matched_empty hRun
  exact hMatched.sound input hOwn

def oneRelay : AdmitArgs := ⟨"anonymous", "relay", false⟩

theorem limits_of_oneRelay : (run step {} [.admitRelay 0 oneRelay]).Sound (.releaseRelay 5 0) := by
  have hAlong : Along step OwnRelease {} [.admitRelay 0 oneRelay] := ⟨trivial, trivial⟩
  refine limits_of_run hAlong fun x hX _ => ?_
  have hFirst : (run step {} [.admitRelay 0 oneRelay]).executions[0]? = some ⟨"relay", 0, .running⟩ := by decide
  obtain rfl := Option.some.inj (hFirst.symm.trans (Option.mem_def.mp hX))
  rfl

/-- The row has expired and the id is admitted again; then the first execution releases. -/
theorem releaseRelay_takes_another : ¬ (run step {} [.admitRelay 0 oneRelay, .admitRelay 2760000 oneRelay]).Sound
    (.releaseRelay 0 0) := by
  intro h
  have hFirst : (run step {} [.admitRelay 0 oneRelay, .admitRelay 2760000 oneRelay]).executions[0]? =
      some ⟨"relay", 0, .expired⟩ := by decide
  have hRow : (run step {} [.admitRelay 0 oneRelay, .admitRelay 2760000 oneRelay]).gate.inFlight =
      [⟨"relay", 2760000⟩] := by decide
  have hGone : ((run step {} [.admitRelay 0 oneRelay, .admitRelay 2760000 oneRelay]).step
      (.releaseRelay 0 0)).gate.inFlight = [] := by decide
  obtain hStays | ⟨hRunning, -⟩ := h.releases 0 0 rfl _ hFirst ⟨"relay", 2760000⟩ (hRow ▸ mem_singleton.mpr rfl)
  · rw [hGone] at hStays
    cases hStays
  · cases hRunning

end GateWorld

end Stella.Gateway
