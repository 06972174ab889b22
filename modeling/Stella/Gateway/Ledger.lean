import Stella.Library.Rows
import Mathlib.Data.Rat.Floor

/-! # The ledgers of the model gateway

A capability's ledger is an object of its own, one for each `jti`. The owner's store
keeps the accounts of all of them in one pair of tables, every row under its `jti`.
-/

namespace Stella.Gateway

open Stella.Rows

def gatewayBudgetUnlimited : Int := -1

def gatewayMaxResultCacheBytes : Nat := 8 * 1024 * 1024

def gatewayResultCacheTtlMs : Int := 10 * 60 * 1000

def gatewayUpstreamMaxDurationMs : Int := 45 * 60 * 1000

def inFlightAbandonAfterMs : Int := gatewayUpstreamMaxDurationMs + 60000

/-- `Math.round`. -/
def mathRound (value : ℚ) : Int := ⌊value + 1 / 2⌋

/-- A number that is not finite is `none`. -/
def clampMicroCents (value : Option ℚ) : Nat :=
  match value with
  | some v => (mathRound v).toNat
  | none => 0

structure LedgerReserveArgs where
  jti : String
  budgetMicroCents : ℚ
  maxRequests : Option ℚ
  expiresAt : ℚ
  requestId : String
  estimatedMicroCents : Option ℚ

inductive LedgerReserveResult
  | reserved (remainingMicroCents : Option Int)
  | replay (status : Int) (body : String)
  | inFlight
  | budgetExhausted (remainingMicroCents : Int)
  | requestLimit (maxRequests : Int)

structure LedgerSettleArgs where
  requestId : String
  chargedMicroCents : Option ℚ
  refundRequest : Bool
  result : Option (Int × String)

structure LedgerSettleResult where
  ok : Bool
  spentMicroCents : Nat
  reservedMicroCents : Nat
  cached : Bool

structure LedgerRow where
  jti : String
  budget : Int
  spent : Nat
  reserved : Nat
  requests : Nat
  maxRequests : Option Int
  expiresAt : Int

structure ResultRow where
  requestId : String
  status : Int
  body : Option String
  reserved : Nat
  createdAt : Int

def LedgerReserveArgs.row (args : LedgerReserveArgs) : LedgerRow :=
  ⟨args.jti, mathRound args.budgetMicroCents, 0, 0, 0, args.maxRequests.map Int.floor, mathRound args.expiresAt⟩

namespace LedgerRow

variable (row : LedgerRow)

def remaining : Option Int :=
  if row.budget = gatewayBudgetUnlimited ∨ row.budget < 0 then none
  else some (row.budget - row.spent - row.reserved)

def refusal (resumingAbandoned : Bool) (estimate : Nat) : Option LedgerReserveResult :=
  match row.maxRequests.filter (fun most => !resumingAbandoned && most ≤ (row.requests : Int)) with
  | some most => some (.requestLimit most)
  | none =>
    match row.remaining with
    | some remaining =>
      if row.budget < row.spent + row.reserved + estimate then some (.budgetExhausted (max 0 remaining)) else none
    | none => none

def granted (estimate : Nat) : LedgerReserveResult :=
  .reserved (row.remaining.map (fun remaining => max 0 (remaining - estimate)))

def release (reserved : Nat) : LedgerRow := { row with reserved := row.reserved - reserved }

def reserve (estimate : Nat) (resumingAbandoned : Bool) : LedgerRow :=
  { row with
    reserved := row.reserved + estimate
    requests := row.requests + if resumingAbandoned then 0 else 1 }

def settle (reserved charged : Nat) (refundRequest : Bool) : LedgerRow :=
  { row with
    reserved := row.reserved - reserved
    spent := row.spent + charged
    requests := row.requests - if refundRequest then 1 else 0 }

end LedgerRow

def LedgerSettleArgs.cacheable (args : LedgerSettleArgs) : Option (Int × String) :=
  args.result.filter (fun result => 0 < result.1 && result.2.utf8ByteSize ≤ gatewayMaxResultCacheBytes)

def ResultRow.cache (row : ResultRow) (result : Int × String) : ResultRow :=
  { row with status := result.1, body := some result.2, reserved := 0 }

/-! ## One capability -/

structure CapabilityLedger where
  ledger : List LedgerRow := []
  results : List ResultRow := []

namespace CapabilityLedger

variable (l : CapabilityLedger)

def ledgerRow : Option LedgerRow := l.ledger.head?

def updateLedger (f : LedgerRow → LedgerRow) : CapabilityLedger := { l with ledger := l.ledger.map f }

def result (requestId : String) : Option ResultRow := lookup ResultRow.requestId l.results requestId

def deleteResult (requestId : String) : CapabilityLedger :=
  { l with results := erase ResultRow.requestId l.results requestId }

def cacheResult (requestId : String) (result : Int × String) : CapabilityLedger :=
  { l with results := modify ResultRow.requestId l.results requestId (fun r => r.cache result) }

def insertResult (row : ResultRow) : CapabilityLedger := { l with results := l.results ++ [row] }

def ensureRow (args : LedgerReserveArgs) : CapabilityLedger :=
  match l.ledgerRow with
  | some _ => l
  | none => { l with ledger := l.ledger ++ [args.row] }

/-- The end of `reserve`, once no other request of the id is in the way. -/
def grant (row : LedgerRow) (resumingAbandoned : Bool) (now : Int) (args : LedgerReserveArgs) :
    CapabilityLedger × LedgerReserveResult :=
  let estimate := clampMicroCents args.estimatedMicroCents
  match row.refusal resumingAbandoned estimate with
  | some refusal => (l, refusal)
  | none =>
    ((l.insertResult ⟨args.requestId, 0, none, estimate, now⟩).updateLedger (fun r => r.reserve estimate resumingAbandoned),
      row.granted estimate)

def reserve (now : Int) (args : LedgerReserveArgs) : CapabilityLedger × LedgerReserveResult :=
  let opened := l.ensureRow args
  -- A row that was just inserted is read back.
  let row := l.ledgerRow.getD args.row
  match opened.result args.requestId with
  | none => opened.grant row false now args
  | some existing =>
    match existing.body.filter (fun _ => 0 < existing.status) with
    | some body => (opened, .replay existing.status body)
    | none =>
      if now - existing.createdAt ≤ inFlightAbandonAfterMs then (opened, .inFlight)
      else
        let released := (opened.updateLedger (fun r => r.release existing.reserved)).deleteResult args.requestId
        released.grant (released.ledgerRow.getD row) true now args

def settle (args : LedgerSettleArgs) : CapabilityLedger × LedgerSettleResult :=
  match l.ledgerRow, (l.result args.requestId).filter (fun pending => pending.status ≤ 0) with
  | some _, some pending =>
    let charged := l.updateLedger
      (fun r => r.settle pending.reserved (clampMicroCents args.chargedMicroCents) args.refundRequest)
    let stored := match args.cacheable with
      | some result => charged.cacheResult args.requestId result
      | none => charged.deleteResult args.requestId
    (stored, ⟨true, (stored.ledgerRow.map LedgerRow.spent).getD 0, (stored.ledgerRow.map LedgerRow.reserved).getD 0,
      args.cacheable.isSome⟩)
  | row, _ => (l, ⟨false, (row.map LedgerRow.spent).getD 0, (row.map LedgerRow.reserved).getD 0, false⟩)

end CapabilityLedger

/-! ## All capabilities of an owner -/

structure OwnerResultRow extends ResultRow where
  jti : String

def OwnerResultRow.cache (row : OwnerResultRow) (result : Int × String) : OwnerResultRow :=
  { row with toResultRow := row.toResultRow.cache result }

def OwnerResultRow.key (r : OwnerResultRow) : String × String := (r.jti, r.requestId)

structure OwnerLedgerStore where
  ledger : List LedgerRow := []
  results : List OwnerResultRow := []

namespace OwnerLedgerStore

variable (s : OwnerLedgerStore)

def ledgerRow (jti : String) : Option LedgerRow := lookup LedgerRow.jti s.ledger jti

def updateLedger (jti : String) (f : LedgerRow → LedgerRow) : OwnerLedgerStore :=
  { s with ledger := modify LedgerRow.jti s.ledger jti f }

def result (jti requestId : String) : Option OwnerResultRow := lookup OwnerResultRow.key s.results (jti, requestId)

def deleteResult (jti requestId : String) : OwnerLedgerStore :=
  { s with results := erase OwnerResultRow.key s.results (jti, requestId) }

def cacheResult (jti requestId : String) (result : Int × String) : OwnerLedgerStore :=
  { s with results := modify OwnerResultRow.key s.results (jti, requestId) (fun r => r.cache result) }

def insertResult (row : OwnerResultRow) : OwnerLedgerStore := { s with results := s.results ++ [row] }

def ensureRow (args : LedgerReserveArgs) : OwnerLedgerStore :=
  match s.ledgerRow args.jti with
  | some _ => s
  | none => { s with ledger := s.ledger ++ [args.row] }

def grant (row : LedgerRow) (resumingAbandoned : Bool) (now : Int) (args : LedgerReserveArgs) :
    OwnerLedgerStore × LedgerReserveResult :=
  let estimate := clampMicroCents args.estimatedMicroCents
  match row.refusal resumingAbandoned estimate with
  | some refusal => (s, refusal)
  | none =>
    ((s.insertResult ⟨⟨args.requestId, 0, none, estimate, now⟩, args.jti⟩).updateLedger args.jti
        (fun r => r.reserve estimate resumingAbandoned),
      row.granted estimate)

def reserveSync (now : Int) (args : LedgerReserveArgs) : OwnerLedgerStore × LedgerReserveResult :=
  let opened := s.ensureRow args
  let row := (s.ledgerRow args.jti).getD args.row
  match opened.result args.jti args.requestId with
  | none => opened.grant row false now args
  | some existing =>
    match existing.body.filter (fun _ => 0 < existing.status) with
    | some body => (opened, .replay existing.status body)
    | none =>
      if now - existing.createdAt ≤ inFlightAbandonAfterMs then (opened, .inFlight)
      else
        let released := (opened.updateLedger args.jti (fun r => r.release existing.reserved)).deleteResult args.jti args.requestId
        released.grant ((released.ledgerRow args.jti).getD row) true now args

def settle (jti : String) (args : LedgerSettleArgs) : OwnerLedgerStore × LedgerSettleResult :=
  match s.ledgerRow jti, (s.result jti args.requestId).filter (fun pending => pending.status ≤ 0) with
  | some _, some pending =>
    let charged := s.updateLedger jti
      (fun r => r.settle pending.reserved (clampMicroCents args.chargedMicroCents) args.refundRequest)
    let stored := match args.cacheable with
      | some result => charged.cacheResult jti args.requestId result
      | none => charged.deleteResult jti args.requestId
    (stored, ⟨true, ((stored.ledgerRow jti).map LedgerRow.spent).getD 0, ((stored.ledgerRow jti).map LedgerRow.reserved).getD 0,
      args.cacheable.isSome⟩)
  | row, _ => (s, ⟨false, (row.map LedgerRow.spent).getD 0, (row.map LedgerRow.reserved).getD 0, false⟩)

def alarm (now : Int) : OwnerLedgerStore :=
  let dropped := (s.ledger.filter (fun r => r.expiresAt ≤ now - gatewayResultCacheTtlMs)).map LedgerRow.jti
  { s with
    results := s.results.filter (fun r => !dropped.contains r.jti)
    ledger := s.ledger.filter (fun r => !(r.expiresAt ≤ now - gatewayResultCacheTtlMs)) }

end OwnerLedgerStore

end Stella.Gateway
