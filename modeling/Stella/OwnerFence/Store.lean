import Mathlib.Data.List.Sort
import Stella.Library.Rows

/-! # OwnerFenceStore

The leases of one owner's fence. Each method is synchronous; `none` is a validation error,
which changes nothing.
-/

namespace Stella.OwnerFence

open Rows

def retiredRetentionMs : Nat := 2 * 60 * 60000
def retiredPruneLimit : Nat := 256
def legacyMirrorMaxEntries : Nat := 512

inductive LeaseNamespace
  | build
  | orchestrator
  | activity
  deriving DecidableEq

inductive LeaseRole
  | run
  | aux
  | orchestrator
  | activity
  deriving DecidableEq

structure LeaseIdentity where
  leaseId : String
  ownerId : String
  ownerGeneration : String
  /-- The generation of the fence that the lease was registered under. -/
  reservationGeneration : Nat
  sessionId : String
  turnId : String
  leaseNamespace : LeaseNamespace
  role : LeaseRole
  deriving DecidableEq

/-- A row of `owner_fence_leases`; it is active as long as it has no `retired_at`. -/
structure Lease where
  identity : LeaseIdentity
  expiresAt : Nat
  createdAt : Nat
  renewedAt : Nat
  retiredAt : Option Nat
  deriving DecidableEq

def Lease.leaseId (lease : Lease) : String := lease.identity.leaseId

def Lease.active (lease : Lease) : Bool := lease.retiredAt.isNone

structure FenceEnv where
  ownerId : String
  validText : String → Bool
  maxLeaseMs : Nat
  clockSkewMs : Nat
  leaseTtlMs : Nat
  maxLeaseMs_pos : 0 < maxLeaseMs

inductive MutationStatus
  | renewed (lease : Lease)
  | retired
  | missing
  | expired
  | alreadyRetired
  | identityMismatch

inductive RegistrationStatus
  | registered (lease : Lease)
  | replayed (lease : Lease)
  | leaseIdConflict
  | leaseRetired

namespace Store

variable (env : FenceEnv) (rows : List Lease)

def lease (leaseId : String) : Option Lease := lookup Lease.leaseId rows leaseId

def retire (now : Nat) (lease : Lease) : Lease := { lease with retiredAt := some now }

def due (now : Nat) (lease : Lease) : Bool := lease.active && decide (lease.expiresAt ≤ now)

def expireDueLeases (now : Nat) : List Lease := rows.map fun lease => if due now lease then retire now lease else lease

def activeLease (leaseId : String) (now : Nat) : Option Lease := (lease (expireDueLeases rows now) leaseId).filter Lease.active

def activeLeaseCount (now : Nat) : Nat := (expireDueLeases rows now).countP Lease.active

def assertIdentity (identity : LeaseIdentity) : Bool :=
  env.validText identity.leaseId && env.validText identity.ownerId && env.validText identity.ownerGeneration &&
    env.validText identity.sessionId && env.validText identity.turnId

def boundedExpiry (expiresAt now : Nat) : Option Nat :=
  if expiresAt ≤ now ∨ now + env.maxLeaseMs + env.clockSkewMs < expiresAt then none
  else some (min expiresAt (now + env.maxLeaseMs))

def registerLeaseExact (identity : LeaseIdentity) (expiresAt now : Nat) : Option (List Lease × RegistrationStatus) :=
  if assertIdentity env identity then
    (boundedExpiry env expiresAt now).map fun bounded =>
      let rows := expireDueLeases rows now
      match lease rows identity.leaseId with
      | some existing =>
        if existing.identity ≠ identity then (rows, .leaseIdConflict)
        else if !existing.active then (rows, .leaseRetired)
        else (rows, .replayed existing)
      | none =>
        let lease : Lease := ⟨identity, bounded, now, now, none⟩
        (rows ++ [lease], .registered lease)
  else none

def renewLeaseExact (identity : LeaseIdentity) (expiresAt now : Nat) : Option (List Lease × MutationStatus) :=
  if assertIdentity env identity then
    (boundedExpiry env expiresAt now).map fun bounded =>
      match lease rows identity.leaseId with
      | none => (rows, .missing)
      | some existing =>
        if existing.identity ≠ identity then (rows, .identityMismatch)
        else if !existing.active then (rows, .alreadyRetired)
        else if existing.expiresAt ≤ now then (modify Lease.leaseId rows identity.leaseId (retire now), .expired)
        else
          let lease := { existing with expiresAt := bounded, renewedAt := now }
          (modify Lease.leaseId rows identity.leaseId (fun _ => lease), .renewed lease)
  else none

def retireLeaseExact (identity : LeaseIdentity) (now : Nat) : Option (List Lease × MutationStatus) :=
  if assertIdentity env identity then
    match lease rows identity.leaseId with
    | none => some (rows, .missing)
    | some existing =>
      if existing.identity ≠ identity then some (rows, .identityMismatch)
      else if !existing.active then some (rows, .alreadyRetired)
      else some (modify Lease.leaseId rows identity.leaseId (retire now), .retired)
  else none

def stale (now : Nat) (lease : Lease) : Bool := lease.retiredAt.any fun retiredAt => retiredAt + retiredRetentionMs ≤ now

def pruneRetiredLeases (now : Nat) : List Lease :=
  let pruned := (((rows.filter (stale now)).mergeSort fun a b => a.retiredAt.getD 0 ≤ b.retiredAt.getD 0).take retiredPruneLimit).map
    Lease.leaseId
  rows.filter fun lease => lease.leaseId ∉ pruned

/-- `boundedLegacyActiveMirror` is complete: active leases are never left out of it. -/
def mirrorComplete (now : Nat) : Bool := activeLeaseCount rows now ≤ legacyMirrorMaxEntries

end Store

end Stella.OwnerFence
