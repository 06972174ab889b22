import Stella.Library.Transition
import Stella.OwnerFence.Store

/-! # The requests to an owner's fence

Each request first retires the leases that are due. A purge begins a new generation of the
fence, under which no lease is registered, renewed or asserted before it is released.
-/

namespace Stella.OwnerFence

open Store

inductive PurgeMode
  | temporary
  | permanent
  deriving DecidableEq

structure Fence where
  clock : Nat := 0
  rows : List Lease := []
  generation : Nat := 0
  nextGeneration : Nat := 1
  blocked : Bool := false
  mode : Option PurgeMode := none
  beginRequestId : Option String := none
  lastReleasedGeneration : Option Nat := none
  rejoinedFromGeneration : Option Nat := none

inductive BeginDisposition
  | start (mode : PurgeMode) (rejoined : Bool)
  | resume (upgradeToPermanent : Bool)
  | reject

structure Registration where
  generation : Option Nat
  leaseId : String
  sessionId : String
  turnId : String
  ownerGeneration : String
  leaseNamespace : LeaseNamespace
  role : LeaseRole
  expiresAt : Option Nat

inductive Request
  | register (body : Registration)
  | unregister (leaseId sessionId turnId ownerGeneration : String)
  | renew (generation : Nat) (leaseId sessionId turnId ownerGeneration : String)
  | assert (generation : Nat) (leaseId ownerGeneration : String)
  | begin (requestId : String) (expectedGeneration : Option Nat) (mode : PurgeMode)
  | release (generation : Nat)
  | alarm

inductive Answer
  | ok
  | refused
  deriving DecidableEq

namespace Fence

variable (env : FenceEnv) (w : Fence)

def ownerPurgeBeginDisposition (requestId : String) (expectedGeneration : Option Nat) (requestedMode : PurgeMode) : BeginDisposition :=
  if requestId = "" then .reject
  else if w.blocked then
    match expectedGeneration with
    | none => if some requestId = w.beginRequestId then .resume (requestedMode = .permanent) else .reject
    | some expected =>
      if expected = w.generation then .resume (requestedMode = .permanent)
      else if some expected = w.rejoinedFromGeneration then .resume false
      else .reject
  else
    match expectedGeneration with
    | none => .start requestedMode false
    | some expected => if some expected = w.lastReleasedGeneration then .start .temporary true else .reject

def commit (before after : Fence) : Fence × Answer :=
  if mirrorComplete after.rows after.clock then (after, .ok) else (before, .refused)

def requestedExpiry (body : Registration) : Nat :=
  match body.expiresAt with
  | some expiresAt => if w.clock < expiresAt then expiresAt else w.clock + env.leaseTtlMs
  | none => w.clock + env.leaseTtlMs

def register (body : Registration) : Fence × Answer :=
  let now := w.clock
  if w.blocked then (w, .refused)
  else if body.generation.any (· ≠ w.generation) ∨ body.leaseId = "" ∨ body.sessionId = "" ∨ body.turnId = "" ∨ body.ownerGeneration = "" then
    (w, .refused)
  else
    let expiresAt := w.requestedExpiry env body
    let identity : LeaseIdentity :=
      ⟨body.leaseId, env.ownerId, body.ownerGeneration, w.generation, body.sessionId, body.turnId, body.leaseNamespace, body.role⟩
    if activeLease w.rows body.leaseId now = none ∧ legacyMirrorMaxEntries ≤ activeLeaseCount w.rows now then (w, .refused)
    else
      match registerLeaseExact env (pruneRetiredLeases w.rows now) identity expiresAt now with
      | none => (w, .refused)
      | some (rows, .leaseIdConflict) => ({ w with rows }, .refused)
      | some (rows, .leaseRetired) => ({ w with rows }, .refused)
      | some (rows, .registered _) => w.commit { w with rows }
      | some (rows, .replayed lease) =>
        match renewLeaseExact env rows lease.identity expiresAt now with
        | none => (w, .refused)
        | some (rows, _) => w.commit { w with rows }

def unregister (leaseId sessionId turnId ownerGeneration : String) : Fence × Answer :=
  if leaseId = "" ∨ sessionId = "" ∨ turnId = "" then (w, .refused)
  else
    match lease w.rows leaseId with
    | none => (w, .ok)
    | some active =>
      if !active.active then (w, .ok)
      else if active.identity.sessionId ≠ sessionId ∨ active.identity.turnId ≠ turnId ∨ active.identity.ownerGeneration ≠ ownerGeneration then
        (w, .refused)
      else
        match retireLeaseExact env w.rows active.identity w.clock with
        | some (rows, .retired) => w.commit { w with rows }
        | some (rows, .alreadyRetired) => w.commit { w with rows }
        | _ => (w, .refused)

/-- The end of `renew` and `assert`, for the lease they read. -/
def renewed (active : Lease) : Fence × Answer :=
  match renewLeaseExact env w.rows active.identity (w.clock + env.leaseTtlMs) w.clock with
  | some (rows, .renewed _) => w.commit { w with rows }
  | some (rows, _) => ({ w with rows }, .refused)
  | none => (w, .refused)

def renew (generation : Nat) (leaseId sessionId turnId ownerGeneration : String) : Fence × Answer :=
  if w.blocked ∨ generation ≠ w.generation ∨ leaseId = "" ∨ sessionId = "" ∨ turnId = "" then (w, .refused)
  else
    match activeLease w.rows leaseId w.clock with
    | none => (w, .refused)
    | some active =>
      if active.identity.sessionId ≠ sessionId ∨ active.identity.turnId ≠ turnId ∨ active.identity.ownerGeneration ≠ ownerGeneration then
        (w, .refused)
      else w.renewed env active

def assert (generation : Nat) (leaseId ownerGeneration : String) : Fence × Answer :=
  if w.blocked ∨ generation ≠ w.generation ∨ leaseId = "" then (w, .refused)
  else
    match activeLease w.rows leaseId w.clock with
    | none => (w, .refused)
    | some active =>
      if active.identity.ownerGeneration ≠ ownerGeneration then (w, .refused)
      else if env.leaseTtlMs < 2 * (active.expiresAt - w.clock) then (w, .ok)
      else w.renewed env active

def begin (requestId : String) (expectedGeneration : Option Nat) (mode : PurgeMode) : Fence × Answer :=
  match w.ownerPurgeBeginDisposition requestId expectedGeneration mode with
  | .reject => (w, .refused)
  | .start mode rejoined =>
    ({ w with
      generation := w.nextGeneration
      nextGeneration := w.nextGeneration + 1
      blocked := true
      mode := some mode
      beginRequestId := some requestId
      rejoinedFromGeneration := if rejoined then expectedGeneration else none }, .ok)
  | .resume upgradeToPermanent => (if upgradeToPermanent then { w with mode := some .permanent } else w, .ok)

def release (generation : Nat) : Fence × Answer :=
  if !w.blocked ∧ w.lastReleasedGeneration = some generation then (w, .ok)
  else if w.blocked ∧ w.mode = some .temporary ∧ generation = w.generation ∧ activeLeaseCount w.rows w.clock = 0 then
    ({ w with
      lastReleasedGeneration := some w.generation
      generation := w.nextGeneration
      nextGeneration := w.nextGeneration + 1
      blocked := false
      mode := none
      beginRequestId := none
      rejoinedFromGeneration := none }, .ok)
  else (w, .refused)

def alarm : Fence × Answer := w.commit { w with rows := expireDueLeases (pruneRetiredLeases w.rows w.clock) w.clock }

def respond : Request → Fence × Answer
  | .register body => w.register env body
  | .unregister leaseId sessionId turnId ownerGeneration => w.unregister env leaseId sessionId turnId ownerGeneration
  | .renew generation leaseId sessionId turnId ownerGeneration => w.renew env generation leaseId sessionId turnId ownerGeneration
  | .assert generation leaseId ownerGeneration => w.assert env generation leaseId ownerGeneration
  | .begin requestId expectedGeneration mode => w.begin requestId expectedGeneration mode
  | .release generation => w.release generation
  | .alarm => w.alarm

def at' (elapsed : Nat) : Fence := { w with clock := w.clock + elapsed }

def handle (elapsed : Nat) (request : Request) : Fence × Answer :=
  let w := w.at' elapsed
  match request with
  | .alarm => w.alarm
  | request =>
    let later := { w with rows := expireDueLeases w.rows w.clock }
    if w.rows.any (due w.clock) && !mirrorComplete later.rows w.clock then (later, .refused) else later.respond env request

def step (input : Nat × Request) : Fence := (w.handle env input.1 input.2).1

def answer (input : Nat × Request) : Answer := (w.handle env input.1 input.2).2

end Fence

end Stella.OwnerFence
