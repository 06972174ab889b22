import Stella.Library.InsertionMap
import Stella.Library.Transition

/-! # Memory permissions and the model grants under them

The owner's object has one policy change at a time: pending, then the grants of the readers
frozen, then applied to the home state.
-/

namespace Stella.MemoryGrants

structure MemoryPolicy where
  ownerGeneration : String
  memoryEpoch : String
  memoryEnabled : Bool
  revision : Nat
  deriving DecidableEq

def memoryPoliciesMatch (left right : MemoryPolicy) : Bool :=
  left.ownerGeneration = right.ownerGeneration && left.memoryEpoch = right.memoryEpoch &&
    left.memoryEnabled = right.memoryEnabled && left.revision = right.revision

inductive ChangeKind
  | preference (expectedRevision : Nat) (memoryEnabled : Bool)
  | wipe (expectedMemoryEpoch : String)
  deriving DecidableEq

structure MemoryPolicyChange where
  expectedOwnerGeneration : String
  requestId : String
  kind : ChangeKind
  deriving DecidableEq

inductive Phase
  | applying
  | wiping
  deriving DecidableEq

structure PendingChange where
  change : MemoryPolicyChange
  phase : Phase

structure CachedPolicy where
  fenceGeneration : String
  policy : MemoryPolicy

/-! ## The home state -/

structure PolicyRequest where
  requestId : String
  revision : Nat
  enabled : Bool
  deriving DecidableEq

structure Wipe where
  requestId : String
  targetEpoch : String

structure Home where
  memoryEnabled : Bool := true
  policyRevision : Nat := 0
  memoryEpoch : String := "initial"
  wiping : Bool := false
  policyRequest : Option PolicyRequest := none
  wipe : Option Wipe := none

namespace Home

variable (home : Home)

def readMemoryPolicy (ownerGeneration : String) : Option MemoryPolicy :=
  if home.wiping then none else some ⟨ownerGeneration, home.memoryEpoch, home.memoryEnabled, home.policyRevision⟩

/-- `none` is a refusal; a request that was applied before changes nothing. -/
def startWipe (requestId expectedEpoch : String) : Option Home :=
  if home.wipe.any (fun wipe => wipe.requestId = requestId) then
    if home.wipe.any (fun wipe => wipe.targetEpoch = expectedEpoch) then some home else none
  else if home.wiping then none
  else if home.memoryEpoch ≠ expectedEpoch then none
  else some { home with wiping := true, wipe := some ⟨requestId, home.memoryEpoch⟩ }

def applyMemoryPolicyChange (change : MemoryPolicyChange) : Option Home :=
  match change.kind with
  | .wipe expectedEpoch => home.startWipe change.requestId expectedEpoch
  | .preference expectedRevision memoryEnabled =>
    if home.policyRequest.any (fun r => r.requestId = change.requestId) then
      if home.policyRequest = some ⟨change.requestId, expectedRevision, memoryEnabled⟩ then some home else none
    else if home.policyRevision ≠ expectedRevision then none
    else some { home with
      memoryEnabled
      policyRevision := home.policyRevision + 1
      policyRequest := some ⟨change.requestId, expectedRevision, memoryEnabled⟩ }

def finishWipe (nextEpoch : String) : Home :=
  if home.wiping then { home with memoryEpoch := nextEpoch, wiping := false } else home

end Home

/-! ## Readers -/

structure GrantId where
  leaseId : String
  readerId : Nat
  expiresAt : Nat
  deriving DecidableEq

structure Grant where
  ownerGeneration : String
  conversationId : String
  turnId : String
  leaseId : String
  fenceGeneration : String
  readerId : Nat
  expiresAt : Nat
  memoryPolicy : MemoryPolicy
  deriving DecidableEq

def Grant.grantId (grant : Grant) : GrantId := ⟨grant.leaseId, grant.readerId, grant.expiresAt⟩

structure Expectation where
  ownerGeneration : String
  conversationId : String
  turnId : String
  leaseId : String
  fenceGeneration : String
  memoryPolicy : MemoryPolicy

structure ActiveRequest where
  request : Nat
  ownerGeneration : String
  grantId : GrantId
  aborted : Bool

/-- `LocalOwnerModelGrants` of one isolate, and the grants its turns hold. -/
structure Reader where
  readerId : Nat
  revoked : List (String × GrantId) := []
  active : List ActiveRequest := []
  freezeEpochs : InsertionMap String Nat := []
  held : List Grant := []

namespace Reader

variable (reader : Reader) (now : Nat)

def freezeEpoch (ownerGeneration : String) : Nat := (InsertionMap.get? reader.freezeEpochs ownerGeneration).getD 0

def clean : Reader := { reader with revoked := reader.revoked.filter (fun key => now < key.2.expiresAt) }

def valid (grant : Grant) (expected : Expectation) : Bool :=
  grant.readerId = reader.readerId && now < grant.expiresAt &&
    (grant.ownerGeneration, grant.grantId) ∉ (reader.clean now).revoked &&
    grant.ownerGeneration = expected.ownerGeneration && grant.conversationId = expected.conversationId &&
    grant.turnId = expected.turnId && grant.leaseId = expected.leaseId &&
    grant.fenceGeneration = expected.fenceGeneration && memoryPoliciesMatch grant.memoryPolicy expected.memoryPolicy

def validAfter (grant : Grant) (expected : Expectation) (freezeEpoch : Nat) : Bool :=
  reader.freezeEpoch expected.ownerGeneration = freezeEpoch && reader.valid now grant expected

def «begin» (request : Nat) (grant : Grant) (expected : Expectation) : Reader :=
  if reader.valid now grant expected then
    { reader.clean now with
      active := reader.active ++ [⟨request, grant.ownerGeneration, grant.grantId, false⟩] }
  else reader.clean now

def release (request : Nat) : Reader := { reader with active := reader.active.filter (fun a => a.request ≠ request) }

def freeze (ownerGeneration : String) (readerId : Nat) (grants : List GrantId) : Reader :=
  if readerId ≠ reader.readerId then reader
  else
    { reader.clean now with
      freezeEpochs := InsertionMap.set reader.freezeEpochs ownerGeneration (reader.freezeEpoch ownerGeneration + 1)
      revoked := (reader.clean now).revoked ++
        (grants.filter (fun id => now < id.expiresAt)).map (fun id => (ownerGeneration, id))
      active := reader.active.map (fun a =>
        if a.ownerGeneration = ownerGeneration ∧ a.grantId ∈ grants then { a with aborted := true } else a) }

end Reader

/-! ## The owner's object -/

inductive GrantState
  | active
  | revoking
  | revoked
  deriving DecidableEq

structure GrantRow where
  grant : Grant
  state : GrantState

structure Ask where
  expected : Expectation
  readerId : Nat
  epoch : Option Nat
  answer : Option Grant

structure FreezeRequest where
  ownerGeneration : String
  conversationId : String
  readerId : Nat
  grants : List GrantId

structure FreezeCall where
  request : FreezeRequest
  landed : Bool
  settled : Option Bool

inductive Purpose
  | change
  | barrier

/-- The section of `blockConcurrencyWhile` that waits for its readers. -/
structure Revocation where
  purpose : Purpose
  calls : List FreezeCall

structure World where
  now : Nat := 0
  fenceGeneration : String := "f"
  fenceOpen : Bool := true
  fenceBarrier : Option String := none
  pending : Option PendingChange := none
  cache : Option CachedPolicy := none
  home : Home := {}
  rows : List GrantRow := []
  latest : InsertionMap String Nat := []
  exclusive : Option Revocation := none
  /-- freeze requests that nobody waits for any more -/
  strays : List FreezeRequest := []
  readers : InsertionMap String Reader := []
  nextId : Nat := 0
  asks : List Ask := []
  /-- every grant there was, in order -/
  issued : List Grant := []
  /-- the changes applied: their owner generation, and how many grants there had been -/
  applied : List (String × Nat) := []
  retired : List String := []

def gatewayUpstreamMaxDurationMs : Nat := 45 * 60 * 1000

namespace World

variable (w : World)

def reader (conversationId : String) : Option Reader := InsertionMap.get? w.readers conversationId

def setReader (conversationId : String) (r : Reader) : World :=
  { w with readers := InsertionMap.set w.readers conversationId r }

def startReader (conversationId : String) : World :=
  { w.setReader conversationId { readerId := w.nextId } with nextId := w.nextId + 1 }

/-! ## Admission -/

/-- `assertCurrent`: a change of another generation goes, one of this generation closes it. -/
def assertCurrent (expected : MemoryPolicy) (fenceGeneration : String) (readOk : Bool) : World × Bool :=
  if !w.fenceOpen || w.fenceGeneration ≠ fenceGeneration || w.fenceBarrier ≠ none then (w, false)
  else if w.pending.any (fun p => p.change.expectedOwnerGeneration = expected.ownerGeneration) then (w, false)
  else
    let settled := if w.pending ≠ none then { w with pending := none, cache := none } else w
    match settled.cache.filter (fun c =>
        c.fenceGeneration = fenceGeneration && c.policy.ownerGeneration = expected.ownerGeneration) with
    | some cached => (settled, memoryPoliciesMatch cached.policy expected)
    | none =>
      match if readOk then settled.home.readMemoryPolicy expected.ownerGeneration else none with
      | some policy =>
        ({ settled with cache := some ⟨fenceGeneration, policy⟩ }, memoryPoliciesMatch policy expected)
      | none => (settled, false)

/-! ## Grants -/

def retireExpired : World :=
  { w with rows := w.rows.filter (fun row => w.now < row.grant.expiresAt + gatewayUpstreamMaxDurationMs) }

def record (id : GrantId) : Option GrantRow := w.rows.find? (fun row => row.grant.grantId = id)

def issueGrant (grant : Grant) : World × Option Grant :=
  let kept := w.retireExpired
  if grant.expiresAt ≤ kept.now then (kept, none)
  else if kept.fenceBarrier ≠ none then (kept, none)
  else if InsertionMap.get? kept.latest grant.conversationId ≠ some grant.readerId then (kept, none)
  else match kept.record grant.grantId with
    | some row => (kept, if row.grant = grant ∧ row.state = .active then some row.grant else none)
    | none => ({ kept with rows := kept.rows ++ [⟨grant, .active⟩], issued := kept.issued ++ [grant] }, some grant)

/-- `authorizeGrant` of `issueModelGrant`; `leaseOk` and `expiresAt` are what the fence holds of the lease. -/
def issueModelGrant (expected : Expectation) (readerId expiresAt : Nat) (leaseOk readOk : Bool) : World × Option Grant :=
  if expected.memoryPolicy.ownerGeneration ≠ expected.ownerGeneration then (w, none)
  else
    let asserted := w.assertCurrent expected.memoryPolicy expected.fenceGeneration readOk
    if !asserted.2 || !leaseOk || expected.leaseId ∈ w.retired then (asserted.1, none)
    else
      { asserted.1 with latest := InsertionMap.set asserted.1.latest expected.conversationId readerId }.issueGrant
        ⟨expected.ownerGeneration, expected.conversationId, expected.turnId, expected.leaseId,
          expected.fenceGeneration, readerId, expiresAt, expected.memoryPolicy⟩

def retireExactTurnLease (ownerGeneration turnId leaseId : String) : World :=
  { w.retireExpired with
    rows := w.retireExpired.rows.filter (fun row => !(row.grant.ownerGeneration = ownerGeneration &&
      row.grant.turnId = turnId && row.grant.leaseId = leaseId))
    retired := w.retired ++ [leaseId] }

/-! ## Revocation -/

def target (ownerGeneration : Option String) (row : GrantRow) : Bool :=
  row.state ≠ .revoked && (ownerGeneration = none || ownerGeneration = some row.grant.ownerGeneration)

def freezeKey (row : GrantRow) : String × String × Nat :=
  (row.grant.ownerGeneration, row.grant.conversationId, row.grant.readerId)

def freezeRequests (targets : List GrantRow) : List FreezeRequest :=
  (targets.map freezeKey).dedup.map (fun key => ⟨key.1, key.2.1, key.2.2,
    (targets.filter (fun row => freezeKey row = key)).map (fun row => row.grant.grantId)⟩)

/-- `revokeAll` up to the answers of the readers: the grants are closed before a reader is asked. -/
def revokeAll (ownerGeneration : Option String) (purpose : Purpose) : World :=
  let kept := w.retireExpired
  { kept with
    rows := kept.rows.map (fun row => if target ownerGeneration row then { row with state := .revoking } else row)
    exclusive := some ⟨purpose, (freezeRequests (kept.rows.filter (target ownerGeneration))).map (⟨·, false, none⟩)⟩ }

def freezeAt (request : FreezeRequest) : World :=
  match w.reader request.conversationId with
  | some r => w.setReader request.conversationId (r.freeze w.now request.ownerGeneration request.readerId request.grants)
  | none => w.startReader request.conversationId

def modifyCall (k : Nat) (f : FreezeCall → FreezeCall) : World :=
  { w with exclusive := w.exclusive.map (fun e => { e with calls := e.calls.modify k f }) }

def leave (e : Revocation) : World :=
  { w with
    exclusive := none
    strays := w.strays ++ (e.calls.filter (fun c => !c.landed)).map FreezeCall.request }

def frozenIds (e : Revocation) : List GrantId :=
  ((e.calls.filter (fun c => c.settled = some true)).map (fun c => c.request.grants)).flatten

def markRevoked (e : Revocation) : World :=
  { w with rows := w.rows.map (fun row =>
      if row.grant.grantId ∈ frozenIds e then { row with state := .revoked } else row) }

/-! ## Changes -/

inductive Outcome
  /-- the home state has answered -/
  | answered
  /-- no answer, with or without effect -/
  | unknown (applied : Bool)
  deriving DecidableEq

def settle (ownerGeneration : String) (readOk : Bool) : World :=
  match if readOk then w.home.readMemoryPolicy ownerGeneration else none with
  | some policy => { w with cache := some ⟨w.fenceGeneration, policy⟩, pending := none }
  | none => w

def apply (change : MemoryPolicyChange) (home : Home) : World :=
  { w with home, applied := w.applied ++ [(change.expectedOwnerGeneration, w.issued.length)] }

/-- `finish` once the readers are frozen. -/
def finish (change : MemoryPolicyChange) (outcome : Outcome) (readOk : Bool) : World :=
  match w.home.applyMemoryPolicyChange change, outcome with
  | _, .unknown false => w
  | none, .unknown true => w
  | some home, .unknown true => w.apply change home
  | none, .answered => { w with pending := none, cache := none }
  | some home, .answered =>
    match change.kind with
    | .wipe _ => { w.apply change home with pending := some ⟨change, .wiping⟩, cache := none }
    | .preference _ _ => (w.apply change home).settle change.expectedOwnerGeneration readOk

def finishWiping (change : MemoryPolicyChange) (readOk : Bool) : World :=
  match if readOk then w.home.readMemoryPolicy change.expectedOwnerGeneration else none with
  | some policy =>
    match change.kind with
    | .wipe expectedEpoch =>
      if policy.memoryEpoch = expectedEpoch then w else w.settle change.expectedOwnerGeneration readOk
    | .preference _ _ => w.settle change.expectedOwnerGeneration readOk
  | none => w

def change (change : MemoryPolicyChange) : World :=
  if w.pending.any (fun p => p.change ≠ change) then w
  else if w.pending.any (fun p => p.phase = .wiping) then w
  else { w with pending := some ⟨change, .applying⟩ }.revokeAll (some change.expectedOwnerGeneration) .change

def retry (readOk : Bool) : World :=
  match w.pending with
  | none => w
  | some ⟨change, .applying⟩ => w.revokeAll (some change.expectedOwnerGeneration) .change
  | some ⟨change, .wiping⟩ => w.finishWiping change readOk

def settled (e : Revocation) (outcome : Outcome) (readOk : Bool) : World :=
  let marked := (w.leave e).markRevoked e
  if e.calls.any (fun c => c.settled = some false) then marked
  else match e.purpose, marked.pending with
    | .change, some p => marked.finish p.change outcome readOk
    | .change, none => marked
    -- a definite result of the fence closes the barrier
    | .barrier, _ => if outcome = .answered then { marked with fenceBarrier := none } else marked

end World

inductive Input
  | tick (ms : Nat)
  | fence (generation : String) (isOpen : Bool)
  | ask (expected : Expectation)
  /-- A turn is dispatched with a grant for the latest reader of its conversation. -/
  | dispatch (expected : Expectation)
  | issue (j expiresAt : Nat) (leaseOk readOk : Bool)
  | arrives (j : Nat)
  | loseAsk (j : Nat)
  | assert (expected : MemoryPolicy) (fenceGeneration : String) (readOk : Bool)
  | change (change : MemoryPolicyChange)
  | retry (readOk : Bool)
  | beginFenceBarrier (operationId : String)
  | freezeLands (k : Nat)
  | freezeSettles (k : Nat) (ok : Bool)
  | strayLands (k : Nat)
  | settled (outcome : World.Outcome) (readOk : Bool)
  | finishWipe (nextEpoch : String)
  /-- The owner's object is restarted. -/
  | ownerRestarts
  | readerStarts (conversationId : String)
  | registerReader (conversationId : String) (readerId : Nat)
  | «begin» (conversationId : String) (request : Nat) (grant : Grant) (expected : Expectation)
  | release (conversationId : String) (request : Nat)
  | retire (ownerGeneration turnId leaseId : String)

def Ask.taken (ask : Ask) (r : Reader) (now : Nat) (grant : Grant) : Bool :=
  match ask.epoch with
  | some epoch => r.readerId = ask.readerId && r.validAfter now grant ask.expected epoch
  | none => true

def World.arrive (w : World) (ask : Ask) (grant : Grant) : World :=
  match w.reader ask.expected.conversationId with
  | some r =>
    if ask.taken r w.now grant then w.setReader ask.expected.conversationId { r with held := r.held ++ [grant] } else w
  | none => w

def World.step (w : World) : Input → World
  | .tick ms => { w with now := w.now + ms }
  | .fence generation isOpen => { w with fenceGeneration := generation, fenceOpen := isOpen }
  | .ask expected =>
    match w.reader expected.conversationId with
    | some r => { w with asks := w.asks ++ [⟨expected, r.readerId, some (r.freezeEpoch expected.ownerGeneration), none⟩] }
    | none => w
  | .dispatch expected =>
    match InsertionMap.get? w.latest expected.conversationId with
    | some readerId => { w with asks := w.asks ++ [⟨expected, readerId, none, none⟩] }
    | none => w
  | .issue j expiresAt leaseOk readOk =>
    match w.exclusive, w.asks[j]? with
    | none, some ask =>
      let issued := w.issueModelGrant ask.expected ask.readerId expiresAt leaseOk readOk
      { issued.1 with asks := w.asks.set j { ask with answer := issued.2 } }
    | _, _ => w
  | .arrives j =>
    match w.asks[j]? with
    | some ask =>
      match ask.answer with
      | some grant => { w with asks := w.asks.eraseIdx j }.arrive ask grant
      | none => w
    | none => w
  | .loseAsk j => { w with asks := w.asks.eraseIdx j }
  | .assert expected fenceGeneration readOk =>
    match w.exclusive with
    | none => (w.assertCurrent expected fenceGeneration readOk).1
    | some _ => w
  | .change change =>
    match w.exclusive with
    | none => w.change change
    | some _ => w
  | .retry readOk =>
    match w.exclusive with
    | none => w.retry readOk
    | some _ => w
  | .beginFenceBarrier operationId =>
    match w.exclusive with
    | none =>
      if w.fenceBarrier.any (fun id => id ≠ operationId) then w
      else { w with fenceBarrier := some operationId }.revokeAll none .barrier
    | some _ => w
  | .freezeLands k =>
    match w.exclusive with
    | some e =>
      match e.calls[k]? with
      | some call => (w.freezeAt call.request).modifyCall k (fun c => { c with landed := true })
      | none => w
    | none => w
  | .freezeSettles k ok => w.modifyCall k (fun c => { c with settled := c.settled.or (some (ok && c.landed)) })
  | .strayLands k =>
    match w.strays[k]? with
    | some request => { w with strays := w.strays.eraseIdx k }.freezeAt request
    | none => w
  | .settled outcome readOk =>
    match w.exclusive with
    | some e => if e.calls.all (fun c => c.settled ≠ none) then w.settled e outcome readOk else w
    | none => w
  | .finishWipe nextEpoch => { w with home := w.home.finishWipe nextEpoch }
  | .ownerRestarts =>
    match w.exclusive with
    | some e => w.leave e
    | none => w
  | .readerStarts conversationId => w.startReader conversationId
  | .registerReader conversationId readerId =>
    if readerId < w.nextId then { w with latest := InsertionMap.set w.latest conversationId readerId } else w
  | .begin conversationId request grant expected =>
    match w.reader conversationId with
    | some r =>
      if grant ∈ r.held ∧ expected.conversationId = conversationId then
        w.setReader conversationId (r.begin w.now request grant expected)
      else w
    | none => w
  | .release conversationId request =>
    match w.reader conversationId with
    | some r => w.setReader conversationId (r.release request)
    | none => w
  | .retire ownerGeneration turnId leaseId => w.retireExactTurnLease ownerGeneration turnId leaseId

end Stella.MemoryGrants
