import Mathlib.Algebra.GroupWithZero.Nat
import Stella.AgentActivity.Lifecycle
import Stella.Library.Rows
import Stella.Library.Transition

/-! # Lifecycle records of computer agents

An outbox of start, terminal and cancel records, the account each thread is bound to, the
generations retired for it, and one drain over them.
-/

namespace Stella.AgentRecords

open Stella.AgentActivity (trim)

inductive Kind
  | start
  | terminal
  | cancel
  deriving DecidableEq

structure RecordId where
  threadId : String
  attemptGeneration : Nat
  ownerGeneration : String
  kind : Kind
  deriving DecidableEq

structure OutboxRow where
  sequence : Nat
  id : RecordId
  ownerScope : Option String
  payloadJson : String
  attempts : Nat
  nextAttemptAt : Nat
  deriving DecidableEq

structure ThreadOwner where
  threadId : String
  ownerScope : String
  ownerGeneration : String
  deriving DecidableEq

structure Authority where
  ownerScope : String
  ownerGeneration : String
  deriving DecidableEq

inductive Reason
  | acknowledged (entry : OutboxRow)
  | refused (entry : OutboxRow)
  | retired
  | unowned

structure Removal where
  row : OutboxRow
  reason : Reason

structure Sent where
  entry : OutboxRow
  identity : Option String

inductive Waiter
  | pending
  | acknowledged
  | rejected
  deriving DecidableEq

/-- An `enqueue` that waits for a drain; `again` when it joined one that was under way. -/
structure Call where
  id : RecordId
  authority : Option Authority
  waiter : Option Waiter
  awaits : Option Nat
  again : Bool

inductive Drain
  | delivering (entry : OutboxRow) (ownerScope : String)
  | returned
  deriving DecidableEq

structure World where
  rows : List OutboxRow := []
  /-- the next value of AUTOINCREMENT -/
  sequence : Nat := 0
  owners : List ThreadOwner := []
  retired : List ThreadOwner := []
  /-- the account of the token there is -/
  token : Option String := none
  lastKnownOwnerScope : Option String := none
  stopped : Bool := false
  retryDelay : Option Nat := none
  active : Option Drain := none
  drains : Nat := 0
  calls : List Call := []
  /-- `get` calls under way, with the authority they have read -/
  reads : List ThreadOwner := []
  removals : List Removal := []
  sent : List Sent := []
  acknowledged : List OutboxRow := []
  /-- the starts that `create` has resolved for -/
  created : List RecordId := []

def noAuthRetryMs : Nat := 4000
def baseRetryMs : Nat := 500
def maxRetryMs : Nat := 60000

def retryDelayOf (attempts : Nat) : Nat := min maxRetryMs (baseRetryMs * 2 ^ min attempts 7)

namespace World

variable (w : World)

/-! ## The store -/

/-- `ON CONFLICT(id)`: the payload is replaced in place, the row keeps its sequence and its scope. -/
def putOutbox (id : RecordId) (ownerScope : Option String) (payloadJson : String) (now : Nat) : World :=
  if w.rows.any (fun r => r.id = id) then
    { w with rows := w.rows.map (fun r =>
        if r.id = id then { r with payloadJson, nextAttemptAt := min r.nextAttemptAt now } else r) }
  else
    { w with
      rows := w.rows ++ [⟨w.sequence, id, ownerScope, payloadJson, 0, now⟩]
      sequence := w.sequence + 1 }

def firstOf (ownerScope : String) : Option OutboxRow := w.rows.find? (fun r => r.ownerScope = some ownerScope)

def remove (gone : OutboxRow → Bool) (reason : Reason) : World :=
  { w with
    rows := w.rows.filter (fun r => !gone r)
    removals := w.removals ++ (w.rows.filter gone).map (fun row => ⟨row, reason⟩) }

def deleteOutbox (id : RecordId) (reason : Reason) : World := w.remove (fun r => r.id = id) reason

def markRetry (id : RecordId) (now nextAttemptAt : Nat) : World :=
  { w with rows := w.rows.map (fun r =>
      if r.id = id then { r with attempts := r.attempts + 1, nextAttemptAt := max now nextAttemptAt } else r) }

def resumeOutbox (ownerScope : String) (now : Nat) : World :=
  { w with rows := w.rows.map (fun r =>
      if r.ownerScope = some ownerScope then { r with nextAttemptAt := min r.nextAttemptAt now } else r) }

def ownerOf (threadId : String) : Option ThreadOwner := Rows.lookup ThreadOwner.threadId w.owners threadId

def threadAuthority (threadId : String) : Option Authority :=
  match w.ownerOf threadId with
  | some owner =>
    if trim owner.ownerScope ≠ "" ∧ trim owner.ownerGeneration ≠ "" then
      some ⟨owner.ownerScope, owner.ownerGeneration⟩
    else none
  | none => none

def hasUnscoped (threadId : String) : Bool :=
  w.rows.any (fun r => r.id.threadId = threadId && r.ownerScope = none)

def inEpoch (owner : ThreadOwner) (r : OutboxRow) : Bool :=
  r.id.threadId = owner.threadId && r.ownerScope = some owner.ownerScope && r.id.ownerGeneration = owner.ownerGeneration

def tombstone (owner : ThreadOwner) : World :=
  { w.remove (inEpoch owner) .retired with retired := if owner ∈ w.retired then w.retired else w.retired ++ [owner] }

def retireGeneration (owner : ThreadOwner) : World :=
  { w.tombstone owner with owners := w.owners.filter (fun o => o ≠ owner) }

def bindAuthority (owner : ThreadOwner) : World × Option Authority :=
  if owner ∈ w.retired then (w, none)
  else
    match w.ownerOf owner.threadId with
    | none =>
      let bound := { w with owners := w.owners ++ [owner] }
      (bound, bound.threadAuthority owner.threadId)
    | some existing =>
      if existing.ownerScope ≠ owner.ownerScope then (w, none)
      else
        let cleared := if existing.ownerGeneration ≠ owner.ownerGeneration then w.tombstone existing else w
        let bound := { cleared with owners := Rows.modify ThreadOwner.threadId w.owners owner.threadId (fun o =>
          { o with ownerGeneration := owner.ownerGeneration }) }
        (bound, bound.threadAuthority owner.threadId)

/-! ## Identity -/

/-- `currentOwnerScope` remembers the account it has seen. -/
def noted : World := if w.token = none then w else { w with lastKnownOwnerScope := w.token }

def scopeNow : Option String := if w.token = none then w.lastKnownOwnerScope else w.token

/-- `authorityForThread` -/
def authorityFor (threadId ownerGeneration : String) (allowBind : Bool) : World × Option Authority :=
  let noted := w.noted
  let existing := w.threadAuthority threadId
  if existing.any (fun a => a.ownerGeneration = ownerGeneration && some a.ownerScope = w.scopeNow) then (noted, existing)
  else if w.hasUnscoped threadId then (noted, none)
  else
    match w.scopeNow with
    | none => (noted, none)
    | some candidate =>
      if (⟨threadId, candidate, ownerGeneration⟩ : ThreadOwner) ∈ w.retired then (noted, none)
      else if allowBind then noted.bindAuthority ⟨threadId, candidate, ownerGeneration⟩
      else (noted, none)

/-! ## The drain -/

def settleStart (id : RecordId) (waiter : Waiter) : World :=
  { w with calls := w.calls.map (fun c =>
      if c.id = id ∧ c.waiter = some .pending then { c with waiter := some waiter } else c) }

def settleEntry (entry : OutboxRow) (waiter : Waiter) : World :=
  if entry.id.kind = .start then w.settleStart entry.id waiter else w

def scheduleDrain (delayMs : Nat) : World := if w.stopped then w else { w with retryDelay := some delayMs }

def epochOf (entry : OutboxRow) (ownerScope : String) : ThreadOwner :=
  ⟨entry.id.threadId, ownerScope, entry.id.ownerGeneration⟩

def owns (entry : OutboxRow) (ownerScope : String) : Bool :=
  w.threadAuthority entry.id.threadId = some ⟨ownerScope, entry.id.ownerGeneration⟩

/-- `runDrain` up to the next delivery, or its return. -/
def runDrain (now : Nat) : Nat → World → World
  | 0, w => { w with active := some .returned }
  | fuel + 1, w =>
    if w.stopped then { w with active := some .returned }
    else
      match w.token with
      | none => { w.scheduleDrain noAuthRetryMs with active := some .returned }
      | some ownerScope =>
        let noted := w.noted
        match noted.firstOf ownerScope with
        | none => { noted with active := some .returned }
        | some entry =>
          if entry.id.ownerGeneration = "" ∨ !noted.owns entry ownerScope then
            let told := noted.settleEntry entry .rejected
            runDrain now fuel (if entry.id.ownerGeneration = "" then told.deleteOutbox entry.id .unowned
              else told.retireGeneration (epochOf entry ownerScope))
          else if now < entry.nextAttemptAt then
            { noted.scheduleDrain (entry.nextAttemptAt - now) with active := some .returned }
          else { noted with
            active := some (.delivering entry ownerScope)
            sent := noted.sent ++ [⟨entry, noted.token⟩] }

def goOn (now : Nat) : World := runDrain now (w.rows.length + 1) w

/-- `drain()`: the drain a caller waits for, if any. -/
def drain (now : Nat) : World × Option Nat :=
  if w.stopped then (w, none)
  else if w.active = none then ({ w with drains := w.drains + 1 }.goOn now, some (w.drains + 1))
  else (w, some w.drains)

end World

inductive Outcome
  | acknowledged
  | generationStale
  /-- A refusal of a start by its reason, or an answer for another thread. -/
  | startRejected
  | failed
  deriving DecidableEq

namespace World

variable (w : World)

def retryLater (entry : OutboxRow) (ownerScope : String) (now : Nat) : World :=
  let delayMs := retryDelayOf entry.attempts
  let marked := (w.markRetry entry.id now (now + delayMs)).settleEntry entry .rejected
  { marked.noted.scheduleDrain (if marked.token = some ownerScope then delayMs else 0) with active := some .returned }

def delivered (entry : OutboxRow) (ownerScope : String) (outcome : Outcome) (now : Nat) : World :=
  if w.stopped then { w with active := some .returned }
  else
    match outcome with
    | .acknowledged =>
      let noted := { w.noted with acknowledged := w.acknowledged ++ [entry] }
      if !noted.owns entry ownerScope then
        let told := noted.settleEntry entry .rejected
        (if entry.id.ownerGeneration = "" then told else told.retireGeneration (epochOf entry ownerScope)).goOn now
      else if noted.token ≠ some ownerScope then
        let marked := (noted.markRetry entry.id now (now + baseRetryMs)).settleEntry entry .rejected
        { marked.scheduleDrain 0 with active := some .returned }
      else ((noted.deleteOutbox entry.id (.acknowledged entry)).settleEntry entry .acknowledged).goOn now
    | .generationStale =>
      if entry.id.ownerGeneration ≠ "" then
        ((w.settleEntry entry .rejected).retireGeneration (epochOf entry ownerScope)).goOn now
      else w.retryLater entry ownerScope now
    | .startRejected =>
      if entry.id.kind = .start then
        ((w.deleteOutbox entry.id (.refused entry)).settleStart entry.id .rejected).goOn now
      else w.retryLater entry ownerScope now
    | .failed => w.retryLater entry ownerScope now

/-! ## Calls -/

/-- `enqueue` up to its first await; a call that is not admitted leaves nothing behind. -/
def enqueue (id : RecordId) (payloadJson : String) (now : Nat) : World :=
  let (bound, authority) := w.authorityFor id.threadId id.ownerGeneration (id.kind = .start)
  if authority = none ∧ (w.scopeNow ≠ none ∨ id.kind ≠ .start) then bound
  else
    let waiter := if id.kind = .start then some Waiter.pending else none
    let put := bound.putOutbox id (authority.map Authority.ownerScope) payloadJson now
    let call : Call := ⟨id, authority, waiter, none, put.active ≠ none⟩
    let called := { put with calls := put.calls ++ [call] }
    let (drained, awaits) := called.drain now
    { drained with calls := drained.calls.modify put.calls.length (fun c => { c with awaits }) }

/-- The end of a call: whether `create` resolves. -/
def finish (call : Call) : World :=
  let retired := call.authority.any (fun a =>
    (⟨call.id.threadId, a.ownerScope, call.id.ownerGeneration⟩ : ThreadOwner) ∈ w.retired)
  if !retired ∧ call.waiter = some .acknowledged then { w with created := w.created ++ [call.id] } else w

def proceedCall (i now : Nat) : World :=
  match w.calls[i]? with
  | none => w
  | some call =>
    if w.active ≠ none ∧ call.awaits = some w.drains then w
    else if call.again ∧ !w.stopped then
      let (drained, awaits) := w.drain now
      { drained with calls := drained.calls.modify i (fun c => { c with awaits, again := false }) }
    else { w with calls := w.calls.eraseIdx i }.finish call

end World

inductive Input
  | enqueue (id : RecordId) (payloadJson : String) (now : Nat)
  /-- The token is another account's, or gone. -/
  | signIn (ownerScope : Option String)
  | delivered (outcome : Outcome) (now : Nat)
  /-- The promise of a drain that has returned settles. -/
  | settle
  | proceed (i now : Nat)
  | timer (now : Nat)
  | resume (now : Nat)
  | stop
  /-- `get` reads the authority of a thread, and may be told later that its generation is stale. -/
  | get (threadId : String)
  | readStale (i : Nat)
  /-- The worker is started anew. -/
  | restart (now : Nat)

namespace World

def resume (w : World) (now : Nat) : World :=
  let running := { w with stopped := false }.noted
  (match running.token with
  | some ownerScope => running.resumeOutbox ownerScope now
  | none => running).scheduleDrain 0

def stop (w : World) : World :=
  { w with
    stopped := true
    retryDelay := none
    calls := w.calls.map (fun c => if c.waiter = some .pending then { c with waiter := some .rejected } else c) }

def step (w : World) : Input → World
  | .enqueue id payloadJson now => w.enqueue id payloadJson now
  | .signIn ownerScope => { w with token := ownerScope }
  | .delivered outcome now =>
    match w.active with
    | some (.delivering entry ownerScope) => w.delivered entry ownerScope outcome now
    | _ => w
  | .settle => if w.active = some .returned then { w with active := none } else w
  | .proceed i now => w.proceedCall i now
  | .timer now => if w.retryDelay = none then w else ({ w with retryDelay := none }.drain now).1
  | .resume now => w.resume now
  | .stop => w.stop
  | .get threadId =>
    match w.threadAuthority threadId with
    | some authority =>
      if w.token = some authority.ownerScope then
        { w.noted with reads := w.reads ++ [⟨threadId, authority.ownerScope, authority.ownerGeneration⟩] }
      else w.noted
    | none => w.noted
  | .readStale i =>
    match w.reads[i]? with
    | some owner => { w with reads := w.reads.eraseIdx i }.retireGeneration owner
    | none => w
  | .restart now =>
    { w with
      active := none
      calls := []
      reads := []
      retryDelay := none
      lastKnownOwnerScope := w.token }.resume now

end World

end Stella.AgentRecords
