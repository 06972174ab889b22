import Stella.Library.Transition
import Stella.Outbox.Model

/-! # Pending prompts

What a page holds of the outbox, and the operations on it. A reload keeps the storage alone.
What is in flight, and who is told of a change, is left out.
-/

namespace Stella.Outbox

open Fallible (throw)

structure State where
  storage : Storage := []
  pending : List PendingPrompt := []
  activePendingAuthorityKey : Option String := none
  activePendingAuthorityReady : Bool := false

structure JournalRecord where
  /-- Only of a message. -/
  clientMsgId : Option String
  turnId : Option String

def authorityKey (authority : Authority) : String := authority.accountScope ++ "\x00" ++ authority.ownerGeneration

def ownsPending (entry : PendingPrompt) (authority : Authority) : Bool := entry.toAuthority = authority

def reliableStorageError (message : String) : String := if message = "" then unavailableMessage else message

def frozenSubmission (submission : PendingCloudTurnSubmission) : PendingCloudTurnSubmission where
  requestedConversationId := submission.requestedConversationId
  prompt := submission.prompt
  imagePaths := submission.imagePaths
  attachments := submission.attachments
  locale := submission.locale
  execution := submission.execution

namespace State

variable (browser : Browser) (s : State)

def isTheirs (authority : Authority) (clientMsgId : String) (entry : PendingPrompt) : Bool :=
  ownsPending entry authority && entry.clientMsgId = clientMsgId

def find (authority : Authority) (clientMsgId : String) : Option PendingPrompt := s.pending.find? (isTheirs authority clientMsgId)

def replaced (authority : Authority) (clientMsgId : String) (next : PendingPrompt) : List PendingPrompt :=
  s.pending.map fun entry => if isTheirs authority clientMsgId entry then next else entry

def add (authority : Authority) (clientMsgId text : String) (conversationId : Option String)
    (submission : PendingCloudTurnSubmission) (now : Int) : PendingPrompt × State :=
  let base : PendingPrompt := {
    accountScope := authority.accountScope
    ownerGeneration := authority.ownerGeneration
    clientMsgId := clientMsgId
    text := text
    createdAtMs := now
    conversationId := conversationId
    turnId := none
    dispatchId := none
    cancelRequested := false
    error := none
    retryOnNextActivation := false
    durable := false
    deliveryAcknowledged := false
    submission := frozenSubmission submission }
  if s.activePendingAuthorityReady && s.activePendingAuthorityKey = some (authorityKey authority) then
    match enqueue browser base s.storage with
    | (.ok entry, storage) => (entry, { s with storage := storage, pending := s.pending ++ [entry] })
    | (.error message, storage) =>
      let entry := { base with error := some (reliableStorageError message) }
      (entry, { s with storage := storage, pending := s.pending ++ [entry] })
  else
    let entry := { base with
      error := some "Stella is still verifying reliable delivery for this account. This message was not sent." }
    (entry, { s with pending := s.pending ++ [entry] })

def patch (authority : Authority) (clientMsgId : String) (change : PendingPrompt → PendingPrompt) : State :=
  match s.find authority clientMsgId with
  | none => s
  | some found =>
    let nextEntry := change found
    if found.durable then
      match update browser nextEntry s.storage with
      | (.ok none, storage) => { s with storage := storage }
      | (.ok (some persisted), storage) => { s with storage := storage, pending := s.replaced authority clientMsgId persisted }
      | (.error message, storage) =>
        { s with storage := storage, pending := s.replaced authority clientMsgId { nextEntry with error := some (reliableStorageError message) } }
    else { s with pending := s.replaced authority clientMsgId nextEntry }

def bindDispatch (authority : Authority) (clientMsgId dispatchId : String) : State :=
  s.patch browser authority clientMsgId fun entry => { entry with dispatchId := some dispatchId }

def requestCancel (authority : Authority) (clientMsgId : String) : State :=
  s.patch browser authority clientMsgId fun entry => { entry with cancelRequested := true }

def bind (authority : Authority) (clientMsgId conversationId turnId : String) : State :=
  s.patch browser authority clientMsgId fun entry => { entry with conversationId := some conversationId, turnId := some turnId }

def fail (authority : Authority) (clientMsgId message : String) (retryOnNextActivation : Bool) : State :=
  s.patch browser authority clientMsgId fun entry =>
    { entry with error := some message, retryOnNextActivation := retryOnNextActivation }

def drop (authority : Authority) (clientMsgId : String) : State :=
  match s.find authority clientMsgId with
  | none => s
  | some found =>
    let pending := s.pending.filter fun entry => !isTheirs authority clientMsgId entry
    if found.durable then
      match remove browser found s.storage with
      | (.ok _, storage) => { s with storage := storage, pending := pending }
      | (.error message, storage) => fail browser { s with storage := storage } authority clientMsgId (reliableStorageError message) false
    else { s with pending := pending }

def prepareRetry (authority : Authority) (clientMsgId : String) : State :=
  match s.find authority clientMsgId with
  | none => s
  | some found =>
    let candidate := { found with error := none, retryOnNextActivation := false }
    let saved : Run (Option PendingPrompt) :=
      if found.durable then update browser candidate else do
        let durable ← enqueue browser candidate
        pure (some durable)
    match saved s.storage with
    | (.ok none, storage) => { s with storage := storage }
    | (.ok (some durable), storage) => { s with storage := storage, pending := s.replaced authority clientMsgId durable }
    | (.error message, storage) =>
      { s with storage := storage, pending := s.replaced authority clientMsgId { found with error := some (reliableStorageError message) } }

def acknowledge (authority : Authority) (clientMsgId : String) (found : PendingPrompt) : State :=
  let pending := s.replaced authority clientMsgId
    { found with durable := false, deliveryAcknowledged := true, retryOnNextActivation := false }
  if found.durable then
    match remove browser found s.storage with
    | (.ok _, storage) => { s with storage := storage, pending := pending }
    | (.error _, storage) => { s with storage := storage }
  else { s with pending := pending }

def acknowledgeAdmission (authority : Authority) (clientMsgId conversationId turnId : String) : State :=
  match s.find authority clientMsgId with
  | none => s
  | some found =>
    if turnId = "" || found.turnId ≠ some turnId || found.conversationId ≠ some conversationId ||
        found.submission.requestedConversationId.any (fun requested => requested ≠ conversationId) then s
    else s.acknowledge browser authority clientMsgId found

def acknowledgeTerminal (authority : Authority) (clientMsgId dispatchId : String) : State :=
  match s.find authority clientMsgId with
  | none => s
  | some found =>
    if dispatchId = "" || found.dispatchId ≠ some dispatchId then s
    else s.acknowledge browser authority clientMsgId found

def supersedes (record : JournalRecord) (entry : PendingPrompt) : Bool :=
  (record.clientMsgId.isSome && (record.clientMsgId = some entry.clientMsgId || record.clientMsgId = entry.dispatchId)) ||
    (entry.turnId.isSome && entry.turnId = record.turnId)

def removeAll : List PendingPrompt → Storage → List String × Storage
  | [], storage => ([], storage)
  | entry :: rest, storage =>
    if entry.durable then
      match remove browser entry storage with
      | (.ok true, after) =>
        let (removed, last) := removeAll rest after
        (entry.clientMsgId :: removed, last)
      | (_, after) => removeAll rest after
    else
      let (removed, last) := removeAll rest storage
      (entry.clientMsgId :: removed, last)

def resolve (authority : Authority) (record : JournalRecord) : State :=
  let acknowledged := s.pending.filter fun entry => ownsPending entry authority && supersedes record entry
  let (removed, storage) := removeAll browser acknowledged s.storage
  { s with
    storage := storage
    pending := s.pending.filter fun entry => !(ownsPending entry authority && entry.clientMsgId ∈ removed) }

def retainAccountScope (accountScope : String) : State where
  storage := (purgeOtherAccounts browser accountScope s.storage).2
  pending := s.pending.filter fun entry => entry.accountScope = accountScope

def rearm : List PendingPrompt → Run (List PendingPrompt)
  | [] => pure []
  | entry :: rest =>
    if entry.retryOnNextActivation then do
      let rearmed ← update browser { entry with error := none, retryOnNextActivation := false }
      let hydrated ← rearm rest
      pure (rearmed.getD entry :: hydrated)
    else do
      let hydrated ← rearm rest
      pure (entry :: hydrated)

def hydrate (authority : Authority) : Run (List PendingPrompt) := do
  let entries ← activate browser authority
  rearm browser entries

def activateAuthority (authority : Authority) : State :=
  if s.activePendingAuthorityReady && s.activePendingAuthorityKey = some (authorityKey authority) then s
  else
    match hydrate browser authority s.storage with
    | (.ok hydrated, storage) =>
      { storage := storage, pending := hydrated, activePendingAuthorityKey := some (authorityKey authority),
        activePendingAuthorityReady := true }
    | (.error _, storage) =>
      { storage := storage, pending := [], activePendingAuthorityKey := some (authorityKey authority),
        activePendingAuthorityReady := false }

def reload : State := { storage := s.storage }

end State

inductive OutboxOp
  | add (authority : Authority) (clientMsgId text : String) (conversationId : Option String)
      (submission : PendingCloudTurnSubmission) (now : Int)
  | bindDispatch (authority : Authority) (clientMsgId dispatchId : String)
  | requestCancel (authority : Authority) (clientMsgId : String)
  | bind (authority : Authority) (clientMsgId conversationId turnId : String)
  | fail (authority : Authority) (clientMsgId message : String) (retryOnNextActivation : Bool)
  | drop (authority : Authority) (clientMsgId : String)
  | prepareRetry (authority : Authority) (clientMsgId : String)
  | acknowledgeAdmission (authority : Authority) (clientMsgId conversationId turnId : String)
  | acknowledgeTerminal (authority : Authority) (clientMsgId dispatchId : String)
  | resolve (authority : Authority) (record : JournalRecord)
  | retainAccountScope (accountScope : String)
  | activateAuthority (authority : Authority)
  | reload

def step (s : State) : Browser × OutboxOp → State
  | (browser, .add authority clientMsgId text conversationId submission now) =>
    (s.add browser authority clientMsgId text conversationId submission now).2
  | (browser, .bindDispatch authority clientMsgId dispatchId) => s.bindDispatch browser authority clientMsgId dispatchId
  | (browser, .requestCancel authority clientMsgId) => s.requestCancel browser authority clientMsgId
  | (browser, .bind authority clientMsgId conversationId turnId) => s.bind browser authority clientMsgId conversationId turnId
  | (browser, .fail authority clientMsgId message retry) => s.fail browser authority clientMsgId message retry
  | (browser, .drop authority clientMsgId) => s.drop browser authority clientMsgId
  | (browser, .prepareRetry authority clientMsgId) => s.prepareRetry browser authority clientMsgId
  | (browser, .acknowledgeAdmission authority clientMsgId conversationId turnId) =>
    s.acknowledgeAdmission browser authority clientMsgId conversationId turnId
  | (browser, .acknowledgeTerminal authority clientMsgId dispatchId) => s.acknowledgeTerminal browser authority clientMsgId dispatchId
  | (browser, .resolve authority record) => s.resolve browser authority record
  | (browser, .retainAccountScope accountScope) => s.retainAccountScope browser accountScope
  | (browser, .activateAuthority authority) => s.activateAuthority browser authority
  | (_, .reload) => s.reload

end Stella.Outbox
