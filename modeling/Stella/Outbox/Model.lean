import Mathlib.Data.List.Sort
import Stella.Library.Fallible
import Stella.Library.InsertionMap
import Stella.Library.Json
import Stella.World.Path

/-! # The outbox of pending prompts

`conversation-outbox.ts`: a prompt is shown when it is sent, and kept in the browser's storage
until its delivery is acknowledged.
-/

namespace Stella.Outbox

open Fallible (modify throw)

structure Authority where
  accountScope : String
  ownerGeneration : String
  deriving DecidableEq

inductive DesktopExecutionTarget
  | automatic
  | cloud
  | device (deviceId : String)
  deriving DecidableEq

structure CloudAttachment where
  path : String
  name : String
  sizeBytes : Int
  contentType : Option String := none
  deriving DecidableEq

structure CloudExecutionSelection where
  engine : String
  provider : String
  model : String
  reasoningEffort : String
  deriving DecidableEq

structure PendingCloudTurnSubmission where
  requestedConversationId : Option String
  prompt : String
  imagePaths : List String
  attachments : List CloudAttachment
  locale : Option String
  execution : Option CloudExecutionSelection
  executionTarget : Option DesktopExecutionTarget := none
  deriving DecidableEq

structure PersistedPendingPrompt extends Authority where
  clientMsgId : String
  text : String
  createdAtMs : Int
  conversationId : Option String
  turnId : Option String
  dispatchId : Option String
  cancelRequested : Bool
  error : Option String
  retryOnNextActivation : Bool
  deliveryAcknowledged : Bool
  submission : PendingCloudTurnSubmission

structure PendingPrompt extends PersistedPendingPrompt where
  durable : Bool

/-! ## What can be stored -/

def maxOutboxEntries : Nat := 32
def maxEntryBytes : Nat := 256000
def maxScopeChars : Nat := 512
def maxGenerationChars : Nat := 512
def maxConversationIdChars : Nat := 512
def maxClientMsgIdChars : Nat := 64
def maxPromptChars : Nat := 8000
def maxErrorChars : Nat := 2000

def textLength (value : String) : Nat := World.utf16Length value.toList

def isBoundedString (value : String) (maximum : Nat) : Bool := 0 < textLength value && textLength value ≤ maximum

def isNullableBoundedString (value : Option String) (maximum : Nat) : Bool := value.all fun value => isBoundedString value maximum

def isSafeCount (value : Int) : Bool := 0 ≤ value && value ≤ Json.maxSafeInteger

/-- `/^[A-Za-z0-9._:-]{8,64}$/`. -/
def isClientMsgId (value : String) : Bool :=
  8 ≤ value.toList.length && value.toList.length ≤ 64 &&
    value.toList.all fun c => c.isAlphanum || c ∈ ['.', '_', ':', '-']

def executionEngines : List String := ["stella", "anthropic", "chatgpt"]

def reasoningEfforts : List String := ["default", "none", "minimal", "low", "medium", "high", "xhigh"]

def isExecution (execution : CloudExecutionSelection) : Bool :=
  isBoundedString execution.engine 32 && execution.engine ∈ executionEngines && execution.provider = execution.engine &&
    isBoundedString execution.model 192 && isBoundedString execution.reasoningEffort 32 && execution.reasoningEffort ∈ reasoningEfforts

def isAttachment (attachment : CloudAttachment) : Bool :=
  isBoundedString attachment.path 512 && isBoundedString attachment.name 512 && isSafeCount attachment.sizeBytes &&
    attachment.contentType.all fun contentType => isBoundedString contentType 128

def isExecutionTarget : DesktopExecutionTarget → Bool
  | .automatic => true
  | .cloud => true
  | .device deviceId => isBoundedString deviceId 256

def isSubmission (submission : PendingCloudTurnSubmission) : Bool :=
  isNullableBoundedString submission.requestedConversationId maxConversationIdChars &&
    isBoundedString submission.prompt maxPromptChars &&
    submission.imagePaths.length ≤ 4 && submission.imagePaths.all (fun path => isBoundedString path 512) &&
    submission.attachments.length ≤ 32 && submission.attachments.all isAttachment &&
    isNullableBoundedString submission.locale 64 && submission.execution.all isExecution &&
    submission.executionTarget.all isExecutionTarget

def parseEnvelope (candidate : PersistedPendingPrompt) : Option PendingPrompt :=
  if isBoundedString candidate.accountScope maxScopeChars &&
      isBoundedString candidate.ownerGeneration maxGenerationChars &&
      isBoundedString candidate.clientMsgId maxClientMsgIdChars && isClientMsgId candidate.clientMsgId &&
      isBoundedString candidate.text maxPromptChars && isSafeCount candidate.createdAtMs &&
      isNullableBoundedString candidate.conversationId maxConversationIdChars &&
      isNullableBoundedString candidate.turnId 512 && isNullableBoundedString candidate.dispatchId 512 &&
      !candidate.deliveryAcknowledged && isNullableBoundedString candidate.error maxErrorChars &&
      isSubmission candidate.submission then
    some {
      accountScope := candidate.accountScope
      ownerGeneration := candidate.ownerGeneration
      clientMsgId := candidate.clientMsgId
      text := candidate.text
      createdAtMs := candidate.createdAtMs
      conversationId := candidate.conversationId
      turnId := candidate.turnId
      dispatchId := candidate.dispatchId
      cancelRequested := candidate.cancelRequested
      error := candidate.error
      retryOnNextActivation := candidate.retryOnNextActivation
      durable := true
      deliveryAcknowledged := false
      submission := candidate.submission }
  else none

def persistedEntry (entry : PendingPrompt) : PersistedPendingPrompt where
  accountScope := entry.accountScope
  ownerGeneration := entry.ownerGeneration
  clientMsgId := entry.clientMsgId
  text := entry.text
  createdAtMs := entry.createdAtMs
  conversationId := entry.conversationId
  turnId := entry.turnId
  dispatchId := entry.dispatchId
  cancelRequested := entry.cancelRequested
  error := entry.error
  retryOnNextActivation := entry.retryOnNextActivation
  deliveryAcknowledged := false
  submission := entry.submission

/-- The parts of a key: the account, its generation, the requested conversation or `new`, and the message. -/
structure StorageKey extends Authority where
  requestedConversationId : Option String
  clientMsgId : String
  deriving DecidableEq

def cloudConversationOutboxStorageKey (entry : PendingPrompt) : StorageKey where
  accountScope := entry.accountScope
  ownerGeneration := entry.ownerGeneration
  requestedConversationId := entry.submission.requestedConversationId
  clientMsgId := entry.clientMsgId

/-- A text that is no record is kept as none. -/
abbrev Storage := InsertionMap StorageKey (Option PersistedPendingPrompt)

structure Browser where
  unavailable : Bool := false
  setItem : StorageKey → Option String := fun _ => none
  removeItem : StorageKey → Option String := fun _ => none
  rawLength : PersistedPendingPrompt → Nat

/-- A program over the storage that returns or throws an error with a message. -/
abbrev Run (α : Type) := Fallible String Storage α

section
variable (browser : Browser)

def unavailableMessage : String := "Reliable message storage is unavailable. This message was not sent."

def requireStorage : Run Unit := if browser.unavailable then throw unavailableMessage else pure ()

def setItem (key : StorageKey) (raw : PersistedPendingPrompt) : Run Unit :=
  match browser.setItem key with
  | some message => throw message
  | none => modify fun storage => storage.set key (some raw)

def removeItem (key : StorageKey) : Run Unit :=
  match browser.removeItem key with
  | some message => throw message
  | none => modify fun storage => storage.erase key

def authorityMatches (entry : PendingPrompt) (authority : Authority) : Bool := entry.toAuthority = authority

def clientIdentityMatches (entry : PendingPrompt) (authority : Authority) (clientMsgId : String) : Bool :=
  authorityMatches entry authority && entry.clientMsgId = clientMsgId

/-- The values in the text of `frozenIntentJson`. -/
def frozenIntentJson (entry : PendingPrompt) : Authority × String × String × PendingCloudTurnSubmission :=
  (entry.toAuthority, entry.clientMsgId, entry.text, entry.submission)

def serialize (entry : PendingPrompt) : Except String PersistedPendingPrompt :=
  let raw := persistedEntry entry
  if (parseEnvelope raw).isNone then .error "That message cannot be saved for reliable delivery."
  else if maxEntryBytes < browser.rawLength raw then .error "That message is too large to save for reliable delivery."
  else .ok raw

def readEntries : List (StorageKey × Option PersistedPendingPrompt) → Run (List PendingPrompt)
  | [] => pure []
  | (key, raw) :: rest =>
    match raw.bind parseEnvelope with
    | some entry =>
      if cloudConversationOutboxStorageKey entry = key then do
        let entries ← readEntries rest
        pure (entry :: entries)
      else do
        removeItem browser key
        readEntries rest
    | none => do
      removeItem browser key
      readEntries rest

def readAll : Run (List PendingPrompt) := do
  requireStorage browser
  let storage ← Fallible.get
  readEntries browser storage

def byCreation (entries : List PendingPrompt) : List PendingPrompt :=
  entries.insertionSort fun a b => a.createdAtMs ≤ b.createdAtMs

def activateEntries (authority : Authority) : List PendingPrompt → List PendingPrompt → Run (List PendingPrompt)
  | current, [] => pure current
  | current, entry :: rest =>
    if authorityMatches entry authority then
      if current.any (fun other => other.clientMsgId = entry.clientMsgId) then
        throw "Reliable message storage contains conflicting prior deliveries."
      else activateEntries authority (current ++ [entry]) rest
    else do
      removeItem browser (cloudConversationOutboxStorageKey entry)
      activateEntries authority current rest

def activate (authority : Authority) : Run (List PendingPrompt) := do
  requireStorage browser
  let entries ← readAll browser
  let current ← activateEntries browser authority [] entries
  pure (byCreation current)

def purgeEntries (accountScope : String) : List PendingPrompt → Run Unit
  | [] => pure ()
  | entry :: rest => do
    if entry.accountScope ≠ accountScope then removeItem browser (cloudConversationOutboxStorageKey entry)
    purgeEntries accountScope rest

def purgeOtherAccounts (accountScope : String) : Run Unit := do
  requireStorage browser
  let entries ← readAll browser
  purgeEntries browser accountScope entries

def enqueue (entry : PendingPrompt) : Run PendingPrompt := do
  requireStorage browser
  let all ← readAll browser
  match all.find? (fun candidate => clientIdentityMatches candidate entry.toAuthority entry.clientMsgId) with
  | some collision =>
    if frozenIntentJson collision ≠ frozenIntentJson entry then
      throw "That reliable message id is already bound to a different request."
    else pure collision
  | none =>
    if maxOutboxEntries ≤ all.length then
      throw "Too many messages are waiting for reliable delivery. Retry after they finish."
    else do
      let durable := { entry with durable := true, deliveryAcknowledged := false }
      let raw ← Fallible.answered (serialize browser durable)
      setItem browser (cloudConversationOutboxStorageKey durable) raw
      pure durable

def existingEntry (storage : Storage) (entry : PendingPrompt) : Option PendingPrompt :=
  match ((storage.get? (cloudConversationOutboxStorageKey entry)).join).bind parseEnvelope with
  | some existing =>
    if clientIdentityMatches existing entry.toAuthority entry.clientMsgId && frozenIntentJson existing = frozenIntentJson entry then
      some existing
    else none
  | none => none

def update (entry : PendingPrompt) : Run (Option PendingPrompt) := do
  requireStorage browser
  let storage ← Fallible.get
  if (existingEntry storage entry).isNone then pure none
  else do
    let durable := { entry with durable := true, deliveryAcknowledged := false }
    let raw ← Fallible.answered (serialize browser durable)
    setItem browser (cloudConversationOutboxStorageKey entry) raw
    pure (some durable)

def remove (entry : PendingPrompt) : Run Bool := do
  requireStorage browser
  let storage ← Fallible.get
  if (existingEntry storage entry).isNone then pure false
  else do
    removeItem browser (cloudConversationOutboxStorageKey entry)
    pure true

end

end Stella.Outbox
