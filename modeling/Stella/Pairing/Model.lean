import Stella.AgentActivity.Lifecycle
import Stella.Library.JsonText
import Stella.World.Path

/-! # Dispatch submissions and their challenge

What `parseDispatchSubmitRequest` accepts, the canonical text of its payload, and the
challenges that a pairing proof signs.
-/

namespace Stella.Pairing

open Stella.AgentActivity (trim)

def maxDeviceIdChars : Nat := 256

def maxConversationIdChars : Nat := 256

def maxIdempotencyKeyChars : Nat := 128

def maxRequiredCapabilities : Nat := 8

def maxDispatchPromptChars : Nat := 8000

def maxDispatchDescriptionChars : Nat := 1000

def maxDispatchAttachments : Nat := 4

def maxExecutionFieldLength : Nat := 2048

/-- `length`, in UTF-16 units. -/
def textLength (text : String) : Nat := World.utf16Length text.toList

inductive ExecutionKind
  | chat
  | agent
  deriving DecidableEq

def ExecutionKind.text : ExecutionKind → String
  | .chat => "chat"
  | .agent => "agent"

inductive ExecutionSubject
  | portable
  | computer
  | cloud
  deriving DecidableEq

def ExecutionSubject.text : ExecutionSubject → String
  | .portable => "portable"
  | .computer => "computer"
  | .cloud => "cloud"

inductive ExecutionIngress
  | desktop
  | mobile
  | browser
  | cloud
  | schedule
  deriving DecidableEq

def ExecutionIngress.text : ExecutionIngress → String
  | .desktop => "desktop"
  | .mobile => "mobile"
  | .browser => "browser"
  | .cloud => "cloud"
  | .schedule => "schedule"

def ExecutionIngress.mayClaimComputerSubject (ingress : ExecutionIngress) : Bool := ingress = .desktop || ingress = .mobile

inductive ExecutionTargetMode
  | automatic
  | cloud
  | device
  deriving DecidableEq

def ExecutionTargetMode.text : ExecutionTargetMode → String
  | .automatic => "automatic"
  | .cloud => "cloud"
  | .device => "device"

inductive ExecutionCapability
  | chat
  | agent
  | computerUse
  | localFiles
  | localApps
  | attachments
  deriving DecidableEq

def ExecutionCapability.text : ExecutionCapability → String
  | .chat => "chat"
  | .agent => "agent"
  | .computerUse => "computer-use"
  | .localFiles => "local-files"
  | .localApps => "local-apps"
  | .attachments => "attachments"

/-- A pinned execution; `engine` and `provider` are kept as their JSON text. -/
structure CloudExecutionSelection where
  engine : String
  provider : String
  model : String
  reasoningEffort : String
  deriving DecidableEq

structure DispatchPayload where
  prompt : String
  conversationId : String
  clientMsgId : String
  userMessageEventId : Option String := none
  locale : Option String := none
  attachments : List String := []
  execution : Option CloudExecutionSelection := none
  description : Option String := none
  threadId : Option String := none
  model : Option String := none
  handoff : Bool := false
  deriving DecidableEq

structure DispatchTarget where
  mode : Option ExecutionTargetMode
  deviceId : Option String
  hDevice : mode.getD .automatic = .device ↔ deviceId.isSome = true
  deriving DecidableEq

structure DispatchSubmitRequest where
  idempotencyKey : String
  kind : ExecutionKind
  ingress : ExecutionIngress
  subject : ExecutionSubject
  target : DispatchTarget
  requestingDeviceId : Option String
  conversationId : String
  parentTurnId : Option String
  threadId : Option String
  requiredCapabilities : List ExecutionCapability
  payload : DispatchPayload
  deriving DecidableEq

/-! ## Parsing -/

def isNumber (n : Rat) : Option Json → Bool
  | some (.number value) => value = n
  | _ => false

def trimmed : Option Json → String
  | some (.string value) => trim value
  | _ => ""

def bounded (value : Option Json) (max : Nat) : Option String :=
  if trimmed value ≠ "" ∧ textLength (trimmed value) ≤ max then some (trimmed value) else none

def optionalText (value : Option Json) (max : Nat) (message : String) : Except String (Option String) :=
  match value with
  | none => .ok none
  | some value =>
    match bounded (some value) max with
    | some text => .ok (some text)
    | none => .error message

def notNull : Option Json → Option Json
  | some .null => none
  | value => value

def parseChoice {α : Type} (choices : List α) (text : α → String) : Option Json → Option α
  | some (.string value) => choices.find? fun choice => text choice = value
  | _ => none

/-- `String(value)` and the JSON text of the values whose text may be one word. -/
def wordAndJson : Json → Option (String × String)
  | .string value => some (value, JsonText.quote value)
  | .array [item] => (wordAndJson item).map fun read => (read.1, "[" ++ read.2 ++ "]")
  | _ => none

def executionField : Option Json → Option String
  | some (.string value) => if trim value ≠ "" ∧ textLength value ≤ maxExecutionFieldLength then some value else none
  | _ => none

def parseCloudExecutionSelection (value : Json) : Option CloudExecutionSelection := do
  let record ← value.asRecord
  let model ← executionField (record.member "model")
  let reasoningEffort ← executionField (record.member "reasoningEffort")
  let engine ← (record.member "engine").bind wordAndJson
  let provider ← (record.member "provider").bind wordAndJson
  if engine.1 = provider.1 ∧ engine.1 ∈ ["stella", "anthropic", "chatgpt"] then
    some ⟨engine.2, provider.2, model, reasoningEffort⟩
  else none

def parseAttachments : Option Json → Except String (List String)
  | none | some .null => .ok []
  | some (.array items) =>
    if maxDispatchAttachments < items.length then .error "payload.attachments must be at most 4 drive paths."
    else match items.mapM fun item => bounded (some item) 1024 with
      | some attachments => .ok attachments
      | none => .error "payload.attachments must be drive paths."
  | some _ => .error "payload.attachments must be at most 4 drive paths."

def parseExecution (value : Option Json) : Except String (Option CloudExecutionSelection) :=
  match notNull value with
  | none => .ok none
  | some value =>
    match parseCloudExecutionSelection value with
    | some execution => .ok (some execution)
    | none => .error "payload.execution is malformed."

def parseDescription (value : Option Json) : ExecutionKind → Except String (Option String)
  | .agent =>
    match bounded value maxDispatchDescriptionChars with
    | some description => .ok (some description)
    | none => .error "payload.description must be 1-1000 characters for an agent dispatch."
  | .chat => optionalText value maxDispatchDescriptionChars "payload.description is malformed."

def parseHandoff (value : Option Json) (kind : ExecutionKind) : Except String Bool :=
  match value with
  | none => .ok false
  | some (.bool true) =>
    if kind = .chat then .ok true else .error "payload.handoff must be true on a chat dispatch."
  | some _ => .error "payload.handoff must be true on a chat dispatch."

def parseDispatchPayload (value : Option Json) (kind : ExecutionKind) : Except String DispatchPayload :=
  match value.bind Json.asRecord with
  | none => .error "payload must be an object."
  | some value =>
    if !isNumber 1 (value.member "schemaVersion") then .error "payload.schemaVersion must be 1."
    else match bounded (value.member "prompt") maxDispatchPromptChars with
    | none => .error "payload.prompt must be 1-8000 characters."
    | some prompt => match bounded (value.member "conversationId") maxConversationIdChars with
    | none => .error "payload.conversationId is required."
    | some conversationId => match bounded (value.member "clientMsgId") maxIdempotencyKeyChars with
    | none => .error "payload.clientMsgId is required."
    | some clientMsgId => do
      let userMessageEventId ← optionalText (value.member "userMessageEventId") 256 "payload.userMessageEventId is malformed."
      let locale ← optionalText (notNull (value.member "locale")) 64 "payload.locale is malformed."
      let attachments ← parseAttachments (value.member "attachments")
      let execution ← parseExecution (value.member "execution")
      let description ← parseDescription (value.member "description") kind
      let handoff ← parseHandoff (value.member "handoff") kind
      return { prompt, conversationId, clientMsgId, userMessageEventId, locale, attachments, execution, description, handoff }

/-- `^[A-Za-z0-9._:-]{8,128}$` -/
def isIdempotencyKey (text : String) : Bool :=
  8 ≤ text.toList.length && text.toList.length ≤ maxIdempotencyKeyChars &&
    text.toList.all fun c => c.isAlphanum || c = '.' || c = '_' || c = ':' || c = '-'

def parseTarget (targetMode targetDeviceId : Option Json) : Except String DispatchTarget :=
  match targetMode, parseChoice [.automatic, .cloud, .device] ExecutionTargetMode.text targetMode with
  | some _, none => .error "targetMode must be automatic, cloud, or device."
  | _, mode =>
    match targetDeviceId, bounded targetDeviceId maxDeviceIdChars with
    | some _, none => .error "targetDeviceId is malformed."
    | _, deviceId =>
      if hDevice : mode.getD .automatic = .device ↔ deviceId.isSome = true then .ok ⟨mode, deviceId, hDevice⟩
      else .error "A device execution target requires exactly one device id."

def parseCapabilities (kind : ExecutionKind) (value : Option Json) : Option (List ExecutionCapability) :=
  let own : ExecutionCapability := match kind with
    | .chat => .chat
    | .agent => .agent
  match value with
  | none => some [own]
  | some (.array items) =>
    if maxRequiredCapabilities < items.length then none
    else (items.mapM fun item =>
        parseChoice [.chat, .agent, .computerUse, .localFiles, .localApps, .attachments] ExecutionCapability.text (some item)).map
      fun required => (own :: required).foldl (fun kept capability => if capability ∈ kept then kept else kept ++ [capability]) []
  | some _ => none

def parseDispatchSubmitRequest (value : Json) : Except String DispatchSubmitRequest :=
  match value.asRecord with
  | none => .error "A JSON object is required."
  | some value =>
    if !isNumber 1 (value.member "protocol") then .error "protocol must be 1."
    else if !isIdempotencyKey (trimmed (value.member "idempotencyKey")) then
      .error "idempotencyKey must be 8-128 URL-safe characters."
    else match parseChoice [.chat, .agent] ExecutionKind.text (value.member "kind") with
    | none => .error "kind must be chat or agent."
    | some kind =>
      match parseChoice [.desktop, .mobile, .browser, .cloud, .schedule] ExecutionIngress.text (value.member "ingress") with
    | none => .error "ingress is not recognized."
    | some ingress => match parseChoice [.portable, .computer, .cloud] ExecutionSubject.text (value.member "subject") with
    | none => .error "subject must be portable, computer, or cloud."
    | some subject =>
      if !ingress.mayClaimComputerSubject && subject ≠ .cloud then
        .error (ingress.text ++ " ingress cannot claim a local execution subject.")
      else match parseTarget (value.member "targetMode") (value.member "targetDeviceId") with
    | .error message => .error message
    | .ok target => match bounded (value.member "conversationId") maxConversationIdChars with
    | none => .error "conversationId is required."
    | some conversationId => match parseCapabilities kind (value.member "requiredCapabilities") with
    | none => .error "requiredCapabilities contains an unsupported requirement."
    | some requiredCapabilities => match parseDispatchPayload (value.member "payload") kind with
    | .error message => .error message
    | .ok payload =>
      if payload.conversationId ≠ conversationId then .error "payload.conversationId does not match the dispatch."
      else match optionalText (value.member "requestingDeviceId") maxDeviceIdChars "requestingDeviceId is malformed." with
    | .error message => .error message
    | .ok requestingDeviceId => match optionalText (value.member "parentTurnId") 256 "parentTurnId is malformed." with
    | .error message => .error message
    | .ok parentTurnId => match optionalText (value.member "threadId") 256 "threadId is malformed." with
    | .error message => .error message
    | .ok threadId =>
      .ok { idempotencyKey := trimmed (value.member "idempotencyKey"), kind, ingress, subject, target, requestingDeviceId
            conversationId, parentTurnId, threadId, requiredCapabilities, payload }

/-! ## The texts that are signed -/

def textMember (name : String) : Option String → String
  | some value => if value = "" then "" else ",\"" ++ name ++ "\":" ++ JsonText.quote value
  | none => ""

def executionMember : Option CloudExecutionSelection → String
  | some execution =>
    ",\"execution\":\x7b\"engine\":" ++ execution.engine ++ ",\"provider\":" ++ execution.provider ++ ",\"model\":" ++
      JsonText.quote execution.model ++ ",\"reasoningEffort\":" ++ JsonText.quote execution.reasoningEffort ++ "\x7d"
  | none => ""

def canonicalRest (payload : DispatchPayload) : String :=
  textMember "userMessageEventId" payload.userMessageEventId ++ textMember "locale" payload.locale ++
    (if payload.attachments = [] then "" else ",\"attachments\":" ++ JsonText.stringifyArray payload.attachments) ++
    executionMember payload.execution ++ textMember "description" payload.description ++
    textMember "threadId" payload.threadId ++ textMember "model" payload.model ++
    if payload.handoff then ",\"handoff\":true" else ""

def canonicalDispatchPayloadJson (payload : DispatchPayload) : String :=
  "\x7b\"schemaVersion\":1,\"prompt\":" ++ JsonText.quote payload.prompt ++ ",\"conversationId\":" ++
    JsonText.quote payload.conversationId ++ ",\"clientMsgId\":" ++ JsonText.quote payload.clientMsgId ++
    canonicalRest payload ++ "\x7d"

structure MobilePairingChallengeInput where
  idempotencyKey : String
  conversationId : String
  payloadHash : String
  kind : ExecutionKind
  subject : ExecutionSubject
  targetMode : Option ExecutionTargetMode
  targetDeviceId : Option String

def challengeParts (input : MobilePairingChallengeInput) : List String :=
  ["execution-placement-v1", input.idempotencyKey, input.conversationId, input.payloadHash, input.kind.text, input.subject.text] ++
    if input.targetMode.isSome || input.targetDeviceId.any (fun deviceId => deviceId ≠ "") then
      [(input.targetMode.getD .automatic).text, input.targetDeviceId.getD ""]
    else []

def buildMobilePairingChallenge (input : MobilePairingChallengeInput) : String := ":".intercalate (challengeParts input)

def submissionChallenge (sha256Hex : String → String) (request : DispatchSubmitRequest) : String :=
  buildMobilePairingChallenge
    { idempotencyKey := request.idempotencyKey, conversationId := request.conversationId
      payloadHash := sha256Hex (canonicalDispatchPayloadJson request.payload), kind := request.kind, subject := request.subject
      targetMode := request.target.mode, targetDeviceId := request.target.deviceId }

inductive DeviceRequestMethod
  | fileRead
  | officePreviewRender
  | voiceConfig
  | voiceExecuteTool

def DeviceRequestMethod.text : DeviceRequestMethod → String
  | .fileRead => "file.read"
  | .officePreviewRender => "officePreview.render"
  | .voiceConfig => "voice.config"
  | .voiceExecuteTool => "voice.executeTool"

def buildDeviceRequestChallenge (requestId : String) (method : DeviceRequestMethod) (paramsHash : String) : String :=
  ":".intercalate ["device-request-v1", requestId, method.text, paramsHash]

end Stella.Pairing
