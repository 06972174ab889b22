import Mathlib.Data.List.DropRight
import Stella.Library.Json

/-! # Lifecycle cards and wake prompts

What `cloud-agent-lifecycle.ts` reads off a card, and the readers of
`conversation-agent-activity.ts` off a hidden wake prompt and a tool's payload.
-/

namespace Stella.AgentActivity

/-- White space, as `trim` and `\s` know it. -/
def isSpace (c : Char) : Bool :=
  (9 ≤ c.toNat && c.toNat ≤ 13) || (0x2000 ≤ c.toNat && c.toNat ≤ 0x200a) ||
    [32, 0xa0, 0x1680, 0x2028, 0x2029, 0x202f, 0x205f, 0x3000, 0xfeff].contains c.toNat

/-- The characters a line ends at, for `^` and `.`. -/
def isLineEnd (c : Char) : Bool := [10, 13, 0x2028, 0x2029].contains c.toNat

def trim (text : String) : String :=
  String.ofList ((text.toList.dropWhile isSpace).reverse.dropWhile isSpace).reverse

theorem trim_trim (text : String) : trim (trim text) = trim text := by
  have hEnds : ∀ text : List Char, ((text.dropWhile isSpace).rdropWhile isSpace).dropWhile
      isSpace = (text.dropWhile isSpace).rdropWhile isSpace := by
    intro text
    rw [List.dropWhile_eq_self_iff]
    intro hLong
    have hPrefix := List.rdropWhile_prefix isSpace (l := text.dropWhile isSpace)
    have hFirst : 0 < (text.dropWhile isSpace).length := hLong.trans_le hPrefix.length_le
    rw [hPrefix.getElem hLong]
    exact List.dropWhile_get_zero_not _ text hFirst
  have hTrim : ∀ text, trim text =
      String.ofList ((text.toList.dropWhile isSpace).rdropWhile isSpace) := fun _ => rfl
  rw [hTrim, hTrim, String.toList_ofList, hEnds, List.rdropWhile_idempotent]

def nonempty (text : Option String) : Option String := text.filter (· ≠ "")

structure LifecycleIdentity where
  agentId : String
  rootRunId : Option String
  attemptGeneration : Int
  hAgentId : agentId ≠ ""
  hGeneration : 1 ≤ attemptGeneration

inductive CloudAgentLifecycleEvent
  | started (identity : LifecycleIdentity) (description agentType : String) (isFollowUp : Bool)
      (statusText : Option String)
  | progress (identity : LifecycleIdentity) (statusText : String)
  | completed (identity : LifecycleIdentity) (result : String)
  | failed (identity : LifecycleIdentity) (error : Option String)
  | canceled (identity : LifecycleIdentity) (error : Option String)

def CloudAgentLifecycleEvent.identity : CloudAgentLifecycleEvent → LifecycleIdentity
  | .started identity .. => identity
  | .progress identity _ => identity
  | .completed identity _ => identity
  | .failed identity _ => identity
  | .canceled identity _ => identity

structure CloudAgentLifecycleCard where
  eventId : String
  event : CloudAgentLifecycleEvent

def optionalString : Option Json → Option (Option String)
  | none => some none
  | some value => value.asString.map some

def optionalBool : Option Json → Option (Option Bool)
  | none => some none
  | some value => value.asBool.map some

def stringMember (name : String) (value : Json) : Option String := (value.member name).bind Json.asString

def recordMember (name : String) (value : Json) : Option Json := (value.member name).bind Json.asRecord

def parseLifecycleIdentity (payload : Json) : Option LifecycleIdentity := do
  let agentId ← stringMember "agentId" payload
  let attemptGeneration ← (payload.member "attemptGeneration").bind Json.asSafeInteger
  let rootRunId ← optionalString (payload.member "rootRunId")
  if h : agentId ≠ "" ∧ 1 ≤ attemptGeneration then
    some { agentId, rootRunId, attemptGeneration, hAgentId := h.1, hGeneration := h.2 }
  else none

def parseLifecycleEvent (event : Json) : Option CloudAgentLifecycleEvent := do
  let payload ← recordMember "payload" event
  let identity ← parseLifecycleIdentity payload
  match ← stringMember "type" event with
  | "agent-started" =>
    let description ← stringMember "description" payload
    let agentType ← stringMember "agentType" payload
    let isFollowUp ← optionalBool (payload.member "isFollowUp")
    let statusText ← optionalString (payload.member "statusText")
    some (.started identity description agentType (isFollowUp = some true) statusText)
  | "agent-progress" => (stringMember "statusText" payload).map (.progress identity)
  | "agent-completed" => (stringMember "result" payload).map (.completed identity)
  | "agent-failed" => (optionalString (payload.member "error")).map (.failed identity)
  | "agent-canceled" => (optionalString (payload.member "error")).map (.canceled identity)
  | _ => none

def parseCloudAgentLifecycleCard (value : Json) : Option CloudAgentLifecycleCard := do
  guard (stringMember "type" value = some "agent-lifecycle")
  let eventId ← nonempty (stringMember "eventId" value)
  let event ← (recordMember "event" value).bind parseLifecycleEvent
  some { eventId, event }

inductive AgentActivityStatus
  | running
  | completed
  | error
  | canceled
  deriving DecidableEq

/-- The headers of a wake prompt, in the order `wakeStatus` tries them. -/
def wakeStatuses : List (String × AgentActivityStatus) :=
  [("[Agent completed]", .completed), ("[Subagent paused]", .completed), ("[Task failed]", .error),
    ("[Task canceled]", .canceled)]

def lineStarts : Bool → List Char → List (List Char)
  | atStart, [] => if atStart then [[]] else []
  | atStart, c :: rest => (if atStart then [c :: rest] else []) ++ lineStarts (isLineEnd c) rest

def wakeStatus (text : String) : Option AgentActivityStatus :=
  (wakeStatuses.find? (fun s => (lineStarts true text.toList).any s.1.toList.isPrefixOf)).map Prod.snd

def afterWakeHeader (text : List Char) : Option (List Char) :=
  (lineStarts true text).findSome? (fun line => wakeStatuses.findSome? (fun s => line.dropPrefix? s.1.toList))

/-- `thread_id: id` at the start of a line, or `(thread id)` anywhere. -/
def threadIdAt (atStart : Bool) (text : List Char) : Option (List Char) :=
  let field := if atStart then
      (text.dropPrefix? "thread_id:".toList).map (fun rest => (rest.dropWhile isSpace).takeWhile (fun c => !isSpace c))
    else none
  let note := (text.dropPrefix? "(thread ".toList).bind (fun rest =>
    if ')' ∈ rest then some (rest.takeWhile (· ≠ ')')) else none)
  (field.or note).filter (fun threadId => !threadId.isEmpty)

def findThreadId : Bool → List Char → Option (List Char)
  | _, [] => none
  | atStart, c :: rest => (threadIdAt atStart (c :: rest)).or (findThreadId (isLineEnd c) rest)

structure WakeTarget where
  threadId : String
  description : Option String

def lifecycleWakeTarget (text : String) : Option WakeTarget := do
  let rest ← afterWakeHeader text.toList
  let threadId ← nonempty ((findThreadId false rest).map (fun threadId => trim (String.ofList threadId)))
  let description := (lineStarts false rest).findSome? (fun line =>
    (line.dropPrefix? "description:".toList).bind (fun rest =>
      nonempty (some (trim (String.ofList ((rest.dropWhile isSpace).takeWhile (fun c => !isLineEnd c)))))))
  some { threadId, description }

def agentActivityMessageText (payload : Option Json) : String :=
  match payload.bind (Json.member "content") with
  | some (.string text) => text
  | some (.array items) =>
    String.ofList (['\n'].intercalate (items.map (fun entry => ((stringMember "text" entry).getD "").toList)))
  | _ => ""

/-- The part behind the last `__`, where separators are found from the left. -/
def lastPart (part : List Char) : List Char → List Char
  | '_' :: '_' :: rest => lastPart rest rest
  | _ :: rest => lastPart part rest
  | [] => part

def bareToolName (name : String) : String := String.ofList (lastPart name.toList name.toList)

section

-- `JSON.parse`, none where it throws
variable (jsonParse : String → Option Json)

def toolResultField (payload : Option Json) (field : String) : Option String :=
  ((payload.bind (recordMember "details")).bind (stringMember field)).or
    ((jsonParse (agentActivityMessageText payload)).bind (stringMember field))

def toolResultThreadId (payload : Option Json) : Option String :=
  (nonempty ((payload.bind (recordMember "details")).bind (stringMember "thread_id"))).or
    (nonempty ((jsonParse (agentActivityMessageText payload)).bind (stringMember "thread_id")))

end

example : (lifecycleWakeTarget "Hi\n[Task failed] (thread t 1)\ndescription: Fix it \n").map WakeTarget.threadId =
    some "t 1" := by decide

end Stella.AgentActivity
