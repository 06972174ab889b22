import Stella.Journal.Model
import Stella.Library.InsertionMap
import Stella.AgentActivity.Lifecycle

/-! # The fold of a journal's agent activity

`foldAgentActivity` of `conversation-agent-activity.ts`: the start cards and the tool calls of the
rows at hand are collected first, then the rows are applied in order.
-/

namespace Stella.AgentActivity

open Conversation (RowKind MessageRole)

structure AgentActivityEntry where
  agentId : String
  title : String
  agentType : Option String
  status : AgentActivityStatus
  statusText : Option String
  createdAtMs : Int
  updatedAtMs : Int
  completedAtMs : Option Int
  attemptGeneration : Option Int
  hTitle : title ≠ ""

structure AgentActivityState where
  entries : InsertionMap String AgentActivityEntry := []
  generations : InsertionMap String Int := []
  settledGenerations : InsertionMap String Int := []
  carded : List String := []

def emptyAgentActivityState : AgentActivityState := {}

structure AgentActivityRecordInput where
  kind : RowKind
  createdAtMs : Int
  role : Option MessageRole := none
  hidden : Bool := false
  payload : Option Json := none
  card : Option Json := none

structure AgentActivityToolCall where
  name : String
  description : Option String
  threadId : Option String

abbrev ToolCalls := InsertionMap String AgentActivityToolCall

def toolCallOf (block : Json) : Option (String × AgentActivityToolCall) := do
  guard (stringMember "type" block = some "toolCall")
  let id ← stringMember "id" block
  let name ← stringMember "name" block
  let args := recordMember "arguments" block
  some (id, {
    name := bareToolName name
    description := nonempty ((args.bind (stringMember "description")).map trim)
    threadId := nonempty (args.bind (stringMember "thread_id")) })

def toolCallsOf (record : AgentActivityRecordInput) : List (String × AgentActivityToolCall) :=
  if record.kind = .message ∧ record.role = some .assistant then
    (((record.payload.bind (Json.member "content")).bind Json.asArray).getD []).filterMap toolCallOf
  else []

def collectToolCalls (records : List AgentActivityRecordInput) (into : ToolCalls) : ToolCalls :=
  (records.flatMap toolCallsOf).foldl (fun calls call => calls.set call.1 call.2) into

def cardEvent (record : AgentActivityRecordInput) : Option CloudAgentLifecycleEvent :=
  if record.kind = .card then (record.card.bind parseCloudAgentLifecycleCard).map CloudAgentLifecycleCard.event
  else none

def startedAgent (record : AgentActivityRecordInput) : Option String :=
  match cardEvent record with
  | some (.started identity ..) => some identity.agentId
  | _ => none

/-- `carded.add` of every agent the rows have a start card of. -/
def collectCarded (records : List AgentActivityRecordInput) (carded : List String) : List String :=
  (records.filterMap startedAgent).foldl (fun carded agentId => if agentId ∈ carded then carded else carded ++ [agentId])
    carded

inductive ActivityRow
  | card (event : CloudAgentLifecycleEvent)
  | wake (threadId : String) (status : AgentActivityStatus)
  | spawn (threadId : String) (description : Option String)
  | send (threadId : String) (delivered : Option String)

def ActivityRow.agentId : ActivityRow → String
  | .card event => event.identity.agentId
  | .wake threadId _ => threadId
  | .spawn threadId _ => threadId
  | .send threadId _ => threadId

def wakeRow (record : AgentActivityRecordInput) : Option ActivityRow := do
  let text := agentActivityMessageText record.payload
  let target ← lifecycleWakeTarget text
  let status ← wakeStatus text
  some (.wake target.threadId status)

section

-- `JSON.parse`, none where it throws
variable (jsonParse : String → Option Json)

def toolResultRow (calls : ToolCalls) (record : AgentActivityRecordInput) : Option ActivityRow := do
  guard (record.role = some .toolResult ∧ (record.payload.bind (Json.member "isError")).bind Json.asBool ≠ some true)
  let call := calls.get? ((record.payload.bind (stringMember "toolCallId")).getD "")
  let toolName ← ((record.payload.bind (stringMember "toolName")).map bareToolName).or
    (call.map AgentActivityToolCall.name)
  guard (toolName = "spawn_agent" ∨ toolName = "send_message")
  let threadId ← (toolResultThreadId jsonParse record.payload).or (call.bind AgentActivityToolCall.threadId)
  if toolName = "send_message" then some (.send threadId (toolResultField jsonParse record.payload "delivered"))
  else some (.spawn threadId ((call.bind AgentActivityToolCall.description).or
    ((record.payload.bind (recordMember "details")).bind (stringMember "description"))))

def activityRow (calls : ToolCalls) (record : AgentActivityRecordInput) : Option ActivityRow :=
  match record.kind with
  | .card => (cardEvent record).map .card
  | .message =>
    if record.role = some .user ∧ record.hidden = true then wakeRow record else toolResultRow jsonParse calls record
  | .turn => none

end

structure EntryExtra where
  agentType : Option String := none
  statusText : Option String := none
  attemptGeneration : Option Int := none

/-- `title?.trim() || existing?.title`. -/
def resolveTitle (title : Option String) (existing : Option AgentActivityEntry) : Option { t : String // t ≠ "" } :=
  ((title.map trim).bind (fun t => if h : t ≠ "" then some ⟨t, h⟩ else none)).or
    (existing.map (fun entry => ⟨entry.title, entry.hTitle⟩))

namespace AgentActivityState

def start (state : AgentActivityState) (agentId : String) (title : Option String) (atMs : Int) (extra : EntryExtra) :
    AgentActivityState :=
  let existing := state.entries.get? agentId
  match resolveTitle title existing with
  | none => state
  | some resolved =>
    let entry : AgentActivityEntry := {
      agentId
      title := resolved.1
      agentType := extra.agentType.or (nonempty (existing.bind AgentActivityEntry.agentType))
      status := .running
      statusText := extra.statusText
      createdAtMs := atMs
      updatedAtMs := atMs
      completedAtMs := none
      attemptGeneration := extra.attemptGeneration
      hTitle := resolved.2 }
    { state with entries := state.entries.set agentId entry }

def settle (state : AgentActivityState) (agentId : String) (status : AgentActivityStatus) (atMs : Int) :
    AgentActivityState :=
  match state.entries.get? agentId with
  | none => state
  | some existing =>
    if existing.status ≠ .running then state
    else
      let entry := { existing with status, statusText := none, completedAtMs := some atMs, updatedAtMs := atMs }
      { state with entries := state.entries.set agentId entry }

def applyStarted (state : AgentActivityState) (identity : LifecycleIdentity) (description agentType : String)
    (statusText : Option String) (atMs : Int) : AgentActivityState :=
  let generation := identity.attemptGeneration
  if generation < (state.generations.get? identity.agentId).getD 0 then state
  else if generation ≤ (state.settledGenerations.get? identity.agentId).getD 0 then state
  else
    let opened := { state with generations := state.generations.set identity.agentId generation }
    let extra : EntryExtra := {
      agentType := nonempty (some agentType)
      statusText := nonempty (statusText.map trim)
      attemptGeneration := some generation }
    opened.start identity.agentId (some description) atMs extra

def isOtherAttempt (state : AgentActivityState) (identity : LifecycleIdentity) : Bool :=
  identity.attemptGeneration ≠ (state.generations.get? identity.agentId).getD 0 &&
    state.generations.has identity.agentId

def applyProgress (state : AgentActivityState) (identity : LifecycleIdentity) (statusText : String) (atMs : Int) :
    AgentActivityState :=
  if state.isOtherAttempt identity then state
  else if ¬ state.generations.has identity.agentId then state
  else
    match state.entries.get? identity.agentId with
    | none => state
    | some existing =>
      if existing.status = .running ∧ trim statusText ≠ "" then
        let entry := { existing with statusText := some (trim statusText), updatedAtMs := atMs }
        { state with entries := state.entries.set identity.agentId entry }
      else state

def applyTerminal (state : AgentActivityState) (identity : LifecycleIdentity) (status : AgentActivityStatus)
    (atMs : Int) : AgentActivityState :=
  let newest := max identity.attemptGeneration ((state.settledGenerations.get? identity.agentId).getD 0)
  let settled := { state with settledGenerations := state.settledGenerations.set identity.agentId newest }
  if state.isOtherAttempt identity then settled else settled.settle identity.agentId status atMs

def applyCard (state : AgentActivityState) (atMs : Int) : CloudAgentLifecycleEvent → AgentActivityState
  | .started identity description agentType _ statusText => state.applyStarted identity description agentType statusText atMs
  | .progress identity statusText => state.applyProgress identity statusText atMs
  | .completed identity _ => state.applyTerminal identity .completed atMs
  | .failed identity _ => state.applyTerminal identity .error atMs
  | .canceled identity _ => state.applyTerminal identity .canceled atMs

def applyRow (state : AgentActivityState) (atMs : Int) : ActivityRow → AgentActivityState
  | .card event => state.applyCard atMs event
  | .wake threadId status => if threadId ∈ state.carded then state else state.settle threadId status atMs
  | .spawn threadId description =>
    if threadId ∈ state.carded then state
    else state.start threadId description atMs { agentType := some "general" }
  | .send threadId delivered =>
    if threadId ∈ state.carded then state
    else if delivered ≠ none ∧ delivered ≠ some "resumed" then state
    else if delivered = some "resumed" ∧ ¬ state.entries.has threadId then state
    else if (state.entries.get? threadId).map AgentActivityEntry.status = some .running then state
    else state.start threadId none atMs {}

end AgentActivityState

section

variable (jsonParse : String → Option Json)

def foldRecord (calls : ToolCalls) (state : AgentActivityState) (record : AgentActivityRecordInput) :
    AgentActivityState :=
  match activityRow jsonParse calls record with
  | some row => state.applyRow record.createdAtMs row
  | none => state

/-- One call of `foldAgentActivity`, with the map of tool calls it goes on with. -/
def foldAgentActivity (state : AgentActivityState) (toolCalls : ToolCalls) (records : List AgentActivityRecordInput) :
    AgentActivityState × ToolCalls :=
  let calls := collectToolCalls records toolCalls
  (records.foldl (foldRecord jsonParse calls) { state with carded := collectCarded records state.carded }, calls)

end

def maxSettledEntries : Nat := 256
def maxPendingToolCalls : Nat := 512
def readyRunningAgentsLimit : Nat := 64

def surplusSettled (state : AgentActivityState) : List String :=
  let settled := (state.entries.map Prod.snd).filter (fun entry => entry.status ≠ .running)
  ((settled.insertionSort (fun a b => a.updatedAtMs ≤ b.updatedAtMs)).take (settled.length - maxSettledEntries)).map
    AgentActivityEntry.agentId

def dropUnlisted {β : Type} (entries : InsertionMap String AgentActivityEntry) (m : InsertionMap String β) :
    InsertionMap String β :=
  if maxSettledEntries < m.length then m.filter (fun entry => entries.has entry.1) else m

def trimAgentActivity (state : AgentActivityState) (toolCalls : ToolCalls) : AgentActivityState × ToolCalls :=
  let forgotten := surplusSettled state
  let entries := forgotten.foldl InsertionMap.erase state.entries
  let carded := state.carded.filter (fun agentId => agentId ∉ forgotten)
  ({ entries
     generations := dropUnlisted entries (forgotten.foldl InsertionMap.erase state.generations)
     settledGenerations := dropUnlisted entries (forgotten.foldl InsertionMap.erase state.settledGenerations)
     carded := if maxSettledEntries < carded.length then carded.filter entries.has else carded },
    if maxPendingToolCalls < toolCalls.length then toolCalls.drop (toolCalls.length - maxPendingToolCalls) else toolCalls)

/-- Every agent the journal still shows as working, oldest start first; the last `limit` of them. -/
def runningAgentEntries (state : AgentActivityState) (limit : Option Nat) : List AgentActivityEntry :=
  let running := (state.entries.map Prod.snd).filter (fun entry => entry.status = .running)
  match limit with
  | none => running
  | some limit => running.drop (running.length - limit)

end Stella.AgentActivity
