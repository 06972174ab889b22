import Stella.AgentActivity.Lifecycle
import Mathlib.Data.List.MinMax

/-! # The chat event log

The entries of every conversation with the columns that are written from their payloads: whether
an entry is shown, the text search reads, the turn it is of, and the index of what a reply refers
to.
-/

namespace Stella.ChatLog

open Stella.AgentActivity (trim)

/-- A row of `entry`; `payload` is the stored value, an object or nothing. -/
structure Entry where
  conversationId : String
  seq : Nat
  id : String
  type : String
  visible : Bool
  turnSeq : Option Nat
  payload : Option Json
  searchText : Option String
  createdAt : Int
  updatedAt : Int

structure EntryRef where
  conversationId : String
  entrySeq : Nat
  targetKind : String
  targetKey : String
  deriving DecidableEq

/-- `nextSeq` is the `next_seq` of a conversation's row, if it has one. -/
structure Db where
  entries : List Entry := []
  refs : List EntryRef := []
  nextSeq : String → Option Nat := fun _ => none

def uiHiddenTriggerKinds : List String := ["workspace_creation_request"]

/-- A path of optional member reads, `payload?.a?.b`. -/
def memberPath (payload : Option Json) (path : List String) : Option Json :=
  path.foldl (fun value name => value.bind (Json.member name)) payload

def isUiHiddenChatMessagePayload (payload : Option Json) : Bool :=
  ((memberPath payload ["metadata", "ui", "visibility"]).bind Json.asString == some "hidden") ||
    ((memberPath payload ["metadata", "trigger", "kind"]).bind Json.asString).any
      (fun kind => uiHiddenTriggerKinds.contains (trim kind))

def isChatMessage (type : String) : Bool := type == "user_message" || type == "assistant_message"

def computeChatVisibility (type : String) (payload : Option Json) : Bool :=
  isChatMessage type && !isUiHiddenChatMessagePayload payload

def computeSearchText (type : String) (payload : Option Json) : Option String :=
  if isChatMessage type then (memberPath payload ["text"]).bind Json.asString else none

inductive ReplyRef
  | message (sequence : Int) (id : String) (fromAssistant : Bool) (preview : String)
  | agent (threadId title : String)

/-- One candidate of `replyRefs`, when it is well formed. -/
def readReplyRef (ref : Json) : Option ReplyRef :=
  let text := fun name => (ref.member name).bind Json.asString
  match text "kind", ((ref.member "sequence").bind Json.asSafeInteger), text "id", text "threadId" with
  | some "message", some sequence, some id, _ =>
    some (.message sequence id (text "role" == some "assistant") ((text "preview").getD ""))
  | some "agent", _, _, some threadId =>
    if trim threadId = "" then none else some (.agent (trim threadId) ((text "title").getD (trim threadId)))
  | _, _, _, _ => none

def readReplyRefs (payload : Option Json) : List ReplyRef :=
  let metadata := (memberPath payload ["metadata"]).bind Json.asRecord
  let runtime := (metadata.bind (Json.member "runtime")).bind Json.asRecord
  (((runtime.bind (Json.member "replyRefs")).bind Json.asArray).getD []).filterMap readReplyRef

def ReplyRef.target : ReplyRef → String × String
  | .message sequence _ _ _ => ("message", toString sequence)
  | .agent threadId _ => ("agent", threadId)

/-- What the rows of `entry_ref` for an entry are written from. -/
def refTargets (type : String) (payload : Option Json) : List (String × String) :=
  if type = "assistant_message" then (readReplyRefs payload).map ReplyRef.target else []

def Entry.startsTurn (e : Entry) : Bool := e.type == "user_message" && e.visible

namespace Db

variable (db : Db)

def entryOf (eventId : String) : Option Entry := db.entries.find? (fun e => e.id = eventId)

def lastVisibleUserSeq (conversationId : String) (atOrBeforeSeq : Option Nat) : Option Nat :=
  ((db.entries.filter (fun e => e.conversationId = conversationId && e.startsTurn &&
    atOrBeforeSeq.all (fun bound => e.seq ≤ bound))).map Entry.seq).max?

/-- The entry with its turn computed again, at or after `fromSeq`. -/
def retake (conversationId : String) (fromSeq : Nat) (e : Entry) : Entry :=
  if e.conversationId = conversationId ∧ fromSeq ≤ e.seq then
    { e with turnSeq := db.lastVisibleUserSeq e.conversationId (some e.seq) } else e

def reassignTurns (conversationId : String) (fromSeq : Nat) : Db :=
  { db with entries := db.entries.map (db.retake conversationId fromSeq) }

/-- `DELETE FROM entry_ref` for one entry. -/
def dropRefs (conversationId : String) (entrySeq : Nat) : Db :=
  { db with refs := db.refs.filter (fun r => ¬ (r.conversationId = conversationId ∧ r.entrySeq = entrySeq)) }

/-- The rows are a set: `INSERT OR IGNORE` under the table's primary key. -/
def syncEntryRefs (conversationId : String) (entrySeq : Nat) (type : String) (payload : Option Json) : Db :=
  { db with
    refs := (db.dropRefs conversationId entrySeq).refs ++
      ((refTargets type payload).map (fun t => ⟨conversationId, entrySeq, t.1, t.2⟩)).dedup }

/-- `ensureConversation`: the row is there afterwards. -/
def ensureConversation (conversationId : String) : Db :=
  { db with nextSeq := fun c => if c = conversationId then some ((db.nextSeq c).getD 1) else db.nextSeq c }

def claimSeq (conversationId : String) : Option (Nat × Db) :=
  (db.nextSeq conversationId).map (fun seq =>
    (seq, { db with nextSeq := fun c => if c = conversationId then some (seq + 1) else db.nextSeq c }))

end Db

structure Event where
  conversationId : String
  eventId : String
  type : String
  timestamp : Int
  payload : Option Json
  ensureConversation : Bool

def Event.rewrites (event : Event) (e : Entry) : Entry :=
  if e.id = event.eventId then
    { e with
      type := event.type
      visible := computeChatVisibility event.type event.payload
      payload := event.payload
      searchText := computeSearchText event.type event.payload
      createdAt := event.timestamp
      updatedAt := event.timestamp } else e

namespace Db

variable (db : Db)

def updateEntry (event : Event) : Db := { db with entries := db.entries.map event.rewrites }

/-- The `UPDATE` path: the entry is stored in the conversation the event names. -/
def upsertExisting (existing : Entry) (event : Event) : Db :=
  let touched := if event.ensureConversation then db.ensureConversation event.conversationId else db
  let updated := touched.updateEntry event
  let turned :=
    if event.type = "user_message" ∧ existing.visible ≠ computeChatVisibility event.type event.payload then
      updated.reassignTurns event.conversationId existing.seq
    else updated
  turned.syncEntryRefs event.conversationId existing.seq event.type event.payload

/-- The `INSERT` path. -/
def insertEvent (event : Event) : Option Db :=
  let ready := if event.ensureConversation then db.ensureConversation event.conversationId else db
  (ready.claimSeq event.conversationId).map (fun (seq, claimed) =>
    let visible := computeChatVisibility event.type event.payload
    let turnSeq :=
      if event.type = "user_message" ∧ visible = true then some seq
      else claimed.lastVisibleUserSeq event.conversationId none
    let inserted : Db := { claimed with
      entries := claimed.entries ++ [{
        conversationId := event.conversationId
        seq
        id := event.eventId
        type := event.type
        visible
        turnSeq
        payload := event.payload
        searchText := computeSearchText event.type event.payload
        createdAt := event.timestamp
        updatedAt := event.timestamp }] }
    inserted.syncEntryRefs event.conversationId seq event.type event.payload)

def takeOut (existing : Entry) : Db :=
  { db.dropRefs existing.conversationId existing.seq with
    entries := db.entries.filter (fun e => e.id ≠ existing.id) }

/-- `none` where it throws: the conversation has no row and none is to be made. -/
def upsertEvent (event : Event) : Option Db :=
  match db.entryOf event.eventId with
  | some existing =>
    if existing.conversationId = event.conversationId then some (db.upsertExisting existing event)
    else (db.takeOut existing).insertEvent event
  | none => db.insertEvent event

end Db

/-- `{ ...existing, ...patch }` as it is stored: a member that is `undefined` is not written. -/
def mergePayload (existing : Option Json) (patch : List (String × Option Json)) : Json :=
  let members := match existing with
    | some (.object members) => members
    | _ => []
  .object (members.filter (fun m => !(patch.map Prod.fst).contains m.1) ++
    patch.filterMap (fun m => m.2.map (fun value => (m.1, value))))

/-- The entry `existing` with the patch in its payload. -/
def Entry.merges (existing : Entry) (patch : List (String × Option Json)) (now : Int) (e : Entry) : Entry :=
  let merged := some (mergePayload existing.payload patch)
  if e.id = existing.id ∧ e.conversationId = existing.conversationId then
    { e with
      payload := merged
      visible := computeChatVisibility existing.type merged
      searchText := computeSearchText existing.type merged
      updatedAt := now } else e

structure AppendArgs where
  conversationId : String
  type : String
  payload : Option Json
  timestamp : Int
  eventId : Option String
  /-- the id made for an event that comes without one -/
  generatedId : String

def AppendArgs.event (args : AppendArgs) : Option Event :=
  if trim args.conversationId = "" ∨ trim args.type = "" then none else some {
    conversationId := trim args.conversationId
    eventId := match args.eventId.map trim with
      | some eventId => if eventId = "" then args.generatedId else eventId
      | none => args.generatedId
    type := trim args.type
    timestamp := args.timestamp
    payload := args.payload.bind Json.asRecord
    ensureConversation := true }

namespace Db

variable (db : Db)

def appendEvent (args : AppendArgs) : Option Db := args.event.bind db.upsertEvent

def mergeEntry (existing : Entry) (patch : List (String × Option Json)) (now : Int) : Db :=
  { db with entries := db.entries.map (existing.merges patch now) }

def mergeEventPayload (conversationId eventId : String) (patch : List (String × Option Json)) (now : Int) :
    Option Db :=
  if trim conversationId = "" then none
  else if trim eventId = "" then some db
  else match db.entries.find? (fun e => e.id = trim eventId ∧ e.conversationId = trim conversationId) with
    | some existing => some (db.mergeEntry existing patch now)
    | none => some db

def reactToUserMessage (conversationId : String) (sequence : Int) (reaction : Json) (now : Int) : Option Db :=
  if trim conversationId = "" then none
  else match db.entries.find? (fun e => e.conversationId = trim conversationId && (e.seq : Int) = sequence &&
      e.startsTurn) with
    | some row => db.mergeEventPayload (trim conversationId) row.id [("reaction", some reaction)] now
    | none => some db

end Db

inductive Input
  | append (args : AppendArgs)
  | upsert (event : Event)
  | merge (conversationId eventId : String) (patch : List (String × Option Json)) (now : Int)
  | react (conversationId : String) (sequence : Int) (reaction : Json) (now : Int)

def Db.call (db : Db) : Input → Option Db
  | .append args => db.appendEvent args
  | .upsert event => db.upsertEvent event
  | .merge conversationId eventId patch now => db.mergeEventPayload conversationId eventId patch now
  | .react conversationId sequence reaction now => db.reactToUserMessage conversationId sequence reaction now

def Db.step (db : Db) (input : Input) : Db := (db.call input).getD db

end Stella.ChatLog
