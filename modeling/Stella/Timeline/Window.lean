import Stella.Library.Paging

/-! # Timeline windows over the chat log

A page of the timeline: the visible messages from its cutoff on, each with the tool and lifecycle
events of its turn that stand behind it.
-/

namespace Stella.Timeline

open Stella.Paging

def chatMessageTypes : List String := ["user_message", "assistant_message"]

def toolEventTypes : List String :=
  ["tool_request", "tool_result", "agent-started", "agent-progress", "agent-completed", "agent-failed", "agent-canceled"]

def nonEventTypes : List String := ["thread_message", "run_event", "memory"]

/-- A row of `entry`; `hidden` is what the payload of a message says. -/
structure Entry where
  seq : Nat
  id : String
  timestamp : Int
  type : String
  hidden : Bool
  deriving DecidableEq

namespace Entry

/-- The `visible` column, as it is written with the payload. -/
def visible (e : Entry) : Bool := chatMessageTypes.contains e.type && !e.hidden

def isUser (e : Entry) : Bool := e.type = "user_message"

def isAssistant (e : Entry) : Bool := e.type = "assistant_message"

def isToolEvent (e : Entry) : Bool := toolEventTypes.contains e.type

end Entry

/-- A conversation's entries in the order of `seq`. -/
structure Log where
  entries : List Entry
  rising : Rising Entry.seq entries
  distinct : (entries.map Entry.id).Nodup
  named : ∀ e ∈ entries, e.id ≠ ""

/-! ## Cursors -/

structure Cursor where
  timestamp : Int
  id : String
  sequence : Option Nat

/-- `cursorFromRow`, and the cursor of a message. -/
def Entry.cursor (e : Entry) : Cursor := ⟨e.timestamp, e.id, some e.seq⟩

inductive Comparison
  | lt
  | le
  | gt
  | ge

namespace Comparison

def test : Comparison → Ordering → Bool
  | .lt => Ordering.isLT
  | .le => Ordering.isLE
  | .gt => Ordering.isGT
  | .ge => Ordering.isGE

def outer : Comparison → Comparison
  | .lt | .le => .lt
  | .gt | .ge => .gt

end Comparison

def cursorKeyset (op : Comparison) (cursor : Cursor) (e : Entry) : Bool :=
  match cursor.sequence with
  | some sequence => op.test (compare e.seq sequence)
  | none => op.outer.test (compare e.timestamp cursor.timestamp) ||
      (e.timestamp = cursor.timestamp && op.test (compare e.id cursor.id))

section

variable (localeCompare : String → String → Ordering)

def compareTimelineCursor (a b : Cursor) : Ordering :=
  match a.sequence, b.sequence with
  | some s, some t => (compare s t).then (localeCompare a.id b.id)
  | _, _ => (compare a.timestamp b.timestamp).then (localeCompare a.id b.id)

end

namespace Log

variable (log : Log)

def resolveCursorSequence (cursor : Cursor) : Cursor :=
  if cursor.sequence ≠ none ∨ cursor.id = "" then cursor
  else match log.entries.find? (fun e => e.id = cursor.id) with
    | some e => { cursor with sequence := some e.seq }
    | none => cursor

def within (op : Comparison) (cursor : Option Cursor) (e : Entry) : Bool :=
  cursor.all (fun c => cursorKeyset op (log.resolveCursorSequence c) e)

def fetchEntryRows (start before : Option Cursor) : List Entry :=
  log.entries.filter (fun e => chatMessageTypes.contains e.type && e.visible && log.within .ge start e && log.within .lt before e)

def findVisibleMessageCutoffPaged (maxVisibleMessages : Nat) (before : Option Cursor) : Option Cursor :=
  ((log.entries.filter (fun e => e.visible && log.within .lt before e)).reverse[maxVisibleMessages - 1]?).map Entry.cursor

def findTurnFetchCutoff (cutoff : Option Cursor) : Option Cursor :=
  cutoff.map (fun c =>
    match (log.entries.filter (fun e => e.isUser && e.visible && log.within .le cutoff e)).getLast? with
    | some user => user.cursor
    | none => log.resolveCursorSequence c)

def findLatestTimelineCursor : Option Cursor :=
  (log.entries.filter (fun e => !nonEventTypes.contains e.type)).getLast?.map Entry.cursor

def fetchBoundedToolEvents (start stop : Option Cursor) : List Entry :=
  log.entries.filter (fun e => e.isToolEvent && log.within .gt start e && log.within .lt stop e)

end Log

/-! ## Assembling -/

structure ChatMessageRecord where
  entry : Entry
  toolEvents : List Entry
  deriving DecidableEq

structure ChatMessageWindow where
  messages : List ChatMessageRecord
  visibleMessageCount : Nat
  nextCursor : Option Cursor

/-- The variables of `assembleMessageWindow`; a message is named by its place. -/
structure Assembly where
  messages : List ChatMessageRecord := []
  turnUserMessage : Option Nat := none
  currentAssistant : Option Nat := none
  pendingPreAssistantTools : List Entry := []
  visibleMessageCount : Nat := 0

namespace Assembly

variable (a : Assembly)

def addTools (place : Nat) (tools : List Entry) : Assembly :=
  { a with messages := a.messages.modify place (fun m => { m with toolEvents := m.toolEvents ++ tools }) }

def finalizePreAssistantTools : Assembly :=
  let finalized := match a.turnUserMessage with
    | some place => a.addTools place a.pendingPreAssistantTools
    | none => a
  { finalized with pendingPreAssistantTools := [] }

def row (e : Entry) : Assembly :=
  if e.isUser then
    let finalized := a.finalizePreAssistantTools
    { finalized with
      messages := finalized.messages ++ [⟨e, []⟩]
      turnUserMessage := some finalized.messages.length
      currentAssistant := none
      visibleMessageCount := finalized.visibleMessageCount + if e.hidden then 0 else 1 }
  else if e.isAssistant then
    if e.hidden then { a with messages := a.messages ++ [⟨e, []⟩] }
    else
      { a with
        messages := a.messages ++ [⟨e, a.pendingPreAssistantTools⟩]
        currentAssistant := some a.messages.length
        pendingPreAssistantTools := []
        visibleMessageCount := a.visibleMessageCount + 1 }
  else match a.currentAssistant with
    | some place => a.addTools place [e]
    | none => { a with pendingPreAssistantTools := a.pendingPreAssistantTools ++ [e] }

end Assembly

def assembleMessageWindow (rows : List Entry) : ChatMessageWindow :=
  let assembled := (rows.foldl Assembly.row {}).finalizePreAssistantTools
  ⟨assembled.messages, assembled.visibleMessageCount, none⟩

namespace ChatMessageWindow

variable (localeCompare : String → String → Ordering) (window : ChatMessageWindow)

def trimMessageWindow (cutoff : Option Cursor) : ChatMessageWindow :=
  match cutoff with
  | none => window
  | some c =>
    let messages := window.messages.filter (fun m => (compareTimelineCursor localeCompare m.entry.cursor c).isGE)
    { window with messages, visibleMessageCount := messages.countP (fun m => !m.entry.hidden) }

end ChatMessageWindow

/-! ## Tool events -/

namespace Log

variable (log : Log)

def attachAnchors (first : Option Cursor) (turnEnd : Option Cursor) : List Entry → List (String × List Entry)
  | [] => []
  | anchor :: anchors =>
    (anchor.id, log.fetchBoundedToolEvents (some (first.getD anchor.cursor)) ((anchors.head?.map Entry.cursor).or turnEnd)) ::
      attachAnchors none turnEnd anchors

def attachTurn (messages : List ChatMessageRecord) (turnEnd : Option Cursor) : List (String × List Entry) :=
  let entries := messages.map ChatMessageRecord.entry
  let user := entries.find? Entry.isUser
  let assistants := entries.filter (fun e => e.isAssistant && !e.hidden)
  log.attachAnchors (user.map Entry.cursor) turnEnd (if assistants = [] then user.toList else assistants)

def attachTurns (upperBound : Option Cursor) :
    List ChatMessageRecord → List ChatMessageRecord → List (String × List Entry)
  | turn, [] => if turn = [] then [] else log.attachTurn turn upperBound
  | turn, message :: messages =>
    if message.entry.isUser ∧ turn ≠ [] then
      log.attachTurn turn (some message.entry.cursor) ++ attachTurns upperBound [message] messages
    else attachTurns upperBound (turn ++ [message]) messages

def attachBoundedToolEvents (window : ChatMessageWindow) (upperBound : Option Cursor) : ChatMessageWindow :=
  let attachedById := log.attachTurns upperBound [] window.messages
  { window with
    messages := window.messages.map (fun m =>
      match attachedById.find? (fun attached => attached.1 = m.entry.id) with
      | some attached => { m with toolEvents := attached.2 }
      | none => m) }

end Log

/-! ## The reads -/

def maxVisibleMessageWindow : Nat := 500

def windowSize (maxVisibleMessages : Nat) : Nat := max 1 (min maxVisibleMessageWindow maxVisibleMessages)

namespace Log

variable (localeCompare : String → String → Ordering) (log : Log)

def listMessages (maxVisibleMessages : Nat) : ChatMessageWindow :=
  let cutoff := log.findVisibleMessageCutoffPaged (windowSize maxVisibleMessages) none
  let rows := log.fetchEntryRows (log.findTurnFetchCutoff cutoff) none
  { (log.attachBoundedToolEvents (assembleMessageWindow rows) none).trimMessageWindow localeCompare cutoff with
    nextCursor := log.findLatestTimelineCursor }

def listMessagesBefore (beforeTimestampMs : Int) (beforeId : String) (maxVisibleMessages : Nat) : ChatMessageWindow :=
  let before := log.resolveCursorSequence ⟨beforeTimestampMs, beforeId, none⟩
  let cutoff := log.findVisibleMessageCutoffPaged (windowSize maxVisibleMessages) (some before)
  let rows := log.fetchEntryRows (log.findTurnFetchCutoff cutoff) (some before)
  (log.attachBoundedToolEvents (assembleMessageWindow rows) (some before)).trimMessageWindow localeCompare cutoff

def olderMessages (oldest : Entry) : List Nat → List ChatMessageRecord
  | [] => []
  | size :: sizes =>
    let page := (log.listMessagesBefore localeCompare oldest.timestamp oldest.id size).messages
    match page.head? with
    | some message => olderMessages message.entry sizes ++ page
    | none => []

def pagedMessages : List Nat → List ChatMessageRecord
  | [] => []
  | size :: sizes =>
    let page := (log.listMessages localeCompare size).messages
    match page.head? with
    | some message => log.olderMessages localeCompare message.entry sizes ++ page
    | none => []

def wholeTimeline : List ChatMessageRecord :=
  (log.attachBoundedToolEvents (assembleMessageWindow (log.fetchEntryRows none none)) none).messages

end Log

end Stella.Timeline
