import Mathlib.Data.List.Sort
import Stella.Conversation.Protocol

/-! # The model's context

The message rows that the model reads. The window is scanned backwards over the tokens of
the newest rows and then opens on a user message.
-/

namespace Stella.Conversation

def contextScanRowCap : Nat := 4000

/-- A row of `journal` as the context reads it; `payload` is none where it does not parse. -/
structure ContextRow where
  seq : Nat
  message : Bool := true
  turnId : String
  writerKey : String
  role : Option MessageRole
  hidden : Bool := false
  modelSkip : Bool := false
  toolCallId : Option String := none
  openCalls : Nat := 0
  tokens : Nat := 0
  payload : Option Json
  spillKey : Option String := none

structure ContextJournal where
  rows : List ContextRow
  nextSeq : Nat
  deleted : Bool := false
  retiredWriters : List String := []
  retiredTurns : List String := []

structure SpilledMessage where
  seq : Nat
  spillKey : String
  index : Nat
  role : MessageRole
  toolCallId : Option String

structure WindowSelection where
  messages : List Json
  rows : List (Nat × Option MessageRole × Bool)
  startSeq : Nat
  endSeq : Int
  spilled : List SpilledMessage

def toolCallBlocks (message : Json) : List Json :=
  (((message.member "content").bind Json.asArray).getD []).filter fun block =>
    match (block.member "type").bind Json.asString with
    | some type => type = "toolCall"
    | none => false

def countOpenCalls (message : Json) : Nat := (toolCallBlocks message).length

def callId (block : Json) : Option String := (block.member "id").bind Json.asString

def toolCallIds (message : Json) : List String := (toolCallBlocks message).filterMap callId

structure ToolCall where
  id : String
  name : String
  arguments : Json

def toolCallOf (block : Json) : Option ToolCall :=
  match callId block, (block.member "name").bind Json.asString with
  | some id, some name => some ⟨id, name, ((block.member "arguments").bind Json.asRecord).getD (.object [])⟩
  | _, _ => none

def toolCallsOf (message : Json) : List ToolCall := (toolCallBlocks message).filterMap toolCallOf

namespace ContextJournal

variable (journal : ContextJournal)

def readable (excludeTurnId : String) (row : ContextRow) : Bool :=
  row.message && !row.modelSkip && decide (row.turnId ≠ excludeTurnId)

def contextRows (excludeTurnId : String) (afterSeq : Int) : List ContextRow :=
  journal.rows.filter fun row => readable excludeTurnId row && decide (afterSeq < row.seq)

def fitting (budgetTokens : Int) : List ContextRow → Int → Nat
  | [], _ => 0
  | row :: older, used =>
    if budgetTokens < used + row.tokens then 0 else fitting budgetTokens older (used + row.tokens) + 1

def openWindow (budgetTokens : Int) (rows : List ContextRow) : List ContextRow :=
  let scan := (rows.reverse.take contextScanRowCap).reverse
  (scan.drop (scan.length - fitting budgetTokens scan.reverse 0)).dropWhile fun row => row.role ≠ some .user

def contextStartSeq (excludeTurnId : String) (budgetTokens afterSeq : Int) : Nat :=
  match openWindow budgetTokens (journal.contextRows excludeTurnId afterSeq) with
  | [] => journal.nextSeq
  | row :: _ => row.seq

def isSpillStub (payload : Json) : Bool := ((payload.member "$spill").bind Json.asBool).getD false

def readMessages : List ContextRow → Except Nat (List Json)
  | [] => .ok []
  | row :: rest =>
    match row.payload with
    | none => .error row.seq
    | some message => (readMessages rest).map (message :: ·)

def spilledOf : List ContextRow → Nat → List SpilledMessage
  | [], _ => []
  | row :: rest, index =>
    match row.spillKey with
    | some spillKey =>
      if spillKey ≠ "" ∧ row.payload.any isSpillStub then
        ⟨row.seq, spillKey, index, row.role.getD .user, row.toolCallId⟩ :: spilledOf rest (index + 1)
      else spilledOf rest (index + 1)
    | none => spilledOf rest (index + 1)

def windowFromRows (rows : List ContextRow) (startSeq : Nat) : Except Nat WindowSelection :=
  (readMessages rows).map fun messages =>
    { messages
      rows := rows.map fun row => (row.seq, row.role, row.hidden)
      startSeq
      endSeq := (rows.getLast?.map fun row => (row.seq : Int)).getD startSeq
      spilled := spilledOf rows 0 }

def selectWindow (excludeTurnId : String) (budgetTokens afterSeq : Int) : Except Nat WindowSelection :=
  let startSeq := journal.contextStartSeq excludeTurnId budgetTokens afterSeq
  if journal.nextSeq ≤ startSeq then .ok ⟨[], [], journal.nextSeq, (journal.nextSeq : Int) - 1, []⟩
  else windowFromRows (journal.rows.filter fun row => decide (startSeq ≤ row.seq) && readable excludeTurnId row) startSeq

end ContextJournal

end Stella.Conversation
