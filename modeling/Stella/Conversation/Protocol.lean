import Stella.Library.Json

/-! # The conversation socket's wire contract

The constants, the decoded journal records and the frames of `conversation-protocol.ts`, as every
client reads them.
-/

namespace Stella.Conversation

def protocolVersion : Nat := 1
def initialWindowRecords : Nat := 100
def maxResumeRecords : Nat := 2000
def maxCatchupResumeRecords : Nat := 300
def backfillBatchRecords : Nat := 200
def socketStaleMs : Int := 90000
def reAuthLeadMs : Int := 60000
def rateBackfillPerMin : Nat := 20
def maxClientRecords : Nat := 3000
def maxBufferedAhead : Nat := 512

def closeBadRequest : Nat := 4400
def closeUnauthenticated : Nat := 4401
def closeForbidden : Nat := 4403
def closeNotFound : Nat := 4404
def closeProtocolVersion : Nat := 4409
def closeDeleted : Nat := 4410
def closeFrameTooLarge : Nat := 4413
def closeRateLimited : Nat := 4429
def closeTooManySockets : Nat := 4503

def terminalCloseCodes : List Nat :=
  [closeBadRequest, closeForbidden, closeNotFound, closeProtocolVersion, closeDeleted, closeFrameTooLarge]

inductive MessageRole
  | user
  | assistant
  | toolResult
  deriving DecidableEq

inductive TurnPhase
  | started
  | completed
  | failed
  | canceled
  | timeout

inductive RecordBody
  | message (role : MessageRole) (hidden : Bool) (clientMsgId : Option String) (payload : Json)
  | turn (phase : TurnPhase) (lane source notice : Option String) (wallClockMs : Option Int)
  | card (card : Json)
  | skipped (originalKind : Option String)

structure JournalRecord where
  seq : Nat
  turnId : String
  createdAtMs : Int
  body : RecordBody

/-- The seq of a record on the cursor's scale, where `-1` is "nothing yet". -/
def JournalRecord.position (record : JournalRecord) : Int := record.seq

theorem JournalRecord.position_nonneg (record : JournalRecord) : 0 ≤ record.position :=
  Int.natCast_nonneg record.seq

structure LiveTool where
  toolCallId : String
  name : String
  label : Option String
  isStart : Bool
  isError : Bool

structure LiveTurnSnapshot where
  turnId : String
  tools : List LiveTool

structure ReadyFrame where
  epoch : Int
  headSeq : Int
  windowStartSeq : Int
  floorSeq : Int
  title : String := ""
  authExpiresAtMs : Int := 0
  serverTimeMs : Int := 0
  live : Option LiveTurnSnapshot := none

/-- The strings a client mints for its requests are `o1, o2, …` for scrollback and
`g1, g2, …` for gap repair; a server may answer with any string. -/
inductive RequestId
  | older (counter : Nat)
  | gap (counter : Nat)
  | foreign (text : String)
  deriving DecidableEq

structure BackfillFrame where
  requestId : RequestId
  fromSeq : Int
  toSeq : Int
  complete : Bool
  records : List JournalRecord

inductive ResetReason
  | epoch
  | window

structure ToolFrame where
  turnId : String
  toolCallId : String
  name : String
  label : Option String
  isStart : Bool

inductive ServerFrame
  | ready (ready : ReadyFrame)
  | record (record : JournalRecord)
  | backfill (frame : BackfillFrame)
  | gap (fromSeq toSeq : Int)
  | reset (reason : ResetReason)
  | tool (frame : ToolFrame)
  | agents
  | authExpiring
  | error (message : String) (retryable : Bool)

inductive ClientFrame
  | auth (token : String)
  | backfill (requestId : RequestId) (fromSeq toSeq : Int)
  | cancel (turnId : String)

def isTokenChar (c : Char) : Bool :=
  c.isAlphanum || "!#$%&'*+-.^_`|~".toList.contains c

def isSubprotocolSafe (token : String) : Bool :=
  decide (0 < token.length) && token.toList.all isTokenChar

end Stella.Conversation
