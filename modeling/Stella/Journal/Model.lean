import Mathlib.Algebra.GroupWithZero.Nat
import Mathlib.Data.List.Sort
import Stella.Conversation.Protocol

/-! # Journal

The tables of `journal.ts` that the archive and the readers work on: the resident rows, the
segment manifest, the spill keys and the turn projection.
-/

namespace Stella.Conversation

inductive RowKind
  | message
  | turn
  | card
  deriving DecidableEq

/-- A row of the `journal` table; `payload` is its payload JSON, none where it does not parse. -/
structure JournalRow where
  seq : Nat
  kind : RowKind
  turnId : String
  writerKey : String
  createdAt : Int
  bytes : Nat
  role : Option MessageRole := none
  hidden : Bool := false
  clientMsgId : Option String := none
  phase : Option TurnPhase := none
  lane : Option String := none
  source : Option String := none
  notice : Option String := none
  payload : Option Json := none

def JournalRow.position (row : JournalRow) : Int := row.seq

/-- The columns an append brings; the seq is allocated by `insert`. -/
abbrev NewRow := Nat → JournalRow

inductive SegmentState
  | uploading
  | committed
  deriving DecidableEq

/-- The name of an R2 object. `prefix` is the conversation's; a spill is named by a digest. -/
inductive ObjectKey
  | segment (root : String) (firstSeq lastSeq : Nat)
  | spill (root digest : String)
  deriving DecidableEq

structure SegmentRow where
  firstSeq : Nat
  lastSeq : Nat
  rows : Nat
  bytes : Nat
  r2Key : ObjectKey
  state : SegmentState
  createdAt : Int
  deriving DecidableEq

inductive TurnState
  | queued
  | running
  | terminal
  deriving DecidableEq

structure TurnRow where
  turnId : String
  state : TurnState
  createdAt : Int
  lastSeq : Option Nat
  ctxStartSeq : Option Nat

structure Journal where
  ownerId : String
  conversationId : String
  epoch : Int
  title : String
  nextSeq : Nat
  hotMinSeq : Nat
  deleted : Bool
  rows : List JournalRow
  segments : List SegmentRow
  spills : List ObjectKey
  turns : List TurnRow
  retiredWriters : List String
  retiredTurns : List String

structure JournalHead where
  headSeq : Int
  windowStartSeq : Nat
  floorSeq : Nat
  epoch : Int
  title : String
  deleted : Bool

namespace Journal

def isDeleted (journal : Journal) : Bool := journal.deleted

def head (journal : Journal) : JournalHead where
  headSeq := (journal.nextSeq : Int) - 1
  windowStartSeq := journal.hotMinSeq
  floorSeq := ((journal.segments.find? (fun s => s.state = .committed)).map SegmentRow.firstSeq).getD journal.hotMinSeq
  epoch := journal.epoch
  title := journal.title
  deleted := journal.deleted

/-- `insert`: the one seq allocator. A known writer key inserts nothing; a retired writer or turn throws. -/
def insert (journal : Journal) (columns : NewRow) : Option (Journal × Nat × Bool) :=
  let row := columns journal.nextSeq
  match journal.rows.find? (fun r => r.writerKey = row.writerKey) with
  | some existing => some (journal, existing.seq, false)
  | none =>
    if row.writerKey ∈ journal.retiredWriters then none
    else if row.turnId ∈ journal.retiredTurns then none
    else
      some ({ journal with
        rows := journal.rows ++ [{ row with seq := journal.nextSeq }], nextSeq := journal.nextSeq + 1 },
        journal.nextSeq, true)

/-- `appendMessage`, `appendTurn`, `appendCard` and the batches of `repairTail`: all of the rows or none. -/
def append (journal : Journal) : List NewRow → Option Journal
  | [] => some journal
  | columns :: rest =>
    if journal.deleted then none
    else (journal.insert columns).bind (fun result => result.1.append rest)

/-- Rows with a seq in `[fromSeq, toSeq]`, in order, at most `limit` of them. -/
def rowsForArchive (journal : Journal) (fromSeq toSeq limit : Nat) : List JournalRow :=
  (journal.rows.filter (fun r => fromSeq ≤ r.seq ∧ r.seq ≤ toSeq)).take limit

/-- `rowToRecord`: an unreadable payload keeps its row and its seq. -/
def rowToRecord (row : JournalRow) : JournalRecord where
  seq := row.seq
  turnId := row.turnId
  createdAtMs := row.createdAt
  body :=
    match row.kind with
    | .turn => .turn (row.phase.getD .started) row.lane row.source row.notice
        ((row.payload.bind (Json.member "wallClockMs")).bind Json.asSafeInteger)
    | .card => .card (row.payload.getD
        (.object [("type", .string "operation"), ("operation", .string "unknown")]))
    | .message => .message (row.role.getD .assistant) row.hidden row.clientMsgId (row.payload.getD .null)

/-- The newest `limit` records, oldest first. -/
def newest (journal : Journal) (limit : Nat) : List JournalRecord :=
  ((journal.rows.reverse.take limit).reverse).map rowToRecord

structure JournalRange where
  records : List JournalRecord
  complete : Bool
  missingBelowSeq : Option Nat := none

/-- The loop of `readResident`: a row is taken while neither budget is spent. -/
def takeResident (maxRecords maxBytes : Nat) : List JournalRow → List JournalRecord → Nat → List JournalRecord × Bool
  | [], records, _ => (records, true)
  | row :: rest, records, bytes =>
    if maxRecords ≤ records.length ∨ maxBytes < bytes then (records, false)
    else takeResident maxRecords maxBytes rest (records ++ [rowToRecord row]) (bytes + row.bytes)

/-- `readResident`: the resident rows in `[fromSeq, toSeq]` within a row and a byte budget. -/
def readResident (journal : Journal) (fromSeq toSeq : Int) (maxRecords maxBytes : Nat) : JournalRange :=
  let rows := (journal.rows.filter (fun r => fromSeq ≤ r.position ∧ r.position ≤ toSeq)).take (maxRecords + 1)
  let (records, complete) := takeResident maxRecords maxBytes rows [] 0
  { records, complete := complete && decide (rows.length ≤ maxRecords) }

/-- True when the row after `seq` is a plain user message. -/
def isCutBoundary (journal : Journal) (seq : Nat) : Bool :=
  match journal.rows.find? (fun r => seq < r.seq) with
  | some next => next.kind = .message ∧ next.role = some .user
  | none => false

def hotStats (journal : Journal) : Nat × Nat := (journal.rows.length, (journal.rows.map JournalRow.bytes).sum)

/-- The scan of `desiredCutSeq`, newest row first. -/
def scanKept (targetRows targetBytes : Nat) : List JournalRow → Nat → Nat → Option Nat
  | [], _, _ => none
  | row :: older, kept, keptBytes =>
    if targetRows ≤ kept then some row.seq
    else if 0 < targetBytes ∧ targetBytes < keptBytes + row.bytes ∧ 0 < kept then some row.seq
    else scanKept targetRows targetBytes older (kept + 1) (keptBytes + row.bytes)

def desiredCutSeq (journal : Journal) (targetRows targetBytes : Nat) : Option Nat :=
  if journal.hotStats.1 ≤ targetRows ∧ journal.hotStats.2 ≤ targetBytes then none
  else scanKept targetRows targetBytes (journal.rows.reverse.take (max targetRows 1 + 1)) 0 0

/-- `ORDER BY created_at DESC LIMIT 1` over the terminal turns. -/
def latestTerminalTurn (journal : Journal) : Option TurnRow :=
  (journal.turns.filter (fun t => t.state = .terminal)).foldl
    (fun latest t => match latest with
      | some l => if l.createdAt < t.createdAt then some t else some l
      | none => some t) none

def terminalTurnBoundaries (journal : Journal) (limit : Nat) : List Nat :=
  (((journal.turns.filter (fun t => t.state = .terminal)).filterMap TurnRow.lastSeq).insertionSort (· ≤ ·)).take limit

def pendingSegment (journal : Journal) : Option SegmentRow :=
  journal.segments.find? (fun s => s.state = .uploading)

/-- `ON CONFLICT(first_seq) DO UPDATE`: the range, the counts and the key are replaced, the state is kept. -/
def upsertSegment (row : SegmentRow) : List SegmentRow → List SegmentRow
  | [] => [row]
  | s :: rest =>
    if row.firstSeq < s.firstSeq then row :: s :: rest
    else if row.firstSeq = s.firstSeq then
      { s with lastSeq := row.lastSeq, rows := row.rows, bytes := row.bytes, r2Key := row.r2Key } :: rest
    else s :: upsertSegment row rest

def insertSegment (journal : Journal) (row : SegmentRow) : Journal :=
  { journal with segments := upsertSegment row journal.segments }

/-- `commitSegment`: mark committed, drop the archived rows, raise the floor, in one transaction. -/
def commitSegment (journal : Journal) (firstSeq lastSeq : Nat) : Journal :=
  { journal with
    segments := journal.segments.map (fun s => if s.firstSeq = firstSeq then { s with state := .committed } else s)
    rows := journal.rows.filter (fun r => ¬ (firstSeq ≤ r.seq ∧ r.seq ≤ lastSeq))
    hotMinSeq := if journal.hotMinSeq < lastSeq + 1 then lastSeq + 1 else journal.hotMinSeq
    turns := journal.turns.filter (fun t => ¬ t.lastSeq.any (fun seq => seq ≤ lastSeq)) }

/-- The committed segments that meet `[fromSeq, toSeq]`, lowest first. -/
def segmentsCovering (journal : Journal) (fromSeq toSeq : Int) (limit : Nat) : List SegmentRow :=
  (journal.segments.filter (fun s => s.state = .committed ∧ fromSeq ≤ s.lastSeq ∧ (s.firstSeq : Int) ≤ toSeq)).take limit

def allSegmentKeys (journal : Journal) : List ObjectKey := journal.segments.map SegmentRow.r2Key

def recordSpill (journal : Journal) (key : ObjectKey) : Journal :=
  { journal with spills := if key ∈ journal.spills then journal.spills else journal.spills ++ [key] }

def allSpillKeys (journal : Journal) : List ObjectKey := journal.spills

end Journal

def userRow (seq : Nat) : JournalRow :=
  { seq, kind := .message, turnId := "turn", writerKey := s!"row:{seq}", createdAt := 0, bytes := 10, role := some .user }

def cutJournal (ranges : List (Nat × Nat)) (hotMinSeq : Nat) : Journal where
  ownerId := "owner"
  conversationId := "conversation"
  epoch := 1
  title := ""
  nextSeq := hotMinSeq + 2
  hotMinSeq
  deleted := false
  rows := [userRow hotMinSeq, userRow (hotMinSeq + 1)]
  segments := ranges.map (fun r => ⟨r.1, r.2, r.2 + 1 - r.1, 10, .segment "conversations" r.1 r.2, .committed, 0⟩)
  spills := []
  turns := []
  retiredWriters := []
  retiredTurns := []

end Stella.Conversation
