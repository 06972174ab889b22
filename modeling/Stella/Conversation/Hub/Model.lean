import Stella.Archive.Whole

/-! # ConversationHub: a connect and its backfills

The frames `upgrade` sends a new socket, and the answer to a backfill, of `conversation-hub.ts`.
-/

namespace Stella.Conversation

open Archive

def closeInternal : Nat := 1011
def statusUpgradeRequired : Nat := 426

structure OwnerRecord where
  ownerId : String
  title : String

/-- `bindOwner`; none where it throws, the journal being bound to another owner. -/
def Journal.bindOwner (journal : Journal) (record : OwnerRecord) (conversationId : String) : Option Journal :=
  if journal.ownerId ≠ "" ∧ journal.ownerId ≠ record.ownerId then none
  else
    some { journal with
      ownerId := record.ownerId, title := record.title,
      conversationId := if conversationId = "" then journal.conversationId else conversationId }

/-- What the request and the rest of the object bring to `upgrade`. -/
structure Connect where
  isWebSocketUpgrade : Bool
  protocol : Option Int
  /-- The `since` parameter; none where it is absent or no integer. -/
  since : Option Int
  epoch : Option Int
  callerId : String
  conversationId : String
  /-- What `lookupOwner` answers for a conversation with no owner; none where it throws. -/
  lookup : Option (Option OwnerRecord)
  hasSlot : Bool
  stillFits : Bool
  authExpiresAtMs : Int
  now : Int
  live : Option LiveTurnSnapshot

/-- The journal at the reads of `upgrade`: on entry, when `lookupOwner` answers, before and after the
awaits of `openingWindow`, and when the socket is accepted. -/
structure Moments where
  entered : Journal
  looked : Journal
  opening : Journal
  read : Journal
  accepted : Journal

structure Opening where
  records : List JournalRecord
  reset : Option ResetReason
  gap : Option (Int × Int)

def gapBelow (fromSeq : Int) (range : Journal.JournalRange) : Option (Int × Int) :=
  range.missingBelowSeq.bind (fun below =>
    if fromSeq < below then some (fromSeq, (below : Int) - 1) else none)

namespace Hub

def newestWindow (journal : Journal) (reset : Option ResetReason) : Opening :=
  ⟨journal.newest initialWindowRecords, reset, none⟩

/-- What a connect that is told `since` and `epoch` is sent, by the head it read on entry. -/
def openingWindow (head : JournalHead) (journal later : Journal) (objects : SegmentRow → Option SegmentObject)
    (since epoch : Option Int) : Opening :=
  match since with
  | none => newestWindow journal none
  | some since =>
    if since < -1 then newestWindow journal none
    else if epoch.any (fun told => told ≠ head.epoch) then newestWindow journal (some .epoch)
    else if head.headSeq < since then newestWindow journal (some .epoch)
    else if since + 1 < head.floorSeq then newestWindow journal (some .window)
    else if maxCatchupResumeRecords < head.headSeq - since then newestWindow journal (some .window)
    else if head.headSeq ≤ since then ⟨[], none, none⟩
    else
      let range := readRange journal later objects (since + 1) head.headSeq (min maxResumeRecords backfillBatchRecords)
      ⟨range.records, none, gapBelow (since + 1) range⟩

def topUp : List JournalRecord → Int → List JournalRecord → List JournalRecord
  | [], _, records => records
  | record :: rest, delivered, records =>
    if record.position ≤ delivered then topUp rest delivered records
    else if record.position ≠ delivered + 1 then records
    else topUp rest record.position (records ++ [record])

/-- The seq of the last record, or `-1`. -/
def delivered (records : List JournalRecord) : Int := (records.getLast?.map JournalRecord.position).getD (-1)

/-- The rows committed while `openingWindow` waited are read without awaiting. -/
def toppedUp (fresh : Journal) (records : List JournalRecord) : List JournalRecord :=
  if 0 ≤ delivered records ∧ delivered records < fresh.head.headSeq then
    topUp (fresh.newest initialWindowRecords) (delivered records) records
  else records

def readyFrame (connect : Connect) (fresh : Journal) (records : List JournalRecord) : ReadyFrame where
  epoch := fresh.head.epoch
  headSeq := fresh.head.headSeq
  windowStartSeq := (records.head?.map JournalRecord.position).getD (fresh.head.headSeq + 1)
  floorSeq := fresh.head.floorSeq
  title := fresh.head.title
  authExpiresAtMs := connect.authExpiresAtMs
  serverTimeMs := connect.now
  live := connect.live

def openingFrames (connect : Connect) (fresh : Journal) (opening : Opening) : List ServerFrame :=
  .ready (readyFrame connect fresh (toppedUp fresh opening.records)) ::
    (opening.reset.toList.map ServerFrame.reset ++ opening.gap.toList.map (fun gap => ServerFrame.gap gap.1 gap.2) ++
      (toppedUp fresh opening.records).map ServerFrame.record)

/-- `upgrade`: the frames of the accepted socket, or the code it is refused with; no code where it throws. -/
def upgrade (connect : Connect) (moments : Moments) (objects : SegmentRow → Option SegmentObject) :
    Except (Option Nat) (List ServerFrame) :=
  let accept (head : JournalHead) (ownerId : String) : Except (Option Nat) (List ServerFrame) :=
    if ownerId ≠ connect.callerId then .error (some closeNotFound)
    else if !connect.hasSlot then .error (some closeTooManySockets)
    else if !connect.stillFits then .error (some closeTooManySockets)
    else .ok (openingFrames connect moments.accepted
      (openingWindow head moments.opening moments.read objects connect.since connect.epoch))
  if !connect.isWebSocketUpgrade then .error (some statusUpgradeRequired)
  else if connect.protocol.any (fun protocol => protocol ≠ (protocolVersion : Int)) then
    .error (some closeProtocolVersion)
  else if moments.entered.head.deleted then .error (some closeDeleted)
  else if moments.entered.ownerId = "" then
    match connect.lookup with
    | none => .error (some closeInternal)
    | some none => .error (some closeNotFound)
    | some (some record) =>
      match moments.looked.bindOwner record connect.conversationId with
      | none => .error none
      | some bound => accept bound.head record.ownerId
  else accept moments.entered.head moments.entered.ownerId

/-- The records of a batch within its byte budget, and whether it was cut; the first record
always fits. `size` is the length of a record's JSON text. -/
def capBatch (size : JournalRecord → Nat) : List JournalRecord → List JournalRecord → Nat → List JournalRecord × Bool
  | [], taken, _ => (taken, false)
  | record :: rest, taken, bytes =>
    if taken ≠ [] ∧ backfillBatchBytes < bytes + size record then (taken, true)
    else capBatch size rest (taken ++ [record]) (bytes + size record)

/-- The answer to a well-formed backfill, `later` being the journal after the awaits of its read. -/
def handleBackfill (journal later : Journal) (objects : SegmentRow → Option SegmentObject)
    (size : JournalRecord → Nat) (requestId : RequestId) (fromRaw toRaw : Int) : List ServerFrame :=
  let head := journal.head
  let fromSeq := max 0 fromRaw
  let toSeq := min toRaw head.headSeq
  if toSeq < fromSeq then [.backfill ⟨requestId, fromSeq, toSeq, true, []⟩]
  else
    let compacted : List ServerFrame :=
      if fromSeq < head.floorSeq then [.gap fromSeq (min toSeq (head.floorSeq - 1))] else []
    let start := max fromSeq head.floorSeq
    if toSeq < start then compacted ++ [.backfill ⟨requestId, start, toSeq, true, []⟩]
    else
      let range := readRange journal later objects start toSeq backfillBatchRecords
      let batch := capBatch size range.records [] 0
      compacted ++ (gapBelow start range).toList.map (fun gap => ServerFrame.gap gap.1 gap.2) ++
        [.backfill ⟨requestId, start, (batch.1.getLast?.map JournalRecord.position).getD toSeq,
          range.complete && !batch.2, batch.1⟩]

end Hub

end Stella.Conversation
