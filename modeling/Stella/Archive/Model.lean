import Stella.Journal.Model

/-! # ConversationArchive: rollover, spills and the purge fence

The writes `archive.ts` has in flight, cut at their awaits, over the journal and the bucket.
-/

namespace Stella.Conversation

def hotMaxRows : Nat := 2000
def hotMaxBytes : Nat := 24 * 1024 * 1024
def hotTargetRows : Nat := 1000
def hotTargetBytes : Nat := 12 * 1024 * 1024
def dbPressureAggressiveBytes : Nat := 64 * 1024 * 1024
def dbPressureEmergencyBytes : Nat := 512 * 1024 * 1024
def dbPressureAggressiveRows : Nat := 500
def dbPressureEmergencyRows : Nat := 200
def segmentMaxRows : Nat := 1000
def segmentMaxBytes : Nat := 8 * 1024 * 1024
def archiveReadRows : Nat := 500

structure SegmentHeader where
  conversationId : String
  ownerId : String
  epoch : Int
  firstSeq : Nat
  lastSeq : Nat
  rows : Nat
  createdAt : Int

inductive StoredObject
  | segment (header : SegmentHeader) (rows : List JournalRow)
  | spill (payload : String)

structure Put where
  key : ObjectKey
  object : StoredObject

inductive Write
  /-- a rollover pass after `finishPendingSegment` -/
  | deciding (now : Int)
  /-- a rollover pass that uploads the segment an earlier one left behind -/
  | recovering (now : Int) (firstSeq lastSeq : Nat) (put : Put)
  /-- a cut before `prefix()` answers; the floor was read before it -/
  | cutting (now : Int) (firstSeq cutSeq : Nat)
  | uploading (firstSeq lastSeq : Nat) (put : Put)
  /-- a spill before its put is issued -/
  | keying (writerKey payload : String)
  | spilling (put : Put)
  | settled

def Write.running : Write → Bool
  | .settled => false
  | _ => true

/-- Where the purge stands in `quiesce`: the pass it is in and the writes that pass waits for. -/
inductive Quiesce
  | idle
  | waiting (pass : Nat) (snapshot : List Nat)
  | returned
  deriving DecidableEq

structure ConversationArchive where
  journal : Journal
  bucket : List Put
  /-- puts that were given up on and may still land -/
  late : List Put := []
  /-- every write ever tracked, by its number -/
  writes : List Write := []
  sealed : Bool := false
  quiesce : Quiesce := .idle
  /-- the keys this purge has offered to the queue; none before its first reading of the manifest -/
  enqueued : Option (List ObjectKey) := none
  purgeQueue : List ObjectKey := []

namespace Journal

def archiveRows (journal : Journal) : Nat → Nat → Nat → List JournalRow
  | 0, _, _ => []
  | fuel + 1, cursor, lastSeq =>
    let batch := journal.rowsForArchive cursor lastSeq archiveReadRows
    match batch.getLast? with
    | none => []
    | some last => batch ++ if lastSeq < last.seq + 1 then [] else journal.archiveRows fuel (last.seq + 1) lastSeq

def cutBatch : List JournalRow → Nat → Nat → Nat → Nat × Nat × Nat
  | [], lastSeq, count, bytes => (lastSeq, count, bytes)
  | row :: rest, lastSeq, count, bytes =>
    if 0 < count ∧ segmentMaxBytes < bytes + row.bytes then (lastSeq, count, bytes)
    else cutBatch rest row.seq (count + 1) (bytes + row.bytes)

/-- Back to the last boundary above `firstSeq`. -/
def walkBack (journal : Journal) (firstSeq : Nat) : Nat → Nat
  | 0 => 0
  | seq + 1 => if firstSeq < seq + 1 ∧ !journal.isCutBoundary (seq + 1) then journal.walkBack firstSeq seq else seq + 1

def cutRange (journal : Journal) (firstSeq cutSeq : Nat) : Option (Nat × Nat × Nat) :=
  if cutSeq < firstSeq then none
  else
    match journal.rowsForArchive firstSeq cutSeq segmentMaxRows with
    | [] => none
    | row :: rest =>
      let (lastSeq, count, bytes) := cutBatch (row :: rest) row.seq 0 0
      let lastSeq := journal.walkBack firstSeq lastSeq
      if lastSeq < firstSeq ∨ !journal.isCutBoundary lastSeq then none else some (lastSeq, count, bytes)

/-- `resolveCut`: the highest turn end at or below the wish and below the latest turn's context. -/
def resolveCut (journal : Journal) (targetRows targetBytes : Nat) : Option Nat :=
  match journal.desiredCutSeq targetRows targetBytes with
  | none => none
  | some desired =>
    let ceiling : Int := match journal.latestTerminalTurn.bind TurnRow.ctxStartSeq with
      | some ctxStartSeq => min desired ((ctxStartSeq : Int) - 1)
      | none => desired
    if ceiling < 0 then none
    else
      (((journal.terminalTurnBoundaries 500).takeWhile (fun (seq : Nat) => decide ((seq : Int) ≤ ceiling))).filter
        journal.isCutBoundary).getLast?

/-- What `rollover` aims for, by the size of the database; none while the resident set is small. -/
def rolloverTarget (journal : Journal) (dbBytes : Nat) : Option (Nat × Nat) :=
  if dbPressureEmergencyBytes < dbBytes then some (dbPressureEmergencyRows, 0)
  else if dbPressureAggressiveBytes < dbBytes then some (dbPressureAggressiveRows, 0)
  else if journal.hotStats.1 ≤ hotMaxRows ∧ journal.hotStats.2 ≤ hotMaxBytes then none
  else some (hotTargetRows, hotTargetBytes)

/-- `prefix`: none until the journal knows its owner and its conversation. -/
def root (journal : Journal) (sha256Hex : String → String) : Option String :=
  if journal.ownerId = "" ∨ journal.conversationId = "" then none
  else some ("conversations/" ++ sha256Hex journal.ownerId ++ "/" ++ journal.conversationId)

end Journal

namespace ConversationArchive

def withJournal (s : ConversationArchive) (journal : Journal) : ConversationArchive := { s with journal }

def setWrite (s : ConversationArchive) (i : Nat) (write : Write) : ConversationArchive :=
  { s with writes := s.writes.set i write }

/-- `track`: the write joins the ones in flight. -/
def track (s : ConversationArchive) (write : Write) : ConversationArchive :=
  { s with writes := s.writes ++ [write] }

/-- `inFlight`: the numbers of the writes that have not settled. -/
def inFlight (s : ConversationArchive) : List Nat :=
  (List.range s.writes.length).filter (fun i => s.writes[i]?.any Write.running)

/-- `bucket.put`: an object of that name is replaced. -/
def store (s : ConversationArchive) (put : Put) : ConversationArchive :=
  { s with bucket := put :: s.bucket.filter (fun p => p.key ≠ put.key) }

/-- `upload`: header and rows are read off the journal before the put is issued. -/
def uploadOf (s : ConversationArchive) (key : ObjectKey) (firstSeq lastSeq rows : Nat) (createdAt : Int) : Put where
  key
  object := .segment
    ⟨s.journal.conversationId, s.journal.ownerId, s.journal.epoch, firstSeq, lastSeq, rows, createdAt⟩
    (s.journal.archiveRows (s.journal.rows.length + 1) firstSeq lastSeq)

/-- `maybeRollover` up to its first await. -/
def maybeRollover (s : ConversationArchive) (now : Int) : ConversationArchive :=
  if s.sealed ∨ s.journal.isDeleted then s
  else
    match s.journal.pendingSegment with
    | none => s.track (.deciding now)
    | some pending =>
      s.track (.recovering now pending.firstSeq pending.lastSeq
        (s.uploadOf pending.r2Key pending.firstSeq pending.lastSeq pending.rows pending.createdAt))

/-- `rollover` from its re-check on, up to the `prefix()` of the cut. -/
def rollover (s : ConversationArchive) (i : Nat) (now : Int) (dbBytes : Nat) : ConversationArchive :=
  if s.sealed ∨ s.journal.isDeleted then s.setWrite i .settled
  else
    match (s.journal.rolloverTarget dbBytes).bind (fun target => s.journal.resolveCut target.1 target.2) with
    | none => s.setWrite i .settled
    | some cutSeq => s.setWrite i (.cutting now s.journal.hotMinSeq cutSeq)

def recordIntent (s : ConversationArchive) (i : Nat) (now : Int) (root : String)
    (firstSeq lastSeq count bytes : Nat) : ConversationArchive :=
  let key := ObjectKey.segment root firstSeq lastSeq
  let s := s.withJournal (s.journal.insertSegment ⟨firstSeq, lastSeq, count, bytes, key, .uploading, now⟩)
  s.setWrite i (.uploading firstSeq lastSeq (s.uploadOf key firstSeq lastSeq count now))

/-- `cut` from the answer of `prefix()` on. -/
def cut (s : ConversationArchive) (i : Nat) (now : Int) (root : Option String) (firstSeq cutSeq : Nat) :
    ConversationArchive :=
  match root with
  | none => s.setWrite i .settled
  | some root =>
    if s.sealed ∨ s.journal.isDeleted then s.setWrite i .settled
    else
      match s.journal.cutRange firstSeq cutSeq with
      | none => s.setWrite i .settled
      | some (lastSeq, count, bytes) => s.recordIntent i now root firstSeq lastSeq count bytes

/-- `writeSpill` up to its first await. -/
def writeSpill (s : ConversationArchive) (writerKey payload : String) : ConversationArchive :=
  if s.sealed ∨ s.journal.isDeleted then s else s.track (.keying writerKey payload)

/-- `spill` up to its put. -/
def issueSpill (s : ConversationArchive) (i : Nat) (root : Option String) (digest payload : String) :
    ConversationArchive :=
  match root with
  | none => s.setWrite i .settled
  | some root => s.setWrite i (.spilling ⟨.spill root digest, .spill payload⟩)

inductive PassInput
  | maybeRollover (now : Int)
  | decided (i : Nat) (dbBytes : Nat)
  | prefixed (i : Nat)
  | stored (i : Nat)
  | failed (i : Nat)
  | timedOut (i : Nat)
  | landed (k : Nat)

def stored (s : ConversationArchive) (i : Nat) : ConversationArchive :=
  match s.writes[i]? with
  | some (.recovering now firstSeq lastSeq put) =>
    ((s.store put).withJournal (s.journal.commitSegment firstSeq lastSeq)).setWrite i (.deciding now)
  | some (.uploading firstSeq lastSeq put) =>
    ((s.store put).withJournal (s.journal.commitSegment firstSeq lastSeq)).setWrite i .settled
  | some (.spilling put) => ((s.store put).withJournal (s.journal.recordSpill put.key)).setWrite i .settled
  | _ => s

def putOf : Write → Option Put
  | .recovering _ _ _ put => some put
  | .uploading _ _ put => some put
  | .spilling put => some put
  | _ => none

def failed (s : ConversationArchive) (i : Nat) : ConversationArchive :=
  match s.writes[i]?.bind putOf with
  | some _ => s.setWrite i .settled
  | none => s

/-- `withTimeout` gave up on a put: the write ends, the put may still land. -/
def timedOut (s : ConversationArchive) (i : Nat) : ConversationArchive :=
  match s.writes[i]?.bind putOf with
  | some put => { s.setWrite i .settled with late := s.late ++ [put] }
  | none => s

def landed (s : ConversationArchive) (k : Nat) : ConversationArchive :=
  match s.late[k]? with
  | some put => { s.store put with late := s.late.eraseIdx k }
  | none => s

def passStep (sha256Hex : String → String) (s : ConversationArchive) : PassInput → ConversationArchive
  | .maybeRollover now => s.maybeRollover now
  | .decided i dbBytes =>
    match s.writes[i]? with
    | some (.deciding now) => s.rollover i now dbBytes
    | _ => s
  | .prefixed i =>
    match s.writes[i]? with
    | some (.cutting now firstSeq cutSeq) => s.cut i now (s.journal.root sha256Hex) firstSeq cutSeq
    | some (.keying writerKey payload) =>
      s.issueSpill i (s.journal.root sha256Hex) (String.ofList ((sha256Hex writerKey).toList.take 32)) payload
    | _ => s
  | .stored i => s.stored i
  | .failed i => s.failed i
  | .timedOut i => s.timedOut i
  | .landed k => s.landed k

inductive RolloverInput
  | append (rows : List NewRow)
  | turn (row : TurnRow)
  | pass (input : PassInput)
  | writeSpill (writerKey payload : String)
  | crash

def projectTurn (s : ConversationArchive) (row : TurnRow) : ConversationArchive :=
  s.withJournal { s.journal with turns := s.journal.turns.filter (fun t => t.turnId ≠ row.turnId) ++ [row] }

def append (s : ConversationArchive) (rows : List NewRow) : ConversationArchive :=
  match s.journal.append rows with
  | some journal => s.withJournal journal
  | none => s

def crash (s : ConversationArchive) : ConversationArchive :=
  { s with writes := [], late := s.late ++ s.writes.filterMap putOf, sealed := false, quiesce := .idle }

def rolloverStep (sha256Hex : String → String) (s : ConversationArchive) : RolloverInput → ConversationArchive
  | .append rows => s.append rows
  | .turn row => s.projectTurn row
  | .pass input => s.passStep sha256Hex input
  | .writeSpill writerKey payload => s.writeSpill writerKey payload
  | .crash => s.crash

inductive PurgeInput
  | append (rows : List NewRow)
  | turn (row : TurnRow)
  | pass (input : PassInput)
  | writeSpill (writerKey payload : String)
  | purge
  | quiesce
  | settled
  | enqueue
  | deleted (keys : List ObjectKey)
  | deleteFailed (keys : List ObjectKey)

/-- `handlePurge` up to `quiesce`: the tombstone and the fence, with nothing enqueued yet. -/
def purge (s : ConversationArchive) : ConversationArchive :=
  { s.withJournal { s.journal with deleted := true } with sealed := true, quiesce := .idle, enqueued := none }

/-- The loop of `quiesce`, at most four passes over what is in flight. -/
def quiescePass (s : ConversationArchive) (pass : Nat) : ConversationArchive :=
  { s with quiesce := if pass < 4 ∧ s.inFlight ≠ [] then .waiting pass s.inFlight else .returned }

/-- `Promise.allSettled` over the snapshot of the pass. -/
def settle (s : ConversationArchive) : ConversationArchive :=
  match s.quiesce with
  | .waiting pass snapshot => if snapshot.all (fun i => i ∉ s.inFlight) then s.quiescePass (pass + 1) else s
  | _ => s

def manifest (s : ConversationArchive) : List ObjectKey := s.journal.allSegmentKeys ++ s.journal.allSpillKeys

/-- `enqueueNewKeys`, with the `INSERT OR IGNORE` of `enqueuePurge`. -/
def enqueueNewKeys (s : ConversationArchive) : ConversationArchive :=
  let offered := s.enqueued.getD []
  let keys := s.manifest.filter (fun key => key ∉ offered)
  { s with enqueued := some (offered ++ keys), purgeQueue := s.purgeQueue ++ keys.filter (fun key => key ∉ s.purgeQueue) }

/-- R2 confirmed a batch: its objects are gone, `purgeDone` drops its queue rows and spill rows. -/
def purgeDone (s : ConversationArchive) (keys : List ObjectKey) : ConversationArchive :=
  let batch := s.purgeQueue.filter (fun key => key ∈ keys)
  { s.withJournal { s.journal with spills := s.journal.spills.filter (fun key => key ∉ batch) } with
    bucket := s.bucket.filter (fun p => p.key ∉ batch)
    purgeQueue := s.purgeQueue.filter (fun key => key ∉ batch) }

def purgeFailed (s : ConversationArchive) (keys : List ObjectKey) : ConversationArchive :=
  { s with bucket := s.bucket.filter (fun p => p.key ∉ s.purgeQueue.filter (fun key => key ∈ keys)) }

def purgeStep (sha256Hex : String → String) (s : ConversationArchive) : PurgeInput → ConversationArchive
  | .append rows => s.append rows
  | .turn row => s.projectTurn row
  | .pass input => s.passStep sha256Hex input
  | .writeSpill writerKey payload => s.writeSpill writerKey payload
  | .purge => s.purge
  | .quiesce => if s.sealed ∧ s.quiesce = .idle then s.quiescePass 0 else s
  | .settled => s.settle
  | .enqueue => if s.quiesce = .returned then s.enqueueNewKeys else s
  | .deleted keys => if s.enqueued.isSome then s.purgeDone keys else s
  | .deleteFailed keys => if s.enqueued.isSome then s.purgeFailed keys else s

def create (ownerId conversationId : String) : ConversationArchive where
  journal :=
    { ownerId, conversationId, epoch := 0, title := "", nextSeq := 0, hotMinSeq := 0, deleted := false, rows := [],
      segments := [], spills := [], turns := [], retiredWriters := [], retiredTurns := [] }
  bucket := []

end ConversationArchive

end Stella.Conversation
