import Stella.Journal.Model
import Stella.Library.Rows

/-! # Voice appends

`handleJournalAppend`, cut at its awaits. The rows and the receipt of a request are one
transaction of the journal; what is too large for a row is put before it, as an object
that the writer key alone names.
-/

namespace Stella.JournalWrites

open Stella.Rows Stella.Conversation

def appendMaxRows : Nat := 256

def appendMaxBytes : Nat := 4 * 1024 * 1024

def maxRowBytes : Nat := 1024 * 1024

structure VoiceRecord where
  role : MessageRole
  hidden : Bool
  payloadJson : String

/-- The body of a request; `records` are the texts of its records. -/
structure AppendRequest where
  deviceId : String
  localTurnId : String
  expectedOwnerGeneration : String
  records : List String
  deriving DecidableEq

namespace AppendRequest

def receiptKey (request : AppendRequest) : String := "voice:" ++ request.deviceId ++ ":" ++ request.localTurnId

def writerKey (request : AppendRequest) (ordinal : Nat) : String := request.receiptKey ++ ":" ++ ordinal.repr

end AppendRequest

structure AppendEnv (φ : Type) where
  parseVoiceJournalRecords : List String → Option (List VoiceRecord)
  /-- One record for each text. -/
  parsed_length : ∀ texts records, parseVoiceJournalRecords texts = some records → records.length = texts.length
  /-- The digest of the request's JSON text. -/
  fingerprint : AppendRequest → φ
  /-- The key of the spill object of a writer key. -/
  spillKey : String → String
  truncateMessage : VoiceRecord → String
  stub : VoiceRecord → String
  parseJson : String → Option Json

structure Prepared where
  record : VoiceRecord
  payloadJson : String
  spillKey : Option String

def Prepared.spill (entry : Prepared) : Option (String × String) := entry.spillKey.map fun key => (key, entry.payloadJson)

structure AppendReceipt (φ : Type) where
  writerKey : String
  fingerprint : φ
  firstSeq : Nat
  lastSeq : Nat
  epoch : Int

inductive AppendRefusal
  | badRequest
  | tooManyRecords
  | tooLarge
  | idempotencyConflict
  | deleted
  | appendFailed
  | oversizeFailed
  /-- The owner, the fences, the ceilings, the budget or a running turn refuses. -/
  | other (code : String)

inductive AppendAnswer
  | appended (firstSeq lastSeq : Nat) (epoch : Int) (replayed : Bool)
  | refused (refusal : AppendRefusal)

inductive AppendStage
  | received
  | preparing (prepared : List Prepared)
  | committed (firstSeq lastSeq : Nat)
  | done

def AppendStage.prepared : AppendStage → Option (List Prepared)
  | .preparing prepared => some prepared
  | _ => none

structure AppendCall where
  request : AppendRequest
  records : List VoiceRecord
  stage : AppendStage

structure Appended where
  request : AppendRequest
  prepared : List Prepared
  createdAt : Int
  firstSeq : Nat
  lastSeq : Nat

def Appended.key (a : Appended) : String := a.request.receiptKey

def Appended.spills (a : Appended) : List (String × String) := a.prepared.filterMap Prepared.spill

structure AppendWorld (φ : Type) where
  journal : Journal
  receipts : List (AppendReceipt φ) := []
  objects : List (String × String) := []
  /-- Puts that have timed out and may land yet. -/
  latePuts : List (String × String) := []
  calls : List AppendCall := []
  answers : List (AppendRequest × AppendAnswer) := []
  appended : List Appended := []

inductive AppendInput
  | receive (request : AppendRequest)
  | refuse (place : Nat) (code : String)
  | lookUp (place : Nat)
  /-- The next record of the call at this place is prepared; its put, if it has one, is answered or not. -/
  | prepare (place : Nat) (stored : Bool)
  | land (place : Nat)
  | commit (place : Nat) (now : Int) (fails : Bool)
  | answer (place : Nat)
  /-- A row of another writer. -/
  | write (row : JournalRow)
  | rollover (firstSeq lastSeq : Nat)
  | delete
  | restart

variable {φ : Type}

namespace AppendEnv

variable (env : AppendEnv φ)

/-- The columns of `appendMessage`. -/
def columns (request : AppendRequest) (createdAt : Int) (ordinal : Nat) (entry : Prepared) : NewRow := fun seq =>
  let payloadJson := if entry.spillKey.isSome then env.stub entry.record else entry.payloadJson
  { seq, kind := .message, turnId := request.receiptKey, writerKey := request.writerKey ordinal, createdAt
    bytes := payloadJson.utf8ByteSize, role := some entry.record.role, hidden := entry.record.hidden
    payload := env.parseJson payloadJson }

def batch (request : AppendRequest) (createdAt : Int) : Nat → List Prepared → List NewRow
  | _, [] => []
  | ordinal, entry :: rest => env.columns request createdAt ordinal entry :: batch request createdAt (ordinal + 1) rest

def rowsFrom (request : AppendRequest) (createdAt : Int) : Nat → Nat → List Prepared → List JournalRow
  | _, _, [] => []
  | ordinal, seq, entry :: rest =>
    env.columns request createdAt ordinal entry seq :: rowsFrom request createdAt (ordinal + 1) (seq + 1) rest

def spilled (record : VoiceRecord) : Bool := maxRowBytes < record.payloadJson.utf8ByteSize && record.role ≠ .assistant

/-- `prepareOversize`: what is too large is spilled, or truncated where it must not or could not be. -/
def prepareOversize (record : VoiceRecord) (spillKey : Option String) : Option Prepared :=
  if record.payloadJson.utf8ByteSize ≤ maxRowBytes then some ⟨record, record.payloadJson, none⟩
  else match if record.role = .assistant then none else spillKey with
    | some key => some ⟨record, record.payloadJson, some key⟩
    | none =>
      if maxRowBytes < (env.truncateMessage record).utf8ByteSize then none
      else some ⟨record, env.truncateMessage record, none⟩

end AppendEnv

def appendRows (journal : Journal) : List NewRow → Option (Journal × List Nat)
  | [] => some (journal, [])
  | columns :: rest =>
    if journal.deleted then none
    else (journal.insert columns).bind fun inserted =>
      (appendRows inserted.1 rest).map fun result => (result.1, inserted.2.1 :: result.2)

def putObject (objects : List (String × String)) (put : String × String) : List (String × String) :=
  upsert Prod.fst objects put

namespace AppendWorld

variable (env : AppendEnv φ) [DecidableEq φ] (w : AppendWorld φ)

def withCall (place : Nat) (call : AppendCall) (stage : AppendStage) : AppendWorld φ :=
  { w with calls := w.calls.set place { call with stage } }

def close (place : Nat) (call : AppendCall) (answer : AppendAnswer) : AppendWorld φ :=
  { w.withCall place call .done with answers := w.answers ++ [(call.request, answer)] }

def receiptResponse (request : AppendRequest) : Option AppendAnswer :=
  (lookup AppendReceipt.writerKey w.receipts request.receiptKey).map fun receipt =>
    if receipt.fingerprint ≠ env.fingerprint request then .refused .idempotencyConflict
    else .appended receipt.firstSeq receipt.lastSeq receipt.epoch true

def receive (request : AppendRequest) : AppendWorld φ :=
  let refuse (refusal : AppendRefusal) : AppendWorld φ := { w with answers := w.answers ++ [(request, .refused refusal)] }
  if w.journal.deleted then refuse .deleted
  else if request.records = [] then refuse .badRequest
  else if appendMaxRows < request.records.length then refuse .tooManyRecords
  else match env.parseVoiceJournalRecords request.records with
    | none => refuse .badRequest
    | some records =>
      if appendMaxBytes < (records.map fun record => record.payloadJson.utf8ByteSize).sum then refuse .tooLarge
      else { w with calls := w.calls ++ [⟨request, records, .received⟩] }

def lookUp (place : Nat) (call : AppendCall) : AppendWorld φ :=
  match w.receiptResponse env call.request with
  | some answer => w.close place call answer
  | none => w.withCall place call (.preparing [])

def prepare (place : Nat) (call : AppendCall) (prepared : List Prepared) (record : VoiceRecord) (stored : Bool) :
    AppendWorld φ :=
  let key := env.spillKey (call.request.writerKey prepared.length)
  let w := if AppendEnv.spilled record then
      if stored then { w with objects := putObject w.objects (key, record.payloadJson) }
      else { w with latePuts := w.latePuts ++ [(key, record.payloadJson)] }
    else w
  match env.prepareOversize record (if stored then some key else none) with
  | some entry => w.withCall place call (.preparing (prepared ++ [entry]))
  | none => w.close place call (.refused .oversizeFailed)

def commit (place : Nat) (call : AppendCall) (prepared : List Prepared) (now : Int) (fails : Bool) : AppendWorld φ :=
  if w.journal.deleted then w.close place call (.refused .deleted)
  else match w.receiptResponse env call.request with
    | some answer => w.close place call answer
    | none =>
      match if fails then none else appendRows w.journal (env.batch call.request now 0 prepared) with
      | none => w.close place call (.refused .appendFailed)
      | some (journal, seqs) =>
        let firstSeq := seqs.head?.getD 0
        let lastSeq := seqs.getLast?.getD 0
        { w.withCall place call (.committed firstSeq lastSeq) with
          journal := { journal with
            turns := upsert TurnRow.turnId journal.turns ⟨call.request.receiptKey, .terminal, now, some lastSeq, none⟩ }
          receipts := w.receipts ++
            [⟨call.request.receiptKey, env.fingerprint call.request, firstSeq, lastSeq, journal.epoch⟩]
          appended := w.appended ++ [⟨call.request, prepared, now, firstSeq, lastSeq⟩] }

/-- Other writers' keys begin with `turn:`, `pi:`, `card:` and the like. -/
def write (row : JournalRow) : AppendWorld φ :=
  if "voice:".toList.isPrefixOf row.writerKey.toList then w
  else match appendRows w.journal [fun seq => { row with seq }] with
    | some (journal, _) => { w with journal }
    | none => w

def step : AppendInput → AppendWorld φ
  | .receive request => w.receive env request
  | .refuse place code =>
    match w.calls[place]? with
    | some ⟨request, records, .received⟩ => w.close place ⟨request, records, .received⟩ (.refused (.other code))
    | some ⟨request, records, .preparing prepared⟩ =>
      w.close place ⟨request, records, .preparing prepared⟩ (.refused (.other code))
    | _ => w
  | .lookUp place =>
    match w.calls[place]? with
    | some ⟨request, records, .received⟩ => w.lookUp env place ⟨request, records, .received⟩
    | _ => w
  | .prepare place stored =>
    match w.calls[place]? with
    | some ⟨request, records, .preparing prepared⟩ =>
      match records[prepared.length]? with
      | some record => w.prepare env place ⟨request, records, .preparing prepared⟩ prepared record stored
      | none => w
    | _ => w
  | .land place =>
    match w.latePuts[place]? with
    | some put => { w with objects := putObject w.objects put, latePuts := w.latePuts.eraseIdx place }
    | none => w
  | .commit place now fails =>
    match w.calls[place]? with
    | some ⟨request, records, .preparing prepared⟩ =>
      if prepared.length = records.length then
        w.commit env place ⟨request, records, .preparing prepared⟩ prepared now fails
      else w
    | _ => w
  | .answer place =>
    match w.calls[place]? with
    | some ⟨request, records, .committed firstSeq lastSeq⟩ =>
      w.close place ⟨request, records, .committed firstSeq lastSeq⟩ (.appended firstSeq lastSeq w.journal.epoch false)
    | _ => w
  | .write row => w.write row
  | .rollover firstSeq lastSeq => { w with journal := w.journal.commitSegment firstSeq lastSeq }
  | .delete => { w with journal := { w.journal with deleted := true } }
  | .restart => { w with calls := [] }

end AppendWorld

end Stella.JournalWrites
