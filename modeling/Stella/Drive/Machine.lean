import Stella.Drive.Model
import Stella.Library.Transition

/-! # Calls on the drive in any interleaving

A call that awaits storage, a signature or a digest is parked with what it has read, and goes on,
or is lost with its object, whatever happened meanwhile.
-/

namespace Stella.Drive

inductive StorageOp
  | put (key : Key) (sizeBytes : Nat)
  | copy (source target : Key)
  | delete (key : Key)
  deriving DecidableEq

structure Request where
  token : Nat
  op : StorageOp

structure Entry where
  file : NormalizedReport
  r2Key : Key
  debtId : Nat
  deriving DecidableEq

/-- What a `turnFiles` call carries across its awaits. -/
structure TurnCall where
  report : Report
  writeKey : Option String
  source : String
  startedAt : Nat
  staged : List UploadRow := []
  /-- the paths at which a redelivery found its file -/
  replayed : List String := []
  renamed : List DriveRename := []
  skipped : List DriveSkip := []

structure FinalizeCall where
  path : String
  uploadId : Nat
  fromAgent : Bool
  startedAt : Nat
  pending : UploadRow

inductive Task
  | prepareUpload (path : String) (sizeBytes : Nat)
  | turnStage (stagedAt : Option Nat) (claims : List WriteCandidate)
  /-- `read` is what `head` has seen, once it has looked -/
  | finalizeHead (call : FinalizeCall) (read : Option (Option Nat))
  | finalizeKey (call : FinalizeCall) (stagedBytes : Nat)
  | finalizeCopy (call : FinalizeCall) (stagedBytes : Nat) (finalKey : Key) (debtId token : Nat)
  | finalizeCheck (call : FinalizeCall) (stagedBytes : Nat) (finalKey : Key) (debtId : Nat)
      (read : Option (Option Nat))
  | resolveHead (call : TurnCall) (resolved : List NormalizedReport) (file : NormalizedReport) (pending : UploadRow)
      (rest : List NormalizedReport) (read : Option (Option Nat))
  | turnKeys (call : TurnCall) (files : List NormalizedReport)
  | turnWrite (call : TurnCall) (written : List Entry) (entry : Entry) (rest : List Entry) (token : Nat)
  | turnCheck (call : TurnCall) (written : List Entry) (entry : Entry) (rest : List Entry) (read : Option (Option Nat))
  | cleanup (leaseId : Nat) (due : List UploadRow) (tokens : List Nat)

structure Overwrite where
  report : Report
  writeKey : Option String
  row : FileRow

/-- The result of a `turnFiles` call: the paths stored, skipped and renamed. -/
structure TurnResult where
  report : Report
  stored : List String
  skipped : List DriveSkip
  renamed : List DriveRename

structure World where
  db : Db := {}
  objects : Key → Option Nat := fun _ => none
  inflight : List Request := []
  landed : List Nat := []
  tasks : List Task := []
  nextId : Nat := 0
  /-- the staging keys a signed PUT has been given out for -/
  signed : List Key := []
  overwrites : List Overwrite := []
  results : List TurnResult := []

namespace World

variable (w : World)

def park (task : Task) : World := { w with tasks := w.tasks ++ [task] }

def request (op : StorageOp) : World :=
  { w with inflight := w.inflight ++ [⟨w.nextId, op⟩], nextId := w.nextId + 1 }

/-- Cleanup debt for an object that may exist without a row; its id is the one before `nextId`. -/
def queueCleanup (path : String) (r2Key : Key) (notBefore : Nat) : World :=
  { w with
    db := { w.db with uploads := w.db.uploads ++ [⟨w.nextId, path, r2Key, false, 0, notBefore, none, none⟩] }
    nextId := w.nextId + 1 }

def retirePendingUpload (row : UploadRow) (now : Nat) : World :=
  { w with db := { w.db with uploads := Rows.modify UploadRow.uploadId w.db.uploads row.uploadId (fun u =>
      { u with pending := false, expiresAt := max row.expiresAt now, leaseId := none, leaseExpiresAt := none }) } }

def dropUpload (uploadId : Nat) : World :=
  { w with db := { w.db with uploads := Rows.erase UploadRow.uploadId w.db.uploads uploadId } }

def expireUpload (uploadId now : Nat) : World :=
  { w with db := { w.db with
      uploads := Rows.modify UploadRow.uploadId w.db.uploads uploadId (fun u => { u with expiresAt := now }) } }

def deleteRow (path : String) (now : Nat) : World :=
  match w.db.getFile path with
  | none => w
  | some row =>
    { w with db := { w.db with files := Rows.erase FileRow.path w.db.files path } }.queueCleanup path row.r2Key
      (now + replacementGraceMs)

def deleteFileRow (path : String) (now : Nat) : World :=
  match w.db.getFile path with
  | none => w
  | some _ =>
    match evidenceThumbnailDrivePath path with
    | some thumbnail => (w.deleteRow path now).deleteRow thumbnail now
    | none => w.deleteRow path now

def install (now : Nat) (row : FileRow) : World :=
  match w.db.getFile row.path with
  | some existing =>
    let written := { w with db := { w.db with files := Rows.modify FileRow.path w.db.files row.path (fun e =>
      { row with path := e.path, createdAt := e.createdAt }) } }
    if existing.r2Key = row.r2Key then written
    else written.queueCleanup row.path existing.r2Key (now + replacementGraceMs)
  | none => { w with db := { w.db with files := w.db.files ++ [row] } }

/-! ## Uploads of a client -/

/-- The signature of `prepareUpload` is there: the claim is recorded. -/
def preparedUpload (path : String) (sizeBytes now ttl : Nat) : World :=
  let key := Key.upload w.nextId path
  { w with
    db := { w.db with
      uploads := w.db.uploads ++ [⟨w.nextId, path, key, true, sizeBytes, now + ttl, none, none⟩] }
    signed := w.signed ++ [key]
    nextId := w.nextId + 1 }

def finalizeUpload (path : String) (uploadId : Nat) (fromAgent : Bool) (now : Nat) : World :=
  match w.db.uploadRow uploadId with
  | some pending =>
    if pending.pending = true ∧ pending.path = path then
      w.park (.finalizeHead ⟨path, uploadId, fromAgent, now, pending⟩ none)
    else w
  | none => w

/-- `refuse`: a claim that is still pending is retired. -/
def refuse (uploadId now : Nat) : World :=
  match w.db.uploadRow uploadId with
  | some current => if current.pending then w.retirePendingUpload current now else w
  | none => w

def finalizeHeaded (call : FinalizeCall) (quota : DriveQuota) (now : Nat) : Option Nat → World
  | none => w
  | some stagedBytes =>
    if call.pending.claimedBytes < stagedBytes then w.refuse call.uploadId now
    else if (w.db.partitionWrite quota [⟨call.path, stagedBytes⟩]).accepted = [] then w.refuse call.uploadId now
    else w.park (.finalizeKey call stagedBytes)

def finalizeKeyed (call : FinalizeCall) (stagedBytes : Nat) : World :=
  let finalKey := Key.final call.uploadId w.nextId call.path
  let owed := { w with nextId := w.nextId + 1 }.queueCleanup call.path finalKey (call.startedAt + writeDebtGraceMs)
  (owed.request (.copy call.pending.r2Key finalKey)).park
    (.finalizeCopy call stagedBytes finalKey (w.nextId + 1) owed.nextId)

def finalizedRow (call : FinalizeCall) (stagedBytes : Nat) (finalKey : Key) (now : Nat) : FileRow :=
  let source := if call.fromAgent then "agent" else "upload"
  { path := call.path
    r2Key := finalKey
    sizeBytes := stagedBytes
    source
    origin := if call.fromAgent then ((w.db.getFile call.path).map FileRow.origin).getD source else "upload"
    writeKey := none
    uploadId := some call.uploadId
    createdAt := now
    updatedAt := now }

def finalizeLinks (call : FinalizeCall) (stagedBytes : Nat) (quota : DriveQuota) : Bool :=
  (w.db.uploadRow call.uploadId).any UploadRow.pending &&
    (w.db.partitionWrite quota [⟨call.path, stagedBytes⟩]).accepted ≠ []

def finalizeCommit (call : FinalizeCall) (stagedBytes : Nat) (finalKey : Key) (debtId : Nat) (quota : DriveQuota)
    (now : Nat) : World :=
  match w.db.uploadRow call.uploadId with
  | some current =>
    if !current.pending then w
    else if !w.finalizeLinks call stagedBytes quota then w.refuse call.uploadId now
    else ((w.install now (w.finalizedRow call stagedBytes finalKey now)).dropUpload debtId).retirePendingUpload current now
  | none => w

/-! ## Files of a turn -/

/-- A file that needs no look at storage, or the claim whose object `head` is asked for. -/
inductive Resolved
  | inline
  | replayed (path : String)
  | skipped
  | waits (pending : UploadRow)

def resolveFile (db : Db) (writeKey : Option String) (file : NormalizedReport) : Resolved :=
  match file.uploadId with
  | none => .inline
  | some uploadId =>
    match db.files.find? (fun r => r.uploadId = some uploadId) with
    | some installed =>
      if writeKey ≠ none ∧ installed.writeKey = writeKey then .replayed installed.path
      else claimed uploadId
    | none => claimed uploadId
where
  claimed (uploadId : Nat) : Resolved :=
    match db.uploadRow uploadId with
    | some pending =>
      if !pending.pending ∨ pending.path ≠ file.path ∨ pending.claimedBytes < file.sizeBytes then .skipped
      else .waits pending
    | none => .skipped

def baselineOf (db : Db) (path : String) : Option BaselineRow := (db.getFile path).map FileRow.baseline

def turnResolved (call : TurnCall) (resolved : List NormalizedReport) (quota : DriveQuota) : World :=
  let rule := applyUploadWriteRule resolved (baselineOf w.db) call.writeKey
  let preflight := w.db.partitionWrite quota (rule.files.map NormalizedReport.candidate)
  w.park (.turnKeys
    { call with
      renamed := call.renamed ++ rule.renamed
      skipped := call.skipped ++ rule.skipped ++ preflight.skipped }
    (rule.files.filter (fun file => file.candidate ∈ preflight.accepted)))

/-- `resolveStagedWrites` from a file on, up to its next look at storage. -/
def resolveStagedWrites (call : TurnCall) (resolved : List NormalizedReport) (quota : DriveQuota) :
    List NormalizedReport → World
  | [] => w.turnResolved call resolved quota
  | file :: rest =>
    match resolveFile w.db call.writeKey file with
    | .inline => resolveStagedWrites call (resolved ++ [file]) quota rest
    | .replayed path => resolveStagedWrites { call with
        replayed := call.replayed ++ [path]
        renamed := if path = file.path then call.renamed else call.renamed ++ [⟨file.path, path⟩] } resolved quota rest
    | .skipped =>
      resolveStagedWrites { call with skipped := call.skipped ++ [⟨file.path, .uploadNotWaiting⟩] } resolved quota rest
    | .waits pending => w.park (.resolveHead call resolved file pending rest none)

/-- `head` answered for a staged file: storage says how many bytes arrived. -/
def resolveHeaded (call : TurnCall) (resolved : List NormalizedReport) (file : NormalizedReport) (pending : UploadRow)
    (rest : List NormalizedReport) (quota : DriveQuota) (now : Nat) (head : Option Nat) : World :=
  if head = some file.sizeBytes then
    w.resolveStagedWrites { call with staged := call.staged ++ [pending] } (resolved ++ [file]) quota rest
  else (w.retirePendingUpload pending now).resolveStagedWrites
    { call with skipped := call.skipped ++ [⟨file.path, .incomplete⟩] } resolved quota rest

def storageOp (call : TurnCall) (entry : Entry) : StorageOp :=
  match entry.file.uploadId.bind (fun uploadId => Rows.lookup UploadRow.uploadId call.staged uploadId) with
  | some pending => .copy pending.r2Key entry.r2Key
  | none => .put entry.r2Key entry.file.sizeBytes

/-- The row a turn's file installs; provenance only rises to `upload`. -/
def turnRow (call : TurnCall) (entry : Entry) (now : Nat) : FileRow where
  path := entry.file.path
  r2Key := entry.r2Key
  sizeBytes := entry.file.sizeBytes
  source := call.source
  origin := ((w.db.getFile entry.file.path).map FileRow.origin).getD call.source
  writeKey := call.writeKey
  uploadId := entry.file.uploadId
  createdAt := now
  updatedAt := now

def linkEntry (call : TurnCall) (now : Nat) (entry : Entry) : World :=
  { (w.install now (w.turnRow call entry now)).dropUpload entry.debtId with
    overwrites := w.overwrites ++ (w.db.getFile entry.file.path).toList.map (fun row => ⟨call.report, call.writeKey, row⟩) }

def linkedEntries (quota : DriveQuota) (entries : List Entry) : List Entry :=
  let accepted := (w.db.partitionWrite quota (entries.map (fun e => e.file.candidate))).accepted
  entries.filter (fun e => e.file.candidate ∈ accepted)

def turnCommit (call : TurnCall) (entries : List Entry) (quota : DriveQuota) (now : Nat) : World :=
  let verdict := w.db.partitionWrite quota (entries.map (fun e => e.file.candidate))
  let written := w.linkedEntries quota entries
  let linked := written.foldl (fun w entry => w.linkEntry call now entry) w
  let settled := (entries.filter (fun e => e ∉ written)).foldl (fun w entry => w.expireUpload entry.debtId now) linked
  let retired := call.staged.foldl (fun w pending => w.retirePendingUpload pending now) settled
  { retired with
    results := retired.results ++ [{
      report := call.report
      stored := call.replayed ++ written.map (fun e => e.file.path)
      skipped := call.skipped ++ verdict.skipped
      renamed := call.renamed }] }

def writeNext (call : TurnCall) (written : List Entry) (quota : DriveQuota) (now : Nat) : List Entry → World
  | [] => w.turnCommit call written quota now
  | entry :: rest => (w.request (storageOp call entry)).park (.turnWrite call written entry rest w.nextId)

def keyEntries (call : TurnCall) : World → List NormalizedReport → World × List Entry
  | keying, [] => (keying, [])
  | keying, file :: rest =>
    let key := Key.write keying.nextId file.path
    let owed := { keying with nextId := keying.nextId + 1 }.queueCleanup file.path key
      (call.startedAt + writeDebtGraceMs)
    let keyed := keyEntries call owed rest
    (keyed.1, ⟨file, key, keying.nextId + 1⟩ :: keyed.2)

def turnKeyed (call : TurnCall) (files : List NormalizedReport) (quota : DriveQuota) (now : Nat) : World :=
  let keyed := keyEntries call w files
  keyed.1.writeNext call [] quota now keyed.2

/-! ## Cleanup -/

def dueUploads (now : Nat) : List UploadRow :=
  ((w.db.uploads.filter (fun u => u.expiresAt ≤ now && u.leaseExpiresAt.all (· ≤ now))).mergeSort
    (fun u v => u.expiresAt ≤ v.expiresAt)).take cleanupBatch

def lease (due : List UploadRow) (leaseId now : Nat) : World :=
  { w with db := { w.db with uploads := w.db.uploads.map (fun u =>
      if due.any (fun d => d.uploadId = u.uploadId) then
        { u with leaseId := some leaseId, leaseExpiresAt := some (now + cleanupLeaseMs) } else u) } }

def cleanedUp (leaseId : Nat) (due : List UploadRow) : World :=
  { w with db := { w.db with uploads := w.db.uploads.filter (fun u =>
      !(due.any (fun d => d.uploadId = u.uploadId) && u.leaseId = some leaseId)) } }

def requestDeletes : World → List Key → World × List Nat
  | asking, [] => (asking, [])
  | asking, key :: keys =>
    let rest := requestDeletes (asking.request (.delete key)) keys
    (rest.1, asking.nextId :: rest.2)

def runCleanup (now : Nat) : World :=
  let due := w.dueUploads now
  if due = [] then w
  else
    let leaseId := w.nextId
    let leased := { w with nextId := w.nextId + 1 }.lease due leaseId now
    let doomed := due.filter (fun u => !leased.db.isKeyReferenced u.r2Key)
    if doomed = [] then leased.cleanedUp leaseId due
    else
      let asked := requestDeletes leased (doomed.map UploadRow.r2Key).dedup
      asked.1.park (.cleanup leaseId due asked.2)

/-! ## Storage -/

def setObject (key : Key) (size : Option Nat) : World :=
  { w with objects := fun k => if k = key then size else w.objects k }

def dropTask (i : Nat) : World := { w with tasks := w.tasks.eraseIdx i }

def land (j : Nat) : World :=
  match w.inflight[j]? with
  | none => w
  | some ⟨token, op⟩ =>
    let taken := { w with inflight := w.inflight.eraseIdx j }
    let done := { taken with landed := token :: w.landed }
    match op with
    | .put key sizeBytes => done.setObject key (some sizeBytes)
    | .copy source target =>
      match w.objects source with
      | some sizeBytes => done.setObject target (some sizeBytes)
      | none => taken
    | .delete key => done.setObject key none

def clientPut (key : Key) (sizeBytes : Nat) : World :=
  if key ∈ w.signed then w.setObject key (some sizeBytes) else w

/-- What `head` sees, for a parked call that asks for it. -/
def look (i : Nat) : World :=
  match w.tasks[i]? with
  | some (.finalizeHead call none) =>
    (w.dropTask i).park (.finalizeHead call (some (w.objects call.pending.r2Key)))
  | some (.finalizeCheck call stagedBytes finalKey debtId none) =>
    (w.dropTask i).park (.finalizeCheck call stagedBytes finalKey debtId (some (w.objects finalKey)))
  | some (.resolveHead call resolved file pending rest none) =>
    (w.dropTask i).park (.resolveHead call resolved file pending rest (some (w.objects pending.r2Key)))
  | some (.turnCheck call written entry rest none) =>
    (w.dropTask i).park (.turnCheck call written entry rest (some (w.objects entry.r2Key)))
  | _ => w

def proceedTask (task : Task) (i : Nat) (now : Nat) (quota : DriveQuota) : World :=
  let gone := w.dropTask i
  match task with
  | .prepareUpload path sizeBytes => gone.preparedUpload path sizeBytes now pendingUploadTtlMs
  | .turnStage none claims => gone.park (.turnStage (some now) claims)
  | .turnStage (some _) [] => gone
  | .turnStage (some stagedAt) (claim :: claims) =>
    (gone.preparedUpload claim.path claim.sizeBytes stagedAt stageTtlMs).park (.turnStage (some stagedAt) claims)
  | .finalizeHead call (some head) => gone.finalizeHeaded call quota now head
  | .finalizeKey call stagedBytes => gone.finalizeKeyed call stagedBytes
  | .finalizeCopy call stagedBytes finalKey debtId token =>
    if token ∈ w.landed then gone.park (.finalizeCheck call stagedBytes finalKey debtId none) else w
  | .finalizeCheck call stagedBytes finalKey debtId (some copied) =>
    if copied = some stagedBytes then gone.finalizeCommit call stagedBytes finalKey debtId quota now else gone
  | .resolveHead call resolved file pending rest (some head) =>
    gone.resolveHeaded call resolved file pending rest quota now head
  | .turnKeys call files => gone.turnKeyed call files quota now
  | .turnWrite call written entry rest token =>
    if token ∉ w.landed then w
    else if entry.file.uploadId = none then gone.writeNext call (written ++ [entry]) quota now rest
    else gone.park (.turnCheck call written entry rest none)
  | .turnCheck call written entry rest (some copied) =>
    if copied = some entry.file.sizeBytes then gone.writeNext call (written ++ [entry]) quota now rest else gone
  | .cleanup leaseId due tokens => if tokens.all (· ∈ w.landed) then gone.cleanedUp leaseId due else w
  | _ => w

end World

inductive Input
  | prepareUpload (path : String) (sizeBytes : Nat) (quota : DriveQuota)
  | finalizeUpload (path : String) (uploadId : Nat) (fromAgent : Bool) (now : Nat)
  | turnFiles (report : Report) (writeKey : Option String) (source : String) (quota : DriveQuota) (now : Nat)
  | turnStage (claims : List WriteCandidate) (quota : DriveQuota)
  | turnDelete (files : List (String × Option Nat)) (now : Nat)
  | delete (path : String) (now : Nat)
  | runCleanup (now : Nat)
  /-- A request in flight takes effect, or is lost. -/
  | lands (j : Nat)
  | missed (j : Nat)
  | clientPut (key : Key) (sizeBytes : Nat)
  /-- `head` looks for a parked call. -/
  | looks (i : Nat)
  /-- A parked call goes on with its answer. -/
  | proceed (i : Nat) (now : Nat) (quota : DriveQuota)
  /-- It is lost, or its await fails. -/
  | lose (i : Nat)

namespace World

/-- One file of `turnDelete`: only the version the turn has read goes. -/
def turnDeleteFile (w : World) (now : Nat) (file : String × Option Nat) : World :=
  match w.db.getFile file.1 with
  | some row => if some row.updatedAt = file.2 then w.deleteFileRow file.1 now else w
  | none => w

/-- The provenance `upload` is the user's alone. -/
def turnSource (source : String) : String := if source = "upload" then "agent" else source

def step (w : World) : Input → World
  | .prepareUpload path sizeBytes quota =>
    if (w.db.partitionWrite quota [⟨path, sizeBytes⟩]).skipped = [] then w.park (.prepareUpload path sizeBytes) else w
  | .finalizeUpload path uploadId fromAgent now => w.finalizeUpload path uploadId fromAgent now
  | .turnFiles report writeKey source quota now =>
    w.resolveStagedWrites { report, writeKey, source := turnSource source, startedAt := now } [] quota report.files
  | .turnStage claims quota => w.park (.turnStage none (w.db.partitionWrite quota claims).accepted)
  | .turnDelete files now => files.foldl (fun w file => w.turnDeleteFile now file) w
  | .delete path now => w.deleteFileRow path now
  | .runCleanup now => w.runCleanup now
  | .lands j => w.land j
  | .missed j => { w with inflight := w.inflight.eraseIdx j }
  | .clientPut key sizeBytes => w.clientPut key sizeBytes
  | .looks i => w.look i
  | .proceed i now quota =>
    match w.tasks[i]? with
    | some task => w.proceedTask task i now quota
    | none => w
  | .lose i => w.dropTask i

end World

end Stella.Drive
