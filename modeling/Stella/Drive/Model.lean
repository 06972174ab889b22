import Mathlib.Algebra.GroupWithZero.Nat
import Mathlib.Data.List.Sort
import Stella.AgentActivity.Lifecycle
import Stella.Library.Rows

/-! # The owner's drive: rows, quota and the upload rule

A file's row names an object in storage by a key of its own. The rows of `drive_uploads` are the
claims of uploads and the objects that may exist without a file.
-/

namespace Stella.Drive

open Stella.AgentActivity (trim)

inductive Key
  | upload (uploadId : Nat) (path : String)
  | final (uploadId attempt : Nat) (path : String)
  | write (id : Nat) (path : String)
  deriving DecidableEq

def Key.staging : Key → Bool
  | .upload _ _ => true
  | _ => false

structure FileRow where
  path : String
  r2Key : Key
  sizeBytes : Nat
  source : String
  origin : String
  writeKey : Option String
  uploadId : Option Nat
  createdAt : Nat
  updatedAt : Nat

structure UploadRow where
  uploadId : Nat
  path : String
  r2Key : Key
  pending : Bool
  claimedBytes : Nat
  expiresAt : Nat
  leaseId : Option Nat
  leaseExpiresAt : Option Nat
  deriving DecidableEq

def pendingUploadTtlMs : Nat := 6 * 60 * 60000
def cleanupLeaseMs : Nat := 5 * 60000
def cleanupBatch : Nat := 100
def replacementGraceMs : Nat := 900 * 1000
def writeDebtGraceMs : Nat := 15 * 60000
def stageTtlMs : Nat := 2 * 60 * 60000

structure Db where
  files : List FileRow := []
  uploads : List UploadRow := []

def Db.getFile (db : Db) (path : String) : Option FileRow := Rows.lookup FileRow.path db.files path

def Db.uploadRow (db : Db) (uploadId : Nat) : Option UploadRow := Rows.lookup UploadRow.uploadId db.uploads uploadId

def Db.isKeyReferenced (db : Db) (key : Key) : Bool := db.files.any (fun r => r.r2Key = key)

/-! ## Paths -/

/-- The characters after the last one that is `c`, and those before it, if there is one. -/
def splitLast (c : Char) (text : List Char) : Option (List Char × List Char) :=
  match text.reverse.span (· ≠ c) with
  | (_, []) => none
  | (after, _ :: before) => some (before.reverse, after.reverse)

def driveRevisionPath (path : String) : String :=
  let (folder, name) := match splitLast '/' path.toList with
    | some (folder, name) => (folder ++ ['/'], name)
    | none => ([], path.toList)
  let revised := match splitLast '.' name with
    | some (stem, extension) =>
      if stem = [] then name ++ " (agent copy)".toList else stem ++ " (agent copy)".toList ++ '.' :: extension
    | none => name ++ " (agent copy)".toList
  String.ofList (folder ++ revised)

def thumbnailRoot : List Char := ".thumbnails".toList

def thumbnailableExtensions : List String := [".png", ".jpg", ".jpeg", ".webp", ".gif", ".bmp"]

/-- The extension of the last segment, in lower case; `/` and `\` both separate. -/
def extensionOf (path : List Char) : String :=
  let name := (path.reverse.takeWhile (fun c => c ≠ '/' && c ≠ '\\')).reverse
  match splitLast '.' name with
  | some (stem, extension) => if stem = [] then "" else (String.ofList ('.' :: extension)).toLower
  | none => ""

def dropRoot (path : List Char) : List Char :=
  (match path with
  | '.' :: '/' :: rest => rest
  | _ => path).dropWhile (· = '/')

def evidenceThumbnailDrivePath (path : String) : Option String :=
  let normalized := dropRoot (trim path).toList
  if normalized = [] ∨ normalized = thumbnailRoot ∨ (thumbnailRoot ++ ['/']).isPrefixOf normalized then none
  else if !thumbnailableExtensions.contains (extensionOf normalized) then none
  else
    let thumbnail := thumbnailRoot ++ '/' :: normalized ++ ".jpg".toList
    if (thumbnail.map (fun c => if c.toNat < 0x10000 then 1 else 2)).sum ≤ 400 then some (String.ofList thumbnail) else none

/-! ## Quota -/

structure DriveQuota where
  totalBytes : Nat
  maxFiles : Nat
  maxFileBytes : Nat

inductive SkipReason
  | repeated | overFileLimit | overFiles | overBytes | uploadNotWaiting | incomplete | bothUploads

structure DriveSkip where
  path : String
  reason : SkipReason

structure WriteCandidate where
  path : String
  sizeBytes : Nat
  deriving DecidableEq

structure WriteVerdict where
  fileCount : Nat
  totalBytes : Nat
  accepted : List WriteCandidate := []
  skipped : List DriveSkip := []

def WriteVerdict.skip (verdict : WriteVerdict) (file : WriteCandidate) (reason : SkipReason) : WriteVerdict :=
  { verdict with skipped := verdict.skipped ++ [⟨file.path, reason⟩] }

def Db.judge (db : Db) (quota : DriveQuota) (files : List WriteCandidate) (verdict : WriteVerdict)
    (file : WriteCandidate) : WriteVerdict :=
  if 1 < (files.filter (fun f => f.path = file.path)).length then verdict.skip file .repeated
  else if quota.maxFileBytes < file.sizeBytes then verdict.skip file .overFileLimit
  else
    let prior := (db.getFile file.path).map FileRow.sizeBytes
    let nextFileCount := if prior = none then verdict.fileCount + 1 else verdict.fileCount
    let nextTotalBytes := verdict.totalBytes - prior.getD 0 + file.sizeBytes
    if quota.maxFiles < nextFileCount then verdict.skip file .overFiles
    else if quota.totalBytes < nextTotalBytes then verdict.skip file .overBytes
    else { verdict with
      fileCount := nextFileCount
      totalBytes := nextTotalBytes
      accepted := verdict.accepted ++ [file] }

def Db.partitionWrite (db : Db) (quota : DriveQuota) (files : List WriteCandidate) : WriteVerdict :=
  files.foldl (db.judge quota files) ⟨db.files.length, (db.files.map FileRow.sizeBytes).sum, [], []⟩

/-! ## Reports of a turn -/

structure NormalizedReport where
  path : String
  sizeBytes : Nat
  uploadId : Option Nat
  knownUpdatedAt : Option Nat
  deriving DecidableEq

/-- What `normalizeReport` lets through: no path twice. -/
structure Report where
  files : List NormalizedReport
  distinct : (files.map NormalizedReport.path).Nodup

structure DriveRename where
  source : String
  target : String
  deriving DecidableEq

def NormalizedReport.candidate (file : NormalizedReport) : WriteCandidate := ⟨file.path, file.sizeBytes⟩

structure BaselineRow where
  origin : String
  writeKey : Option String
  updatedAt : Nat

def FileRow.baseline (row : FileRow) : BaselineRow := ⟨row.origin, row.writeKey, row.updatedAt⟩

def protectedByUpload (row : Option BaselineRow) (knownUpdatedAt : Option Nat) (writeKey : Option String) : Bool :=
  row.any (fun row => row.origin = "upload" && some row.updatedAt ≠ knownUpdatedAt &&
    !(writeKey ≠ none && row.writeKey = writeKey))

structure Ruled where
  files : List NormalizedReport := []
  renamed : List DriveRename := []
  skipped : List DriveSkip := []

def ruleFile (baseline : String → Option BaselineRow) (writeKey : Option String) (ruled : Ruled)
    (file : NormalizedReport) : Ruled :=
  if !protectedByUpload (baseline file.path) file.knownUpdatedAt writeKey then
    { ruled with files := ruled.files ++ [file] }
  else
    let target := driveRevisionPath file.path
    if protectedByUpload (baseline target) none writeKey then
      { ruled with skipped := ruled.skipped ++ [⟨file.path, .bothUploads⟩] }
    else { ruled with
      files := ruled.files ++ [{ file with path := target }]
      renamed := ruled.renamed ++ [⟨file.path, target⟩] }

def applyUploadWriteRule (files : List NormalizedReport) (baseline : String → Option BaselineRow)
    (writeKey : Option String) : Ruled := files.foldl (ruleFile baseline writeKey) {}

end Stella.Drive
