import Stella.World.Model

/-! # Writing to the world

The mutations a caller sees: `writeFile`, `mkdir`, `symlink`, the pushes of a container,
`commitShell` and `checkpoint`.
-/

namespace Stella.World

def worldR2ThresholdBytes : Nat := 4 * 1024 * 1024

structure FileBytes where
  byteLength : Nat
  sha256 : String

def storedBytes (entries : List (Text × Node)) : Nat :=
  (entries.map (fun entry => if entry.2.kind = .file ∧ ¬ isWorldDrivePath entry.1 then entry.2.size else 0)).sum

/-- Order of texts in UTF-16 units, as `sort()` has it. -/
def utf16Units (text : Text) : List Nat :=
  text.flatMap (fun c => if c.toNat < 0x10000 then [c.toNat]
    else [0xd800 + (c.toNat - 0x10000) / 0x400, 0xdc00 + (c.toNat - 0x10000) % 0x400])

def sortTexts (texts : List Text) : List Text := texts.insertionSort (fun a b => utf16Units a ≤ utf16Units b)

def sameWorldContent (existing incoming : Node) : Bool :=
  existing.kind = incoming.kind && existing.mode = incoming.mode &&
    match existing.kind with
    | .dir => true
    | .file => existing.blobSha256 = incoming.blobSha256 && existing.size = incoming.size
    | .symlink => existing.target = incoming.target

def WorldListingEntry.node (entry : WorldListingEntry) (now : Int) : Except WorldError Node :=
  match entry.mode, entry.size with
  | some mode, some size =>
    if mode < 0 ∨ size < 0 then .error (.invalidEntry entry.path)
    else .ok ⟨entry.kind, mode, entry.mtime.getD now, size.toNat, entry.sha256, entry.target⟩
  | _, _ => .error (.invalidEntry entry.path)

namespace Mutation

/-- `storeBlob`: a large file goes to the bucket before its row is written. -/
def storeBlob (bytes : FileBytes) (bucketWorks : Bool) (m : Mutation) : Except WorldError Unit × Mutation :=
  let insert (storage : BlobStorage) : Mutation :=
    { m with store := { m.store with blobs := m.store.blobs.set bytes.sha256 ⟨bytes.byteLength, storage⟩ } }
  if worldFileLimitBytes < bytes.byteLength then (.error .fileTooLarge, m)
  else if m.store.blobs.has bytes.sha256 then (.ok (), m)
  else if worldR2ThresholdBytes < bytes.byteLength then
    if bucketWorks then (.ok (), insert .r2) else (.error .bucketFailed, m)
  else (.ok (), insert .sqlite)

/-- The body of `writeFile`. -/
def writeFile (now : Int) (input : Text) (bytes : FileBytes) (mode mtime : Option Int) (bucketWorks : Bool)
    (m : Mutation) : Except WorldError WorldEntry × Mutation :=
  match normalizeWorldPath input false with
  | .error e => (.error e, m)
  | .ok path =>
    let prior := m.store.entryRow path
    if worldReadLimitBytes < bytes.byteLength then (.error .writeTooLarge, m)
    else if prior.any (fun node => node.kind ≠ .file) then (.error (.notFile path), m)
    else if isWorldDrivePath path then (.error (.inDrive path), m)
    else
      match m.store.allEntries [] with
      | .error e => (.error e, m)
      | .ok entries =>
        let others := (entries.filter (fun entry => entry.path ≠ path)).map (fun entry => (entry.path, entry.node))
        if worldQuotaBytes < storedBytes others + bytes.byteLength then (.error .quotaExceeded, m)
        else
          match m.storeBlob bytes bucketWorks with
          | (.error e, m) => (.error e, m)
          | (.ok (), m) =>
            let defaultMode := (prior.map Node.mode).getD 0o644
            let node : Node := ⟨.file, mode.getD defaultMode, mtime.getD now, bytes.byteLength, some bytes.sha256, none⟩
            match m.putNode now path node with
            | (.error e, m) => (.error e, m)
            | (.ok (), m) => (.ok ⟨path, node⟩, m)

/-- The body of `mkdir`. -/
def mkdir (now : Int) (input : Text) (mode : Option Int) (m : Mutation) : Except WorldError Unit × Mutation :=
  match normalizeWorldPath input false with
  | .error e => (.error e, m)
  | .ok path =>
    match m.store.entryRow path with
    | some node => if node.kind ≠ .dir then (.error (.notDirectory path), m) else (.ok (), m)
    | none => m.putNode now path ⟨.dir, mode.getD 0o755, now, 0, none, none⟩

/-- The body of `symlink`. -/
def symlink (now : Int) (input target : Text) (m : Mutation) : Except WorldError Unit × Mutation :=
  match normalizeWorldPath input false with
  | .error e => (.error e, m)
  | .ok path =>
    if (m.store.entryRow path).isSome then (.error (.alreadyExists path), m)
    else m.putNode now path ⟨.symlink, 0o777, now, pathBytes target, none, some target⟩

def hasChildren (m : Mutation) (path : Text) : Bool :=
  m.store.live.dirents.any (fun row => parentPath row.1 = path)

/-- The deletions of `pushChanges`: a directory that still has children stays. -/
def deleteKnown : List Text → Mutation → Except WorldError Unit × Mutation
  | [], m => (.ok (), m)
  | path :: rest, m =>
    match m.store.entryRow path with
    | none => deleteKnown rest m
    | some node =>
      if node.kind = .dir ∧ m.hasChildren path = true then deleteKnown rest m
      else
        match m.remove path false with
        | (.error e, m) => (.error e, m)
        | (.ok (), m) => deleteKnown rest m

/-- The deletions of `pushDiff`: whole subtrees. -/
def deleteSubtrees : List Text → Mutation → Except WorldError Unit × Mutation
  | [], m => (.ok (), m)
  | path :: rest, m =>
    if (m.store.entryRow path).isSome then
      match m.remove path true with
      | (.error e, m) => (.error e, m)
      | (.ok (), m) => deleteSubtrees rest m
    else deleteSubtrees rest m

def unpin (node : Node) (m : Mutation) : Mutation :=
  match node.kind, node.blobSha256 with
  | .file, some sha256 => { m with store := { m.store with pins := m.store.pins.erase sha256 } }
  | _, _ => m

def putNodes (now : Int) : List (Text × Node) → Mutation → Except WorldError Unit × Mutation
  | [], m => (.ok (), m)
  | entry :: rest, m =>
    match m.putNode now entry.1 entry.2 with
    | (.error e, m) => (.error e, m)
    | (.ok (), m) => putNodes now rest (m.unpin entry.2)

end Mutation

def longestFirst (paths : List Text) : List Text := paths.insertionSort (fun a b => utf16Length b ≤ utf16Length a)

def shortestFirst (entries : List (Text × Node)) : List (Text × Node) :=
  entries.insertionSort (fun a b => utf16Length a.1 ≤ utf16Length b.1)

structure PushResult where
  missingBlobs : List String
  revision : Nat
  previousRevision : Nat

inductive CommitResult
  | committed (revision : Nat)
  | conflict (paths : List Text)
  | missingBlobs (missing : List String)
  deriving DecidableEq

namespace WorldSqlStore

def writeFile (store : WorldSqlStore) (now : Int) (input : Text) (bytes : FileBytes) (mode mtime : Option Int)
    (bucketWorks : Bool) : Except WorldError (WorldEntry × Nat) × WorldSqlStore :=
  store.mutate (Mutation.writeFile now input bytes mode mtime bucketWorks)

def mkdir (store : WorldSqlStore) (now : Int) (input : Text) (mode : Option Int) :
    Except WorldError (Unit × Nat) × WorldSqlStore :=
  store.mutate (Mutation.mkdir now input mode)

def symlink (store : WorldSqlStore) (now : Int) (input target : Text) :
    Except WorldError (Unit × Nat) × WorldSqlStore :=
  store.mutate (Mutation.symlink now input target)

def blobCheck (store : WorldSqlStore) (path : Text) (node : Node) : Except WorldError (Option String) :=
  if node.kind ≠ .file then .ok none
  else
    match node.blobSha256.filter (· ≠ "") with
    | none => .error (.missingSha256 path)
    | some sha256 =>
      match store.blobs.get? sha256 with
      | none => .ok (some sha256)
      | some blob => if blob.size ≠ node.size then .error (.sizeMismatch path) else .ok none

/-- The entries a `pushChanges` is to put, and the blobs that are missing. -/
def screenChanges (store : WorldSqlStore) (now : Int) :
    List WorldListingEntry → Except WorldError (List (Text × Node) × List String)
  | [] => .ok ([], [])
  | entry :: rest =>
    match normalizeWorldPath entry.path false with
    | .error e => .error e
    | .ok path =>
      if isWorldDrivePath path then store.screenChanges now rest
      else
        match entry.node now with
        | .error e => .error e
        | .ok node =>
          if (store.entryRow path).any (fun existing => sameWorldContent existing node) then store.screenChanges now rest
          else
            match store.blobCheck entry.path node with
            | .error e => .error e
            | .ok missing =>
              (store.screenChanges now rest).map (fun later => ((path, node) :: later.1, missing.toList ++ later.2))

def sortMissing (missing : List String) : List String :=
  missing.eraseDups.insertionSort (fun a b => utf16Units a.toList ≤ utf16Units b.toList)

def normalizeAll : List Text → Except WorldError (List Text)
  | [] => .ok []
  | path :: rest =>
    match normalizeWorldPath path false with
    | .error e => .error e
    | .ok path => (normalizeAll rest).map (path :: ·)

def overQuota (kept : List WorldEntry) (entries : List (Text × Node)) : Bool :=
  let listed : InsertionMap Text Node := kept.map (fun entry => (entry.path, entry.node))
  worldQuotaBytes < storedBytes (entries.foldl (fun projected entry => InsertionMap.set projected entry.1 entry.2) listed)

def pushChanges (store : WorldSqlStore) (now : Int) (input : List WorldListingEntry) (gone : List Text) :
    Except WorldError PushResult × WorldSqlStore :=
  let unchanged (missing : List String) : Except WorldError PushResult × WorldSqlStore :=
    (.ok ⟨missing, store.revision, store.revision⟩, store)
  match store.screenChanges now input with
  | .error e => (.error e, store)
  | .ok (entries, missing) =>
    if missing ≠ [] then unchanged (sortMissing missing)
    else
      match normalizeAll gone with
      | .error e => (.error e, store)
      | .ok gone =>
        let deleted := longestFirst (gone.eraseDups.filter (fun path => !isWorldDrivePath path))
        if entries = [] ∧ deleted = [] then unchanged []
        else
          let quota : Except WorldError Unit :=
            if entries.any (fun entry => entry.2.kind = .file) then
              match store.allEntries [] with
              | .error e => .error e
              | .ok all => if overQuota (all.filter (fun entry => entry.path ∉ deleted)) entries then .error .quotaExceeded else .ok ()
            else .ok ()
          match quota with
          | .error e => (.error e, store)
          | .ok () =>
            let apply (m : Mutation) : Except WorldError Unit × Mutation :=
              match m.deleteKnown deleted with
              | (.error e, m) => (.error e, m)
              | (.ok (), m) => m.putNodes now (shortestFirst entries)
            match store.mutate apply with
            | (.error e, store) => (.error e, store)
            | (.ok ((), revision), after) => (.ok ⟨[], revision, store.revision⟩, after)

/-- The checks of `pushDiff` on its entries: those to put, and the blobs that are missing. -/
def screenDiff (store : WorldSqlStore) (now : Int) :
    List WorldListingEntry → Except WorldError (List (Text × Node) × List String)
  | [] => .ok ([], [])
  | entry :: rest =>
    match normalizeWorldPath entry.path false with
    | .error e => .error e
    | .ok path =>
      if isWorldDrivePath path then .error (.inDrive path)
      else
        match entry.node now with
        | .error e => .error e
        | .ok node =>
          match store.blobCheck entry.path node with
          | .error e => .error e
          | .ok missing =>
            (store.screenDiff now rest).map (fun later => ((path, node) :: later.1, missing.toList ++ later.2))

def pushDiff (store : WorldSqlStore) (now : Int) (input : List WorldListingEntry) (gone : List Text) :
    Except WorldError (List String × Nat) × WorldSqlStore :=
  match store.screenDiff now input with
  | .error e => (.error e, store)
  | .ok (entries, missing) =>
    if missing ≠ [] then (.ok (sortMissing missing, store.revision), store)
    else
      match store.allEntries [] with
      | .error e => (.error e, store)
      | .ok all =>
        match normalizeAll gone with
        | .error e => (.error e, store)
        | .ok gone =>
          let kept := all.filter (fun entry => !gone.any (fun path => pathWithin entry.path path))
          if overQuota kept entries then (.error .quotaExceeded, store)
          else
            let apply (m : Mutation) : Except WorldError Unit × Mutation :=
              match m.deleteSubtrees (longestFirst gone) with
              | (.error e, m) => (.error e, m)
              | (.ok (), m) => m.putNodes now (shortestFirst entries)
            match store.mutate apply with
            | (.error e, store) => (.error e, store)
            | (.ok ((), revision), after) => (.ok ([], revision), after)

def conflicts (store : WorldSqlStore) (baseRevision : Nat) (readPaths readChildren : List Text)
    (entries : List WorldListingEntry) (deleted : List Text) : List Text :=
  let changed := ((store.changes.filter (fun row => baseRevision < row.revision)).map ChangeRow.path).eraseDups
  changed.filter (fun path => path ∈ readPaths || parentPath path ∈ readChildren ||
    path ∈ entries.map WorldListingEntry.path || path ∈ deleted || deleted.any (fun gone => pathWithin path gone))

/-- `commitShell`; the base revision is none when it is no whole number from zero on. -/
def commitShell (store : WorldSqlStore) (now : Int) (baseRevision : Option Nat) (readPaths readChildren : List Text)
    (entries : List WorldListingEntry) (deleted : List Text) : Except WorldError CommitResult × WorldSqlStore :=
  match baseRevision with
  | none => (.error .invalidRevision, store)
  | some baseRevision =>
    if baseRevision < store.changeFloor then (.ok (.conflict []), store)
    else
      let conflicting := store.conflicts baseRevision readPaths readChildren entries deleted
      if conflicting ≠ [] then (.ok (.conflict ((sortTexts conflicting).take 20)), store)
      else if entries = [] ∧ deleted = [] then (.ok (.committed store.revision), store)
      else
        match store.pushDiff now entries deleted with
        | (.error e, store) => (.error e, store)
        | (.ok (missing, revision), store) =>
          (.ok (if missing ≠ [] then .missingBlobs missing else .committed revision), store)

def isLoose (store : WorldSqlStore) (manifest : Manifest) : Bool :=
  store.live.parentManifestId ≠ some manifest.manifestId &&
    store.others.all (fun other => other.parentManifestId ≠ some manifest.manifestId)

/-- Drops up to `limit` loose manifests, one after the other; tells whether it stopped at the limit. -/
def dropLoose : Nat → WorldSqlStore → WorldSqlStore × Bool
  | 0, store => (store, true)
  | limit + 1, store =>
    match store.others.find? store.isLoose with
    | none => (store, false)
    | some manifest => dropLoose limit { store with others := store.others.filter (fun other => other.manifestId ≠ manifest.manifestId) }

def isReferenced (store : WorldSqlStore) (sha256 : String) : Bool :=
  (store.live :: store.others).any (fun manifest => manifest.dirents.any (fun row => row.2.blobSha256 = some sha256))

def dropBlobs (bucketWorks : String → Bool) : List (String × BlobRow) → WorldSqlStore → Except WorldError Unit × WorldSqlStore
  | [], store => (.ok (), store)
  | blob :: rest, store =>
    if blob.2.storage = .r2 ∧ bucketWorks blob.1 = false then (.error .bucketFailed, store)
    else dropBlobs bucketWorks rest { store with blobs := store.blobs.erase blob.1 }

/-- `collectGarbage` with nothing running beside it. -/
def collectGarbage (store : WorldSqlStore) (now : Int) (limit : Nat) (bucketWorks : String → Bool) :
    Except WorldError Bool × WorldSqlStore :=
  let store := { store with pins := store.pins.filter (fun pin => now < pin.2) }
  let (store, full) := dropLoose limit store
  let blobs := (store.blobs.filter (fun blob => !store.isReferenced blob.1 && !store.pins.has blob.1)).take limit
  match dropBlobs bucketWorks blobs store with
  | (.error e, store) => (.error e, store)
  | (.ok (), store) => (.ok (full || blobs.length = limit), store)

def sealedEntries (dirents : Dirents) : List SealedEntry :=
  (dirents.insertionSort (fun a b => a.1 ≤ b.1)).map
    (fun row => ⟨row.1, row.2.kind, row.2.mode, row.2.size, row.2.blobSha256, row.2.target⟩)

/-- `checkpoint` up to its garbage collection: the live manifest is sealed under the name of its contents, in
place of a sealed one of that name, and the next live manifest starts as a copy of it. -/
def sealLive (store : WorldSqlStore) (historyCursor : String) : WorldSqlStore :=
  let manifestId := ManifestId.sealed (sealedEntries store.live.dirents)
  let others :=
    if store.others.any (fun other => other.manifestId = manifestId) then
      store.others.map (fun other =>
        if other.manifestId = manifestId then
          { other with
            dirents := store.live.dirents
            historyCursor := some historyCursor
            revision := some (other.revision.getD store.revision) }
        else other)
    else store.others ++ [{ store.live with manifestId, historyCursor := some historyCursor, revision := some store.revision }]
  let live : Manifest :=
    { manifestId := .live store.serial
      parentManifestId := some manifestId
      historyCursor := none
      revision := some store.revision
      dirents := store.live.dirents
      tombstones := [] }
  { store with live, others, serial := store.serial + 1 }

def checkpoint (store : WorldSqlStore) (now : Int) (historyCursor : String) (bucketWorks : String → Bool) :
    Except WorldError ManifestId × WorldSqlStore :=
  match (store.sealLive historyCursor).collectGarbage now 100 bucketWorks with
  | (.error e, store) => (.error e, store)
  | (.ok _, after) => (.ok (.sealed (sealedEntries store.live.dirents)), after)

/-- `initialize` on an empty object. -/
def initialized : WorldSqlStore where
  live :=
    { manifestId := .live 0
      parentManifestId := none
      historyCursor := none
      revision := some 0
      dirents := []
      tombstones := [] }
  others := []
  revision := 0
  changes := []
  changeFloor := 0
  blobs := []
  pins := []
  serial := 1

inductive Call
  | writeFile (now : Int) (input : Text) (bytes : FileBytes) (mode mtime : Option Int) (bucketWorks : Bool)
  | mkdir (now : Int) (input : Text) (mode : Option Int)
  | remove (input : Text) (isRecursive : Bool)
  | rename (now : Int) (fromInput toInput : Text)
  | symlink (now : Int) (input target : Text)
  | pushChanges (now : Int) (entries : List WorldListingEntry) (deleted : List Text)
  | pushDiff (now : Int) (entries : List WorldListingEntry) (deleted : List Text)
  | commitShell (now : Int) (baseRevision : Option Nat) (readPaths readChildren : List Text)
      (entries : List WorldListingEntry) (deleted : List Text)
  | checkpoint (now : Int) (historyCursor : String) (bucketWorks : String → Bool)

def outcome {α : Type} (result : Except WorldError α × WorldSqlStore) : Except WorldError Unit × WorldSqlStore :=
  (result.1.map (fun _ => ()), result.2)

def call (store : WorldSqlStore) : Call → Except WorldError Unit × WorldSqlStore
  | .writeFile now input bytes mode mtime bucketWorks => outcome (store.writeFile now input bytes mode mtime bucketWorks)
  | .mkdir now input mode => outcome (store.mkdir now input mode)
  | .remove input isRecursive => outcome (store.remove input isRecursive)
  | .rename now fromInput toInput => outcome (store.rename now fromInput toInput)
  | .symlink now input target => outcome (store.symlink now input target)
  | .pushChanges now entries deleted => outcome (store.pushChanges now entries deleted)
  | .pushDiff now entries deleted => outcome (store.pushDiff now entries deleted)
  | .commitShell now baseRevision readPaths readChildren entries deleted =>
    outcome (store.commitShell now baseRevision readPaths readChildren entries deleted)
  | .checkpoint now historyCursor bucketWorks => outcome (store.checkpoint now historyCursor bucketWorks)

end WorldSqlStore

end Stella.World
