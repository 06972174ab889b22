import Stella.World.Mutations

/-! # Blobs of the world

The world object with the tables of its bytes, its uploads and its alarm's garbage collection in
flight.
-/

namespace Stella.World

def worldChunkBytes : Nat := 512 * 1024

structure Contents where
  size : String → Nat
  pieces : String → List String

namespace WorldSqlStore

/-- The rows `purgeHistory` drops for a path; `substr` counts characters, `length` UTF-16 units. -/
def purged (path dirent : Text) : Bool :=
  dirent = path || parentPath dirent = path ||
    (parentPath dirent).take (utf16Length (path ++ ['/'])) = path ++ ['/']

def purgeTombstones (path : Text) (manifest : Manifest) : Manifest :=
  { manifest with
    tombstones := manifest.tombstones.filter (fun t => !(t = path || t.take (utf16Length (path ++ ['/'])) = path ++ ['/'])) }

def purgeHistory : List Text → WorldSqlStore → Except WorldError Unit × WorldSqlStore
  | [], store => (.ok (), store)
  | input :: rest, store =>
    match normalizeWorldPath input false with
    | .error e => (.error e, store)
    | .ok path =>
      purgeHistory rest { store with
        live := purgeTombstones path store.live
        others := store.others.map (fun other =>
          purgeTombstones path { other with dirents := other.dirents.filter (fun row => !purged path row.1) }) }

end WorldSqlStore

inductive UploadPhase
  | reading
  | putting (landed : Bool)
  | cleaning
  deriving DecidableEq

/-- An upload in flight: `existing` is whether the blob had a row at its start, `parts` are the pieces read. -/
structure Upload where
  expected : String
  size : Nat
  existing : Bool
  parts : List String
  phase : UploadPhase

structure Pass where
  current : String
  rest : List (String × BlobRow)
  landed : Bool

structure WorldObject where
  store : WorldSqlStore
  blobChunks : InsertionMap String (List String)
  chunks : List String
  bucket : List String
  uploads : InsertionMap Nat Upload
  collecting : Option Pass

inductive Event
  | call (c : WorldSqlStore.Call)
  | purgeHistory (inputs : List Text)
  | putBlob (id : Nat) (expected : String) (size : Nat) (now : Int)
  | read (id : Nat) (piece : String) (now : Int)
  | truncated (id : Nat)
  | putLands (id : Nat)
  | putResolves (id : Nat) (now : Int)
  | putRejects (id : Nat)
  | cleanLands (id : Nat)
  | cleanRejects (id : Nat)
  | alarm (now : Int)
  | deleteLands
  | deleteResolves
  | deleteRejects

namespace WorldObject

variable (contents : Contents)

def pinBlob (sha256 : String) (now : Int) (o : WorldObject) : WorldObject :=
  { o with store := { o.store with pins := o.store.pins.set sha256 (now + 10 * 60000) } }

def putPieces (sha256 : String) (o : WorldObject) : WorldObject :=
  { o with
    blobChunks := o.blobChunks.set sha256 (contents.pieces sha256)
    chunks := o.chunks ++ contents.pieces sha256 }

def putObject (sha256 : String) (o : WorldObject) : WorldObject := { o with bucket := o.bucket ++ [sha256] }

def dropObject (sha256 : String) (o : WorldObject) : WorldObject := { o with bucket := o.bucket.filter (· ≠ sha256) }

def dropRows (sha256 : String) (o : WorldObject) : WorldObject :=
  { o with
    store := { o.store with blobs := o.store.blobs.erase sha256 }
    blobChunks := o.blobChunks.erase sha256 }

def sweepChunks (o : WorldObject) : WorldObject :=
  { o with chunks := o.chunks.filter (fun piece => o.blobChunks.any (fun row => row.2.contains piece)) }

/-- A mutation. `writeFile` stores the bytes of a new blob, and the collection of a `checkpoint` deletes those
of the blobs it drops. -/
def call (c : WorldSqlStore.Call) (o : WorldObject) : WorldObject :=
  let result := o.store.call c
  let left := { o with store := result.2 }
  match c with
  | .writeFile _ _ bytes _ _ _ =>
    match o.store.blobs.get? bytes.sha256, result.2.blobs.get? bytes.sha256 with
    | none, some row => if row.storage = .r2 then left.putObject bytes.sha256 else left.putPieces contents bytes.sha256
    | _, _ => left
  | .checkpoint _ _ _ =>
    let dropped := o.store.blobs.filter (fun row => !result.2.blobs.has row.1)
    let cleared : WorldObject := { left with
      blobChunks := left.blobChunks.filter (fun row => !(dropped.any (fun blob => blob.1 = row.1)))
      bucket := left.bucket.filter (fun key => !(dropped.any (fun blob => blob.1 = key && blob.2.storage = .r2))) }
    match result.1 with
    | .ok () => cleared.sweepChunks
    | .error _ => cleared
  | _ => left

def dropUpload (id : Nat) (o : WorldObject) : WorldObject := { o with uploads := o.uploads.erase id }

def insertBlob (sha256 : String) (row : BlobRow) (o : WorldObject) : WorldObject :=
  { o with store := { o.store with blobs := o.store.blobs.set sha256 row } }

/-- What follows the last read: the digest is checked, and bytes that are new go to the bucket or into rows.
An upload that found a row at its start has staged nothing to store, should the row be gone by now. -/
def received (id : Nat) (u : Upload) (now : Int) (o : WorldObject) : WorldObject :=
  if u.size ≠ contents.size u.expected ∨ (u.size ≠ 0 ∧ u.parts ≠ contents.pieces u.expected) then o.dropUpload id
  else
    match o.store.blobs.get? u.expected with
    | some row => if row.size ≠ u.size then o.dropUpload id else (o.pinBlob u.expected now).dropUpload id
    | none =>
      if u.existing = false ∧ worldR2ThresholdBytes < u.size then
        { o with uploads := o.uploads.set id { u with phase := .putting false } }
      else if u.existing = true ∧ u.size ≠ 0 then o.dropUpload id
      else
        (((o.putPieces contents u.expected).insertBlob u.expected ⟨u.size, .sqlite⟩).pinBlob u.expected now).dropUpload id

def chunkCount (size : Nat) : Nat := (size + worldChunkBytes - 1) / worldChunkBytes

/-- `putBlob`, or one frame of `putBlobs`, up to its first read. -/
def putBlob (id : Nat) (expected : String) (size : Nat) (now : Int) (o : WorldObject) : WorldObject :=
  if worldFileLimitBytes < size ∨ o.uploads.has id = true then o
  else
    let u : Upload := ⟨expected, size, o.store.blobs.has expected, [], .reading⟩
    if size = 0 then received contents id u now { o with uploads := o.uploads.set id u }
    else { o with uploads := o.uploads.set id u }

def read (id : Nat) (piece : String) (now : Int) (o : WorldObject) : WorldObject :=
  match o.uploads.get? id with
  | none => o
  | some u =>
    if u.phase ≠ .reading then o
    else
      let u := { u with parts := u.parts ++ [piece] }
      if u.parts.length < chunkCount u.size then { o with uploads := o.uploads.set id u }
      else received contents id u now { o with uploads := o.uploads.set id u }

def inPhase (o : WorldObject) (id : Nat) (phase : UploadPhase) : Option Upload :=
  (o.uploads.get? id).filter (fun u => u.phase = phase)

def putLands (id : Nat) (o : WorldObject) : WorldObject :=
  match o.inPhase id (.putting false) with
  | none => o
  | some u => { o.putObject u.expected with uploads := o.uploads.set id { u with phase := .putting true } }

def putResolves (id : Nat) (now : Int) (o : WorldObject) : WorldObject :=
  match o.inPhase id (.putting true) with
  | none => o
  | some u =>
    let stored := if o.store.blobs.has u.expected then o else o.insertBlob u.expected ⟨u.size, .r2⟩
    (stored.pinBlob u.expected now).dropUpload id

def putRejects (id : Nat) (o : WorldObject) : WorldObject :=
  match o.uploads.get? id with
  | none => o
  | some u =>
    if u.phase = .putting false ∨ u.phase = .putting true then
      { o with uploads := o.uploads.set id { u with phase := .cleaning } }
    else o

def cleanLands (id : Nat) (o : WorldObject) : WorldObject :=
  match o.inPhase id .cleaning with
  | none => o
  | some u => (o.dropObject u.expected).dropUpload id

def cleanRejects (id : Nat) (o : WorldObject) : WorldObject :=
  match o.inPhase id .cleaning with
  | none => o
  | some _ => o.dropUpload id

def truncated (id : Nat) (o : WorldObject) : WorldObject :=
  match o.inPhase id .reading with
  | none => o
  | some _ => o.dropUpload id

def advance : List (String × BlobRow) → WorldObject → WorldObject
  | [], o => { o.sweepChunks with collecting := none }
  | blob :: rest, o =>
    if blob.2.storage = .r2 then { o with collecting := some ⟨blob.1, rest, false⟩ }
    else advance rest (o.dropRows blob.1)

def selection (store : WorldSqlStore) (limit : Nat) : List (String × BlobRow) :=
  (store.blobs.filter (fun blob => !store.isReferenced blob.1 && !store.pins.has blob.1)).take limit

def alarm (now : Int) (o : WorldObject) : WorldObject :=
  match o.collecting with
  | some _ => o
  | none =>
    let unpinned := { o.store with pins := o.store.pins.filter (fun pin => now < pin.2) }
    let store := (WorldSqlStore.dropLoose 100 unpinned).1
    advance (selection store 100) { o with store }

def deleteLands (o : WorldObject) : WorldObject :=
  match o.collecting with
  | none => o
  | some pass => if pass.landed then o else { o.dropObject pass.current with collecting := some { pass with landed := true } }

def deleteResolves (o : WorldObject) : WorldObject :=
  match o.collecting with
  | none => o
  | some pass => if pass.landed then advance pass.rest (o.dropRows pass.current) else o

def deleteRejects (o : WorldObject) : WorldObject := { o with collecting := none }

def step (o : WorldObject) : Event → WorldObject
  | .call c => o.call contents c
  | .purgeHistory inputs => { o with store := (WorldSqlStore.purgeHistory inputs o.store).2 }
  | .putBlob id expected size now => o.putBlob contents id expected size now
  | .read id piece now => o.read contents id piece now
  | .truncated id => o.truncated id
  | .putLands id => o.putLands id
  | .putResolves id now => o.putResolves id now
  | .putRejects id => o.putRejects id
  | .cleanLands id => o.cleanLands id
  | .cleanRejects id => o.cleanRejects id
  | .alarm now => o.alarm now
  | .deleteLands => o.deleteLands
  | .deleteResolves => o.deleteResolves
  | .deleteRejects => o.deleteRejects

def create : WorldObject := ⟨WorldSqlStore.initialized, [], [], [], [], none⟩

end WorldObject

end Stella.World
