import Mathlib.Data.Char
import Mathlib.Data.List.Lex
import Mathlib.Data.List.Sort
import Stella.Library.InsertionMap
import Stella.Library.Like
import Stella.World.Path

/-! # The world store

`WorldSqlStore` of `world/store.ts`: the manifests, the fork's revision and the change log.
-/

namespace Stella.World

inductive WorldKind
  | file
  | dir
  | symlink
  deriving DecidableEq

structure Node where
  kind : WorldKind
  mode : Int
  mtime : Int
  size : Nat
  blobSha256 : Option String
  target : Option Text
  deriving DecidableEq

abbrev Dirents := InsertionMap Text Node

structure WorldEntry where
  path : Text
  node : Node

/-- One entry of a listing a container pushes. `mode` and `size` are none when they are no safe integers. -/
structure WorldListingEntry where
  path : Text
  kind : WorldKind
  mode : Option Int
  size : Option Int
  mtime : Option Int := none
  sha256 : Option String := none
  target : Option Text := none

inductive ChangeKind
  | upsert
  | delete
  deriving DecidableEq

structure ChangeRow where
  revision : Nat
  path : Text
  kind : ChangeKind
  deriving DecidableEq

structure SealedEntry where
  path : Text
  kind : WorldKind
  mode : Int
  size : Nat
  sha256 : Option String
  target : Option Text
  deriving DecidableEq

inductive ManifestId
  | live (serial : Nat)
  | sealed (contents : List SealedEntry)
  deriving DecidableEq

structure Manifest where
  manifestId : ManifestId
  parentManifestId : Option ManifestId
  historyCursor : Option String
  revision : Option Nat
  dirents : Dirents
  tombstones : List Text

inductive BlobStorage
  | sqlite
  | r2
  deriving DecidableEq

structure BlobRow where
  size : Nat
  storage : BlobStorage

/-- The tables: `live` is the manifest at the fork's head, `others` are the rest. -/
structure WorldSqlStore where
  live : Manifest
  others : List Manifest
  revision : Nat
  changes : List ChangeRow
  changeFloor : Nat
  blobs : InsertionMap String BlobRow
  pins : InsertionMap String Int
  serial : Nat

def worldFileLimitBytes : Nat := 256 * 1024 * 1024
def worldReadLimitBytes : Nat := 8 * 1024 * 1024
def worldQuotaBytes : Nat := 4 * 1024 * 1024 * 1024
def worldChangeLogMaxRows : Nat := 10000

namespace WorldSqlStore

def entryRow (store : WorldSqlStore) (path : Text) : Option Node := store.live.dirents.get? path

/-- `p = '' OR path = p OR path LIKE p || '/%'`. -/
def listed (under path : Text) : Bool :=
  under = [] || path = under || Sql.like (under ++ ['/', '%']) path

/-- One page of `list`: in path order, above the cursor, one row more than the limit tells whether there is a next. -/
def list (store : WorldSqlStore) (input : Text) (cursor : Option Text) (limit : Int) :
    Except WorldError (List WorldEntry × Option Text) :=
  match normalizeWorldPath input true with
  | .error e => .error e
  | .ok under =>
    match (cursor.filter (· ≠ [])).elim (.ok []) (normalizeWorldPath · false) with
    | .error e => .error e
    | .ok cursor =>
      let limit := (max 1 (min 10000 limit)).toNat
      let rows := ((store.live.dirents.filter (fun row => listed under row.1 && decide (cursor < row.1))).insertionSort
        (fun a b => a.1 ≤ b.1)).take (limit + 1)
      let entries := (rows.take limit).map (fun row => (⟨row.1, row.2⟩ : WorldEntry))
      .ok (entries, if limit < rows.length then entries.getLast?.map WorldEntry.path else none)

def pages (store : WorldSqlStore) (input : Text) (limit : Int) : Nat → Option Text → Except WorldError (List WorldEntry)
  | 0, _ => .ok []
  | fuel + 1, cursor =>
    match store.list input cursor limit with
    | .error e => .error e
    | .ok (entries, none) => .ok entries
    | .ok (entries, some next) => (store.pages input limit fuel (some next)).map (entries ++ ·)

def allEntries (store : WorldSqlStore) (under : Text) : Except WorldError (List WorldEntry) :=
  store.pages under 10000 (store.live.dirents.length + 1) none

end WorldSqlStore

/-- A mutation under way: the store and the changes it will log, a later change of a path in place of an earlier one. -/
structure Mutation where
  store : WorldSqlStore
  paths : InsertionMap Text ChangeKind

namespace Mutation

def noteChange (m : Mutation) (path : Text) (kind : ChangeKind) : Mutation := { m with paths := m.paths.set path kind }

def withLive (m : Mutation) (live : Manifest) : Mutation := { m with store := { m.store with live } }

def upsert (m : Mutation) (path : Text) (node : Node) : Mutation :=
  (m.withLive { m.store.live with dirents := m.store.live.dirents.set path node }).noteChange path .upsert

def clearTombstone (m : Mutation) (path : Text) : Mutation :=
  m.withLive { m.store.live with tombstones := m.store.live.tombstones.filter (· ≠ path) }

/-- The statements of `remove` for one entry; a tombstone stands for a row of the parent manifest. -/
def delete (m : Mutation) (path : Text) : Mutation :=
  let live := m.store.live
  let parent := live.parentManifestId.bind (fun id => m.store.others.find? (fun other => other.manifestId = id))
  let shadows := (parent.bind (fun p => p.dirents.get? path)).isSome
  let tombstones := if shadows then (if path ∈ live.tombstones then live.tombstones else live.tombstones ++ [path])
    else live.tombstones.filter (· ≠ path)
  (m.withLive { live with dirents := live.dirents.erase path, tombstones }).noteChange path .delete

def ensureParents (now : Int) : List Text → Mutation → Except WorldError Unit × Mutation
  | [], m => (.ok (), m)
  | current :: rest, m =>
    match m.store.entryRow current with
    | some node =>
      if node.kind ≠ .dir then (.error (.parentNotDirectory current), m) else ensureParents now rest m
    | none => ensureParents now rest (m.upsert current ⟨.dir, 0o755, now, 0, none, none⟩)

/-- `putNode`, for a path in normal form and an entry whose numbers have been checked. -/
def putNode (now : Int) (path : Text) (node : Node) (m : Mutation) : Except WorldError Unit × Mutation :=
  if !isNormalPath path then (.error (.invalidPath path), m)
  else if isWorldDrivePath path then (.error (.inDrive path), m)
  else
    match ensureParents now (ancestors path) m with
    | (.error e, m) => (.error e, m)
    | (.ok (), m) => (.ok (), (m.upsert path node).clearTombstone path)

/-- The body of `remove`. -/
def remove (input : Text) (isRecursive : Bool) (m : Mutation) : Except WorldError Unit × Mutation :=
  match normalizeWorldPath input false with
  | .error e => (.error e, m)
  | .ok path =>
    match m.store.allEntries path with
    | .error e => (.error e, m)
    | .ok entries =>
      if entries = [] then (.error (.notFound path), m)
      else if isRecursive = false ∧ entries.any (fun entry => entry.path ≠ path) then (.error (.notEmpty path), m)
      else
        let longestFirst := entries.insertionSort (fun a b => utf16Length b.path ≤ utf16Length a.path)
        (.ok (), longestFirst.foldl (fun m entry => m.delete entry.path) m)

/-- The loop of `rename`: an entry that is gone is passed over, a path that is taken throws. -/
def moveEntries (source dest : Text) : List WorldEntry → Mutation → Except WorldError Unit × Mutation
  | [], m => (.ok (), m)
  | entry :: rest, m =>
    let next := dest ++ sliceUnits (utf16Length source) entry.path
    match m.store.entryRow entry.path with
    | none => moveEntries source dest rest m
    | some node =>
      if m.store.live.dirents.has next then (.error .uniqueConstraint, m)
      else moveEntries source dest rest (m.upsert next node)

/-- The body of `rename`. -/
def rename (now : Int) (fromInput toInput : Text) (m : Mutation) : Except WorldError Unit × Mutation :=
  match normalizeWorldPath fromInput false, normalizeWorldPath toInput false with
  | .error e, _ => (.error e, m)
  | .ok _, .error e => (.error e, m)
  | .ok source, .ok dest =>
    if isWorldDrivePath dest then (.error (.inDrive dest), m)
    else if pathWithin dest source then (.error .intoItself, m)
    else
      match m.store.allEntries source with
      | .error e => (.error e, m)
      | .ok entries =>
        if entries = [] then (.error (.notFound source), m)
        else if (m.store.entryRow dest).isSome then (.error (.alreadyExists dest), m)
        else
          match ensureParents now (ancestors dest) m with
          | (.error e, m) => (.error e, m)
          | (.ok (), m) =>
            match moveEntries source dest entries m with
            | (.error e, m) => (.error e, m)
            | (.ok (), m) => m.remove source true

end Mutation

namespace WorldSqlStore

/-- `mutate`: a mutation that changed nothing takes no revision; one that throws logs nothing. -/
def mutate {α : Type} (store : WorldSqlStore) (operation : Mutation → Except WorldError α × Mutation) :
    Except WorldError (α × Nat) × WorldSqlStore :=
  match operation ⟨store, []⟩ with
  | (.error e, m) => (.error e, m.store)
  | (.ok value, m) =>
    if m.paths = [] then (.ok (value, m.store.revision), m.store)
    else
      let revision := m.store.revision + 1
      let changes := m.store.changes ++ m.paths.map (fun change => ⟨revision, change.1, change.2⟩)
      let logged := { m.store with
        revision
        live := { m.store.live with revision := some revision }
        changes := if worldChangeLogMaxRows < changes.length then [] else changes
        changeFloor := if worldChangeLogMaxRows < changes.length then revision else m.store.changeFloor }
      (.ok (value, revision), logged)

def remove (store : WorldSqlStore) (input : Text) (isRecursive : Bool) : Except WorldError (Unit × Nat) × WorldSqlStore :=
  store.mutate (Mutation.remove input isRecursive)

def rename (store : WorldSqlStore) (now : Int) (fromInput toInput : Text) :
    Except WorldError (Unit × Nat) × WorldSqlStore :=
  store.mutate (Mutation.rename now fromInput toInput)

end WorldSqlStore

end Stella.World
