import Stella.World.Content

/-! # No live file loses its bytes

The invariant of the world object over every interleaving: a blob's row has its bytes, but for the
one whose object a collection has just deleted; no live file has a blob that a collection still
holds; and what an upload has put is there.
-/

namespace Stella.World

open Transition List

namespace WorldObject

variable {contents : Contents} {o : WorldObject}

def Collects (o : WorldObject) (sha256 : String) : Prop :=
  ∃ pass, o.collecting = some pass ∧ (pass.current = sha256 ∨ sha256 ∈ pass.rest.map Prod.fst)

def Lost (o : WorldObject) (sha256 : String) : Prop :=
  ∃ pass, o.collecting = some pass ∧ pass.current = sha256 ∧ pass.landed = true

structure Stored (contents : Contents) (o : WorldObject) (sha256 : String) (row : BlobRow) : Prop where
  size : row.size = contents.size sha256
  pieces : row.storage = .sqlite →
    o.blobChunks.get? sha256 = some (contents.pieces sha256) ∧ ∀ piece ∈ contents.pieces sha256, piece ∈ o.chunks
  object : row.storage = .r2 → sha256 ∈ o.bucket ∨ o.Lost sha256

structure Intact (contents : Contents) (o : WorldObject) : Prop where
  rows : ∀ sha256 row, o.store.blobs.get? sha256 = some row → Stored contents o sha256 row
  files : ∀ q node, o.store.start.entryRow q = some node → Backed o.store.blobs (fun sha256 => ¬ o.Collects sha256) node
  landed : ∀ id u, o.uploads.get? id = some u → u.phase = .putting true → u.expected ∈ o.bucket
  sizes : ∀ id u, o.uploads.get? id = some u → u.phase = .putting true ∨ u.phase = .putting false →
    u.size = contents.size u.expected

section

variable (h : Intact contents o)
include h

theorem Intact.holds :
    o.store.Holds (Backed o.store.blobs (fun sha256 => ¬ o.Collects sha256)) o.store.blobs := ⟨h.files, rfl⟩

theorem Intact.withStore {store : WorldSqlStore}
    (hHolds : store.Holds (Backed o.store.blobs (fun sha256 => ¬ o.Collects sha256)) o.store.blobs) :
    Intact contents { o with store } where
  rows := fun sha256 row hRow => by
    have hBlobs : store.blobs = o.store.blobs := hHolds.blobs
    have hStored := h.rows sha256 row (by rw [← hBlobs]; exact hRow)
    exact ⟨hStored.size, hStored.pieces, hStored.object⟩
  files := fun q node hRow => by
    have hBlobs : store.blobs = o.store.blobs := hHolds.blobs
    have hBacked := hHolds.nodes q node hRow
    rw [← hBlobs] at hBacked
    exact hBacked
  landed := h.landed
  sizes := h.sizes

theorem Intact.pinBlob (sha256 : String) (now : Int) : Intact contents (o.pinBlob sha256 now) :=
  h.withStore ⟨h.files, rfl⟩

theorem Intact.dropUpload (id : Nat) : Intact contents (o.dropUpload id) where
  rows := fun sha256 row hRow => by
    have hStored := h.rows sha256 row hRow
    exact ⟨hStored.size, hStored.pieces, hStored.object⟩
  files := h.files
  landed := fun other u hGet hPh => by
    by_cases hEq : id = other
    · rw [show (o.dropUpload id).uploads = o.uploads.erase id from rfl, hEq, InsertionMap.get?_erase_self] at hGet
      cases hGet
    · rw [show (o.dropUpload id).uploads = o.uploads.erase id from rfl, InsertionMap.get?_erase_of_ne _ hEq] at hGet
      exact h.landed other u hGet hPh
  sizes := fun other u hGet hPh => by
    by_cases hEq : id = other
    · rw [show (o.dropUpload id).uploads = o.uploads.erase id from rfl, hEq, InsertionMap.get?_erase_self] at hGet
      cases hGet
    · rw [show (o.dropUpload id).uploads = o.uploads.erase id from rfl, InsertionMap.get?_erase_of_ne _ hEq] at hGet
      exact h.sizes other u hGet hPh

theorem Intact.setUpload (id : Nat) {u : Upload}
    (hLanded : u.phase = .putting true → u.expected ∈ o.bucket)
    (hSize : u.phase = .putting true ∨ u.phase = .putting false → u.size = contents.size u.expected) :
    Intact contents { o with uploads := o.uploads.set id u } where
  rows := fun sha256 row hRow => by
    have hStored := h.rows sha256 row hRow
    exact ⟨hStored.size, hStored.pieces, hStored.object⟩
  files := h.files
  landed := fun other v hGet hPh => by
    by_cases hEq : id = other
    · subst hEq
      have hV : u = v := Option.some.inj ((InsertionMap.get?_set_self o.uploads id u).symm.trans hGet)
      subst hV
      exact hLanded hPh
    · exact h.landed other v ((InsertionMap.get?_set_of_ne o.uploads u hEq).symm.trans hGet) hPh
  sizes := fun other v hGet hPh => by
    by_cases hEq : id = other
    · subst hEq
      have hV : u = v := Option.some.inj ((InsertionMap.get?_set_self o.uploads id u).symm.trans hGet)
      subst hV
      exact hSize hPh
    · exact h.sizes other v ((InsertionMap.get?_set_of_ne o.uploads u hEq).symm.trans hGet) hPh

theorem Intact.putObject (sha256 : String) : Intact contents (o.putObject sha256) where
  rows := fun other row hRow => by
    have hStored := h.rows other row hRow
    exact ⟨hStored.size, hStored.pieces, fun hR2 => (hStored.object hR2).imp_left (mem_append_left _)⟩
  files := h.files
  landed := fun id u hGet hPh => mem_append_left _ (h.landed id u hGet hPh)
  sizes := h.sizes

theorem Intact.putPieces {sha256 : String} (hNone : o.store.blobs.get? sha256 = none) :
    Intact contents (o.putPieces contents sha256) where
  rows := fun other row hRow => by
    have hStored := h.rows other row hRow
    have hOther : sha256 ≠ other := fun hEq => by
      rw [hEq] at hNone
      exact absurd (hNone.symm.trans hRow) (by simp)
    refine ⟨hStored.size, fun hSqlite => ?_, hStored.object⟩
    obtain ⟨hPieces, hChunks⟩ := hStored.pieces hSqlite
    exact ⟨(InsertionMap.get?_set_of_ne _ _ hOther).trans hPieces,
      fun piece hPiece => mem_append_left _ (hChunks piece hPiece)⟩
  files := h.files
  landed := h.landed
  sizes := h.sizes

theorem Intact.insertBlob {sha256 : String} {row : BlobRow}
    (hNone : o.store.blobs.get? sha256 = none) (hStored : Stored contents o sha256 row) :
    Intact contents (o.insertBlob sha256 row) where
  rows := fun other found hRow => by
    have hRow : (o.store.blobs.set sha256 row).get? other = some found := hRow
    by_cases hEq : sha256 = other
    · subst hEq
      obtain rfl := Option.some.inj ((InsertionMap.get?_set_self o.store.blobs sha256 row).symm.trans hRow)
      exact ⟨hStored.size, hStored.pieces, hStored.object⟩
    · have hOld := h.rows other found ((InsertionMap.get?_set_of_ne o.store.blobs row hEq).symm.trans hRow)
      exact ⟨hOld.size, hOld.pieces, hOld.object⟩
  files := fun q node hRow hFile => by
    obtain ⟨other, found, hSha, hGet, hSize, hKept⟩ := h.files q node hRow hFile
    have hOther : sha256 ≠ other := fun hEq => by
      rw [hEq] at hNone
      exact absurd (hNone.symm.trans hGet) (by simp)
    exact ⟨other, found, hSha, (InsertionMap.get?_set_of_ne o.store.blobs row hOther).trans hGet, hSize, hKept⟩
  landed := h.landed
  sizes := h.sizes

end

theorem mem_sweepChunks {sha256 : String} {pieces : List String} (hRow : o.blobChunks.get? sha256 = some pieces)
    {piece : String} (hPiece : piece ∈ pieces) (hChunk : piece ∈ o.chunks) : piece ∈ o.sweepChunks.chunks := by
  refine mem_filter.mpr ⟨hChunk, any_eq_true.mpr ⟨(sha256, pieces), InsertionMap.mem_of_get? hRow, ?_⟩⟩
  simpa using hPiece

theorem Intact.sweepChunks (h : Intact contents o) : Intact contents o.sweepChunks where
  rows := fun sha256 row hRow => by
    have hStored := h.rows sha256 row hRow
    refine ⟨hStored.size, fun hSqlite => ?_, hStored.object⟩
    obtain ⟨hPieces, hChunks⟩ := hStored.pieces hSqlite
    exact ⟨hPieces, fun piece hPiece => mem_sweepChunks hPieces hPiece (hChunks piece hPiece)⟩
  files := h.files
  landed := h.landed
  sizes := h.sizes

theorem Intact.dropRows (h : Intact contents o) {sha256 : String}
    (hUnused : ∀ q node, o.store.start.entryRow q = some node → node.kind = .file → node.blobSha256 ≠ some sha256) :
    Intact contents (o.dropRows sha256) where
  rows := fun other row hRow => by
    have hRow : (o.store.blobs.erase sha256).get? other = some row := hRow
    by_cases hEq : sha256 = other
    · rw [hEq, InsertionMap.get?_erase_self] at hRow
      cases hRow
    · rw [InsertionMap.get?_erase_of_ne _ hEq] at hRow
      have hStored := h.rows other row hRow
      refine ⟨hStored.size, fun hSqlite => ?_, hStored.object⟩
      exact ⟨(InsertionMap.get?_erase_of_ne _ hEq).trans (hStored.pieces hSqlite).1, (hStored.pieces hSqlite).2⟩
  files := fun q node hRow hFile => by
    obtain ⟨other, row, hSha, hGet, hSize, hKept⟩ := h.files q node hRow hFile
    have hOther : sha256 ≠ other := fun hEq => hUnused q node hRow hFile (hEq ▸ hSha)
    exact ⟨other, row, hSha, (InsertionMap.get?_erase_of_ne _ hOther).trans hGet, hSize, hKept⟩
  landed := h.landed
  sizes := h.sizes

theorem intact_advance {batch : List (String × BlobRow)} (h : Intact contents { o with collecting := none })
    (hUnused : ∀ blob ∈ batch, ∀ q node, o.store.start.entryRow q = some node → node.kind = .file →
      node.blobSha256 ≠ some blob.1) : Intact contents (advance batch o) := by
  induction batch generalizing o with
  | nil => exact h.sweepChunks
  | cons blob rest ih =>
    rw [forall_mem_cons] at hUnused
    rw [advance]
    split
    · refine ⟨fun sha256 row hRow => ?_, fun q node hRow hFile => ?_, h.landed, h.sizes⟩
      · have hStored := h.rows sha256 row hRow
        refine ⟨hStored.size, hStored.pieces, fun hR2 => .inl ?_⟩
        rcases hStored.object hR2 with hIn | ⟨pass, hPass, -⟩
        · exact hIn
        · cases hPass
      · obtain ⟨sha256, row, hSha, hGet, hSize, -⟩ := h.files q node hRow hFile
        refine ⟨sha256, row, hSha, hGet, hSize, ?_⟩
        rintro ⟨pass, hPass, hHeld⟩
        obtain rfl := Option.some.inj hPass
        rcases hHeld with rfl | hLater
        · exact hUnused.1 q node hRow hFile hSha
        · obtain ⟨other, hOther, rfl⟩ := mem_map.mp hLater
          exact hUnused.2 other hOther q node hRow hFile hSha
    · exact ih (h.dropRows hUnused.1) hUnused.2

section

variable (h : Intact contents o)
include h

theorem Intact.received (id : Nat) (u : Upload) (now : Int) :
    Intact contents (o.received contents id u now) := by
  unfold WorldObject.received
  split
  · exact h.dropUpload id
  rename_i hEq
  push Not at hEq
  split
  · split
    · exact h.dropUpload id
    · exact (h.pinBlob _ now).dropUpload id
  rename_i hNone
  split
  · exact h.setUpload id (fun hPh => by cases hPh) (fun _ => hEq.1)
  split
  · exact h.dropUpload id
  · have hStored : Stored contents (o.putPieces contents u.expected) u.expected ⟨u.size, .sqlite⟩ :=
      { size := hEq.1
        pieces := fun _ => ⟨InsertionMap.get?_set_self _ _ _, fun piece hPiece => mem_append_right _ hPiece⟩
        object := fun hR2 => by cases hR2 }
    exact (((h.putPieces hNone).insertBlob hNone hStored).pinBlob _ now).dropUpload id

theorem Intact.putBlob (id : Nat) (expected : String) (size : Nat) (now : Int) :
    Intact contents (o.putBlob contents id expected size now) := by
  unfold WorldObject.putBlob
  split
  · exact h
  have hStart := h.setUpload id (u := ⟨expected, size, o.store.blobs.has expected, [], .reading⟩)
    (fun hPh => by cases hPh) (fun hPh => by rcases hPh with hPh | hPh <;> cases hPh)
  dsimp only
  split
  · exact hStart.received id _ now
  · exact hStart

theorem Intact.read (id : Nat) (piece : String) (now : Int) :
    Intact contents (o.read contents id piece now) := by
  unfold WorldObject.read
  split
  · exact h
  rename_i u _
  split
  · exact h
  rename_i hReading
  rw [not_not] at hReading
  have hNext := h.setUpload id (u := { u with parts := u.parts ++ [piece] })
    (fun hPh => by rw [hReading] at hPh; cases hPh)
    (fun hPh => by rw [hReading] at hPh; rcases hPh with hPh | hPh <;> cases hPh)
  dsimp only
  split
  · exact hNext
  · exact hNext.received id _ now

end

theorem inPhase_some {id : Nat} {phase : UploadPhase} {u : Upload} (h : o.inPhase id phase = some u) :
    o.uploads.get? id = some u ∧ u.phase = phase := by
  unfold inPhase at h
  obtain ⟨hGet, hPh⟩ := Option.filter_eq_some_iff.mp h
  exact ⟨hGet, of_decide_eq_true hPh⟩

section

variable (h : Intact contents o)
include h

theorem Intact.putLands (id : Nat) : Intact contents (o.putLands id) := by
  unfold WorldObject.putLands
  split
  · exact h
  rename_i u hPh
  obtain ⟨hGet, hPutting⟩ := inPhase_some hPh
  exact (h.putObject u.expected).setUpload id (fun _ => mem_append_right _ (mem_singleton_self _))
    (fun _ => h.sizes id u hGet (.inr hPutting))

theorem Intact.putResolves (id : Nat) (now : Int) : Intact contents (o.putResolves id now) := by
  unfold WorldObject.putResolves
  split
  · exact h
  rename_i u hPh
  obtain ⟨hGet, hPutting⟩ := inPhase_some hPh
  dsimp only
  split
  · exact (h.pinBlob _ now).dropUpload id
  · rename_i hAbsent
    rw [InsertionMap.has_eq_isSome, Option.not_isSome_iff_eq_none] at hAbsent
    have hStored : Stored contents o u.expected ⟨u.size, .r2⟩ :=
      { size := h.sizes id u hGet (.inl hPutting)
        pieces := fun hSqlite => by cases hSqlite
        object := fun _ => .inl (h.landed id u hGet hPutting) }
    exact ((h.insertBlob hAbsent hStored).pinBlob _ now).dropUpload id

theorem Intact.putRejects (id : Nat) : Intact contents (o.putRejects id) := by
  unfold WorldObject.putRejects
  split
  · exact h
  split
  · exact h.setUpload id (fun hPh => by cases hPh)
      (fun hPh => by rcases hPh with hPh | hPh <;> cases hPh)
  · exact h

theorem Intact.truncated (id : Nat) : Intact contents (o.truncated id) := by
  unfold WorldObject.truncated
  split
  · exact h
  · exact h.dropUpload id

theorem Intact.cleanRejects (id : Nat) : Intact contents (o.cleanRejects id) := by
  unfold WorldObject.cleanRejects
  split
  · exact h
  · exact h.dropUpload id

theorem Intact.cleanLands (id : Nat)
    (hFree : ∀ u, o.inPhase id .cleaning = some u → o.store.blobs.has u.expected = false ∧
      ∀ other v, o.uploads.get? other = some v → v.phase = .putting true → v.expected ≠ u.expected) :
    Intact contents (o.cleanLands id) := by
  unfold WorldObject.cleanLands
  split
  · exact h
  rename_i u hPh
  obtain ⟨hAbsent, hOthers⟩ := hFree u hPh
  suffices hDrop : Intact contents (o.dropObject u.expected) from hDrop.dropUpload id
  refine ⟨fun sha256 row hRow => ?_, h.files, fun other v hGet hPutting => ?_, h.sizes⟩
  · have hStored := h.rows sha256 row hRow
    refine ⟨hStored.size, hStored.pieces, fun hR2 => (hStored.object hR2).imp_left (fun hIn => ?_)⟩
    refine mem_filter.mpr ⟨hIn, ?_⟩
    have hOther : sha256 ≠ u.expected := fun hEq => by
      rw [InsertionMap.has_eq_isSome, ← hEq] at hAbsent
      rw [show o.store.blobs.get? sha256 = some row from hRow] at hAbsent
      cases hAbsent
    simpa using hOther
  · refine mem_filter.mpr ⟨h.landed other v hGet hPutting, ?_⟩
    simpa using hOthers other v hGet hPutting

theorem Intact.deleteLands
    (hFree : ∀ pass, o.collecting = some pass → pass.landed = false → ∀ id u, o.uploads.get? id = some u →
      u.phase = .putting true → u.expected ≠ pass.current) : Intact contents o.deleteLands := by
  unfold WorldObject.deleteLands
  split
  · exact h
  rename_i pass hPass
  split
  · exact h
  rename_i hFirst
  rw [Bool.not_eq_true] at hFirst
  refine ⟨fun sha256 row hRow => ?_, fun q node hRow hFile => ?_, fun id u hGet hPh => ?_, h.sizes⟩
  · have hStored := h.rows sha256 row hRow
    refine ⟨hStored.size, hStored.pieces, fun hR2 => ?_⟩
    by_cases hEq : sha256 = pass.current
    · exact .inr ⟨_, rfl, hEq.symm, rfl⟩
    · refine .inl (mem_filter.mpr ⟨?_, by simpa using hEq⟩)
      rcases hStored.object hR2 with hIn | ⟨other, hOther, hCur, -⟩
      · exact hIn
      · rw [hPass] at hOther
        exact absurd (Option.some.inj hOther ▸ hCur.symm) hEq
  · obtain ⟨sha256, row, hSha, hGet, hSize, hKept⟩ := h.files q node hRow hFile
    refine ⟨sha256, row, hSha, hGet, hSize, ?_⟩
    rintro ⟨other, hOther, hHeld⟩
    obtain rfl := Option.some.inj hOther
    exact hKept ⟨pass, hPass, hHeld⟩
  · exact mem_filter.mpr ⟨h.landed id u hGet hPh, by simpa using hFree pass hPass hFirst id u hGet hPh⟩

theorem Intact.withoutPass (hRows : ∀ sha256 row, o.store.blobs.get? sha256 = some row →
    row.storage = .r2 → sha256 ∈ o.bucket) : Intact contents { o with collecting := none } where
  rows := fun sha256 row hRow => by
    have hStored := h.rows sha256 row hRow
    exact ⟨hStored.size, hStored.pieces, fun hR2 => .inl (hRows sha256 row hRow hR2)⟩
  files := fun q node hRow hFile => by
    obtain ⟨sha256, row, hSha, hGet, hSize, -⟩ := h.files q node hRow hFile
    refine ⟨sha256, row, hSha, hGet, hSize, ?_⟩
    rintro ⟨pass, hPass, -⟩
    cases hPass
  landed := h.landed
  sizes := h.sizes

theorem Intact.deleteResolves : Intact contents o.deleteResolves := by
  unfold WorldObject.deleteResolves
  split
  · exact h
  rename_i pass hPass
  split
  · have hHeld : ∀ sha256, (pass.current = sha256 ∨ sha256 ∈ pass.rest.map Prod.fst) →
        ∀ q node, o.store.start.entryRow q = some node → node.kind = .file → node.blobSha256 ≠ some sha256 := by
      intro sha256 hHeld q node hRow hFile hSha
      obtain ⟨other, row, hOther, -, -, hKept⟩ := h.files q node hRow hFile
      rw [hSha] at hOther
      obtain rfl := Option.some.inj hOther
      exact hKept ⟨pass, hPass, hHeld⟩
    have hDrop := h.dropRows (hHeld pass.current (.inl rfl))
    refine intact_advance (hDrop.withoutPass (fun sha256 row hRow hR2 => ?_)) (fun blob hBlob =>
      hHeld blob.1 (.inr (mem_map_of_mem hBlob)))
    rcases (hDrop.rows sha256 row hRow).object hR2 with hIn | ⟨other, hOther, hCur, -⟩
    · exact hIn
    · -- the blob whose object is gone has lost its row with it
      have hEq : other = pass := Option.some.inj (hOther.symm.trans hPass)
      subst hEq
      have hRow : (o.store.blobs.erase other.current).get? sha256 = some row := hRow
      rw [hCur, InsertionMap.get?_erase_self] at hRow
      cases hRow
  · exact h

theorem Intact.deleteRejects (hNot : ∀ pass, o.collecting = some pass → pass.landed = false) :
    Intact contents o.deleteRejects := by
  refine h.withoutPass (fun sha256 row hRow hR2 => ?_)
  rcases (h.rows sha256 row hRow).object hR2 with hIn | ⟨pass, hPass, -, hLanded⟩
  · exact hIn
  · rw [hNot pass hPass] at hLanded
    cases hLanded

end

theorem dropLoose_tables (limit : Nat) (store : WorldSqlStore) :
    (WorldSqlStore.dropLoose limit store).1.live = store.live ∧
      (WorldSqlStore.dropLoose limit store).1.blobs = store.blobs := by
  induction limit generalizing store with
  | zero => exact ⟨rfl, rfl⟩
  | succ limit ih =>
    unfold WorldSqlStore.dropLoose
    split
    · exact ⟨rfl, rfl⟩
    · exact ih _

theorem selection_unused {store : WorldSqlStore} {limit : Nat} :
    ∀ blob ∈ selection store limit, ∀ q node, store.start.entryRow q = some node → node.blobSha256 ≠ some blob.1 := by
  intro blob hBlob q node hRow hSha
  have hFilter := mem_of_mem_take hBlob
  rw [mem_filter, Bool.and_eq_true, Bool.not_eq_true'] at hFilter
  have hReferenced : store.isReferenced blob.1 = true := by
    refine any_eq_true.mpr ⟨store.live, mem_cons_self, ?_⟩
    exact any_eq_true.mpr ⟨(q, node), InsertionMap.mem_of_get? hRow, decide_eq_true hSha⟩
  rw [hReferenced] at hFilter
  exact absurd hFilter.2.1 (by simp)

theorem Intact.alarm (h : Intact contents o) (now : Int) : Intact contents (o.alarm now) := by
  unfold WorldObject.alarm
  split
  · exact h
  rename_i hIdle
  dsimp only
  obtain ⟨hLive, hBlobs⟩ := dropLoose_tables 100 { o.store with pins := o.store.pins.filter (fun pin => now < pin.2) }
  generalize (WorldSqlStore.dropLoose 100 { o.store with pins := o.store.pins.filter (fun pin => now < pin.2) }).1 = store
    at hLive hBlobs ⊢
  have hStore : Intact contents { o with store } := h.withStore ⟨fun q node hRow => h.files q node (by
    change InsertionMap.get? store.live.dirents q = some node at hRow
    rw [hLive] at hRow
    exact hRow), hBlobs⟩
  refine intact_advance (hStore.withoutPass (fun sha256 row hRow hR2 => ?_))
    (fun blob hBlob q node hRow _ => selection_unused blob hBlob q node hRow)
  rcases (hStore.rows sha256 row hRow).object hR2 with hIn | ⟨pass, hPass, -⟩
  · exact hIn
  · rw [show ({ o with store } : WorldObject).collecting = o.collecting from rfl, hIdle] at hPass
    cases hPass

theorem purgeHistory_tables (inputs : List Text) (store : WorldSqlStore) :
    (WorldSqlStore.purgeHistory inputs store).2.live.dirents = store.live.dirents ∧
      (WorldSqlStore.purgeHistory inputs store).2.blobs = store.blobs := by
  induction inputs generalizing store with
  | nil => exact ⟨rfl, rfl⟩
  | cons input rest ih =>
    unfold WorldSqlStore.purgeHistory
    split
    · exact ⟨rfl, rfl⟩
    · exact ih _

theorem Intact.purgeHistory (h : Intact contents o) (inputs : List Text) :
    Intact contents { o with store := (WorldSqlStore.purgeHistory inputs o.store).2 } := by
  obtain ⟨hLive, hBlobs⟩ := purgeHistory_tables inputs o.store
  refine h.withStore ⟨fun q node hRow => h.files q node ?_, hBlobs⟩
  change InsertionMap.get? (WorldSqlStore.purgeHistory inputs o.store).2.live.dirents q = some node at hRow
  rw [hLive] at hRow
  exact hRow

theorem dropBlobs_get? (bucketWorks : String → Bool) (batch : List (String × BlobRow)) (store : WorldSqlStore)
    (sha256 : String) :
    ((WorldSqlStore.dropBlobs bucketWorks batch store).2.blobs.get? sha256 = store.blobs.get? sha256 ∨
      (WorldSqlStore.dropBlobs bucketWorks batch store).2.blobs.get? sha256 = none) ∧
    (sha256 ∉ batch.map Prod.fst →
      (WorldSqlStore.dropBlobs bucketWorks batch store).2.blobs.get? sha256 = store.blobs.get? sha256) := by
  induction batch generalizing store with
  | nil => exact ⟨.inl rfl, fun _ => rfl⟩
  | cons blob rest ih =>
    unfold WorldSqlStore.dropBlobs
    split
    · exact ⟨.inl rfl, fun _ => rfl⟩
    · obtain ⟨hOr, hOut⟩ := ih { store with blobs := store.blobs.erase blob.1 }
      by_cases hEq : blob.1 = sha256
      · have hGone : (store.blobs.erase blob.1).get? sha256 = none := by rw [hEq, InsertionMap.get?_erase_self]
        refine ⟨.inr (hOr.elim (fun h => h.trans hGone) id), fun hNot => ?_⟩
        exact absurd (by rw [map_cons, hEq]; exact mem_cons_self) hNot
      · have hKept : (store.blobs.erase blob.1).get? sha256 = store.blobs.get? sha256 :=
          InsertionMap.get?_erase_of_ne _ hEq
        refine ⟨hOr.imp_left (fun h => h.trans hKept), fun hNot => (hOut (fun hIn => hNot ?_)).trans hKept⟩
        rw [map_cons]
        exact mem_cons_of_mem _ hIn

theorem checkpoint_blobs (store : WorldSqlStore) (now : Int) (historyCursor : String) (bucketWorks : String → Bool)
    (sha256 : String) :
    ((store.checkpoint now historyCursor bucketWorks).2.blobs.get? sha256 = store.blobs.get? sha256 ∨
      (store.checkpoint now historyCursor bucketWorks).2.blobs.get? sha256 = none) ∧
    ((∃ q node, store.start.entryRow q = some node ∧ node.blobSha256 = some sha256) →
      (store.checkpoint now historyCursor bucketWorks).2.blobs.get? sha256 = store.blobs.get? sha256) := by
  let unpinned : WorldSqlStore :=
    { store.sealLive historyCursor with pins := store.pins.filter (fun pin => now < pin.2) }
  obtain ⟨hLive, hBlobs⟩ := dropLoose_tables 100 unpinned
  let loosed : WorldSqlStore := (WorldSqlStore.dropLoose 100 unpinned).1
  have hAfter : (store.checkpoint now historyCursor bucketWorks).2.blobs =
      (WorldSqlStore.dropBlobs bucketWorks (selection loosed 100) loosed).2.blobs := by
    have hCollect : ((store.sealLive historyCursor).collectGarbage now 100 bucketWorks).2 =
        (WorldSqlStore.dropBlobs bucketWorks (selection loosed 100) loosed).2 := by
      unfold WorldSqlStore.collectGarbage
      dsimp only
      split
      · rename_i hDrop
        exact (congrArg Prod.snd hDrop).symm
      · rename_i hDrop
        exact (congrArg Prod.snd hDrop).symm
    rw [← hCollect]
    unfold WorldSqlStore.checkpoint
    split
    · rename_i hRes
      rw [hRes]
    · rename_i hRes
      rw [hRes]
  have hBef : loosed.blobs = store.blobs := hBlobs
  rw [hAfter, ← hBef]
  obtain ⟨hOr, hOut⟩ := dropBlobs_get? bucketWorks (selection loosed 100) loosed sha256
  refine ⟨hOr, ?_⟩
  rintro ⟨q, node, hRow, hSha⟩
  refine hOut (fun hIn => ?_)
  obtain ⟨blob, hBlob, rfl⟩ := mem_map.mp hIn
  refine selection_unused blob hBlob q node ?_ hSha
  change InsertionMap.get? loosed.live.dirents q = some node
  rw [show loosed.live = unpinned.live from hLive]
  exact hRow

theorem Intact.checkpoint (h : Intact contents o) (now : Int) (historyCursor : String) (bucketWorks : String → Bool)
    (hFree : ∀ id u, o.uploads.get? id = some u → u.phase = .putting true → o.store.blobs.has u.expected = false) :
    Intact contents (o.call contents (.checkpoint now historyCursor bucketWorks)) := by
  have hBlobs := checkpoint_blobs o.store now historyCursor bucketWorks
  have hDirents : (o.store.checkpoint now historyCursor bucketWorks).2.live.dirents = o.store.live.dirents :=
    WorldSqlStore.checkpoint_dirents historyCursor bucketWorks
  unfold WorldObject.call
  dsimp only
  have hStore : (o.store.call (.checkpoint now historyCursor bucketWorks)).2 =
      (o.store.checkpoint now historyCursor bucketWorks).2 := rfl
  rw [hStore]
  generalize (o.store.checkpoint now historyCursor bucketWorks).2 = after at hBlobs hDirents ⊢
  let dropped := o.store.blobs.filter (fun row => !after.blobs.has row.1)
  have hKeptRow : ∀ sha256 row, after.blobs.get? sha256 = some row →
      o.store.blobs.get? sha256 = some row ∧ dropped.any (fun blob => blob.1 = sha256) = false := by
    intro sha256 row hRow
    refine ⟨?_, ?_⟩
    · rcases (hBlobs sha256).1 with hEq | hNone
      · exact hEq.symm.trans hRow
      · rw [hRow] at hNone
        cases hNone
    · rw [any_eq_false]
      intro blob hBlob hEq
      have hHas := (mem_filter.mp hBlob).2
      rw [of_decide_eq_true hEq, InsertionMap.has_eq_isSome, hRow] at hHas
      cases hHas
  have hCleared : Intact contents
      { o with
        store := after
        blobChunks := o.blobChunks.filter (fun row => !(dropped.any (fun blob => blob.1 = row.1)))
        bucket := o.bucket.filter (fun key => !(dropped.any (fun blob => blob.1 = key && blob.2.storage = .r2))) } := by
    refine ⟨fun sha256 row hRow => ?_, fun q node hRow hFile => ?_, fun id u hGet hPh => ?_, h.sizes⟩
    · obtain ⟨hOld, hStays⟩ := hKeptRow sha256 row hRow
      have hStored := h.rows sha256 row hOld
      refine ⟨hStored.size, fun hSqlite => ⟨?_, (hStored.pieces hSqlite).2⟩, fun hR2 => ?_⟩
      · have hFilter := InsertionMap.get?_filter_key o.blobChunks
          (fun key => !(dropped.any (fun blob => blob.1 = key))) sha256
        rw [hStays] at hFilter
        exact hFilter.trans (hStored.pieces hSqlite).1
      · refine (hStored.object hR2).imp_left (fun hIn => mem_filter.mpr ⟨hIn, ?_⟩)
        rw [Bool.not_eq_true', any_eq_false]
        intro blob hBlob hEq
        rw [any_eq_false] at hStays
        rw [Bool.and_eq_true] at hEq
        exact hStays blob hBlob hEq.1
    · change InsertionMap.get? after.live.dirents q = some node at hRow
      rw [hDirents] at hRow
      obtain ⟨sha256, row, hSha, hGet, hSize, hKept⟩ := h.files q node hRow hFile
      exact ⟨sha256, row, hSha, ((hBlobs sha256).2 ⟨q, node, hRow, hSha⟩).trans hGet, hSize, hKept⟩
    · refine mem_filter.mpr ⟨h.landed id u hGet hPh, ?_⟩
      rw [Bool.not_eq_true', any_eq_false]
      intro blob hBlob hEq
      rw [Bool.and_eq_true, decide_eq_true_eq] at hEq
      have hNone := hFree id u hGet hPh
      rw [← hEq.1, InsertionMap.has_eq_isSome] at hNone
      have hKey : blob.1 ∈ InsertionMap.keys o.store.blobs := mem_map_of_mem (mem_filter.mp hBlob).1
      rw [InsertionMap.mem_keys_iff, hNone] at hKey
      cases hKey
  split
  · exact hCleared.sweepChunks
  · exact hCleared

theorem Intact.writeFile (h : Intact contents o) (now : Int) (input : Text) {bytes : FileBytes} (mode mtime : Option Int)
    (bucketWorks : Bool) (hBytes : bytes.byteLength = contents.size bytes.sha256) (hKept : ¬ o.Collects bytes.sha256) :
    Intact contents (o.call contents (.writeFile now input bytes mode mtime bucketWorks)) := by
  obtain ⟨blobs, hBody, hChoice⟩ : ∃ after,
      (o.store.start.writeFile now input bytes mode mtime bucketWorks).2.Holds
        (Backed after (fun sha256 => ¬ o.Collects sha256)) after ∧
      (after = o.store.blobs ∨ (o.store.blobs.get? bytes.sha256 = none ∧
        ∃ storage, after = o.store.blobs.set bytes.sha256 ⟨bytes.byteLength, storage⟩)) :=
    Mutation.holds_writeFile h.holds hKept (fun row hRow => (h.rows _ row hRow).size.trans hBytes.symm) input mode mtime
      bucketWorks
  have hHolds : (o.store.writeFile now input bytes mode mtime bucketWorks).2.Holds
      (Backed blobs (fun sha256 => ¬ o.Collects sha256)) blobs := WorldSqlStore.holds_mutate hBody
  unfold WorldObject.call
  dsimp only
  have hStore : (o.store.call (.writeFile now input bytes mode mtime bucketWorks)).2 =
      (o.store.writeFile now input bytes mode mtime bucketWorks).2 := rfl
  rw [hStore]
  generalize (o.store.writeFile now input bytes mode mtime bucketWorks).2 = after at hHolds ⊢
  have hAfter : after.blobs = blobs := hHolds.blobs
  rcases hChoice with rfl | ⟨hNone, storage, rfl⟩
  · have hLeft := h.withStore hHolds
    split
    · rename_i row hBef hNow
      rw [hAfter, hBef] at hNow
      cases hNow
    · exact hLeft
  · have hRow : after.blobs.get? bytes.sha256 = some ⟨bytes.byteLength, storage⟩ := by
      rw [hAfter, InsertionMap.get?_set_self]
    have hOther : ∀ sha256 row, after.blobs.get? sha256 = some row → sha256 ≠ bytes.sha256 →
        o.store.blobs.get? sha256 = some row := by
      intro sha256 row hGet hEq
      rwa [hAfter, InsertionMap.get?_set_of_ne _ _ (Ne.symm hEq)] at hGet
    have hFiles : ∀ q node, after.start.entryRow q = some node →
        Backed after.blobs (fun sha256 => ¬ o.Collects sha256) node := by
      rw [hAfter]
      exact hHolds.nodes
    rw [hNone, hRow]
    dsimp only
    split
    · rename_i hR2
      refine ⟨fun sha256 row hGet => ?_, hFiles, fun id u hUpload hPh => ?_, h.sizes⟩
      · by_cases hEq : sha256 = bytes.sha256
        · subst hEq
          obtain rfl := Option.some.inj (hRow.symm.trans hGet)
          refine ⟨hBytes, fun hSqlite => ?_, fun _ => .inl (mem_append_right _ (mem_singleton_self _))⟩
          rw [show storage = .sqlite from hSqlite] at hR2
          cases hR2
        · have hStored := h.rows sha256 row (hOther sha256 row hGet hEq)
          exact ⟨hStored.size, hStored.pieces, fun hObj => (hStored.object hObj).imp_left (mem_append_left _)⟩
      · exact mem_append_left _ (h.landed id u hUpload hPh)
    · rename_i hPlain
      refine ⟨fun sha256 row hGet => ?_, hFiles, h.landed, h.sizes⟩
      by_cases hEq : sha256 = bytes.sha256
      · subst hEq
        obtain rfl := Option.some.inj (hRow.symm.trans hGet)
        refine ⟨hBytes, fun _ => ⟨InsertionMap.get?_set_self _ _ _, fun piece => mem_append_right _⟩, fun hObj => ?_⟩
        exact absurd hObj hPlain
      · have hStored := h.rows sha256 row (hOther sha256 row hGet hEq)
        refine ⟨hStored.size, fun hSqlite => ?_, hStored.object⟩
        obtain ⟨hPieces, hChunks⟩ := hStored.pieces hSqlite
        exact ⟨(InsertionMap.get?_set_of_ne _ _ (Ne.symm hEq)).trans hPieces,
          fun piece hPiece => mem_append_left _ (hChunks piece hPiece)⟩

variable (contents) in
/-- When an event takes no bytes from a live file: a call makes no live entry of a blob that a collection still
holds, a delete of the bucket meets no content stored anew, and a delete that fails has not taken effect. -/
def KeepsBytes (o : WorldObject) : Event → Prop
  | .call (.writeFile _ _ bytes _ _ _) => bytes.byteLength = contents.size bytes.sha256 ∧ ¬ o.Collects bytes.sha256
  | .call (.pushChanges _ entries _) => WorldSqlStore.Keeps (fun sha256 => ¬ o.Collects sha256) entries
  | .call (.pushDiff _ entries _) => WorldSqlStore.Keeps (fun sha256 => ¬ o.Collects sha256) entries
  | .call (.commitShell _ _ _ _ entries _) => WorldSqlStore.Keeps (fun sha256 => ¬ o.Collects sha256) entries
  | .call (.checkpoint _ _ _) =>
    ∀ id u, o.uploads.get? id = some u → u.phase = .putting true → o.store.blobs.has u.expected = false
  | .cleanLands id => ∀ u, o.inPhase id .cleaning = some u → o.store.blobs.has u.expected = false ∧
      ∀ other v, o.uploads.get? other = some v → v.phase = .putting true → v.expected ≠ u.expected
  | .deleteLands => ∀ pass, o.collecting = some pass → pass.landed = false → ∀ id u, o.uploads.get? id = some u →
      u.phase = .putting true → u.expected ≠ pass.current
  | .deleteRejects => ∀ pass, o.collecting = some pass → pass.landed = false
  | _ => True

theorem Intact.step (h : Intact contents o) {event : Event} (hKeeps : KeepsBytes contents o event) :
    Intact contents (o.step contents event) := by
  have hDir : ∀ now, Backed o.store.blobs (fun sha256 => ¬ o.Collects sha256) (Mutation.newDir now) :=
    fun now => backed_of_plain (fun hKind => by cases hKind)
  have hClosed := Mutation.closed_holds (Backed o.store.blobs (fun sha256 => ¬ o.Collects sha256)) o.store.blobs
  have hEnds := WorldSqlStore.holds_ends h.holds
  cases event with
  | call c =>
    cases c with
    | writeFile now input bytes mode mtime bucketWorks =>
      exact h.writeFile now input mode mtime bucketWorks hKeeps.1 hKeeps.2
    | mkdir now input mode =>
      refine h.withStore (WorldSqlStore.holds_mutate (hClosed.mkdir (fun node hKind => ?_) h.holds input mode))
      exact backed_of_plain (fun hFile => by rw [hKind] at hFile; cases hFile)
    | remove input isRecursive => exact h.withStore (WorldSqlStore.holds_mutate (hClosed.remove h.holds input isRecursive))
    | rename now fromInput toInput =>
      exact h.withStore (WorldSqlStore.holds_mutate (hClosed.rename (hDir now) h.holds fromInput toInput))
    | symlink now input target =>
      exact h.withStore (WorldSqlStore.holds_mutate
        (hClosed.symlink (fun node hPlain => backed_of_plain hPlain) h.holds input target))
    | pushChanges now entries deleted =>
      exact h.withStore (hEnds.pushChanges hClosed h.holds (hDir now)
        (fun puts hScreen put hPut => (WorldSqlStore.found_changes hScreen put hPut).backed hKeeps))
    | pushDiff now entries deleted =>
      exact h.withStore (hEnds.pushDiff hClosed h.holds (hDir now)
        (fun puts hScreen put hPut => (WorldSqlStore.found_diff hScreen put hPut).backed hKeeps))
    | commitShell now baseRevision readPaths readChildren entries deleted =>
      exact h.withStore (hEnds.commitShell hClosed h.holds (hDir now)
        (fun puts hScreen put hPut => (WorldSqlStore.found_diff hScreen put hPut).backed hKeeps))
    | checkpoint now historyCursor bucketWorks => exact h.checkpoint now historyCursor bucketWorks hKeeps
  | purgeHistory inputs => exact h.purgeHistory inputs
  | putBlob id expected size now => exact h.putBlob id expected size now
  | read id piece now => exact h.read id piece now
  | truncated id => exact h.truncated id
  | putLands id => exact h.putLands id
  | putResolves id now => exact h.putResolves id now
  | putRejects id => exact h.putRejects id
  | cleanLands id => exact h.cleanLands id hKeeps
  | cleanRejects id => exact h.cleanRejects id
  | alarm now => exact h.alarm now
  | deleteLands => exact h.deleteLands hKeeps
  | deleteResolves => exact h.deleteResolves
  | deleteRejects => exact h.deleteRejects hKeeps

theorem intact_create : Intact contents create where
  rows := fun _ _ hRow => by cases hRow
  files := fun _ _ hRow => by cases hRow
  landed := fun _ _ hGet => by cases hGet
  sizes := fun _ _ hGet => by cases hGet

variable (contents) in
def HasBytes (o : WorldObject) (node : Node) : Prop :=
  ∃ sha256 row, node.blobSha256 = some sha256 ∧ o.store.blobs.get? sha256 = some row ∧ row.size = node.size ∧
    match row.storage with
    | .sqlite => o.blobChunks.get? sha256 = some (contents.pieces sha256) ∧ ∀ piece ∈ contents.pieces sha256, piece ∈ o.chunks
    | .r2 => sha256 ∈ o.bucket

/-- Along every run whose events keep bytes, each live file has its bytes. -/
theorem hasBytes_of_run {events : List Event} (hRun : Along (step contents) (KeepsBytes contents) create events)
    (q : Text) (node : Node) (hRow : (run (step contents) create events).store.entryRow q = some node)
    (hFile : node.kind = .file) : HasBytes contents (run (step contents) create events) node := by
  have hStep : ∀ (o : WorldObject) (event : Event), Intact contents o → KeepsBytes contents o event →
      Intact contents (step contents o event) := fun o event h hKeeps => h.step hKeeps
  have h := run_invariant hStep intact_create hRun
  obtain ⟨sha256, row, hSha, hGet, hSize, hKept⟩ := h.files q node hRow hFile
  have hStored := h.rows sha256 row hGet
  refine ⟨sha256, row, hSha, hGet, hSize, ?_⟩
  split
  · rename_i hSqlite
    exact hStored.pieces hSqlite
  · rename_i hR2
    refine (hStored.object hR2).resolve_right ?_
    rintro ⟨pass, hPass, hCurrent, -⟩
    exact hKept ⟨pass, hPass, Or.inl hCurrent⟩

/-- Contents in which `x` digests five mebibytes and every other digest one byte. -/
def oneLarge : Contents := ⟨fun sha256 => if sha256 = "x" then 5 * 1024 * 1024 else 1, fun sha256 => [sha256]⟩

def collectedRun : List Event :=
  [.call (.writeFile 0 "a".toList ⟨5 * 1024 * 1024, "x"⟩ none none true),
    .call (.writeFile 0 "b".toList ⟨1, "y"⟩ none none true), .call (.remove "a".toList false),
    .call (.remove "b".toList false), .alarm 0]

def pushSmall : Event :=
  .call (.pushChanges 1 [{ path := "c".toList, kind := .file, mode := some 0o644, size := some 1, sha256 := some "y" }] [])

theorem collectedRun_keeps : Along (step oneLarge) (KeepsBytes oneLarge) create
    (collectedRun ++ [.deleteLands, .deleteResolves, .call (.writeFile 1 "c".toList ⟨1, "y"⟩ none none true)]) := by
  have hIdle : ∀ o : WorldObject, o.collecting = none → ∀ sha256, ¬ o.Collects sha256 := by
    rintro o hNone sha256 ⟨pass, hPass, -⟩
    rw [hNone] at hPass
    cases hPass
  refine ⟨⟨by decide, hIdle _ rfl _⟩, ⟨by decide, hIdle _ (by decide) _⟩, trivial, trivial, trivial, ?_, trivial,
    ⟨by decide, hIdle _ (by decide) _⟩, trivial⟩
  intro pass _ _ id u hGet
  cases (show (none : Option Upload) = some u from hGet)

/-- A file written once the collection is over has its bytes. -/
theorem hasBytes_of_run_again : HasBytes oneLarge (run (step oneLarge) create
    (collectedRun ++ [.deleteLands, .deleteResolves, .call (.writeFile 1 "c".toList ⟨1, "y"⟩ none none true)]))
    ⟨.file, 0o644, 1, 1, some "y", none⟩ :=
  hasBytes_of_run collectedRun_keeps "c".toList _ (by decide) rfl

/-- Pushed while the collection waits for the bucket, the file loses its row when the collection goes on. -/
theorem pushSmall_loses : ∃ node,
    (run (step oneLarge) create (collectedRun ++ [pushSmall, .deleteLands, .deleteResolves])).store.entryRow "c".toList =
      some node ∧ node.kind = .file ∧
    ¬ HasBytes oneLarge (run (step oneLarge) create (collectedRun ++ [pushSmall, .deleteLands, .deleteResolves])) node := by
  refine ⟨⟨.file, 0o644, 1, 1, some "y", none⟩, by decide, rfl, ?_⟩
  rintro ⟨sha256, row, hSha, hGet, -, -⟩
  obtain rfl := Option.some.inj hSha
  have hNone : (run (step oneLarge) create (collectedRun ++ [pushSmall, .deleteLands, .deleteResolves])).store.blobs.get? "y" =
      none := by decide
  rw [hNone] at hGet
  cases hGet

end WorldObject

end Stella.World
