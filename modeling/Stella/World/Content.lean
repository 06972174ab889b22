import Stella.World.Blobs
import Stella.World.Nodes

/-! # The bytes of live files

A file's bytes are there as long as its blob has a row and the row has its pieces or its object.
-/

namespace Stella.World

def Backed (blobs : InsertionMap String BlobRow) (kept : String → Prop) (node : Node) : Prop :=
  node.kind = .file → ∃ sha256 row, node.blobSha256 = some sha256 ∧ blobs.get? sha256 = some row ∧
    row.size = node.size ∧ kept sha256

theorem backed_of_plain {blobs : InsertionMap String BlobRow} {kept : String → Prop} {node : Node}
    (h : node.kind ≠ .file) : Backed blobs kept node := fun hFile => absurd hFile h

namespace WorldSqlStore

variable {store : WorldSqlStore} {now : Int} {kept : String → Prop}

structure Found (store : WorldSqlStore) (input : List WorldListingEntry) (put : Text × Node) : Prop where
  given : ∃ entry ∈ input, entry.kind = put.2.kind ∧ entry.sha256 = put.2.blobSha256
  blob : ∃ path, store.blobCheck path put.2 = .ok none

variable {entry : WorldListingEntry}

theorem node_fields {node : Node} (h : entry.node now = .ok node) :
    entry.kind = node.kind ∧ entry.sha256 = node.blobSha256 := by
  unfold WorldListingEntry.node at h
  split at h
  · split at h
    · cases h
    · rw [← Except.ok.inj h]
      exact ⟨rfl, rfl⟩
  · cases h

variable {input : List WorldListingEntry}

variable {put : Text × Node}

theorem Found.cons
    (h : Found store input put) : Found store (entry :: input) put where
  given := by
    obtain ⟨other, hMem, hOther⟩ := h.given
    exact ⟨other, List.mem_cons_of_mem _ hMem, hOther⟩
  blob := h.blob

variable {puts : List (Text × Node)}

theorem found_changes
    (h : store.screenChanges now input = .ok (puts, [])) : ∀ put ∈ puts, Found store input put := by
  induction input generalizing puts with
  | nil =>
    obtain ⟨rfl, -⟩ := Prod.mk.inj (Except.ok.inj h)
    simp
  | cons entry rest ih =>
    unfold screenChanges at h
    split at h
    · cases h
    split at h
    · exact fun put hPut => (ih h put hPut).cons
    split at h
    · cases h
    rename_i node hNode
    split at h
    · exact fun put hPut => (ih h put hPut).cons
    split at h
    · cases h
    rename_i missing hBlob
    cases hRest : store.screenChanges now rest with
    | error e =>
      rw [hRest] at h
      cases h
    | ok later =>
      rw [hRest] at h
      obtain ⟨rfl, hMissing⟩ := Prod.mk.inj (Except.ok.inj h)
      obtain ⟨hHead, hTail⟩ := List.append_eq_nil_iff.mp hMissing
      obtain rfl : missing = none := Option.toList_eq_nil_iff.mp hHead
      have hLater : store.screenChanges now rest = .ok (later.1, []) := by rw [hRest, ← hTail]
      rw [List.forall_mem_cons]
      exact ⟨⟨⟨entry, List.mem_cons_self, node_fields hNode⟩, _, hBlob⟩, fun put hPut => (ih hLater put hPut).cons⟩

theorem found_diff
    (h : store.screenDiff now input = .ok (puts, [])) : ∀ put ∈ puts, Found store input put := by
  induction input generalizing puts with
  | nil =>
    obtain ⟨rfl, -⟩ := Prod.mk.inj (Except.ok.inj h)
    simp
  | cons entry rest ih =>
    unfold screenDiff at h
    split at h
    · cases h
    split at h
    · cases h
    split at h
    · cases h
    rename_i node hNode
    split at h
    · cases h
    rename_i missing hBlob
    cases hRest : store.screenDiff now rest with
    | error e =>
      rw [hRest] at h
      cases h
    | ok later =>
      rw [hRest] at h
      obtain ⟨rfl, hMissing⟩ := Prod.mk.inj (Except.ok.inj h)
      obtain ⟨hHead, hTail⟩ := List.append_eq_nil_iff.mp hMissing
      obtain rfl : missing = none := Option.toList_eq_nil_iff.mp hHead
      have hLater : store.screenDiff now rest = .ok (later.1, []) := by rw [hRest, ← hTail]
      rw [List.forall_mem_cons]
      exact ⟨⟨⟨entry, List.mem_cons_self, node_fields hNode⟩, _, hBlob⟩, fun put hPut => (ih hLater put hPut).cons⟩

def Keeps (kept : String → Prop) (input : List WorldListingEntry) : Prop :=
  ∀ entry ∈ input, entry.kind = .file → ∀ sha256, entry.sha256 = some sha256 → kept sha256

theorem Found.backed (h : Found store input put)
    (hKept : Keeps kept input) : Backed store.blobs kept put.2 := by
  intro hFile
  obtain ⟨⟨entry, hMem, hKind, hSha⟩, path, hBlob⟩ := h
  unfold blobCheck at hBlob
  rw [if_neg (not_not.mpr hFile)] at hBlob
  split at hBlob
  · cases hBlob
  rename_i sha256 hSome
  obtain ⟨hSha256, -⟩ := Option.filter_eq_some_iff.mp hSome
  split at hBlob
  · cases hBlob
  rename_i row hRow
  split at hBlob
  · cases hBlob
  rename_i hSize
  exact ⟨sha256, row, hSha256, hRow, not_not.mp hSize, hKept entry hMem (hKind.trans hFile) sha256 (hSha.trans hSha256)⟩

end WorldSqlStore

namespace Mutation

variable {m : Mutation} {now : Int} {kept : String → Prop}

theorem holds_writeFile {blobs : InsertionMap String BlobRow} (h : m.Holds (Backed blobs kept) blobs) {bytes : FileBytes}
    (hKept : kept bytes.sha256) (hSize : ∀ row, blobs.get? bytes.sha256 = some row → row.size = bytes.byteLength)
    (input : Text) (mode mtime : Option Int) (bucketWorks : Bool) :
    ∃ after, (m.writeFile now input bytes mode mtime bucketWorks).2.Holds (Backed after kept) after ∧
      (after = blobs ∨ (blobs.get? bytes.sha256 = none ∧
        ∃ storage, after = blobs.set bytes.sha256 ⟨bytes.byteLength, storage⟩)) := by
  unfold writeFile
  split
  · exact ⟨blobs, h, .inl rfl⟩
  rename_i path _
  dsimp only
  split
  · exact ⟨blobs, h, .inl rfl⟩
  split
  · exact ⟨blobs, h, .inl rfl⟩
  split
  · exact ⟨blobs, h, .inl rfl⟩
  split
  · exact ⟨blobs, h, .inl rfl⟩
  split
  · exact ⟨blobs, h, .inl rfl⟩
  cases hBlob : m.storeBlob bytes bucketWorks with
  | mk result stored =>
    obtain ⟨after, hStored, hChoice, hThere⟩ : ∃ after, stored.Holds (Backed after kept) after ∧
        (after = blobs ∨ (blobs.get? bytes.sha256 = none ∧
          ∃ storage, after = blobs.set bytes.sha256 ⟨bytes.byteLength, storage⟩)) ∧
        (result = .ok () → ∃ row, after.get? bytes.sha256 = some row ∧ row.size = bytes.byteLength) := by
      have hNew : ∀ storage, blobs.get? bytes.sha256 = none →
          ({ m with store := { m.store with blobs := m.store.blobs.set bytes.sha256 ⟨bytes.byteLength, storage⟩ } } :
            Mutation).Holds (Backed (blobs.set bytes.sha256 ⟨bytes.byteLength, storage⟩) kept)
            (blobs.set bytes.sha256 ⟨bytes.byteLength, storage⟩) := by
        intro storage hNone
        refine ⟨fun q node hRow hFile => ?_, by rw [← h.blobs]⟩
        obtain ⟨sha256, row, hSha, hGet, hSame, hKeeps⟩ := h.nodes q node hRow hFile
        have hOther : bytes.sha256 ≠ sha256 := fun hEq => by
          rw [← hEq, hNone] at hGet
          cases hGet
        exact ⟨sha256, row, hSha, by rw [InsertionMap.get?_set_of_ne _ _ hOther, hGet], hSame, hKeeps⟩
      have hGetNone : ¬ m.store.blobs.has bytes.sha256 = true → blobs.get? bytes.sha256 = none := fun hAbsent => by
        rw [InsertionMap.has_eq_isSome, Option.not_isSome_iff_eq_none, h.blobs] at hAbsent
        exact hAbsent
      unfold storeBlob at hBlob
      dsimp only at hBlob
      split at hBlob
      · obtain ⟨rfl, rfl⟩ := Prod.mk.inj hBlob
        exact ⟨blobs, h, .inl rfl, fun hOk => by cases hOk⟩
      split at hBlob
      · rename_i hHas
        obtain ⟨rfl, rfl⟩ := Prod.mk.inj hBlob
        rw [InsertionMap.has_eq_isSome, h.blobs] at hHas
        obtain ⟨row, hRow⟩ := Option.isSome_iff_exists.mp hHas
        exact ⟨blobs, h, .inl rfl, fun _ => ⟨row, hRow, hSize row hRow⟩⟩
      rename_i hAbsent
      have hNone := hGetNone hAbsent
      split at hBlob
      · split at hBlob
        · obtain ⟨rfl, rfl⟩ := Prod.mk.inj hBlob
          exact ⟨_, hNew .r2 hNone, .inr ⟨hNone, .r2, rfl⟩, fun _ => ⟨_, InsertionMap.get?_set_self _ _ _, rfl⟩⟩
        · obtain ⟨rfl, rfl⟩ := Prod.mk.inj hBlob
          exact ⟨blobs, h, .inl rfl, fun hOk => by cases hOk⟩
      · obtain ⟨rfl, rfl⟩ := Prod.mk.inj hBlob
        exact ⟨_, hNew .sqlite hNone, .inr ⟨hNone, .sqlite, rfl⟩, fun _ => ⟨_, InsertionMap.get?_set_self _ _ _, rfl⟩⟩
    refine ⟨after, ?_, hChoice⟩
    cases result with
    | error e => exact hStored
    | ok _ =>
      obtain ⟨row, hRow, hRowSize⟩ := hThere rfl
      dsimp only
      have hDir : Backed after kept (newDir now) := backed_of_plain (fun hKind => by cases hKind)
      have hNode : Backed after kept ⟨.file, mode.getD ((m.store.entryRow path).map Node.mode |>.getD 0o644), mtime.getD now,
          bytes.byteLength, some bytes.sha256, none⟩ := fun _ => ⟨bytes.sha256, row, rfl, hRow, hRowSize, hKept⟩
      have hPut := (closed_holds (Backed after kept) after).putNode hDir hStored path hNode
      split
      · rename_i hRes
        rw [hRes] at hPut
        exact hPut
      · rename_i hRes
        rw [hRes] at hPut
        exact hPut

end Mutation

end Stella.World
