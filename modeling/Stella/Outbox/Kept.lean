import Stella.Outbox.Pending

/-! # What happens to a stored record

A record is written under its own key: first when no other record is of the same message, later
only over a record of the same intent.
-/

namespace Stella.Outbox

open Fallible (Ends)
open InsertionMap (get? set erase keys)
open Transition

variable {browser : Browser} {storage storage' : Storage} {entry : PendingPrompt} {gone : StorageKey → Prop}

structure Sound (storage : Storage) : Prop where
  nodup : (keys storage).Nodup
  read : ∀ {key raw}, get? storage key = some raw → ∃ entry, raw.bind parseEnvelope = some entry ∧ cloudConversationOutboxStorageKey entry = key
  once : ∀ {a b}, a ∈ keys storage → b ∈ keys storage → a.toAuthority = b.toAuthority → a.clientMsgId = b.clientMsgId → a = b

def entries (storage : Storage) : List PendingPrompt := storage.filterMap fun record => record.2.bind parseEnvelope

def Kept (entry : PendingPrompt) (storage : Storage) : Prop :=
  ∃ raw kept, get? storage (cloudConversationOutboxStorageKey entry) = some raw ∧ raw.bind parseEnvelope = some kept ∧
    frozenIntentJson kept = frozenIntentJson entry

inductive Change (gone : StorageKey → Prop) (storage : Storage) : Storage → Prop
  | rewritten (entry existing written : PendingPrompt) (raw : PersistedPendingPrompt) (hExisting : existingEntry storage entry = some existing)
      (hRaw : parseEnvelope raw = some written) (hSame : frozenIntentJson written = frozenIntentJson entry) :
      Change gone storage (set storage (cloudConversationOutboxStorageKey entry) (some raw))
  | added (entry written : PendingPrompt) (raw : PersistedPendingPrompt)
      (hNew : ∀ key ∈ keys storage, key.toAuthority = entry.toAuthority → key.clientMsgId ≠ entry.clientMsgId)
      (hRaw : parseEnvelope raw = some written) (hSame : frozenIntentJson written = frozenIntentJson entry) :
      Change gone storage (set storage (cloudConversationOutboxStorageKey entry) (some raw))
  | removed (key : StorageKey) (hGone : gone key) : Change gone storage (erase storage key)

abbrev Changes (gone : StorageKey → Prop) : Storage → Storage → Prop := Relation.ReflTransGen (Change gone)

/-! ## One record -/

theorem parseEnvelope_persistedEntry {parsed : PendingPrompt} (h : parseEnvelope (persistedEntry entry) = some parsed) :
    parsed = { entry with durable := true, deliveryAcknowledged := false } := by
  unfold parseEnvelope at h
  split at h
  · exact (Option.some.inj h).symm
  · cases h

variable {raw : PersistedPendingPrompt}

theorem serialize_eq_ok (h : serialize browser entry = .ok raw) :
    parseEnvelope raw = some { entry with durable := true, deliveryAcknowledged := false } := by
  unfold serialize at h
  dsimp only at h
  split at h
  · cases h
  · next hSome =>
    split at h
    · cases h
    · cases h
      cases hParsed : parseEnvelope (persistedEntry entry) with
      | none => exact absurd (by rw [hParsed]; rfl) hSome
      | some parsed => rw [parseEnvelope_persistedEntry hParsed]

theorem key_eq_of_intent {a b : PendingPrompt} (h : frozenIntentJson a = frozenIntentJson b) :
    cloudConversationOutboxStorageKey a = cloudConversationOutboxStorageKey b := by
  unfold frozenIntentJson at h
  rw [Prod.mk.injEq, Prod.mk.injEq, Prod.mk.injEq] at h
  obtain ⟨hAuth, hMsg, -, hSubmission⟩ := h
  have hKey : ∀ entry, cloudConversationOutboxStorageKey entry =
      ⟨entry.toAuthority, entry.submission.requestedConversationId, entry.clientMsgId⟩ := fun _ => rfl
  rw [hKey a, hKey b, hAuth, hMsg, hSubmission]

theorem existingEntry_eq_some {existing : PendingPrompt} (h : existingEntry storage entry = some existing) :
    ∃ raw, get? storage (cloudConversationOutboxStorageKey entry) = some raw ∧ raw.bind parseEnvelope = some existing ∧
      frozenIntentJson existing = frozenIntentJson entry := by
  unfold existingEntry at h
  split at h
  · next found hFound =>
    split at h
    · next hEq =>
      cases h
      rw [Bool.and_eq_true, decide_eq_true_eq] at hEq
      cases hRaw : storage.get? (cloudConversationOutboxStorageKey entry) with
      | none =>
        rw [hRaw] at hFound
        cases hFound
      | some raw =>
        rw [hRaw] at hFound
        exact ⟨raw, rfl, hFound, hEq.2⟩
    · cases h
  · cases h

/-! ## What a change keeps -/

theorem get?_erase_of_ne {key other : StorageKey} (h : other ≠ key) : get? (erase storage key) other = get? storage other := by
  have hKeep := InsertionMap.get?_filter_key storage (fun k => k ≠ key) other
  unfold erase
  rw [hKeep, if_pos (decide_eq_true h)]

theorem Kept.change (h : Kept entry storage) (hChg : Change gone storage storage')
    (hStays : ¬ gone (cloudConversationOutboxStorageKey entry)) : Kept entry storage' := by
  obtain ⟨raw, kept, hRaw, hKept, hEq⟩ := h
  cases hChg with
  | rewritten other existing written next hExist hNext hWritten =>
    by_cases hKey : cloudConversationOutboxStorageKey other = cloudConversationOutboxStorageKey entry
    · obtain ⟨old, hOld, hFound, hIntent⟩ := existingEntry_eq_some hExist
      rw [hKey] at hOld ⊢
      obtain rfl := Option.some.inj (hRaw.symm.trans hOld)
      obtain rfl := Option.some.inj (hKept.symm.trans hFound)
      exact ⟨some next, written, InsertionMap.get?_set_self _ _ _, hNext, hWritten.trans (hIntent.symm.trans hEq)⟩
    · exact ⟨raw, kept, (InsertionMap.get?_set_of_ne _ _ hKey).trans hRaw, hKept, hEq⟩
  | added other written next hNew hNext hWritten =>
    have hKey : cloudConversationOutboxStorageKey other ≠ cloudConversationOutboxStorageKey entry := by
      intro hKey
      have hMem : cloudConversationOutboxStorageKey other ∈ keys storage :=
        InsertionMap.mem_keys_iff.mpr (by rw [hKey, hRaw]; rfl)
      exact hNew _ hMem rfl rfl
    exact ⟨raw, kept, (InsertionMap.get?_set_of_ne _ _ hKey).trans hRaw, hKept, hEq⟩
  | removed key hGone =>
    have hKey : cloudConversationOutboxStorageKey entry ≠ key := by
      rintro rfl
      exact hStays hGone
    exact ⟨raw, kept, (get?_erase_of_ne hKey).trans hRaw, hKept, hEq⟩

theorem Kept.changes (h : Kept entry storage) (hChanges : Changes gone storage storage')
    (hStays : ¬ gone (cloudConversationOutboxStorageKey entry)) : Kept entry storage' := by
  induction hChanges with
  | refl => exact h
  | tail _ hChg ih => exact ih.change hChg hStays

theorem sound_nil : Sound [] where
  nodup := List.nodup_nil
  read h := nomatch h
  once h := nomatch h

theorem Sound.set (h : Sound storage) {written : PendingPrompt}
    (hNew : cloudConversationOutboxStorageKey entry ∈ keys storage ∨
      ∀ key ∈ keys storage, key.toAuthority = entry.toAuthority → key.clientMsgId ≠ entry.clientMsgId)
    (hRaw : parseEnvelope raw = some written) (hEq : frozenIntentJson written = frozenIntentJson entry) :
    Sound (set storage (cloudConversationOutboxStorageKey entry) (some raw)) where
  nodup := InsertionMap.nodup_keys_set h.nodup _ _
  read := by
    intro key other hOther
    by_cases hKey : cloudConversationOutboxStorageKey entry = key
    · subst hKey
      rw [InsertionMap.get?_set_self] at hOther
      obtain rfl := Option.some.inj hOther
      exact ⟨written, hRaw, key_eq_of_intent hEq⟩
    · rw [InsertionMap.get?_set_of_ne _ _ hKey] at hOther
      exact h.read hOther
  once := by
    have hAll : ∀ {key}, key ∈ keys storage → key.toAuthority = entry.toAuthority → key.clientMsgId = entry.clientMsgId →
        key = cloudConversationOutboxStorageKey entry := by
      intro key hMem hAuth hMsg
      rcases hNew with hOld | hNone
      · exact h.once hMem hOld hAuth hMsg
      · exact absurd hMsg (hNone key hMem hAuth)
    intro a b hA hB hAuth hMsg
    rcases InsertionMap.mem_keys_set hA with rfl | hA
    · rcases InsertionMap.mem_keys_set hB with rfl | hB
      · rfl
      · exact (hAll hB hAuth.symm hMsg.symm).symm
    · rcases InsertionMap.mem_keys_set hB with rfl | hB
      · exact hAll hA hAuth hMsg
      · exact h.once hA hB hAuth hMsg

theorem Sound.erase (h : Sound storage) (key : StorageKey) : Sound (erase storage key) where
  nodup := InsertionMap.nodup_keys_erase h.nodup key
  read := by
    intro other raw hRaw
    by_cases hKey : other = key
    · have hGone : other ∈ keys (InsertionMap.erase storage key) := InsertionMap.mem_keys_iff.mpr (by rw [hRaw]; rfl)
      obtain ⟨record, hRec, rfl⟩ := List.mem_map.mp hGone
      exact absurd hKey (of_decide_eq_true (List.mem_filter.mp hRec).2)
    · rw [get?_erase_of_ne hKey] at hRaw
      exact h.read hRaw
  once hA hB := h.once (InsertionMap.mem_keys_erase hA) (InsertionMap.mem_keys_erase hB)

theorem Sound.change (h : Sound storage) (hChg : Change gone storage storage') : Sound storage' := by
  cases hChg with
  | rewritten other existing written raw hExist hRaw hEq =>
    obtain ⟨old, hOld, -, -⟩ := existingEntry_eq_some hExist
    exact h.set (.inl (InsertionMap.mem_keys_iff.mpr (by rw [hOld]; rfl))) hRaw hEq
  | added other written raw hNew hRaw hEq => exact h.set (.inr hNew) hRaw hEq
  | removed key _ => exact h.erase key

/-! ## Reading -/

theorem readEntries_of_read {records : List (StorageKey × Option PersistedPendingPrompt)}
    (h : ∀ record ∈ records, ∃ entry, record.2.bind parseEnvelope = some entry ∧ cloudConversationOutboxStorageKey entry = record.1)
    (storage : Storage) :
    readEntries browser records storage = (.ok (records.filterMap fun record => record.2.bind parseEnvelope), storage) := by
  induction records with
  | nil => rfl
  | cons record records ih =>
    rw [List.forall_mem_cons] at h
    obtain ⟨entry, hRead, hKey⟩ := h.1
    unfold readEntries
    rw [hRead]
    dsimp only
    rw [if_pos hKey, Fallible.bind_run, ih h.2, List.filterMap_cons, hRead]
    rfl

theorem readAll_of_sound (h : Sound storage) (hAvailable : browser.unavailable = false) :
    readAll browser storage = (.ok (entries storage), storage) := by
  have hRead : ∀ record ∈ storage, ∃ entry, record.2.bind parseEnvelope = some entry ∧
      cloudConversationOutboxStorageKey entry = record.1 := fun record hRec =>
    h.read ((InsertionMap.mem_iff_get? h.nodup record.1 record.2).mp hRec)
  have hEnts := @readEntries_of_read browser _ hRead storage
  unfold readAll requireStorage
  rw [hAvailable]
  exact hEnts

theorem mem_entries (h : Sound storage) {entry : PendingPrompt} (hEnt : entry ∈ entries storage) :
    ∃ raw, get? storage (cloudConversationOutboxStorageKey entry) = some raw ∧ raw.bind parseEnvelope = some entry := by
  obtain ⟨record, hRec, hRead⟩ := List.mem_filterMap.mp hEnt
  have hRaw := (InsertionMap.mem_iff_get? h.nodup record.1 record.2).mp hRec
  obtain ⟨other, hOther, hKey⟩ := h.read hRaw
  obtain rfl := Option.some.inj (hRead.symm.trans hOther)
  exact ⟨record.2, hKey ▸ hRaw, hRead⟩

theorem Kept.entries (h : Kept entry storage) (hSound : Sound storage) :
    ∃ kept ∈ entries storage, frozenIntentJson kept = frozenIntentJson entry ∧ ∀ other ∈ entries storage,
      other.toAuthority = entry.toAuthority → other.clientMsgId = entry.clientMsgId → other = kept := by
  obtain ⟨raw, kept, hRaw, hKept, hEq⟩ := h
  have hMem := (InsertionMap.mem_iff_get? hSound.nodup _ raw).mpr hRaw
  refine ⟨kept, List.mem_filterMap.mpr ⟨_, hMem, hKept⟩, hEq, fun other hOther hAuth hMsg => ?_⟩
  obtain ⟨next, hNext, hRead⟩ := mem_entries hSound hOther
  have hKey := hSound.once (InsertionMap.mem_keys_iff.mpr (by rw [hNext]; rfl)) (InsertionMap.mem_keys_iff.mpr (by rw [hRaw]; rfl))
    hAuth hMsg
  rw [hKey] at hNext
  obtain rfl := Option.some.inj (hNext.symm.trans hRaw)
  exact Option.some.inj (hRead.symm.trans hKept)

end Stella.Outbox
