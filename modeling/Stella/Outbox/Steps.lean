import Stella.Outbox.Kept

/-! # What each step changes

Every program over the storage, whether it returns or throws, leaves a storage that changes of
one record at a time lead to.
-/

namespace Stella.Outbox

open Fallible (Ends)
open InsertionMap (get? set erase keys)

variable {browser : Browser} {start storage : Storage} {entry : PendingPrompt} {gone : StorageKey → Prop}

def Here (gone : StorageKey → Prop) (start storage : Storage) : Prop := Sound storage ∧ Changes gone start storage

theorem Here.change {storage' : Storage} (h : Here gone start storage) (hChg : Change gone storage storage') :
    Here gone start storage' := ⟨h.1.change hChg, h.2.tail hChg⟩

/-! ## Accesses -/

variable {P : Storage → Prop}

theorem ends_requireStorage : Ends P (requireStorage browser) (fun _ => P) P := by
  intro storage hP
  unfold requireStorage
  cases hGone : browser.unavailable with
  | true => exact hP
  | false => exact hP

variable {key : StorageKey}

theorem ends_removeItem (hGone : gone key) :
    Ends (Here gone start) (removeItem browser key) (fun _ => Here gone start) (Here gone start) := by
  intro storage hHere
  unfold removeItem
  cases browser.removeItem key with
  | some message => exact hHere
  | none => exact hHere.change (.removed key hGone)

theorem ends_write {α : Type} {durable : PendingPrompt} {answer : α} {Q : α → Storage → Prop}
    (hThrow : ∀ storage, P storage → Here gone start storage)
    (hWritten : ∀ raw storage, serialize browser durable = .ok raw → P storage → Q answer (set storage key (some raw))) :
    Ends P (do
      let raw ← Fallible.answered (serialize browser durable)
      setItem browser key raw
      pure answer) Q (Here gone start) := by
  intro storage hP
  rw [Fallible.bind_run, Fallible.answered_run]
  cases hRaw : serialize browser durable with
  | error message => exact hThrow storage hP
  | ok raw =>
    dsimp only
    rw [Fallible.bind_run]
    unfold setItem
    cases browser.setItem key with
    | some message => exact hThrow storage hP
    | none => exact hWritten raw storage hRaw hP

theorem ends_readAll : Ends (Here gone start) (readAll browser) (fun all storage => Here gone start storage ∧ all = entries storage)
    (Here gone start) := by
  intro storage hHere
  cases hAvailable : browser.unavailable with
  | false =>
    rw [readAll_of_sound hHere.1 hAvailable]
    exact ⟨hHere, rfl⟩
  | true =>
    have hThrow : readAll browser storage = (.error unavailableMessage, storage) := by
      unfold readAll requireStorage
      rw [hAvailable]
      rfl
    rw [hThrow]
    exact hHere

/-! ## Programs over the storage -/

theorem ends_enqueue (entry : PendingPrompt) : Ends (Here gone start) (enqueue browser entry)
    (fun _ storage => Here gone start storage ∧ Kept entry storage) (Here gone start) := by
  unfold enqueue
  refine ends_requireStorage.bind fun _ => ends_readAll.bind fun all => ?_
  cases hFind : all.find? (fun candidate => clientIdentityMatches candidate entry.toAuthority entry.clientMsgId) with
  | some collision =>
    dsimp only
    split
    · exact Ends.throw fun _ h => h.1
    · next hEq =>
      refine Ends.pure fun storage h => ⟨h.1, ?_⟩
      obtain ⟨hHere, rfl⟩ := h
      obtain ⟨raw, hRaw, hRead⟩ := mem_entries hHere.1 (List.mem_of_find?_eq_some hFind)
      have hIntent := not_not.mp hEq
      exact ⟨raw, collision, key_eq_of_intent hIntent ▸ hRaw, hRead, hIntent⟩
  | none =>
    dsimp only
    split
    · exact Ends.throw fun _ h => h.1
    · refine ends_write (fun _ h => h.1) fun raw storage hRaw h => ?_
      obtain ⟨hHere, rfl⟩ := h
      have hParsed := serialize_eq_ok hRaw
      have hNew : ∀ key ∈ keys storage, key.toAuthority = entry.toAuthority → key.clientMsgId ≠ entry.clientMsgId := by
        intro key hKey hAuth hMsg
        obtain ⟨record, hRec, rfl⟩ := List.mem_map.mp hKey
        obtain ⟨other, hRead, hOther⟩ := hHere.1.read ((InsertionMap.mem_iff_get? hHere.1.nodup record.1 record.2).mp hRec)
        rw [← hOther] at hAuth hMsg
        have hNot := List.find?_eq_none.mp hFind other (List.mem_filterMap.mpr ⟨record, hRec, hRead⟩)
        exact hNot (Bool.and_eq_true_iff.mpr ⟨decide_eq_true hAuth, decide_eq_true hMsg⟩)
      exact ⟨hHere.change (.added entry _ raw hNew hParsed rfl), some raw, _, InsertionMap.get?_set_self _ _ _, hParsed, rfl⟩

theorem ends_update (entry : PendingPrompt) : Ends (Here gone start) (update browser entry) (fun _ => Here gone start) (Here gone start) := by
  unfold update
  refine ends_requireStorage.bind fun _ =>
    (Ends.get (Q := fun stored storage => Here gone start storage ∧ stored = storage) fun _ h => ⟨h, rfl⟩).bind fun stored => ?_
  cases hExist : existingEntry stored entry with
  | none => exact Ends.pure fun _ h => h.1
  | some existing =>
    rw [if_neg (by simp)]
    refine ends_write (fun _ h => h.1) fun raw storage hRaw h => ?_
    obtain ⟨hHere, rfl⟩ := h
    exact hHere.change (.rewritten entry existing _ raw hExist (serialize_eq_ok hRaw) rfl)

theorem ends_remove {entry : PendingPrompt} (hGone : gone (cloudConversationOutboxStorageKey entry)) :
    Ends (Here gone start) (remove browser entry) (fun _ => Here gone start) (Here gone start) := by
  unfold remove
  refine ends_requireStorage.bind fun _ => (Ends.get (Q := fun _ => Here gone start) fun _ h => h).bind fun stored => ?_
  split
  · exact Ends.pure fun _ h => h
  · exact (ends_removeItem hGone).bind fun _ => Ends.pure fun _ h => h

variable {authority : Authority}

theorem ends_activateEntries (hGone : ∀ key, key.toAuthority ≠ authority → gone key) (current rest : List PendingPrompt) :
    Ends (Here gone start) (activateEntries browser authority current rest) (fun _ => Here gone start) (Here gone start) := by
  induction rest generalizing current with
  | nil => exact Ends.pure fun _ h => h
  | cons entry rest ih =>
    unfold activateEntries
    split
    · split
      · exact Ends.throw fun _ h => h
      · exact ih _
    · next hOther =>
      refine (ends_removeItem (hGone _ fun hEq => hOther ?_)).bind fun _ => ih current
      exact decide_eq_true hEq

theorem ends_activate (hGone : ∀ key, key.toAuthority ≠ authority → gone key) :
    Ends (Here gone start) (activate browser authority) (fun _ => Here gone start) (Here gone start) :=
  ends_requireStorage.bind fun _ => ends_readAll.bind fun all =>
    ((ends_activateEntries hGone [] all).weaken (fun _ h => h.1) (fun _ _ h => h) fun _ h => h).bind fun _ => Ends.pure fun _ h => h

theorem ends_purgeOtherAccounts {accountScope : String} (hGone : ∀ key : StorageKey, key.accountScope ≠ accountScope → gone key) :
    Ends (Here gone start) (purgeOtherAccounts browser accountScope) (fun _ => Here gone start) (Here gone start) := by
  have hEnts : ∀ all : List PendingPrompt,
      Ends (Here gone start) (purgeEntries browser accountScope all) (fun _ => Here gone start) (Here gone start) := by
    intro all
    induction all with
    | nil => exact Ends.pure fun _ h => h
    | cons entry rest ih =>
      unfold purgeEntries
      split
      · next hOther => exact (ends_removeItem (hGone _ hOther)).bind fun _ => ih
      · exact ih
  exact ends_requireStorage.bind fun _ => ends_readAll.bind fun all =>
    (hEnts all).weaken (fun _ h => h.1) (fun _ _ h => h) fun _ h => h

end Stella.Outbox
