import Stella.Outbox.Steps

/-! # What the outbox gives back

Over every run, an accepted prompt is in the storage until a step acknowledges it, drops it or
switches to another account.
-/

namespace Stella.Outbox

open List

open Fallible (Ends)
open InsertionMap (get? keys)
open State (isTheirs supersedes)
open Transition

variable {browser : Browser} {s : State} {storage : Storage} {entry : PendingPrompt} {gone : StorageKey → Prop} {authority : Authority}
  {clientMsgId : String}

/-! ## The steps -/

def Retires (s : State) : OutboxOp → StorageKey → Prop
  | .drop authority clientMsgId, key => key.toAuthority = authority ∧ key.clientMsgId = clientMsgId
  | .acknowledgeAdmission authority clientMsgId _ _, key => key.toAuthority = authority ∧ key.clientMsgId = clientMsgId
  | .acknowledgeTerminal authority clientMsgId _, key => key.toAuthority = authority ∧ key.clientMsgId = clientMsgId
  | .resolve authority record, key => ∃ entry ∈ s.pending, ownsPending entry authority = true ∧ supersedes record entry = true ∧
    cloudConversationOutboxStorageKey entry = key
  | _, _ => False

def Switches : OutboxOp → StorageKey → Prop
  | .retainAccountScope accountScope, key => key.accountScope ≠ accountScope
  | .activateAuthority authority, key => key.toAuthority ≠ authority
  | _, _ => False

theorem here_of_ends {α : Type} {x : Run α} {answer : Except String α} {after : Storage} (h : Sound storage)
    (hEnds : Ends (Here gone storage) x (fun _ => Here gone storage) (Here gone storage)) (hRun : x storage = (answer, after)) :
    Here gone storage after := by
  have hSt := hEnds storage ⟨h, .refl⟩
  rw [hRun] at hSt
  cases answer with
  | ok a => exact hSt
  | error message => exact hSt

theorem ends_enqueue_here (entry : PendingPrompt) :
    Ends (Here gone storage) (enqueue browser entry) (fun _ => Here gone storage) (Here gone storage) :=
  (ends_enqueue entry).weaken (fun _ h => h) (fun _ _ h => h.1) fun _ h => h

theorem key_of_find {found : PendingPrompt} (h : s.find authority clientMsgId = some found) :
    (cloudConversationOutboxStorageKey found).toAuthority = authority ∧
    (cloudConversationOutboxStorageKey found).clientMsgId = clientMsgId := by
  have hTheirs := find?_some h
  unfold isTheirs ownsPending at hTheirs
  rw [Bool.and_eq_true, decide_eq_true_eq, decide_eq_true_eq] at hTheirs
  exact hTheirs

theorem here_add (h : Sound s.storage) (text : String) (conversationId : Option String)
    (submission : PendingCloudTurnSubmission) (now : Int) :
    Here gone s.storage (s.add browser authority clientMsgId text conversationId submission now).2.storage := by
  unfold State.add
  dsimp only
  split
  · split
    · next hRun => exact here_of_ends h (ends_enqueue_here _) hRun
    · next hRun => exact here_of_ends h (ends_enqueue_here _) hRun
  · exact ⟨h, .refl⟩

theorem here_patch (h : Sound s.storage) (change : PendingPrompt → PendingPrompt) :
    Here gone s.storage (s.patch browser authority clientMsgId change).storage := by
  unfold State.patch
  split
  · exact ⟨h, .refl⟩
  · dsimp only
    split
    · split
      · next hRun => exact here_of_ends h (ends_update _) hRun
      · next hRun => exact here_of_ends h (ends_update _) hRun
      · next hRun => exact here_of_ends h (ends_update _) hRun
    · exact ⟨h, .refl⟩

theorem here_prepareRetry (h : Sound s.storage) : Here gone s.storage (s.prepareRetry browser authority clientMsgId).storage := by
  unfold State.prepareRetry
  split
  · exact ⟨h, .refl⟩
  · next found _ =>
    have hSaved : Ends (Here gone s.storage)
        (if found.durable then update browser { found with error := none, retryOnNextActivation := false } else do
          let durable ← enqueue browser { found with error := none, retryOnNextActivation := false }
          pure (some durable)) (fun _ => Here gone s.storage) (Here gone s.storage) := by
      split
      · exact ends_update _
      · exact (ends_enqueue_here _).bind fun _ => Ends.pure fun _ h => h
    dsimp only
    split
    · next hRun => exact here_of_ends h hSaved hRun
    · next hRun => exact here_of_ends h hSaved hRun
    · next hRun => exact here_of_ends h hSaved hRun

theorem here_drop (h : Sound s.storage)
    (hGone : ∀ key : StorageKey, key.toAuthority = authority → key.clientMsgId = clientMsgId → gone key) :
    Here gone s.storage (s.drop browser authority clientMsgId).storage := by
  unfold State.drop
  split
  · exact ⟨h, .refl⟩
  · next found hFound =>
    have hKey := hGone _ (key_of_find hFound).1 (key_of_find hFound).2
    dsimp only
    split
    · split
      · next hRun => exact here_of_ends h (ends_remove hKey) hRun
      · next message after hRun =>
        have hHere := here_of_ends h (ends_remove hKey) hRun
        have hFail : Here gone after
            (State.fail browser { s with storage := after } authority clientMsgId (reliableStorageError message) false).storage :=
          here_patch (s := { s with storage := after }) hHere.1 _
        exact ⟨hFail.1, hHere.2.trans hFail.2⟩
    · exact ⟨h, .refl⟩

theorem here_acknowledge (h : Sound s.storage) {found : PendingPrompt} (hGone : gone (cloudConversationOutboxStorageKey found)) :
    Here gone s.storage (s.acknowledge browser authority clientMsgId found).storage := by
  unfold State.acknowledge
  dsimp only
  split
  · split
    · next hRun => exact here_of_ends h (ends_remove hGone) hRun
    · next hRun => exact here_of_ends h (ends_remove hGone) hRun
  · exact ⟨h, .refl⟩

theorem here_acknowledgeAdmission (h : Sound s.storage) (conversationId turnId : String)
    (hGone : ∀ key : StorageKey, key.toAuthority = authority → key.clientMsgId = clientMsgId → gone key) :
    Here gone s.storage (s.acknowledgeAdmission browser authority clientMsgId conversationId turnId).storage := by
  unfold State.acknowledgeAdmission
  split
  · exact ⟨h, .refl⟩
  · next found hFound =>
    split
    · exact ⟨h, .refl⟩
    · exact here_acknowledge h (hGone _ (key_of_find hFound).1 (key_of_find hFound).2)

theorem here_acknowledgeTerminal (h : Sound s.storage) (dispatchId : String)
    (hGone : ∀ key : StorageKey, key.toAuthority = authority → key.clientMsgId = clientMsgId → gone key) :
    Here gone s.storage (s.acknowledgeTerminal browser authority clientMsgId dispatchId).storage := by
  unfold State.acknowledgeTerminal
  split
  · exact ⟨h, .refl⟩
  · next found hFound =>
    split
    · exact ⟨h, .refl⟩
    · exact here_acknowledge h (hGone _ (key_of_find hFound).1 (key_of_find hFound).2)

theorem here_removeAll {acknowledged : List PendingPrompt} (h : Sound storage)
    (hGone : ∀ entry ∈ acknowledged, gone (cloudConversationOutboxStorageKey entry)) :
    Here gone storage (State.removeAll browser acknowledged storage).2 := by
  induction acknowledged generalizing storage with
  | nil => exact ⟨h, .refl⟩
  | cons entry rest ih =>
    rw [forall_mem_cons] at hGone
    unfold State.removeAll
    split
    · rcases hRun : remove browser entry storage with ⟨answer, after⟩
      have hHere := here_of_ends h (ends_remove hGone.1) hRun
      have hRest := ih hHere.1 hGone.2
      have hAll : Here gone storage (State.removeAll browser rest after).2 := ⟨hRest.1, hHere.2.trans hRest.2⟩
      split
      · next hEq =>
        cases hEq
        exact hAll
      · next hEq =>
        cases hEq
        exact hAll
    · exact ih h hGone.2

theorem here_resolve (h : Sound s.storage) (record : JournalRecord)
    (hGone : ∀ entry ∈ s.pending, ownsPending entry authority = true → supersedes record entry = true →
      gone (cloudConversationOutboxStorageKey entry)) :
    Here gone s.storage (s.resolve browser authority record).storage := by
  refine here_removeAll h fun entry hEnt => ?_
  obtain ⟨hMem, hBoth⟩ := mem_filter.mp hEnt
  rw [Bool.and_eq_true] at hBoth
  exact hGone entry hMem hBoth.1 hBoth.2

theorem ends_rearm (hydrated : List PendingPrompt) :
    Ends (Here gone storage) (State.rearm browser hydrated) (fun _ => Here gone storage) (Here gone storage) := by
  induction hydrated with
  | nil => exact Ends.pure fun _ h => h
  | cons entry rest ih =>
    unfold State.rearm
    split
    · exact (ends_update _).bind fun _ => ih.bind fun _ => Ends.pure fun _ h => h
    · exact ih.bind fun _ => Ends.pure fun _ h => h

theorem here_activateAuthority (h : Sound s.storage) (hGone : ∀ key : StorageKey, key.toAuthority ≠ authority → gone key) :
    Here gone s.storage (s.activateAuthority browser authority).storage := by
  have hHydrate : Ends (Here gone s.storage) (State.hydrate browser authority) (fun _ => Here gone s.storage) (Here gone s.storage) :=
    (ends_activate hGone).bind ends_rearm
  unfold State.activateAuthority
  split
  · exact ⟨h, .refl⟩
  · split
    · next hRun => exact here_of_ends h hHydrate hRun
    · next hRun => exact here_of_ends h hHydrate hRun

theorem here_step (h : Sound s.storage) (input : Browser × OutboxOp) :
    Here (fun key => Retires s input.2 key ∨ Switches input.2 key) s.storage (step s input).storage := by
  obtain ⟨browser, op⟩ := input
  cases op with
  | add authority clientMsgId text conversationId submission now => exact here_add h text conversationId submission now
  | bindDispatch authority clientMsgId dispatchId => exact here_patch h _
  | requestCancel authority clientMsgId => exact here_patch h _
  | bind authority clientMsgId conversationId turnId => exact here_patch h _
  | fail authority clientMsgId message retryOnNextActivation => exact here_patch h _
  | drop authority clientMsgId => exact here_drop h fun key hAuth hMsg => .inl ⟨hAuth, hMsg⟩
  | prepareRetry authority clientMsgId => exact here_prepareRetry h
  | acknowledgeAdmission authority clientMsgId conversationId turnId =>
    exact here_acknowledgeAdmission h conversationId turnId fun key hAuth hMsg => .inl ⟨hAuth, hMsg⟩
  | acknowledgeTerminal authority clientMsgId dispatchId =>
    exact here_acknowledgeTerminal h dispatchId fun key hAuth hMsg => .inl ⟨hAuth, hMsg⟩
  | resolve authority record => exact here_resolve h record fun entry hEnt hOwn hRec => .inl ⟨entry, hEnt, hOwn, hRec, rfl⟩
  | retainAccountScope accountScope =>
    exact here_of_ends h (ends_purgeOtherAccounts fun key hOther => .inr hOther) rfl
  | activateAuthority authority => exact here_activateAuthority h fun key hOther => .inr hOther
  | reload => exact ⟨h, .refl⟩

/-! ## Runs -/

theorem sound_run (inputs : List (Browser × OutboxOp)) : Sound (run step {} inputs).storage :=
  @run_invariant_always _ _ step (fun s => Sound s.storage) (fun _ input h => (here_step h input).1) {} inputs sound_nil

theorem kept_of_enqueue (h : Sound storage) {result : PendingPrompt} {after : Storage}
    (hRun : enqueue browser entry storage = (.ok result, after)) : Kept entry after := by
  have hEnds : Ends (Here (fun _ => False) storage) (enqueue browser entry)
      (fun _ after => Here (fun _ => False) storage after ∧ Kept entry after) (Here (fun _ => False) storage) := ends_enqueue entry
  have hSt := hEnds storage ⟨h, .refl⟩
  rw [hRun] at hSt
  exact hSt.2

theorem kept_of_accepted (h : Sound s.storage) {text : String} {conversationId : Option String}
    {submission : PendingCloudTurnSubmission}
    {now : Int} (hAcc : (s.add browser authority clientMsgId text conversationId submission now).1.durable = true) :
    ∃ entry, entry.toAuthority = authority ∧ entry.clientMsgId = clientMsgId ∧ entry.submission = frozenSubmission submission ∧
      Kept entry (s.add browser authority clientMsgId text conversationId submission now).2.storage := by
  unfold State.add at hAcc ⊢
  dsimp only at hAcc ⊢
  split at hAcc
  · next hReady =>
    rw [if_pos hReady]
    split at hAcc
    · next entry after hRun =>
      exact ⟨_, rfl, rfl, rfl, kept_of_enqueue h hRun⟩
    · cases hAcc
  · cases hAcc

theorem kept_run {inputs : List (Browser × OutboxOp)} (hSound : Sound s.storage) (hKept : Kept entry s.storage)
    (hKeep : Along step (fun s input => ¬ Retires s input.2 (cloudConversationOutboxStorageKey entry)) s inputs)
    (hStay : ∀ input ∈ inputs, ¬ Switches input.2 (cloudConversationOutboxStorageKey entry)) :
    Sound (run step s inputs).storage ∧ Kept entry (run step s inputs).storage := by
  induction inputs generalizing s with
  | nil => exact ⟨hSound, hKept⟩
  | cons input inputs ih =>
    rw [forall_mem_cons] at hStay
    have hHere := here_step hSound input
    exact ih hHere.1 (hKept.changes hHere.2 (not_or.mpr ⟨hKeep.1, hStay.1⟩)) hKeep.2 hStay.2

/-! ## What is given back -/

theorem frozenSubmission_eq_iff (submission : PendingCloudTurnSubmission) :
    frozenSubmission submission = submission ↔ submission.executionTarget = none := by
  obtain ⟨requested, prompt, imagePaths, attachments, locale, execution, target⟩ := submission
  constructor
  · intro h
    exact (congrArg PendingCloudTurnSubmission.executionTarget h).symm
  · rintro rfl
    rfl

theorem activateEntries_eq_ok {current rest result : List PendingPrompt}
    (h : (activateEntries browser authority current rest storage).1 = .ok result) :
    result = current ++ rest.filter fun entry => authorityMatches entry authority := by
  induction rest generalizing current storage with
  | nil =>
    have hEq : current = result := Except.ok.inj h
    rw [← hEq]
    exact (append_nil current).symm
  | cons entry rest ih =>
    unfold activateEntries at h
    split at h
    · next hTheirs =>
      split at h
      · cases h
      · rw [ih h]
        simp [hTheirs]
    · next hOther =>
      have hRest : (entry :: rest).filter (fun entry => authorityMatches entry authority) =
          rest.filter fun entry => authorityMatches entry authority := filter_cons_of_neg hOther
      rw [Fallible.bind_run] at h
      rcases hRun : removeItem browser (cloudConversationOutboxStorageKey entry) storage with ⟨answer, after⟩
      rw [hRun] at h
      cases answer with
      | ok _ => exact (ih h).trans (congrArg (current ++ ·) hRest.symm)
      | error message => cases h

theorem pairwise_entries (h : Sound storage) :
    (entries storage).Pairwise fun a b => a.toAuthority = b.toAuthority → a.clientMsgId ≠ b.clientMsgId := by
  have hKeys : storage.Pairwise fun a b => a.1 ≠ b.1 := pairwise_map.mp h.nodup
  refine pairwise_filterMap.mpr (hKeys.imp_of_mem fun {a b} hA hB hNe first hFirst second hSnd hAuth hMsg => ?_)
  obtain ⟨one, hOne, hOneKey⟩ := h.read ((InsertionMap.mem_iff_get? h.nodup a.1 a.2).mp hA)
  obtain ⟨two, hTwo, hTwoKey⟩ := h.read ((InsertionMap.mem_iff_get? h.nodup b.1 b.2).mp hB)
  obtain rfl := Option.some.inj (hOne.symm.trans hFirst)
  obtain rfl := Option.some.inj (hTwo.symm.trans hSnd)
  refine hNe (h.once (mem_map_of_mem hA) (mem_map_of_mem hB) ?_ ?_)
  · rw [← hOneKey, ← hTwoKey]
    exact hAuth
  · rw [← hOneKey, ← hTwoKey]
    exact hMsg

theorem activateEntries_returns (hFree : ∀ key, browser.removeItem key = none) {current rest : List PendingPrompt}
    (hOnce : rest.Pairwise fun a b => a.toAuthority = b.toAuthority → a.clientMsgId ≠ b.clientMsgId)
    (hCur : ∀ a ∈ current, ∀ b ∈ rest, b.toAuthority = authority → a.clientMsgId ≠ b.clientMsgId) :
    ∃ result, (activateEntries browser authority current rest storage).1 = .ok result := by
  induction rest generalizing current storage with
  | nil => exact ⟨current, rfl⟩
  | cons entry rest ih =>
    obtain ⟨hFirst, hRest⟩ := pairwise_cons.mp hOnce
    unfold activateEntries
    split
    · next hTheirs =>
      have hAuth : entry.toAuthority = authority := of_decide_eq_true hTheirs
      rw [if_neg]
      · refine ih hRest fun a hA b hB hEq => ?_
        rcases mem_append.mp hA with hOld | hNew
        · exact hCur a hOld b (mem_cons_of_mem _ hB) hEq
        · rw [mem_singleton.mp hNew]
          exact hFirst b hB (hAuth.trans hEq.symm)
      · rw [any_eq_true]
        rintro ⟨a, hA, hEq⟩
        exact hCur a hA entry mem_cons_self hAuth (of_decide_eq_true hEq)
    · have hRem : removeItem browser (cloudConversationOutboxStorageKey entry) storage =
          (.ok (), InsertionMap.erase storage (cloudConversationOutboxStorageKey entry)) := by
        unfold removeItem
        rw [hFree]
        rfl
      rw [Fallible.bind_run, hRem]
      exact ih hRest fun a hA b hB => hCur a hA b (mem_cons_of_mem _ hB)

theorem activate_eq_ok (h : Sound storage) {current : List PendingPrompt}
    (hRun : (activate browser authority storage).1 = .ok current) :
    ∀ entry, entry ∈ current ↔ entry ∈ entries storage ∧ entry.toAuthority = authority := by
  unfold activate at hRun
  rw [Fallible.bind_run] at hRun
  cases hAvailable : browser.unavailable with
  | true =>
    unfold requireStorage at hRun
    rw [hAvailable] at hRun
    cases hRun
  | false =>
    unfold requireStorage at hRun
    rw [hAvailable, if_neg Bool.false_ne_true, Fallible.pure_run] at hRun
    dsimp only at hRun
    rw [Fallible.bind_run, readAll_of_sound h hAvailable] at hRun
    dsimp only at hRun
    rw [Fallible.bind_run] at hRun
    rcases hEnts : activateEntries browser authority [] (entries storage) storage with ⟨answer, after⟩
    rw [hEnts] at hRun
    cases answer with
    | error message => cases hRun
    | ok result =>
      have hEq : byCreation result = current := Except.ok.inj hRun
      have hFound : result = [] ++ (entries storage).filter fun entry => authorityMatches entry authority :=
        activateEntries_eq_ok (congrArg Prod.fst hEnts)
      intro entry
      rw [← hEq, hFound, nil_append, byCreation, mem_insertionSort, mem_filter, authorityMatches, decide_eq_true_eq]

theorem activate_returns (h : Sound storage) (hAvailable : browser.unavailable = false)
    (hFree : ∀ key, browser.removeItem key = none) :
    ∃ current, (activate browser authority storage).1 = .ok current := by
  obtain ⟨result, hRes⟩ := @activateEntries_returns browser storage authority hFree [] (entries storage) (pairwise_entries h)
    (forall_mem_nil _)
  rcases hEnts : activateEntries browser authority [] (entries storage) storage with ⟨answer, after⟩
  rw [hEnts] at hRes
  obtain rfl : answer = .ok result := hRes
  refine ⟨byCreation result, ?_⟩
  unfold activate requireStorage
  rw [Fallible.bind_run, hAvailable, if_neg Bool.false_ne_true, Fallible.pure_run]
  dsimp only
  rw [Fallible.bind_run, readAll_of_sound h hAvailable]
  dsimp only
  rw [Fallible.bind_run, hEnts]
  rfl

def keyOf (authority : Authority) (submission : PendingCloudTurnSubmission) (clientMsgId : String) : StorageKey :=
  ⟨authority, submission.requestedConversationId, clientMsgId⟩

theorem retires_of_gone (inputs : List (Browser × OutboxOp)) (input : Browser × OutboxOp) {key : StorageKey}
    (hKey : key ∈ keys (run step {} inputs).storage) (hGone : key ∉ keys (step (run step {} inputs) input).storage) :
    Retires (run step {} inputs) input.2 key ∨ Switches input.2 key := by
  have hSound := sound_run inputs
  by_contra hStays
  obtain ⟨record, hRec, rfl⟩ := mem_map.mp hKey
  have hRaw := (InsertionMap.mem_iff_get? hSound.nodup record.1 record.2).mp hRec
  obtain ⟨entry, hRead, hEnt⟩ := hSound.read hRaw
  have hKept : Kept entry (run step {} inputs).storage := ⟨record.2, entry, hEnt ▸ hRaw, hRead, rfl⟩
  rw [← hEnt] at hGone hStays
  obtain ⟨raw, -, hStored, -⟩ := hKept.changes (here_step hSound input).2 hStays
  exact hGone (InsertionMap.mem_keys_iff.mpr (by rw [hStored]; rfl))

/-- An accepted submission is given back, as it was put in if it has no execution target, until it is acknowledged or dropped. -/
theorem submission_returned_iff (before after : List (Browser × OutboxOp)) (browser : Browser) (authority : Authority)
    (clientMsgId text : String) (conversationId : Option String) (submission : PendingCloudTurnSubmission) (now : Int)
    (hAccepted : ((run step {} before).add browser authority clientMsgId text conversationId submission now).1.durable = true)
    (hKeep : Along step (fun s input => ¬ Retires s input.2 (keyOf authority submission clientMsgId))
      ((run step {} before).add browser authority clientMsgId text conversationId submission now).2 after)
    (hStay : ∀ input ∈ after, ¬ Switches input.2 (keyOf authority submission clientMsgId)) :
    (∀ reader : Browser, reader.unavailable = false → (∀ key, reader.removeItem key = none) → ∃ current, (activate reader authority
      (run step ((run step {} before).add browser authority clientMsgId text conversationId submission now).2 after).storage).1 =
        .ok current) ∧
    (∀ reader current, (activate reader authority
      (run step ((run step {} before).add browser authority clientMsgId text conversationId submission now).2 after).storage).1 =
        .ok current →
      (∃ entry ∈ current, entry.clientMsgId = clientMsgId) ∧
        ∀ entry ∈ current, entry.clientMsgId = clientMsgId → (entry.submission = submission ↔ submission.executionTarget = none)) ∧
    ∀ inputs input key, key ∈ keys (run step {} inputs).storage → key ∉ keys (step (run step {} inputs) input).storage →
      Retires (run step {} inputs) input.2 key ∨ Switches input.2 key := by
  have hSound := sound_run before
  obtain ⟨entry, hAuthority, hMessage, hFrozen, hKept⟩ := kept_of_accepted hSound hAccepted
  have hKey : cloudConversationOutboxStorageKey entry = keyOf authority submission clientMsgId := by
    rw [← hAuthority, ← hMessage]
    unfold cloudConversationOutboxStorageKey keyOf
    rw [hFrozen]
    rfl
  have hAdded : Sound ((run step {} before).add browser authority clientMsgId text conversationId submission now).2.storage :=
    (here_step hSound (browser, .add authority clientMsgId text conversationId submission now)).1
  rw [← hKey] at hKeep hStay
  obtain ⟨hLast, hStill⟩ := kept_run hAdded hKept hKeep hStay
  obtain ⟨kept, hMem, hSame, hOnly⟩ := hStill.entries hLast
  have hKeptAuthority : kept.toAuthority = authority := (congrArg Prod.fst hSame).trans hAuthority
  have hKeptMessage : kept.clientMsgId = clientMsgId := (congrArg (fun intent => intent.2.1) hSame).trans hMessage
  have hKeptSubmission : kept.submission = frozenSubmission submission :=
      (congrArg (fun intent => intent.2.2.2) hSame).trans hFrozen
  refine ⟨fun reader => activate_returns hLast, fun reader current hCurrent => ?_, fun inputs input key => retires_of_gone inputs input⟩
  have hIn := activate_eq_ok hLast hCurrent
  refine ⟨⟨kept, (hIn kept).mpr ⟨hMem, hKeptAuthority⟩, hKeptMessage⟩, fun other hOther hOtherMessage => ?_⟩
  obtain ⟨hThere, hOtherAuthority⟩ := (hIn other).mp hOther
  rw [hOnly other hThere (hOtherAuthority.trans hAuthority.symm) (hOtherMessage.trans hMessage.symm), hKeptSubmission]
  exact frozenSubmission_eq_iff submission

def someAuthority : Authority := ⟨"account:alpha", "generation-alpha"⟩

def somePrompt : PendingCloudTurnSubmission where
  requestedConversationId := some "conversation-alpha"
  prompt := "send exactly once"
  imagePaths := []
  attachments := []
  locale := none
  execution := none

def someBrowser : Browser := { rawLength := fun _ => 400 }

def someSteps : List (Browser × OutboxOp) :=
  [(someBrowser, .bind someAuthority "client:alpha-1" "conversation-alpha" "turn-1"),
    (someBrowser, .fail someAuthority "client:alpha-1" "offline" true), (someBrowser, .reload),
    (someBrowser, .activateAuthority someAuthority), (someBrowser, .prepareRetry someAuthority "client:alpha-1")]

theorem submission_returned_iff_some : ∃ current, (activate someBrowser someAuthority
    (run step ((run step {} [(someBrowser, .activateAuthority someAuthority)]).add someBrowser someAuthority "client:alpha-1"
      "send exactly once" none somePrompt 100).2 someSteps).storage).1 = .ok current ∧
      ∃ entry ∈ current, entry.clientMsgId = "client:alpha-1" ∧ entry.submission = somePrompt := by
  obtain ⟨hReturns, hGiven, -⟩ := submission_returned_iff [(someBrowser, .activateAuthority someAuthority)] someSteps someBrowser someAuthority
    "client:alpha-1" "send exactly once" none somePrompt 100 (by decide +kernel) ⟨id, id, id, id, id, trivial⟩ (by
      intro input hInput
      simp only [someSteps, mem_cons, not_mem_nil, or_false] at hInput
      rcases hInput with rfl | rfl | rfl | rfl | rfl
      · exact id
      · exact id
      · exact id
      · exact fun hOther => hOther rfl
      · exact id)
  obtain ⟨current, hCurrent⟩ := hReturns someBrowser rfl fun _ => rfl
  obtain ⟨⟨entry, hMem, hMessage⟩, hSame⟩ := hGiven someBrowser current hCurrent
  exact ⟨current, hCurrent, entry, hMem, hMessage, (hSame entry hMem hMessage).mpr rfl⟩

/-- A prompt that was to run in the cloud comes back without its target. -/
theorem executionTarget_lost :
    ((run step {} [(someBrowser, .activateAuthority someAuthority)]).add someBrowser someAuthority "client:alpha-1" "send exactly once" none
      { somePrompt with executionTarget := some .cloud } 100).1.durable = true ∧
      ((activate someBrowser someAuthority ((run step {} [(someBrowser, .activateAuthority someAuthority)]).add someBrowser someAuthority
        "client:alpha-1" "send exactly once" none { somePrompt with executionTarget := some .cloud } 100).2.storage).1.toOption.map
          fun current => current.map PendingPrompt.toPersistedPendingPrompt |>.map PersistedPendingPrompt.submission) = some [somePrompt] := by
  decide +kernel

end Stella.Outbox
