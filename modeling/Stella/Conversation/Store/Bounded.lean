import Stella.Conversation.Store.Contiguous

/-! # The view knows what it dropped

The view holds a bounded number of rows, and it stops offering older ones only where there
are none that it could still take.
-/

namespace Stella.Conversation.ConversationStore

open Transition

structure Viewing where
  store : ConversationStore
  lowest : Option Int → Int := fun _ => 0

inductive ViewingInput
  | view (input : StoreInput)
  | trim (epoch : Option Int) (seq : Int)

def Viewing.step (w : Viewing) : ViewingInput → Viewing
  | .view input => { w with store := w.store.step input }
  | .trim epoch seq => { w with lowest := fun other => if other = epoch then max (w.lowest other) seq else w.lowest other }

def belowOldest (view : ConversationState) (page : List JournalRecord) : List JournalRecord :=
  match view.records.head? with
  | some oldest => page.filter (fun record => record.position < oldest.position)
  | none => page

def ReachesStart (lowest : Int) (view : ConversationState) : Prop :=
  ∃ oldest, view.records.head? = some oldest ∧ (oldest.position ≤ view.floorSeq ∨ oldest.position ≤ lowest)

def Fits (w : Viewing) : ViewingInput → Prop
  | .view (.cacheRead (some cached)) => ∃ authority value, decodeSnapshot authority value = some cached
  | .view (.event (.older records complete fromSeq toSeq) _) =>
    w.store.Splices records ⟨complete, fromSeq, toSeq⟩ →
      let below := belowOldest w.store.state (w.store.earlierRecords ⟨complete, fromSeq, toSeq⟩ ++ records)
      below.length + w.store.state.records.length ≤ maxClientRecords ∧
        (below = [] → w.store.state.records = [] ∨ ReachesStart (w.lowest w.store.state.epoch) w.store.state)
  | _ => True

def Exhausted (lowest : Int) (view : ConversationState) : Prop :=
  view.records = [] ∨ ReachesStart lowest view ∨ olderWouldExceedRetainedLimit view.records = true

structure Bounded (lowest : Option Int → Int) (s : ConversationStore) : Prop where
  length : s.state.records.length ≤ maxClientRecords
  exhausted : s.state.hasOlder = false → Exhausted (lowest s.state.epoch) s.state

variable {records : List JournalRecord}

theorem decodeEntries_length {entries : List (Option JournalRecord)} {decoded : List JournalRecord}
    (h : decodeEntries entries records = some decoded) : decoded.length = records.length + entries.length := by
  induction entries generalizing records with
  | nil => rw [Option.some.inj h, List.length_nil, Nat.add_zero]
  | cons entry rest ih =>
    cases entry with
    | none => cases h
    | some record =>
      rw [decodeEntries] at h
      split at h
      · cases h
      · rw [ih h, List.length_append, List.length_singleton, List.length_cons]
        omega

theorem decodeSnapshot_length {authority : CloudConversationCacheAuthority} {value : CloudConversationCacheSnapshot}
    {cached : RenderableSnapshot} (h : decodeSnapshot authority value = some cached) :
    cached.records.length ≤ maxCloudConversationCacheRecords := by
  unfold decodeSnapshot at h
  split at h
  · cases h
  · rename_i hValid
    split at h
    · split at h
      · cases h
      · rename_i records hDecoded
        split at h
        · split at h
          · cases h
          · rw [← Option.some.inj h]
            have hLen := decodeEntries_length hDecoded
            rw [List.length_nil, Nat.zero_add] at hLen
            rw [hLen]
            by_contra hOver
            exact hValid (.inr (.inr (.inr (.inr (.inr (not_le.mp hOver))))))
        · cases h
    · cases h

variable {view : ConversationState} {page : List JournalRecord}

theorem prependOlderRecords_eq : prependOlderRecords view page =
    match (belowOldest view page).insertionSort (fun a b => a.position ≤ b.position) with
    | [] => none
    | first :: rest => some ((first :: rest) ++ view.records, decide (view.floorSeq < first.position)) := rfl

theorem prependOlderRecords_length {hasOlder : Bool}
    (h : prependOlderRecords view page = some (records, hasOlder)) :
    records.length = (belowOldest view page).length + view.records.length ∧
      ∃ oldest, records.head? = some oldest ∧ hasOlder = decide (view.floorSeq < oldest.position) := by
  rw [prependOlderRecords_eq] at h
  have hLen := List.length_insertionSort (fun a b : JournalRecord => a.position ≤ b.position) (belowOldest view page)
  split at h
  · cases h
  · rename_i first rest hSort
    obtain ⟨rfl, rfl⟩ := Prod.mk.inj (Option.some.inj h)
    rw [hSort] at hLen
    exact ⟨by rw [List.length_append, hLen], first, rfl, rfl⟩

theorem prependOlderRecords_none (h : prependOlderRecords view page = none) :
    belowOldest view page = [] := by
  rw [prependOlderRecords_eq] at h
  have hLen := List.length_insertionSort (fun a b : JournalRecord => a.position ≤ b.position) (belowOldest view page)
  split at h
  · rename_i hSort
    rw [hSort] at hLen
    exact List.eq_nil_of_length_eq_zero hLen.symm
  · cases h

theorem appendJournalRecords_bounded {incoming : List JournalRecord} {replaceRetained : Bool}
    {appended : AppendedRecords} (h : appendJournalRecords view incoming replaceRetained = some appended) :
    appended.records.length ≤ maxClientRecords ∧
      (appended.hasOlder = false → appended.records = [] ∨
        ∃ oldest, appended.records.head? = some oldest ∧ oldest.position ≤ view.floorSeq) := by
  unfold appendJournalRecords at h
  dsimp only at h
  generalize maxClientRecords = bound at h ⊢
  split at h
  · cases h
  · rw [← Option.some.inj h]
    refine ⟨?_, fun hNone => ?_⟩
    · rw [List.length_drop]
      omega
    · have hAny := (Bool.or_eq_false_iff.mp hNone).2
      dsimp only
      generalize List.drop _ _ = rows at hAny ⊢
      cases rows with
      | nil => exact .inl rfl
      | cons oldest rest => exact .inr ⟨oldest, rfl, by simpa using hAny⟩

namespace Bounded

variable {lowest : Option Int → Int} {s later : ConversationStore}

theorem of (h : s.Bounded lowest) (hRecs : later.state.records = s.state.records) (hFloor : later.state.floorSeq = s.state.floorSeq)
    (hEpoch : later.state.epoch = s.state.epoch) (hOlder : later.state.hasOlder = s.state.hasOlder ∨ later.state.hasOlder = true) :
    later.Bounded lowest where
  length := hRecs ▸ h.length
  exhausted hNone := by
    unfold Exhausted ReachesStart
    rw [hRecs, hFloor, hEpoch]
    rcases hOlder with hEq | hSome
    · exact h.exhausted (hEq ▸ hNone)
    · exact absurd (hNone.symm.trans hSome) Bool.false_ne_true

theorem empty (hRecs : later.state.records = []) : later.Bounded lowest where
  length := by
    rw [hRecs]
    exact Nat.zero_le _
  exhausted _ := .inl hRecs

theorem rebuilt (hLen : later.state.records.length ≤ maxClientRecords)
    (hOlder : later.state.hasOlder = false → later.state.records = [] ∨
      ∃ oldest, later.state.records.head? = some oldest ∧ oldest.position ≤ later.state.floorSeq) : later.Bounded lowest where
  length := hLen
  exhausted hNone := by
    rcases hOlder hNone with hEmpty | ⟨oldest, hHead, hFloor⟩
    · exact .inl hEmpty
    · exact .inr (.inl ⟨oldest, hHead, .inl hFloor⟩)

theorem head_of_getD {records : List JournalRecord} {fallback floor : Int}
    (h : decide (floor < (records.head?.map JournalRecord.position).getD fallback) = false) :
    records = [] ∨ ∃ oldest, records.head? = some oldest ∧ oldest.position ≤ floor := by
  cases records with
  | nil => exact .inl rfl
  | cons oldest rest => exact .inr ⟨oldest, rfl, not_lt.mp (of_decide_eq_false h)⟩

section

variable (h : s.Bounded lowest)
include h

theorem trim {later : Option Int → Int} (hLater : ∀ epoch, lowest epoch ≤ later epoch) : s.Bounded later where
  length := h.length
  exhausted hNone := by
    rcases h.exhausted hNone with hEmpty | ⟨oldest, hHead, hStart⟩ | hLimit
    · exact .inl hEmpty
    · exact .inr (.inl ⟨oldest, hHead, hStart.imp_right fun hLowest => hLowest.trans (hLater _)⟩)
    · exact .inr (.inr hLimit)

theorem ensureSocket : s.ensureSocket.Bounded lowest := by
  unfold ConversationStore.ensureSocket
  split
  · exact h
  · exact h.of rfl rfl rfl (.inl rfl)

theorem onStatus (status : SocketStatus) (message : Option String) (retryable : Bool) :
    (s.onStatus status message retryable).Bounded lowest := by
  unfold ConversationStore.onStatus
  dsimp only
  split
  · exact h
  split
  · exact empty rfl
  split
  · exact h.of rfl rfl rfl (.inl rfl)
  · exact h.of rfl rfl rfl (.inl rfl)

theorem onReady (ready : ReadyFrame) : (s.onReady ready).Bounded lowest := by
  unfold ConversationStore.onReady
  dsimp only
  split
  · exact empty rfl
  · exact rebuilt h.length head_of_getD

theorem appendRecords (incoming : List JournalRecord) : (s.appendRecords incoming).Bounded lowest := by
  unfold ConversationStore.appendRecords
  split
  · exact h
  · rename_i appended hAppended
    obtain ⟨hLen, hOlder⟩ := appendJournalRecords_bounded hAppended
    exact rebuilt hLen hOlder

theorem requestOlderRemainder (attempt : Nat) (accepted : Bool) :
    (s.requestOlderRemainder attempt accepted).Bounded lowest := by
  unfold ConversationStore.requestOlderRemainder
  split
  · exact h
  split
  · exact h.of rfl rfl rfl (.inl rfl)
  split
  · exact h.of rfl rfl rfl (.inl rfl)
  · exact h.of rfl rfl rfl (.inr rfl)

theorem splicePage {page : List JournalRecord}
    (hFits : (belowOldest s.state page).length + s.state.records.length ≤ maxClientRecords)
    (hStart : belowOldest s.state page = [] → s.state.records = [] ∨ ReachesStart (lowest s.state.epoch) s.state) :
    (s.splicePage page).Bounded lowest := by
  unfold ConversationStore.splicePage
  split
  · rename_i hPre
    refine ⟨h.length, fun _ => ?_⟩
    rcases hStart (prependOlderRecords_none hPre) with hEmpty | hReaches
    · exact .inl hEmpty
    · exact .inr (.inl hReaches)
  · rename_i records hasOlder hPre
    obtain ⟨hLen, oldest, hHead, rfl⟩ := prependOlderRecords_length hPre
    exact rebuilt (hLen.trans_le hFits) fun hNone => .inr ⟨oldest, hHead, not_lt.mp (of_decide_eq_false hNone)⟩

theorem prependRecords (incoming : List JournalRecord) (range : OlderRange) (accepted : Bool)
    (hFits : s.Splices incoming range →
      (belowOldest s.state (s.earlierRecords range ++ incoming)).length + s.state.records.length ≤ maxClientRecords ∧
        (belowOldest s.state (s.earlierRecords range ++ incoming) = [] →
          s.state.records = [] ∨ ReachesStart (lowest s.state.epoch) s.state)) :
    (s.prependRecords incoming range accepted).Bounded lowest := by
  unfold ConversationStore.prependRecords
  split
  · exact h
  rename_i hExpected
  split
  · exact h.of rfl rfl rfl (.inl rfl)
  rename_i hVerified
  split
  · rename_i cut _
    have hKept : Bounded lowest { s with olderTimer := false, olderPartial := some cut, olderRetryTimer := none } :=
      h.of rfl rfl rfl (.inl rfl)
    exact hKept.requestOlderRemainder 0 accepted
  · rename_i hWhole
    dsimp only
    have hSt : (if s.continuesPartial range = true then { s with olderTimer := false }.dropOlderPartial
        else { s with olderTimer := false }).state = s.state := by
      split
      · rfl
      · rfl
    generalize (if s.continuesPartial range = true then { s with olderTimer := false }.dropOlderPartial
      else { s with olderTimer := false }) = base at hSt ⊢
    have hBase : Bounded lowest base := h.of (by rw [hSt]) (by rw [hSt]) (by rw [hSt]) (.inl (by rw [hSt]))
    split
    · exact hBase.of rfl rfl rfl (.inr rfl)
    · rename_i hCompl
      have hReaches : s.olderPartial = none ∨ s.continuesPartial range = true := by
        cases hPartial : s.olderPartial with
        | none => exact .inl rfl
        | some cut => exact .inr (by simpa [hPartial] using hExpected)
      obtain ⟨hLen, hStart⟩ := hFits ⟨hReaches, by simpa using hVerified, hWhole, by simpa using hCompl⟩
      exact hBase.splicePage (by rw [hSt]; exact hLen) (by rw [hSt]; exact hStart)

theorem hydrate (cached : Option RenderableSnapshot)
    (hCached : ∀ replica ∈ cached, replica.records.length ≤ maxClientRecords) : (s.hydrate cached).Bounded lowest := by
  cases cached with
  | none => exact h
  | some cached =>
    have hLen := hCached cached rfl
    unfold ConversationStore.hydrate
    dsimp only
    split
    · split
      · exact h.of rfl rfl rfl (.inl rfl)
      · exact h
    · split
      · split
        · exact h.of rfl rfl rfl (.inl rfl)
        · split
          · exact h
          · exact rebuilt hLen head_of_getD
      · exact rebuilt hLen head_of_getD

theorem onEvent (event : ConversationSocketEvent) (accepted : Bool)
    (hFits : Fits ⟨s, lowest⟩ (.view (.event event accepted))) : (s.onEvent event accepted).Bounded lowest := by
  unfold ConversationStore.onEvent
  split
  · exact h
  · cases event with
    | status status message retryable => exact h.onStatus status message retryable
    | ready ready => exact h.onReady ready
    | records records => exact h.appendRecords records
    | older records complete fromSeq toSeq => exact h.prependRecords records _ accepted hFits
    | reset reason => exact empty rfl
    | gap fromSeq toSeq => exact h.of rfl rfl rfl (.inr rfl)
    | tool frame => exact h.of rfl rfl rfl (.inl rfl)
    | agents => exact h

theorem stopSocket (announces : Bool) : (s.stopSocket announces).Bounded lowest := by
  unfold ConversationStore.stopSocket
  split
  · have hStopped : Bounded lowest (if announces = true then s.onEvent (.status .idle none true) false else s) := by
      split
      · exact h.onEvent _ _ trivial
      · exact h
    exact hStopped.of rfl rfl rfl (.inl rfl)
  · exact h

theorem cacheReadDone (cached : Option RenderableSnapshot)
    (hCached : ∀ replica ∈ cached, replica.records.length ≤ maxClientRecords) : (s.cacheReadDone cached).Bounded lowest := by
  unfold ConversationStore.cacheReadDone
  split
  · exact h
  · rename_i generation _
    have hApplied : Bounded lowest (s.applyCacheRead generation cached) := by
      unfold ConversationStore.applyCacheRead
      split
      · exact h.of rfl rfl rfl (.inl rfl)
      · have hHydrated : Bounded lowest { s with cacheRead := none, cacheHydrated := true } := h.of rfl rfl rfl (.inl rfl)
        exact hHydrated.hydrate cached hCached
    unfold ConversationStore.finishCacheRead
    split
    · have hHydrated : Bounded lowest { s.applyCacheRead generation cached with cacheHydrated := true } :=
        hApplied.of rfl rfl rfl (.inl rfl)
      exact hHydrated.ensureSocket
    · exact hApplied

theorem setConfig (baseUrl : Option String) (resolved announces : Bool) :
    (s.setConfig baseUrl resolved announces).Bounded lowest := by
  unfold ConversationStore.setConfig
  split
  · exact h
  · dsimp only
    split
    · exact empty rfl
    · unfold ConversationStore.changeBaseUrl
      split
      · exact h
      · refine Bounded.ensureSocket ?_
        unfold ConversationStore.replaceBaseUrl
        have hMoved : Bounded lowest { s with baseUrl := normalizeBaseUrl baseUrl } := h.of rfl rfl rfl (.inl rfl)
        dsimp only
        split
        · exact empty rfl
        · exact hMoved.stopSocket announces

theorem loadOlder (accepted : Bool) : (s.loadOlder accepted).Bounded lowest := by
  unfold ConversationStore.loadOlder
  split
  · exact h
  split
  · rename_i hEmpty
    exact empty (List.head?_eq_none_iff.mp hEmpty)
  · rename_i oldest hHead
    split
    · rename_i hFloor
      exact rebuilt h.length fun _ => .inr ⟨oldest, hHead, hFloor⟩
    split
    · rename_i hLimit
      exact ⟨h.length, fun _ => .inr (.inr hLimit)⟩
    · dsimp only
      split
      · exact h.of rfl rfl rfl (.inl rfl)
      · exact h.of rfl rfl rfl (.inl rfl)

theorem step (input : StoreInput) (hFits : Fits ⟨s, lowest⟩ (.view input)) :
    (s.step input).Bounded lowest := by
  cases input with
  | subscribe =>
    have hSubscribed : Bounded lowest { s with subscribers := s.subscribers + 1, teardownTimer := false } :=
      h.of rfl rfl rfl (.inl rfl)
    exact hSubscribed.ensureSocket
  | unsubscribe => exact h.of rfl rfl rfl (.inl rfl)
  | teardownTimer announces =>
    change Bounded lowest (s.fireTeardownTimer announces)
    unfold fireTeardownTimer
    split
    · exact h
    split
    · have hFired : Bounded lowest { s with teardownTimer := false } := h.of rfl rfl rfl (.inl rfl)
      exact (hFired.stopSocket announces).of rfl rfl rfl (.inl rfl)
    · exact h.of rfl rfl rfl (.inl rfl)
  | activateCache =>
    change Bounded lowest s.activateCache
    unfold activateCache
    split
    · exact h
    · exact h.of rfl rfl rfl (.inl rfl)
  | cacheRead cached =>
    refine h.cacheReadDone cached fun replica hReplica => ?_
    obtain rfl := Option.mem_def.mp hReplica
    obtain ⟨authority, value, hDecoded⟩ := hFits
    exact decodeSnapshot_length hDecoded
  | setConfig baseUrl resolved announces => exact h.setConfig baseUrl resolved announces
  | retireAuthority => exact empty rfl
  | loadOlder accepted => exact h.loadOlder accepted
  | olderTimer =>
    change Bounded lowest s.fireOlderTimer
    unfold fireOlderTimer
    split
    · exact h.of rfl rfl rfl (.inl rfl)
    · exact h
  | olderRetryTimer accepted =>
    change Bounded lowest (s.fireOlderRetryTimer accepted)
    unfold fireOlderRetryTimer
    split
    · exact h
    · rename_i attempt _
      have hFired : Bounded lowest { s with olderRetryTimer := none } := h.of rfl rfl rfl (.inl rfl)
      exact hFired.requestOlderRemainder attempt accepted
  | event event accepted =>
    change Bounded lowest (if s.socket.isSome then s.onEvent event accepted else s)
    split
    · exact h.onEvent event accepted hFits
    · exact h

end

end Bounded

theorem bounded_viewing {w : Viewing} (h : w.store.Bounded w.lowest) (input : ViewingInput) (hFits : Fits w input) :
    (w.step input).store.Bounded (w.step input).lowest := by
  cases input with
  | view input => exact h.step input hFits
  | trim epoch seq =>
    refine h.trim fun other => ?_
    dsimp only [Viewing.step]
    split
    · exact le_max_left _ _
    · exact le_rfl

def trimmedInputs : List ViewingInput :=
  (openedInputs ++
    [StoreInput.event (.ready ⟨1, 12, 10, 0, "", 0, 0, none⟩) false, .event (.records ([10, 11, 12].map skippedRow)) false,
      .loadOlder true, .event (.older ([4, 5, 6].map skippedRow) (some false) (some 4) (some 9)) true,
      .event (.older ([7, 8, 9].map skippedRow) (some true) (some 7) (some 9)) false]).map .view ++
    [.trim (some 1) 4, .view (.loadOlder true), .view (.event (.older [] (some true) (some 4) (some 3)) false)]

def grownInputs : List ViewingInput :=
  (openedInputs ++
    [StoreInput.event (.ready ⟨1, 2810, 10, 0, "", 0, 0, none⟩) false,
      .event (.records ((List.range 2801).map fun index => skippedRow (index + 10))) false, .loadOlder true]).map .view

end Stella.Conversation.ConversationStore
