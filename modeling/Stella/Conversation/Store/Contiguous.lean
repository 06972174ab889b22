import Stella.Library.Transition
import Stella.Conversation.Store.Model

/-! # The view renders no hole

The retained rows stay a run as long as every scrollback page that reaches the
splice ends at the row below the oldest retained one, or above it.
-/

namespace Stella.Conversation.ConversationStore

open Gapless Transition

structure Contiguous (s : ConversationStore) : Prop where
  records : Consecutive JournalRecord.position s.state.records
  cut : ∀ cut, s.olderPartial = some cut →
    ∃ start, RunFrom JournalRecord.position start cut.records ∧ start + cut.records.length = cut.nextSeq

/-- A reply that `prependRecords` hands to the splice. -/
def Splices (s : ConversationStore) (incoming : List JournalRecord) (range : OlderRange) : Prop :=
  (s.olderPartial = none ∨ s.continuesPartial range = true) ∧ s.cacheContainsUnverifiedRecords = false ∧
    s.cutPage incoming range = none ∧ olderRangeIsComplete incoming range = true

def KeepsJoins (s : ConversationStore) : StoreInput → Prop
  | .event (.records records) _ => Consecutive JournalRecord.position records
  | .event (.older records complete fromSeq toSeq) _ =>
    s.Splices records ⟨complete, fromSeq, toSeq⟩ → fromSeq.isSome ∧ ∃ last, toSeq = some last ∧
      ∀ oldest, s.state.records.head? = some oldest → oldest.position ≤ last + 1
  | _ => True

namespace Contiguous

variable {s : ConversationStore}

section

variable (h : s.Contiguous)
include h

theorem of {later : ConversationStore}
    (hRecs : later.state.records = s.state.records ∨ Consecutive JournalRecord.position later.state.records)
    (hCut : later.olderPartial = none ∨ later.olderPartial = s.olderPartial) : later.Contiguous where
  records := hRecs.elim (fun hEq => hEq ▸ h.records) id
  cut cut hSome := by
    rcases hCut with hNone | hEq
    · rw [hNone] at hSome
      cases hSome
    · exact h.cut cut (hEq ▸ hSome)

theorem ensureSocket : s.ensureSocket.Contiguous := by
  unfold ConversationStore.ensureSocket
  split
  · exact h
  · exact h.of (.inl rfl) (.inr rfl)

theorem onStatus (status : SocketStatus) (message : Option String) (retryable : Bool) :
    (s.onStatus status message retryable).Contiguous := by
  unfold ConversationStore.onStatus
  dsimp only
  split
  · exact h
  · split
    · exact h.of (.inr List.IsChain.nil) (.inr rfl)
    · split
      · exact h.of (.inl rfl) (.inr rfl)
      · exact h.of (.inl rfl) (.inr rfl)

theorem onReady (ready : ReadyFrame) : (s.onReady ready).Contiguous := by
  unfold ConversationStore.onReady
  dsimp only
  split
  · exact h.of (.inr List.IsChain.nil) (.inr rfl)
  · exact h.of (.inl rfl) (.inr rfl)

variable {incoming : List JournalRecord}

theorem appendRecords
    (hIncoming : Consecutive JournalRecord.position incoming) : (s.appendRecords incoming).Contiguous := by
  unfold ConversationStore.appendRecords
  split
  · exact h
  · rename_i appended hAppended
    exact h.of (.inr (appendJournalRecords_consecutive h.records hIncoming hAppended)) (.inr rfl)

theorem requestOlderRemainder (attempt : Nat) (accepted : Bool) :
    (s.requestOlderRemainder attempt accepted).Contiguous := by
  unfold ConversationStore.requestOlderRemainder
  split
  · exact h
  · split
    · exact h.of (.inl rfl) (.inr rfl)
    · split
      · exact h.of (.inl rfl) (.inr rfl)
      · exact h.of (.inl rfl) (.inl rfl)

variable {range : OlderRange}

theorem earlierRecords_append {fromSeq : Int}
    (hFrom : range.fromSeq = some fromSeq) (hRun : RunFrom JournalRecord.position fromSeq incoming) :
    ∃ start, RunFrom JournalRecord.position start (s.earlierRecords range ++ incoming) ∧
      start + (s.earlierRecords range ++ incoming).length = fromSeq + incoming.length := by
  unfold earlierRecords
  split
  · rename_i hContinues
    unfold continuesPartial at hContinues
    cases hPartial : s.olderPartial with
    | none =>
      rw [hPartial] at hContinues
      cases hContinues
    | some cut =>
      rw [hPartial, Option.any_some, decide_eq_true_eq] at hContinues
      obtain ⟨start, hStart, hEnd⟩ := h.cut cut hPartial
      have hNext : cut.nextSeq = fromSeq := Option.some.inj (hContinues.1.symm.trans hFrom)
      refine ⟨start, (runFrom_append _ _ _).mpr ⟨hStart, ?_⟩, ?_⟩
      · rw [Option.map_some, Option.getD_some, hEnd, hNext]
        exact hRun
      · rw [Option.map_some, Option.getD_some, List.length_append]
        omega
  · exact ⟨fromSeq, hRun, rfl⟩

theorem cutPage {cut : OlderPartial}
    (hCut : s.cutPage incoming range = some cut) :
    ∃ start, RunFrom JournalRecord.position start cut.records ∧ start + cut.records.length = cut.nextSeq := by
  unfold ConversationStore.cutPage at hCut
  split at hCut
  · rename_i fromSeq toSeq last hCompl hFrom hTo hLast
    split at hCut
    · rename_i hCounts
      obtain rfl := (Option.some.inj hCut).symm
      have hRun := (countsFrom_iff _ _).mp hCounts.1
      obtain ⟨start, hPage, hEnd⟩ := h.earlierRecords_append hFrom hRun
      have hIncoming : incoming ≠ [] := by
        rintro rfl
        cases hLast
      have hKey := hRun.key_getLast hIncoming
      rw [List.getLast?_eq_some_getLast hIncoming] at hLast
      rw [Option.some.inj hLast] at hKey
      refine ⟨start, hPage, hEnd.trans ?_⟩
      change fromSeq + (incoming.length : Int) = last.position + 1
      omega
    · cases hCut
  · cases hCut

theorem splicePage {page : List JournalRecord} {start : Int}
    (hPage : RunFrom JournalRecord.position start page)
    (hJoins : ∀ oldest, s.state.records.head? = some oldest → oldest.position ≤ start + page.length) :
    (s.splicePage page).Contiguous := by
  unfold ConversationStore.splicePage
  split
  · exact h.of (.inl rfl) (.inr rfl)
  · rename_i records hasOlder hPre
    exact h.of (.inr (prependOlderRecords_consecutive h.records hPage hJoins hPre)) (.inr rfl)

theorem prependRecords (incoming : List JournalRecord) (range : OlderRange) (accepted : Bool)
    (hJoins : s.Splices incoming range → range.fromSeq.isSome ∧ ∃ last, range.toSeq = some last ∧
      ∀ oldest, s.state.records.head? = some oldest → oldest.position ≤ last + 1) :
    (s.prependRecords incoming range accepted).Contiguous := by
  unfold ConversationStore.prependRecords
  split
  · exact h
  · rename_i hExpected
    split
    · exact h.of (.inl rfl) (.inl rfl)
    · rename_i hVerified
      split
      · rename_i cut hCut
        have hKept : { s with olderTimer := false, olderPartial := some cut, olderRetryTimer := none }.Contiguous := by
          refine ⟨h.records, fun other hOther => ?_⟩
          obtain rfl := Option.some.inj hOther
          exact h.cutPage hCut
        exact hKept.requestOlderRemainder 0 accepted
      · rename_i hWhole
        dsimp only
        have hBase : (if s.continuesPartial range = true then { s with olderTimer := false }.dropOlderPartial
            else { s with olderTimer := false }).Contiguous ∧
            (if s.continuesPartial range = true then { s with olderTimer := false }.dropOlderPartial
              else { s with olderTimer := false }).state = s.state := by
          split
          · exact ⟨h.of (.inl rfl) (.inl rfl), rfl⟩
          · exact ⟨h.of (.inl rfl) (.inr rfl), rfl⟩
        generalize (if s.continuesPartial range = true then { s with olderTimer := false }.dropOlderPartial
          else { s with olderTimer := false }) = base at hBase ⊢
        obtain ⟨hBase, hSt⟩ := hBase
        split
        · exact hBase.of (.inl rfl) (.inr rfl)
        · rename_i hCompl
          have hRng : olderRangeIsComplete incoming range = true := by simpa using hCompl
          have hReaches : s.olderPartial = none ∨ s.continuesPartial range = true := by
            cases hPartial : s.olderPartial with
            | none => exact .inl rfl
            | some cut => exact .inr (by simpa [hPartial] using hExpected)
          obtain ⟨hFromSome, last, hTo, hOldest⟩ := hJoins ⟨hReaches, by simpa using hVerified, hWhole, hRng⟩
          obtain ⟨fromSeq, hFrom⟩ := Option.isSome_iff_exists.mp hFromSome
          obtain ⟨hRun, hEnd⟩ := runFrom_of_olderRangeIsComplete hRng hFrom hTo
          obtain ⟨start, hPage, hPageEnd⟩ := h.earlierRecords_append hFrom hRun
          refine hBase.splicePage hPage (fun oldest hHead => ?_)
          have hReach := hOldest oldest (hSt ▸ hHead)
          omega

theorem onEvent (event : ConversationSocketEvent) (accepted : Bool)
    (hKeeps : KeepsJoins s (.event event accepted)) : (s.onEvent event accepted).Contiguous := by
  unfold ConversationStore.onEvent
  split
  · exact h
  · cases event with
    | status status message retryable => exact h.onStatus status message retryable
    | ready ready => exact h.onReady ready
    | records records => exact h.appendRecords hKeeps
    | older records complete fromSeq toSeq => exact h.prependRecords records _ accepted hKeeps
    | reset reason => exact h.of (.inr List.IsChain.nil) (.inl rfl)
    | gap fromSeq toSeq => exact h.of (.inl rfl) (.inr rfl)
    | tool frame => exact h.of (.inl rfl) (.inr rfl)
    | agents => exact h

theorem stopSocket (announces : Bool) : (s.stopSocket announces).Contiguous := by
  unfold ConversationStore.stopSocket
  split
  · have hStopped : (if announces = true then s.onEvent (.status .idle none true) false else s).Contiguous := by
      split
      · exact h.onEvent _ _ trivial
      · exact h
    exact hStopped.of (.inl rfl) (.inr rfl)
  · exact h

theorem hydrate (cached : Option RenderableSnapshot) : (s.hydrate cached).Contiguous := by
  cases cached with
  | none => exact h
  | some cached =>
    unfold ConversationStore.hydrate
    dsimp only
    split
    · split
      · exact h.of (.inl rfl) (.inr rfl)
      · exact h
    · split
      · split
        · exact h.of (.inl rfl) (.inr rfl)
        · split
          · exact h
          · exact h.of (.inr cached.consecutive) (.inr rfl)
      · exact h.of (.inr cached.consecutive) (.inr rfl)

theorem applyCacheRead (generation : Nat) (cached : Option RenderableSnapshot) :
    (s.applyCacheRead generation cached).Contiguous := by
  unfold ConversationStore.applyCacheRead
  split
  · exact h.of (.inl rfl) (.inr rfl)
  · have hHydrated : ({ s with cacheRead := none, cacheHydrated := true }).Contiguous := h.of (.inl rfl) (.inr rfl)
    exact hHydrated.hydrate cached

theorem finishCacheRead (generation : Nat) : (s.finishCacheRead generation).Contiguous := by
  unfold ConversationStore.finishCacheRead
  split
  · have hHydrated : ({ s with cacheHydrated := true }).Contiguous := h.of (.inl rfl) (.inr rfl)
    exact hHydrated.ensureSocket
  · exact h

theorem cacheReadDone (cached : Option RenderableSnapshot) : (s.cacheReadDone cached).Contiguous := by
  unfold ConversationStore.cacheReadDone
  split
  · exact h
  · exact (h.applyCacheRead _ cached).finishCacheRead _

theorem replaceBaseUrl (next : Option String) (announces : Bool) :
    (s.replaceBaseUrl next announces).Contiguous := by
  unfold ConversationStore.replaceBaseUrl
  have hMoved : ({ s with baseUrl := next }).Contiguous := h.of (.inl rfl) (.inr rfl)
  have hStopped := hMoved.stopSocket announces
  dsimp only
  split
  · exact hStopped.of (.inr List.IsChain.nil) (.inr rfl)
  · exact hStopped

theorem changeBaseUrl (next : Option String) (announces : Bool) :
    (s.changeBaseUrl next announces).Contiguous := by
  unfold ConversationStore.changeBaseUrl
  split
  · exact h
  · exact (h.replaceBaseUrl next announces).ensureSocket

theorem setConfig (baseUrl : Option String) (resolved announces : Bool) :
    (s.setConfig baseUrl resolved announces).Contiguous := by
  unfold ConversationStore.setConfig
  split
  · exact h
  · dsimp only
    have hChanged := h.changeBaseUrl (normalizeBaseUrl baseUrl) announces
    split
    · exact hChanged.of (.inr List.IsChain.nil) (.inr rfl)
    · exact hChanged

theorem loadOlder (accepted : Bool) : (s.loadOlder accepted).Contiguous := by
  unfold ConversationStore.loadOlder
  split
  · exact h
  · split
    · exact h.of (.inl rfl) (.inr rfl)
    · split
      · exact h.of (.inl rfl) (.inr rfl)
      · split
        · exact h.of (.inl rfl) (.inr rfl)
        · dsimp only
          split
          · exact h.of (.inl rfl) (.inl rfl)
          · exact h.of (.inl rfl) (.inl rfl)

theorem step (input : StoreInput) (hKeeps : KeepsJoins s input) : (s.step input).Contiguous := by
  cases input with
  | subscribe =>
    have hSubscribed : ({ s with subscribers := s.subscribers + 1, teardownTimer := false }).Contiguous :=
      h.of (.inl rfl) (.inr rfl)
    exact hSubscribed.ensureSocket
  | unsubscribe => exact h.of (.inl rfl) (.inr rfl)
  | teardownTimer announces =>
    change (s.fireTeardownTimer announces).Contiguous
    unfold fireTeardownTimer
    split
    · exact h
    · split
      · have hFired : ({ s with teardownTimer := false }).Contiguous := h.of (.inl rfl) (.inr rfl)
        exact (hFired.stopSocket announces).of (.inl rfl) (.inl rfl)
      · exact h.of (.inl rfl) (.inr rfl)
  | activateCache =>
    change s.activateCache.Contiguous
    unfold activateCache
    split
    · exact h
    · exact h.of (.inl rfl) (.inr rfl)
  | cacheRead cached => exact h.cacheReadDone cached
  | setConfig baseUrl resolved announces => exact h.setConfig baseUrl resolved announces
  | retireAuthority => exact h.of (.inr List.IsChain.nil) (.inl rfl)
  | loadOlder accepted => exact h.loadOlder accepted
  | olderTimer =>
    change s.fireOlderTimer.Contiguous
    unfold fireOlderTimer
    split
    · exact h.of (.inl rfl) (.inl rfl)
    · exact h
  | olderRetryTimer accepted =>
    change (s.fireOlderRetryTimer accepted).Contiguous
    unfold fireOlderRetryTimer
    split
    · exact h
    · rename_i attempt _
      have hFired : ({ s with olderRetryTimer := none }).Contiguous := h.of (.inl rfl) (.inr rfl)
      exact hFired.requestOlderRemainder attempt accepted
  | event event accepted =>
    change (if s.socket.isSome then s.onEvent event accepted else s).Contiguous
    split
    · exact h.onEvent event accepted hKeeps
    · exact h

end

end Contiguous

theorem create_contiguous (conversationId : String) : (create conversationId).Contiguous :=
  ⟨List.IsChain.nil, by rintro _ ⟨⟩⟩

theorem records_consecutive (conversationId : String) (inputs : List StoreInput)
    (hRun : Along step KeepsJoins (create conversationId) inputs) :
    Consecutive JournalRecord.position (run step (create conversationId) inputs).state.records :=
  (run_invariant (fun _ input hContiguous hKeeps => hContiguous.step input hKeeps)
    (create_contiguous conversationId) hRun).records

def openedInputs : List StoreInput :=
  [.setConfig (some "https://builder") true false, .activateCache, .cacheRead none, .subscribe]

/-- The window opens at 10; the page `0..9` comes in two replies. -/
def pagedInputs : List StoreInput :=
  openedInputs ++
    [.event (.ready ⟨1, 12, 10, 0, "", 0, 0, none⟩) false, .event (.records ([10, 11, 12].map skippedRow)) false,
      .loadOlder true, .event (.older ([0, 1, 2, 3].map skippedRow) (some false) (some 0) (some 9)) true,
      .event (.older ([4, 5, 6, 7, 8, 9].map skippedRow) (some true) (some 4) (some 9)) false]

theorem records_consecutive_pagedRun :
    (run step (create "conversation") pagedInputs).state.records.map JournalRecord.seq = List.range 13 ∧
      Consecutive JournalRecord.position (run step (create "conversation") pagedInputs).state.records := by
  refine ⟨by decide, records_consecutive "conversation" pagedInputs ?_⟩
  refine ⟨trivial, trivial, trivial, trivial, trivial, ?_, trivial, ?_, ?_, trivial⟩
  · exact runFrom_consecutive (s := 10) (by decide)
  · rintro -
    refine ⟨rfl, 9, rfl, fun oldest hHead => ?_⟩
    obtain rfl := Option.some.inj hHead
    decide
  · rintro -
    refine ⟨rfl, 9, rfl, fun oldest hHead => ?_⟩
    obtain rfl := Option.some.inj hHead
    decide

def restartedInputs : List StoreInput :=
  openedInputs ++
    [.event (.ready ⟨1, 7, 5, 0, "", 0, 0, none⟩) false, .event (.records [skippedRow 5]) false, .unsubscribe,
      .teardownTimer true, .subscribe, .event (.ready ⟨1, 7, 8, 0, "", 0, 0, none⟩) false, .loadOlder true,
      .event (.records [skippedRow 8]) false,
      .event (.older ([0, 1, 2, 3, 4].map skippedRow) (some true) (some 0) (some 4)) false]

theorem restartedRun_not_consecutive :
    (run step (create "conversation") restartedInputs).state.records.map JournalRecord.seq = [0, 1, 2, 3, 4, 8] ∧
      ¬ Consecutive JournalRecord.position (run step (create "conversation") restartedInputs).state.records :=
  ⟨by decide, by decide⟩

end Stella.Conversation.ConversationStore
