import Stella.Conversation.Store.Contiguous

/-! # The cursor a store resumes from

A new socket is told that the view reaches `headSeq`. It does, as long as no
socket is let go, and no cached window swapped in, while rows that `ready`
announced are still to come.
-/

namespace Stella.Conversation.ConversationStore

open Gapless Transition

def ReachesHead (state : ConversationState) : Prop :=
  (∀ last, state.records.getLast? = some last → last.position = state.headSeq) ∧
    (state.records = [] → state.headSeq < state.floorSeq)

def HoldsCursor (socket : StoreSocket) : Prop :=
  ∀ cursor, socket.initialCursor = some cursor →
    (∀ last, socket.view.records.getLast? = some last → cursor.lastSeq = last.position) ∧
      (socket.view.records = [] → cursor.lastSeq < socket.view.floorSeq) ∧
      ∀ oldest, socket.view.records.head? = some oldest → ∀ seq, oldest.position ≤ seq → seq ≤ cursor.lastSeq →
        ∃ record ∈ socket.view.records, record.position = seq

/-- Every socket was built over a view that holds its cursor, and a view without a socket is ready for one. -/
structure Resumable (s : ConversationStore) : Prop where
  built : ∀ socket, s.socket = some socket → HoldsCursor socket
  url : s.socket.isSome = true → s.baseUrl.isSome = true
  whole : s.socket = none → s.state.recordsSource = .cachedStale → s.state.epoch.isSome = true → ReachesHead s.state

def KeepsCursor (s : ConversationStore) (input : StoreInput) : Prop :=
  KeepsJoins s input ∧ match input with
    | .teardownTimer _ => s.teardownTimer = true → s.subscribers = 0 → s.state.recordsSource ≠ .none →
        s.state.epoch.isSome = true → ReachesHead s.state
    | .cacheRead (some cached) => s.cacheRead = some s.cacheGeneration → s.state.recordsSource ≠ .canonical →
        s.state.epoch.isSome = true → cached.records ≠ [] → s.state.headSeq ≤ cached.headSeq
    | _ => True

structure SameView (s later : ConversationStore) : Prop where
  records : later.state.records = s.state.records
  headSeq : later.state.headSeq = s.state.headSeq
  floorSeq : later.state.floorSeq = s.state.floorSeq
  epoch : later.state.epoch = s.state.epoch

theorem SameView.reachesHead {s later : ConversationStore} (h : SameView s later) (hReaches : ReachesHead s.state) :
    ReachesHead later.state := by
  unfold ReachesHead
  rw [h.records, h.headSeq, h.floorSeq]
  exact hReaches

variable {state : ConversationState}

theorem holdsCursor_of_reachesHead
    (hRecs : Consecutive JournalRecord.position state.records) (hReaches : ReachesHead state) :
    HoldsCursor ⟨initialCursor state, state⟩ := by
  intro cursor hCursor
  have hLast : cursor.lastSeq = state.headSeq := by
    change initialCursor state = some cursor at hCursor
    unfold initialCursor at hCursor
    split at hCursor
    · obtain ⟨epoch, -, rfl⟩ := Option.map_eq_some_iff.mp hCursor
      rfl
    · cases hCursor
  rw [hLast]
  refine ⟨fun last hEnd => (hReaches.1 last hEnd).symm, hReaches.2, fun oldest hHead seq hFrom hTo => ?_⟩
  change state.records.head? = some oldest at hHead
  change ∃ record ∈ state.records, record.position = seq
  cases hRows : state.records with
  | nil =>
    rw [hRows] at hHead
    cases hHead
  | cons first rest =>
    rw [hRows] at hHead hRecs
    obtain rfl := Option.some.inj hHead
    have hRun := hRecs.runFrom_head
    have hEnd := hReaches.1 ((first :: rest).getLast (List.cons_ne_nil _ _))
      (by rw [hRows, List.getLast?_eq_some_getLast])
    have hKey := hRun.key_getLast (List.cons_ne_nil _ _)
    exact hRun.exists_key hFrom (by omega)

theorem initialCursor_eq_none
    (h : ¬ (state.recordsSource = .cachedStale ∧ state.epoch.isSome = true)) : initialCursor state = none := by
  unfold initialCursor
  split
  · rename_i hStale
    cases hEpoch : state.epoch with
    | none => rfl
    | some epoch => exact absurd ⟨hStale, by rw [hEpoch]; rfl⟩ h
  · rfl

section frame

variable (s : ConversationStore)

theorem onStatus_socket (status : SocketStatus) (message : Option String) (retryable : Bool) :
    (s.onStatus status message retryable).socket = s.socket ∧
      (s.onStatus status message retryable).baseUrl = s.baseUrl := by
  unfold onStatus
  dsimp only
  split
  · exact ⟨rfl, rfl⟩
  · split
    · exact ⟨rfl, rfl⟩
    · split <;> exact ⟨rfl, rfl⟩

theorem onReady_socket (ready : ReadyFrame) :
    (s.onReady ready).socket = s.socket ∧ (s.onReady ready).baseUrl = s.baseUrl := by
  unfold onReady
  dsimp only
  split <;> exact ⟨rfl, rfl⟩

theorem appendRecords_socket (incoming : List JournalRecord) :
    (s.appendRecords incoming).socket = s.socket ∧ (s.appendRecords incoming).baseUrl = s.baseUrl := by
  unfold appendRecords
  split <;> exact ⟨rfl, rfl⟩

theorem requestOlderRemainder_frame (attempt : Nat) (accepted : Bool) :
    (s.requestOlderRemainder attempt accepted).socket = s.socket ∧
      (s.requestOlderRemainder attempt accepted).baseUrl = s.baseUrl ∧
      SameView s (s.requestOlderRemainder attempt accepted) ∧
      (s.requestOlderRemainder attempt accepted).state.recordsSource = s.state.recordsSource := by
  unfold requestOlderRemainder
  split
  · exact ⟨rfl, rfl, ⟨rfl, rfl, rfl, rfl⟩, rfl⟩
  · split
    · exact ⟨rfl, rfl, ⟨rfl, rfl, rfl, rfl⟩, rfl⟩
    · split <;> exact ⟨rfl, rfl, ⟨rfl, rfl, rfl, rfl⟩, rfl⟩

theorem splicePage_socket (page : List JournalRecord) :
    (s.splicePage page).socket = s.socket ∧ (s.splicePage page).baseUrl = s.baseUrl := by
  unfold splicePage
  split <;> exact ⟨rfl, rfl⟩

theorem prependRecords_socket (incoming : List JournalRecord) (range : OlderRange) (accepted : Bool) :
    (s.prependRecords incoming range accepted).socket = s.socket ∧
      (s.prependRecords incoming range accepted).baseUrl = s.baseUrl := by
  unfold prependRecords
  split
  · exact ⟨rfl, rfl⟩
  · split
    · exact ⟨rfl, rfl⟩
    · split
      · rename_i cut _
        obtain ⟨hSock, hUrl, -, -⟩ := requestOlderRemainder_frame
          { s with olderTimer := false, olderPartial := some cut, olderRetryTimer := none } 0 accepted
        exact ⟨hSock, hUrl⟩
      · dsimp only
        have hBase : (if s.continuesPartial range = true then { s with olderTimer := false }.dropOlderPartial
            else { s with olderTimer := false }).socket = s.socket ∧
            (if s.continuesPartial range = true then { s with olderTimer := false }.dropOlderPartial
              else { s with olderTimer := false }).baseUrl = s.baseUrl := by
          split <;> exact ⟨rfl, rfl⟩
        generalize (if s.continuesPartial range = true then { s with olderTimer := false }.dropOlderPartial
          else { s with olderTimer := false }) = base at hBase ⊢
        split
        · exact hBase
        · obtain ⟨hSock, hUrl⟩ := splicePage_socket base (s.earlierRecords range ++ incoming)
          exact ⟨hSock.trans hBase.1, hUrl.trans hBase.2⟩

theorem onEvent_socket (event : ConversationSocketEvent) (accepted : Bool) :
    (s.onEvent event accepted).socket = s.socket ∧ (s.onEvent event accepted).baseUrl = s.baseUrl := by
  unfold onEvent
  split
  · exact ⟨rfl, rfl⟩
  · cases event with
    | status status message retryable => exact s.onStatus_socket status message retryable
    | ready ready => exact s.onReady_socket ready
    | records records => exact s.appendRecords_socket records
    | older records complete fromSeq toSeq => exact s.prependRecords_socket records _ accepted
    | reset reason => exact ⟨rfl, rfl⟩
    | gap fromSeq toSeq => exact ⟨rfl, rfl⟩
    | tool frame => exact ⟨rfl, rfl⟩
    | agents => exact ⟨rfl, rfl⟩

theorem stopSocket_frame (announces : Bool) : (s.stopSocket announces).socket = none ∧
    (s.stopSocket announces).baseUrl = s.baseUrl ∧ SameView s (s.stopSocket announces) ∧
    ((s.stopSocket announces).state.recordsSource = .none ↔ s.state.recordsSource = .none) := by
  have hStat : SameView s (s.onStatus .idle none true) ∧
      ((s.onStatus .idle none true).state.recordsSource = .none ↔ s.state.recordsSource = .none) := by
    unfold onStatus
    dsimp only
    split
    · exact ⟨⟨rfl, rfl, rfl, rfl⟩, Iff.rfl⟩
    · split
      · rename_i hTerm
        exact absurd hTerm.1 (by decide)
      · split
        · exact ⟨⟨rfl, rfl, rfl, rfl⟩, Iff.rfl⟩
        · rename_i hSrc
          refine ⟨⟨rfl, rfl, rfl, rfl⟩, fun h => ?_, fun h => absurd (.inr h) hSrc⟩
          cases h
  unfold stopSocket
  split
  · split
    · unfold onEvent
      split
      · exact ⟨rfl, rfl, ⟨rfl, rfl, rfl, rfl⟩, Iff.rfl⟩
      · obtain ⟨hEq, hSrc⟩ := hStat
        exact ⟨rfl, (s.onStatus_socket .idle none true).2, ⟨hEq.records, hEq.headSeq, hEq.floorSeq, hEq.epoch⟩,
          hSrc⟩
    · exact ⟨rfl, rfl, ⟨rfl, rfl, rfl, rfl⟩, Iff.rfl⟩
  · rename_i hNone
    exact ⟨Option.not_isSome_iff_eq_none.mp hNone, rfl, ⟨rfl, rfl, rfl, rfl⟩, Iff.rfl⟩

end frame

namespace Resumable

variable {s : ConversationStore}

section

variable (h : s.Resumable)
include h

variable {later : ConversationStore}

theorem of (hSock : later.socket = s.socket)
    (hUrl : later.baseUrl = s.baseUrl)
    (hView : s.socket = none → later.state.recordsSource = .cachedStale → later.state.epoch.isSome = true →
      ReachesHead later.state) : later.Resumable where
  built socket hSome := h.built socket (hSock ▸ hSome)
  url hSome := hUrl ▸ h.url (hSock ▸ hSome)
  whole hNone := hView (hSock ▸ hNone)

theorem same (hSock : later.socket = s.socket)
    (hUrl : later.baseUrl = s.baseUrl) (hEq : SameView s later)
    (hSrc : later.state.recordsSource = s.state.recordsSource) : later.Resumable :=
  h.of hSock hUrl fun hNone hStale hEpoch =>
    hEq.reachesHead (h.whole hNone (hSrc ▸ hStale) (hEq.epoch ▸ hEpoch))

theorem ensureSocket (hContiguous : s.Contiguous) : s.ensureSocket.Resumable := by
  unfold ConversationStore.ensureSocket
  split
  · exact h
  · rename_i hBuilds
    have hNone : s.socket = none := by
      refine Option.not_isSome_iff_eq_none.mp (fun hSome => hBuilds (.inr (.inl hSome)))
    have hUrl : s.baseUrl.isSome = true := by
      cases hBase : s.baseUrl with
      | none => exact absurd (.inr (.inr (.inr (.inl (by rw [hBase]; rfl))))) hBuilds
      | some url => rfl
    refine ⟨fun socket hSome => ?_, fun _ => hUrl, fun hStill => by cases hStill⟩
    obtain rfl := Option.some.inj hSome
    by_cases hOffers : s.state.recordsSource = .cachedStale ∧ s.state.epoch.isSome = true
    · exact holdsCursor_of_reachesHead hContiguous.records (h.whole hNone hOffers.1 hOffers.2)
    · intro cursor hCursor
      change initialCursor s.state = some cursor at hCursor
      rw [initialCursor_eq_none hOffers] at hCursor
      cases hCursor

theorem onEvent (hSock : s.socket.isSome = true) (event : ConversationSocketEvent)
    (accepted : Bool) : (s.onEvent event accepted).Resumable := by
  obtain ⟨hEq, hUrl⟩ := s.onEvent_socket event accepted
  refine h.of hEq hUrl (fun hNone => ?_)
  rw [hNone] at hSock
  cases hSock

theorem hydrate (cached : Option RenderableSnapshot)
    (hKeeps : ∀ snapshot, cached = some snapshot → s.state.recordsSource ≠ .canonical → s.state.epoch.isSome = true →
      snapshot.records ≠ [] → s.state.headSeq ≤ snapshot.headSeq) : (s.hydrate cached).Resumable := by
  cases cached with
  | none => exact h
  | some cached =>
    have hRows : ∀ last, cached.records.getLast? = some last → last.position = cached.headSeq := by
      intro last hLast
      have hCompl := cached.complete
      unfold lastSeqOf at hCompl
      rwa [hLast] at hCompl
    unfold ConversationStore.hydrate
    dsimp only
    split
    · split
      · exact h.same rfl rfl ⟨rfl, rfl, rfl, rfl⟩ rfl
      · exact h
    · rename_i hSrc
      split
      · rename_i epoch hEpoch
        split
        · exact h.same rfl rfl ⟨rfl, rfl, rfl, rfl⟩ rfl
        · rename_i hCompatible
          split
          · exact h
          · rename_i hSome
            refine h.of rfl rfl (fun _ _ _ => ⟨fun last hLast => ?_, fun hEmpty => absurd hEmpty hSome⟩)
            have hBelow := hKeeps cached rfl hSrc (by rw [hEpoch]; rfl) hSome
            have hAbove : cached.headSeq ≤ s.state.headSeq :=
              Int.not_lt.mp (fun hLt => hCompatible (.inr (.inl hLt)))
            exact (hRows last hLast).trans (le_antisymm hAbove hBelow)
      · refine h.of rfl rfl (fun _ _ _ => ⟨hRows, fun hEmpty => ?_⟩)
        change cached.records = [] at hEmpty
        change cached.headSeq < cached.floorSeq
        have hCompl := cached.complete
        rw [hEmpty] at hCompl
        have hHead : cached.headSeq = -1 := hCompl.symm
        have hFloor := cached.floorSeq_nonneg
        omega

theorem applyCacheRead (generation : Nat) (cached : Option RenderableSnapshot)
    (hKeeps : generation = s.cacheGeneration → ∀ snapshot, cached = some snapshot → s.state.recordsSource ≠ .canonical →
      s.state.epoch.isSome = true → snapshot.records ≠ [] → s.state.headSeq ≤ snapshot.headSeq) :
    (s.applyCacheRead generation cached).Resumable := by
  unfold ConversationStore.applyCacheRead
  split
  · exact h.same rfl rfl ⟨rfl, rfl, rfl, rfl⟩ rfl
  · rename_i hCur
    have hHydrated : ({ s with cacheRead := none, cacheHydrated := true }).Resumable :=
      h.same rfl rfl ⟨rfl, rfl, rfl, rfl⟩ rfl
    exact hHydrated.hydrate cached (hKeeps (not_not.mp (fun hOld => hCur (.inr hOld))))

theorem finishCacheRead (hContiguous : s.Contiguous) (generation : Nat) :
    (s.finishCacheRead generation).Resumable := by
  unfold ConversationStore.finishCacheRead
  split
  · have hHydrated : ({ s with cacheHydrated := true }).Resumable := h.same rfl rfl ⟨rfl, rfl, rfl, rfl⟩ rfl
    exact hHydrated.ensureSocket (hContiguous.of (.inl rfl) (.inr rfl))
  · exact h

theorem replaceBaseUrl (next : Option String) (announces : Bool) :
    (s.replaceBaseUrl next announces).Resumable := by
  obtain ⟨hNone, -, hEq, hSrc⟩ := stopSocket_frame { s with baseUrl := next } announces
  unfold ConversationStore.replaceBaseUrl
  dsimp only
  split
  · refine ⟨fun socket hSome => ?_, fun hSome => ?_, fun _ hStale => by cases hStale⟩
    · change (({ s with baseUrl := next }).stopSocket announces).socket = some socket at hSome
      rw [hNone] at hSome
      cases hSome
    · change (({ s with baseUrl := next }).stopSocket announces).socket.isSome = true at hSome
      rw [hNone] at hSome
      cases hSome
  · rename_i hBase
    have hSock : s.socket = none := Option.not_isSome_iff_eq_none.mp (fun hSome => hBase (h.url hSome))
    have hIdle : ({ s with baseUrl := next }).stopSocket announces = { s with baseUrl := next } := by
      unfold stopSocket
      rw [if_neg]
      rw [hSock]
      exact Bool.false_ne_true
    rw [hIdle]
    refine ⟨h.built, fun hSome => ?_, h.whole⟩
    change s.socket.isSome = true at hSome
    rw [hSock] at hSome
    cases hSome

theorem setConfig (hContiguous : s.Contiguous) (baseUrl : Option String) (resolved announces : Bool) :
    (s.setConfig baseUrl resolved announces).Resumable := by
  unfold ConversationStore.setConfig
  split
  · exact h
  · dsimp only
    have hChanged : (s.changeBaseUrl (normalizeBaseUrl baseUrl) announces).Resumable := by
      unfold changeBaseUrl
      split
      · exact h
      · exact (h.replaceBaseUrl _ announces).ensureSocket (hContiguous.replaceBaseUrl _ announces)
    split
    · exact hChanged.of rfl rfl (fun _ hStale => by cases hStale)
    · exact hChanged

theorem loadOlder (accepted : Bool) : (s.loadOlder accepted).Resumable := by
  unfold ConversationStore.loadOlder
  split
  · exact h
  · split
    · exact h.same rfl rfl ⟨rfl, rfl, rfl, rfl⟩ rfl
    · split
      · exact h.same rfl rfl ⟨rfl, rfl, rfl, rfl⟩ rfl
      · split
        · exact h.same rfl rfl ⟨rfl, rfl, rfl, rfl⟩ rfl
        · dsimp only
          split
          · exact h.same rfl rfl ⟨rfl, rfl, rfl, rfl⟩ rfl
          · exact h.same rfl rfl ⟨rfl, rfl, rfl, rfl⟩ rfl

end

theorem teardown (hReaches : s.state.recordsSource ≠ .none → s.state.epoch.isSome = true → ReachesHead s.state)
    (announces : Bool) : (s.teardown announces).Resumable := by
  obtain ⟨hNone, -, hEq, hSrc⟩ := s.stopSocket_frame announces
  have hGone : (s.teardown announces).socket = none := hNone
  refine ⟨fun socket hSome => ?_, fun hSome => ?_, fun _ hStale hEpoch => ?_⟩
  · rw [hGone] at hSome
    cases hSome
  · rw [hGone] at hSome
    cases hSome
  · change (s.stopSocket announces).state.epoch.isSome = true at hEpoch
    rw [hEq.epoch] at hEpoch
    refine SameView.reachesHead (s := s) ⟨hEq.records, hEq.headSeq, hEq.floorSeq, hEq.epoch⟩ (hReaches ?_ hEpoch)
    intro hEmpty
    change (if (s.stopSocket announces).state.recordsSource = .none then RecordsSource.none else .cachedStale) =
      .cachedStale at hStale
    rw [if_pos (hSrc.mpr hEmpty)] at hStale
    cases hStale

theorem step (h : s.Resumable) (hContiguous : s.Contiguous) (input : StoreInput) (hKeeps : KeepsCursor s input) :
    (s.step input).Resumable := by
  cases input with
  | subscribe =>
    have hSubscribed : ({ s with subscribers := s.subscribers + 1, teardownTimer := false }).Resumable :=
      h.same rfl rfl ⟨rfl, rfl, rfl, rfl⟩ rfl
    exact hSubscribed.ensureSocket (hContiguous.of (.inl rfl) (.inr rfl))
  | unsubscribe => exact h.same rfl rfl ⟨rfl, rfl, rfl, rfl⟩ rfl
  | teardownTimer announces =>
    change (s.fireTeardownTimer announces).Resumable
    unfold fireTeardownTimer
    split
    · exact h
    · rename_i hArmed
      split
      · rename_i hUnwatched
        exact teardown (s := { s with teardownTimer := false })
          (hKeeps.2 (by simpa using hArmed) hUnwatched) announces
      · exact h.same rfl rfl ⟨rfl, rfl, rfl, rfl⟩ rfl
  | activateCache =>
    change s.activateCache.Resumable
    unfold activateCache
    split
    · exact h
    · exact h.same rfl rfl ⟨rfl, rfl, rfl, rfl⟩ rfl
  | cacheRead cached =>
    change (s.cacheReadDone cached).Resumable
    unfold cacheReadDone
    split
    · exact h
    · rename_i generation hRead
      refine (h.applyCacheRead generation cached (fun hCur snapshot hSome => ?_)).finishCacheRead
        (hContiguous.applyCacheRead generation cached) generation
      subst hSome
      exact hKeeps.2 (hCur ▸ hRead)
  | setConfig baseUrl resolved announces => exact h.setConfig hContiguous baseUrl resolved announces
  | retireAuthority =>
    refine ⟨fun socket hSome => ?_, fun hSome => ?_, fun _ hStale => ?_⟩
    · cases hSome
    · cases hSome
    · cases hStale
  | loadOlder accepted => exact h.loadOlder accepted
  | olderTimer =>
    change s.fireOlderTimer.Resumable
    unfold fireOlderTimer
    split
    · exact h.same rfl rfl ⟨rfl, rfl, rfl, rfl⟩ rfl
    · exact h
  | olderRetryTimer accepted =>
    change (s.fireOlderRetryTimer accepted).Resumable
    unfold fireOlderRetryTimer
    split
    · exact h
    · rename_i attempt _
      have hFired : ({ s with olderRetryTimer := none }).Resumable := h.same rfl rfl ⟨rfl, rfl, rfl, rfl⟩ rfl
      obtain ⟨hSock, hUrl, hEq, hSrc⟩ :=
        requestOlderRemainder_frame { s with olderRetryTimer := none } attempt accepted
      exact hFired.same hSock hUrl hEq hSrc
  | event event accepted =>
    change (if s.socket.isSome then s.onEvent event accepted else s).Resumable
    split
    · rename_i hSock
      exact h.onEvent hSock event accepted
    · exact h

end Resumable

theorem create_resumable (conversationId : String) : (create conversationId).Resumable := by
  refine ⟨fun socket hSome => ?_, fun hSome => ?_, fun _ hStale => ?_⟩
  · cases hSome
  · cases hSome
  · cases hStale

/-- In every run that keeps the cursor, whatever socket the store holds was told no row the view lacks. -/
theorem initialCursor_held (conversationId : String) (inputs : List StoreInput)
    (hRun : Along step KeepsCursor (create conversationId) inputs) (socket : StoreSocket)
    (hSocket : (run step (create conversationId) inputs).socket = some socket) : HoldsCursor socket := by
  have hInv := @run_invariant ConversationStore StoreInput step KeepsCursor (fun s => s.Contiguous ∧ s.Resumable)
    (fun s input h hKeeps => ⟨h.1.step input hKeeps.1, h.2.step h.1 input hKeeps⟩) _ _
    ⟨create_contiguous conversationId, create_resumable conversationId⟩ hRun
  exact hInv.2.built socket hSocket

def resumedInputs : List StoreInput :=
  openedInputs ++
    [.event (.ready ⟨1, 7, 5, 0, "", 0, 0, none⟩) false, .event (.records ([5, 6, 7].map skippedRow)) false,
      .unsubscribe, .teardownTimer true, .subscribe]

theorem initialCursor_held_resumedRun :
    ∃ socket, (run step (create "conversation") resumedInputs).socket = some socket ∧
      socket.initialCursor.map ConversationSocketCursor.lastSeq = some 7 ∧ HoldsCursor socket := by
  have hRun : Along step KeepsCursor (create "conversation") resumedInputs := by
    refine ⟨⟨trivial, trivial⟩, ⟨trivial, trivial⟩, ⟨trivial, trivial⟩, ⟨trivial, trivial⟩, ⟨trivial, trivial⟩,
      ⟨runFrom_consecutive (s := 5) (by decide), trivial⟩, ⟨trivial, trivial⟩, ⟨trivial, ?_⟩, ⟨trivial, trivial⟩, trivial⟩
    rintro - - - -
    refine ⟨fun last hLast => ?_, fun hEmpty => ?_⟩
    · obtain rfl := Option.some.inj hLast
      decide
    · cases hEmpty
  cases hSocket : (run step (create "conversation") resumedInputs).socket with
  | none => exact absurd (congrArg Option.isSome hSocket) (by decide)
  | some socket =>
    have hCursor : (run step (create "conversation") resumedInputs).socket.map
        (fun s => s.initialCursor.map ConversationSocketCursor.lastSeq) = some (some 7) := by decide
    rw [hSocket] at hCursor
    exact ⟨socket, rfl, Option.some.inj hCursor, initialCursor_held "conversation" resumedInputs hRun socket hSocket⟩

/-- The same, but row 5 is all that came of the rows 5 to 7 that `ready` announced. -/
def shortInputs : List StoreInput :=
  openedInputs ++
    [.event (.ready ⟨1, 7, 5, 0, "", 0, 0, none⟩) false, .event (.records [skippedRow 5]) false, .unsubscribe,
      .teardownTimer true, .subscribe]

/-- The new socket is told 7 over a view that ends at 5: rows 6 and 7 are never asked for. -/
theorem shortRun_not_held : ¬ ∀ socket, (run step (create "conversation") shortInputs).socket = some socket →
    HoldsCursor socket := by
  intro h
  cases hSocket : (run step (create "conversation") shortInputs).socket with
  | none => exact absurd (congrArg Option.isSome hSocket) (by decide)
  | some socket =>
    have hFacts : (run step (create "conversation") shortInputs).socket.map (fun s =>
        (s.initialCursor.map ConversationSocketCursor.lastSeq, s.view.records.getLast?.map JournalRecord.position)) =
        some (some 7, some 5) := by decide
    rw [hSocket] at hFacts
    obtain ⟨hCursor, hView⟩ := Prod.mk.inj (Option.some.inj hFacts)
    obtain ⟨cursor, hSome, hSeven⟩ := Option.map_eq_some_iff.mp hCursor
    obtain ⟨last, hLast, hFive⟩ := Option.map_eq_some_iff.mp hView
    have hEq := (h socket hSocket cursor hSome).1 last hLast
    omega

end Stella.Conversation.ConversationStore
