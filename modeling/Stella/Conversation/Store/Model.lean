import Stella.Conversation.Store.Reducer

/-! # ConversationStore

The desktop store of `conversation-store.ts`: the view of one conversation, its subscribers, the
socket it owns, the scrollback it waits for and the cached replica it may paint from.
-/

namespace Stella.Conversation

open Gapless

structure CloudConversationCacheAuthority where
  accountScope : String
  ownerGeneration : String
  conversationId : String
  deriving DecidableEq

def maxCloudConversationCacheRecords : Nat := 3000

structure CloudConversationCacheSnapshot where
  authority : CloudConversationCacheAuthority
  epoch : Int
  headSeq : Int
  floorSeq : Int
  revision : Int
  cachedAtMs : Int
  title : String
  entries : List (Option JournalRecord)

structure RenderableSnapshot where
  epoch : Int
  headSeq : Int
  floorSeq : Int
  title : String
  records : List JournalRecord
  floorSeq_nonneg : 0 ≤ floorSeq
  consecutive : Consecutive JournalRecord.position records
  complete : lastSeqOf records = headSeq

/-- The loop of `decodeSnapshot`. -/
def decodeEntries : List (Option JournalRecord) → List JournalRecord → Option (List JournalRecord)
  | [], records => some records
  | none :: _, _ => none
  | some record :: rest, records =>
    if records.getLast?.any (fun previous => record.position ≠ previous.position + 1) then none
    else decodeEntries rest (records ++ [record])

theorem decodeEntries_consecutive {entries : List (Option JournalRecord)} {records decoded : List JournalRecord}
    (hRecs : Consecutive JournalRecord.position records) (hDecoded : decodeEntries entries records = some decoded) :
    Consecutive JournalRecord.position decoded := by
  induction entries generalizing records with
  | nil => exact Option.some.inj hDecoded ▸ hRecs
  | cons entry rest ih =>
    cases entry with
    | none => cases hDecoded
    | some record =>
      rw [decodeEntries] at hDecoded
      split at hDecoded
      · cases hDecoded
      · rename_i hNext
        refine ih ?_ hDecoded
        refine List.isChain_append.mpr ⟨hRecs, List.isChain_singleton _, fun previous hPrevious next hHead => ?_⟩
        obtain rfl := Option.some.inj hHead
        rw [Option.mem_def.mp hPrevious] at hNext
        simpa using hNext

/-- `decodeSnapshot`: another conversation's replica, or one that is no complete suffix, is refused. -/
def decodeSnapshot (authority : CloudConversationCacheAuthority) (value : CloudConversationCacheSnapshot) :
    Option RenderableSnapshot :=
  if value.authority ≠ authority ∨ value.epoch < 0 ∨ value.headSeq < -1 ∨ value.revision < 1 ∨ value.cachedAtMs < 0 ∨
      maxCloudConversationCacheRecords < value.entries.length then none
  else if hFloor : 0 ≤ value.floorSeq then
    match hDecoded : decodeEntries value.entries [] with
    | none => none
    | some records =>
      if hComplete : lastSeqOf records = value.headSeq then
        if records.head?.any (fun record => record.position < value.floorSeq) then none
        else some ⟨value.epoch, value.headSeq, value.floorSeq, value.title, records, hFloor,
          decodeEntries_consecutive List.IsChain.nil hDecoded, hComplete⟩
      else none
  else none

/-- The options a socket was built with; `view` is the view they were built over. -/
structure StoreSocket where
  initialCursor : Option ConversationSocketCursor
  view : ConversationState

structure OlderPartial where
  nextSeq : Int
  toSeq : Int
  records : List JournalRecord

def olderContinueRetries : Nat := 20

structure ConversationStore where
  state : ConversationState
  socket : Option StoreSocket := none
  subscribers : Nat := 0
  baseUrl : Option String := none
  olderTimer : Bool := false
  olderPartial : Option OlderPartial := none
  /-- the attempt an armed retry will make -/
  olderRetryTimer : Option Nat := none
  teardownTimer : Bool := false
  authorityRetired : Bool := false
  cacheHydrationStarted : Bool := false
  cacheHydrated : Bool := false
  cacheContainsUnverifiedRecords : Bool := false
  cacheGeneration : Nat := 0
  /-- the generation a cache read in flight was started under -/
  cacheRead : Option Nat := none

def initialState (conversationId : String) : ConversationState := { conversationId }

namespace ConversationStore

def create (conversationId : String) : ConversationStore := { state := initialState conversationId }

def patch (s : ConversationStore) (state : ConversationState) : ConversationStore := { s with state }

def dropOlderPartial (s : ConversationStore) : ConversationStore :=
  { s with olderPartial := none, olderRetryTimer := none }

def purgeCache (s : ConversationStore) : ConversationStore :=
  { s with cacheGeneration := s.cacheGeneration + 1, cacheContainsUnverifiedRecords := false, cacheHydrated := true }

/-- The cursor `ensureSocket` hands to a new socket. -/
def initialCursor (state : ConversationState) : Option ConversationSocketCursor :=
  if state.recordsSource = .cachedStale then
    state.epoch.map (fun epoch =>
      { epoch, lastSeq := state.headSeq, headSeq := state.headSeq, floorSeq := state.floorSeq,
        windowStartSeq := (state.records.head?.map JournalRecord.position).getD state.floorSeq })
  else none

def ensureSocket (s : ConversationStore) : ConversationStore :=
  if s.authorityRetired ∨ s.socket.isSome ∨ s.subscribers = 0 ∨ s.baseUrl.isNone ∨ !s.cacheHydrated then s
  else { s with socket := some ⟨initialCursor s.state, s.state⟩ }

def onStatus (s : ConversationStore) (status : SocketStatus) (message : Option String) (retryable : Bool) :
    ConversationStore :=
  if s.state.status = status ∧ s.state.statusMessage = message ∧ s.state.statusRetryable = retryable then s
  else
    let state := { s.state with status, statusMessage := message, statusRetryable := retryable }
    if status = .blocked ∧ !retryable then
      s.purgeCache.patch
        { state with records := [], recordsSource := .none, epoch := none, headSeq := -1, live := none, hasOlder := false }
    else if status = .live ∨ state.recordsSource = .none then s.patch state
    else s.patch { state with recordsSource := .cachedStale }

def onReady (s : ConversationStore) (ready : ReadyFrame) : ConversationStore :=
  let epochChanged := s.state.epoch.any (· ≠ ready.epoch)
  let cachedOutsideCanonicalWindow := decide (s.state.recordsSource = .cachedStale ∧ (ready.headSeq < s.state.headSeq ∨
    (s.state.records.head?.map JournalRecord.position).getD ready.floorSeq < ready.floorSeq))
  let dropCached := epochChanged || cachedOutsideCanonicalWindow
  let records := if dropCached then [] else s.state.records
  let s := if dropCached then s.purgeCache else s
  let oldest := (records.head?.map JournalRecord.position).getD ready.windowStartSeq
  { s with cacheContainsUnverifiedRecords := false }.patch
    { s.state with
      title := ready.title, epoch := some ready.epoch, headSeq := ready.headSeq, floorSeq := ready.floorSeq,
      recordsSource := .canonical, hasOlder := decide (ready.floorSeq < oldest), records,
      loadingOlder := if dropCached then false else s.state.loadingOlder,
      olderNotice := if dropCached then none else s.state.olderNotice,
      live := liveTurnFromReady ready.live }

def appendRecords (s : ConversationStore) (incoming : List JournalRecord) : ConversationStore :=
  match appendJournalRecords s.state incoming s.cacheContainsUnverifiedRecords with
  | none => s
  | some appended =>
    { s with cacheContainsUnverifiedRecords := false }.patch
      { s.state with
        records := appended.records, recordsSource := .canonical, hasOlder := appended.hasOlder,
        live := liveTurnAfterRecords s.state.live appended.fresh, headSeq := appended.headSeq }

/-- Asks for the rest of a cut page; `accepted` is what the socket answers. -/
def requestOlderRemainder (s : ConversationStore) (attempt : Nat) (accepted : Bool) : ConversationStore :=
  if s.olderPartial.isNone then s
  else if s.socket.isSome ∧ accepted then { s with olderTimer := true }
  else if s.socket.isSome ∧ attempt < olderContinueRetries then
    { s with olderTimer := true, olderRetryTimer := some (attempt + 1) }
  else
    { s with olderTimer := false }.dropOlderPartial.patch
      { s.state with hasOlder := true, loadingOlder := false, olderNotice := some olderIncompleteNotice }

def continuesPartial (s : ConversationStore) (range : OlderRange) : Bool :=
  s.olderPartial.any (fun cut => range.fromSeq = some cut.nextSeq ∧ range.toSeq = some cut.toSeq)

def earlierRecords (s : ConversationStore) (range : OlderRange) : List JournalRecord :=
  if s.continuesPartial range then (s.olderPartial.map OlderPartial.records).getD [] else []

def cutPage (s : ConversationStore) (incoming : List JournalRecord) (range : OlderRange) : Option OlderPartial :=
  match range.complete, range.fromSeq, range.toSeq, incoming.getLast? with
  | some false, some fromSeq, some toSeq, some last =>
    if countsFrom fromSeq incoming ∧ last.position < toSeq then
      some ⟨last.position + 1, toSeq, s.earlierRecords range ++ incoming⟩
    else none
  | _, _, _, _ => none

def splicePage (s : ConversationStore) (page : List JournalRecord) : ConversationStore :=
  match prependOlderRecords s.state page with
  | none =>
    s.patch { s.state with hasOlder := false, loadingOlder := false, olderNotice := some olderExhaustedNotice }
  | some (records, hasOlder) =>
    s.patch { s.state with records, recordsSource := .canonical, hasOlder, loadingOlder := false, olderNotice := none }

def prependRecords (s : ConversationStore) (incoming : List JournalRecord) (range : OlderRange) (accepted : Bool) :
    ConversationStore :=
  if s.olderPartial.isSome ∧ !s.continuesPartial range then s
  else if s.cacheContainsUnverifiedRecords then
    { s with olderTimer := false }.dropOlderPartial.patch { s.state with loadingOlder := false }
  else
    match s.cutPage incoming range with
    | some cut => { s with olderTimer := false, olderPartial := some cut, olderRetryTimer := none }.requestOlderRemainder 0 accepted
    | none =>
      let page := s.earlierRecords range ++ incoming
      let s := if s.continuesPartial range then { s with olderTimer := false }.dropOlderPartial else { s with olderTimer := false }
      if !olderRangeIsComplete incoming range then
        s.patch { s.state with hasOlder := true, loadingOlder := false, olderNotice := some olderIncompleteNotice }
      else s.splicePage page

def onEvent (s : ConversationStore) (event : ConversationSocketEvent) (accepted : Bool) : ConversationStore :=
  if s.authorityRetired then s
  else
    match event with
    | .status status message retryable => s.onStatus status message retryable
    | .ready ready => s.onReady ready
    | .records records => s.appendRecords records
    | .older records complete fromSeq toSeq => s.prependRecords records ⟨complete, fromSeq, toSeq⟩ accepted
    | .reset _ =>
      s.dropOlderPartial.purgeCache.patch
        { s.state with records := [], recordsSource := .none, live := none, epoch := none, headSeq := -1,
                       hasOlder := false, loadingOlder := false, olderNotice := none }
    | .gap _ _ => s.patch { s.state with hasOlder := true }
    | .tool frame => s.patch { s.state with live := some (liveTurnWithTool s.state.live frame) }
    | .agents => s

/-- `socket.stop()`, with the status event it emits unless the socket was idle already. -/
def stopSocket (s : ConversationStore) (announces : Bool) : ConversationStore :=
  if s.socket.isSome then
    { if announces then s.onEvent (.status .idle none true) false else s with socket := none }
  else s

def teardown (s : ConversationStore) (announces : Bool) : ConversationStore :=
  let s := { s.stopSocket announces with olderTimer := false }.dropOlderPartial
  s.patch { s.state with
    status := .idle, live := none, loadingOlder := false,
    recordsSource := if s.state.recordsSource = .none then .none else .cachedStale }

def subscribe (s : ConversationStore) : ConversationStore :=
  { s with subscribers := s.subscribers + 1, teardownTimer := false }.ensureSocket

def unsubscribe (s : ConversationStore) : ConversationStore :=
  { s with subscribers := s.subscribers - 1, teardownTimer := s.teardownTimer || s.subscribers ≤ 1 }

def fireTeardownTimer (s : ConversationStore) (announces : Bool) : ConversationStore :=
  if !s.teardownTimer then s
  else if s.subscribers = 0 then { s with teardownTimer := false }.teardown announces
  else { s with teardownTimer := false }

def activateCache (s : ConversationStore) : ConversationStore :=
  if s.authorityRetired ∨ s.cacheHydrationStarted then s
  else { s with cacheHydrationStarted := true, cacheRead := some s.cacheGeneration }

def hydrate (s : ConversationStore) : Option RenderableSnapshot → ConversationStore
  | none => s
  | some cached =>
    let firstCachedSeq := (cached.records.head?.map JournalRecord.position).getD cached.floorSeq
    if s.state.recordsSource = .canonical then
      if s.state.epoch ≠ some cached.epoch ∨ s.state.headSeq < cached.headSeq ∨ firstCachedSeq < s.state.floorSeq then
        s.purgeCache
      else s
    else
      match s.state.epoch with
      | some epoch =>
        if cached.epoch ≠ epoch ∨ s.state.headSeq < cached.headSeq ∨ firstCachedSeq < s.state.floorSeq then s.purgeCache
        else if cached.records = [] then s
        else
          { s with cacheContainsUnverifiedRecords := true }.patch
            { s.state with records := cached.records, recordsSource := .cachedStale,
                           hasOlder := decide (s.state.floorSeq < firstCachedSeq), loadingOlder := false, olderNotice := none }
      | none =>
        { s with cacheContainsUnverifiedRecords := cached.records ≠ [] }.patch
          { s.state with title := cached.title, epoch := some cached.epoch, headSeq := cached.headSeq,
                         floorSeq := cached.floorSeq, records := cached.records, recordsSource := .cachedStale,
                         hasOlder := decide (cached.floorSeq < firstCachedSeq), loadingOlder := false,
                         olderNotice := none, live := none }

/-- The `then` of the cache read: an answer from before a purge is dropped. -/
def applyCacheRead (s : ConversationStore) (generation : Nat) (cached : Option RenderableSnapshot) : ConversationStore :=
  if s.authorityRetired ∨ generation ≠ s.cacheGeneration then { s with cacheRead := none }
  else { s with cacheRead := none, cacheHydrated := true }.hydrate cached

/-- Its `finally`. -/
def finishCacheRead (s : ConversationStore) (generation : Nat) : ConversationStore :=
  if generation = s.cacheGeneration then { s with cacheHydrated := true }.ensureSocket else s

def cacheReadDone (s : ConversationStore) (cached : Option RenderableSnapshot) : ConversationStore :=
  match s.cacheRead with
  | none => s
  | some generation => (s.applyCacheRead generation cached).finishCacheRead generation

/-- `baseUrl?.replace(/\/+$/, "") || null`. -/
def normalizeBaseUrl (baseUrl : Option String) : Option String :=
  (baseUrl.map (fun url => String.ofList (url.toList.reverse.dropWhile (· = '/')).reverse)).filter (· ≠ "")

def replaceBaseUrl (s : ConversationStore) (next : Option String) (announces : Bool) : ConversationStore :=
  let stopped := { s with baseUrl := next }.stopSocket announces
  if s.baseUrl.isSome then stopped.purgeCache.patch (initialState stopped.state.conversationId) else stopped

def changeBaseUrl (s : ConversationStore) (next : Option String) (announces : Bool) : ConversationStore :=
  if next = s.baseUrl then s else (s.replaceBaseUrl next announces).ensureSocket

def setConfig (s : ConversationStore) (baseUrl : Option String) (resolved announces : Bool) : ConversationStore :=
  if s.authorityRetired then s
  else
    let next := normalizeBaseUrl baseUrl
    let s := s.changeBaseUrl next announces
    if next = none ∧ resolved ∧ s.state.status ≠ .blocked then
      s.purgeCache.patch
        { s.state with
          status := .blocked, statusMessage := some "Live cloud chat isn't available on this deployment.",
          statusRetryable := false, records := [], recordsSource := .none, epoch := none, headSeq := -1, live := none,
          hasOlder := false }
    else s

def retireAuthority (s : ConversationStore) : ConversationStore :=
  { { s with authorityRetired := true, socket := none, baseUrl := none, olderTimer := false }.dropOlderPartial with
    cacheGeneration := s.cacheGeneration + 1, state := initialState s.state.conversationId }

def loadOlder (s : ConversationStore) (accepted : Bool) : ConversationStore :=
  if s.cacheContainsUnverifiedRecords ∨ s.state.loadingOlder ∨ !s.state.hasOlder then s
  else
    match s.state.records.head? with
    | none => s.patch { s.state with hasOlder := false }
    | some oldest =>
      if oldest.position ≤ s.state.floorSeq then s.patch { s.state with hasOlder := false }
      else if olderWouldExceedRetainedLimit s.state.records then
        s.patch { s.state with hasOlder := false, olderNotice := some olderLimitNotice }
      else
        let s := s.dropOlderPartial
        if s.socket.isSome ∧ accepted then
          { s with olderTimer := true }.patch { s.state with loadingOlder := true, olderNotice := none }
        else s

def fireOlderTimer (s : ConversationStore) : ConversationStore :=
  if s.olderTimer then
    { s with olderTimer := false }.dropOlderPartial.patch { s.state with loadingOlder := false }
  else s

def fireOlderRetryTimer (s : ConversationStore) (accepted : Bool) : ConversationStore :=
  match s.olderRetryTimer with
  | none => s
  | some attempt => { s with olderRetryTimer := none }.requestOlderRemainder attempt accepted

inductive StoreInput
  | subscribe
  | unsubscribe
  | teardownTimer (announces : Bool)
  | activateCache
  | cacheRead (cached : Option RenderableSnapshot)
  | setConfig (baseUrl : Option String) (resolved announces : Bool)
  | retireAuthority
  | loadOlder (accepted : Bool)
  | olderTimer
  | olderRetryTimer (accepted : Bool)
  | event (event : ConversationSocketEvent) (accepted : Bool)

def step (s : ConversationStore) : StoreInput → ConversationStore
  | .subscribe => s.subscribe
  | .unsubscribe => s.unsubscribe
  | .teardownTimer announces => s.fireTeardownTimer announces
  | .activateCache => s.activateCache
  | .cacheRead cached => s.cacheReadDone cached
  | .setConfig baseUrl resolved announces => s.setConfig baseUrl resolved announces
  | .retireAuthority => s.retireAuthority
  | .loadOlder accepted => s.loadOlder accepted
  | .olderTimer => s.fireOlderTimer
  | .olderRetryTimer accepted => s.fireOlderRetryTimer accepted
  | .event event accepted => if s.socket.isSome then s.onEvent event accepted else s

end ConversationStore

end Stella.Conversation
