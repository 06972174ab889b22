import Mathlib.Data.List.Sort
import Stella.Library.Gapless
import Stella.Conversation.Socket.Model

/-! # The pure core of a conversation view

The reducer of `conversation-store-reducer.ts`: what a view does with the
records the socket delivers, with scrollback pages and with the live turn.
-/

namespace Stella.Conversation

open Gapless

structure LiveTurn where
  turnId : String
  toolName : Option String
  toolLabel : Option String

inductive RecordsSource
  | none
  | cachedStale
  | canonical
  deriving DecidableEq

structure ConversationState where
  conversationId : String
  status : SocketStatus := .idle
  statusMessage : Option String := none
  statusRetryable : Bool := true
  epoch : Option Int := none
  headSeq : Int := -1
  records : List JournalRecord := []
  live : Option LiveTurn := none
  title : String := ""
  floorSeq : Int := 0
  hasOlder : Bool := false
  loadingOlder : Bool := false
  olderNotice : Option String := none
  recordsSource : RecordsSource := .none

def olderLimitNotice : String := "That's as far back as this view holds — reload to go further."
def olderIncompleteNotice : String := "Couldn't load that part of this conversation. Try again."
def olderExhaustedNotice : String := "That's the start of what Stella still has."

def olderWouldExceedRetainedLimit (records : List JournalRecord) : Bool :=
  maxClientRecords < records.length + backfillBatchRecords

def liveTurnFromReady : Option LiveTurnSnapshot → Option LiveTurn
  | none => none
  | some live => some ⟨live.turnId, live.tools.getLast?.map LiveTool.name, live.tools.getLast?.bind LiveTool.label⟩

def liveTurnWithTool (live : Option LiveTurn) (tool : ToolFrame) : LiveTurn :=
  let current := match live with
    | some live => if live.turnId = tool.turnId then live else ⟨tool.turnId, none, none⟩
    | none => ⟨tool.turnId, none, none⟩
  { current with
    toolName := if tool.isStart then some tool.name else none
    toolLabel := if tool.isStart then tool.label else none }

/-- The turn's own rows bracket it: a `started` row opens it, its terminal row closes it. -/
def liveTurnAfterRecords (live : Option LiveTurn) (records : List JournalRecord) : Option LiveTurn :=
  records.foldl (fun next record => match record.body with
    | .turn .started .. =>
      if next.map LiveTurn.turnId ≠ some record.turnId then some ⟨record.turnId, none, none⟩ else next
    | .turn .. => if next.map LiveTurn.turnId = some record.turnId then none else next
    | _ => next) live

def lastSeqOf (records : List JournalRecord) : Int := (records.getLast?.map JournalRecord.position).getD (-1)

structure AppendedRecords where
  records : List JournalRecord
  fresh : List JournalRecord
  hasOlder : Bool
  headSeq : Int

/-- `appendJournalRecords`: a repeat is dropped, a jump restarts the window, the low end is cut at the bound. -/
def appendJournalRecords (view : ConversationState) (incoming : List JournalRecord) (replaceRetained : Bool) :
    Option AppendedRecords :=
  let retained := if replaceRetained then [] else view.records
  let lastStored := lastSeqOf retained
  match incoming.filter (fun record => lastStored < record.position) with
  | [] => none
  | first :: rest =>
    let fresh := first :: rest
    let restart := decide (0 ≤ lastStored ∧ lastStored + 1 < first.position)
    let records := (if restart then [] else retained) ++ fresh
    let hasOlder := if replaceRetained then decide (view.floorSeq < first.position) else view.hasOlder || restart
    let bounded := records.drop (records.length - maxClientRecords)
    let hasOlder := hasOlder || decide (maxClientRecords < records.length) ||
      bounded.head?.any (fun record => view.floorSeq < record.position)
    some ⟨bounded, fresh, hasOlder, max view.headSeq (lastSeqOf bounded)⟩

structure OlderRange where
  complete : Option Bool
  fromSeq : Option Int
  toSeq : Option Int

/-- `record.seq === fromSeq + index` for every record. -/
def countsFrom : Int → List JournalRecord → Bool
  | _, [] => true
  | seq, record :: rest => record.position = seq ∧ countsFrom (seq + 1) rest

def olderRangeIsComplete (incoming : List JournalRecord) (range : OlderRange) : Bool :=
  if range.complete = some false then false
  else
    match range.fromSeq, range.toSeq with
    | some fromSeq, some toSeq => (incoming.length : Int) = toSeq - fromSeq + 1 ∧ countsFrom fromSeq incoming
    | _, _ => true

/-- `prependOlderRecords`: the rows of the page below the oldest retained one, in order, before the rest. -/
def prependOlderRecords (view : ConversationState) (page : List JournalRecord) : Option (List JournalRecord × Bool) :=
  let below : List JournalRecord := match view.records.head? with
    | some oldest => page.filter (fun record => record.position < oldest.position)
    | none => page
  match below.insertionSort (fun a b => a.position ≤ b.position) with
  | [] => none
  | first :: rest => some ((first :: rest) ++ view.records, decide (view.floorSeq < first.position))

theorem countsFrom_iff (seq : Int) (records : List JournalRecord) :
    countsFrom seq records = true ↔ RunFrom JournalRecord.position seq records := by
  induction records generalizing seq with
  | nil => simp [countsFrom]
  | cons record rest ih => simp [countsFrom, ih]

variable {incoming : List JournalRecord}

theorem runFrom_of_olderRangeIsComplete {range : OlderRange} {fromSeq toSeq : Int}
    (hCompl : olderRangeIsComplete incoming range = true) (hFrom : range.fromSeq = some fromSeq)
    (hTo : range.toSeq = some toSeq) :
    RunFrom JournalRecord.position fromSeq incoming ∧ fromSeq + incoming.length = toSeq + 1 := by
  unfold olderRangeIsComplete at hCompl
  rw [hFrom, hTo] at hCompl
  split at hCompl
  · cases hCompl
  · obtain ⟨hLen, hCounts⟩ := of_decide_eq_true hCompl
    exact ⟨(countsFrom_iff _ _).mp hCounts, by omega⟩

variable {start : Int} {records : List JournalRecord}

theorem lastSeqOf_run (h : RunFrom JournalRecord.position start records)
    (hRecs : records ≠ []) : lastSeqOf records = start + records.length - 1 := by
  unfold lastSeqOf
  rw [List.getLast?_eq_some_getLast hRecs]
  exact h.key_getLast hRecs

theorem runFrom_window {retained fresh : List JournalRecord} {first : JournalRecord}
    (hRetained : Consecutive JournalRecord.position retained)
    (hFresh : RunFrom JournalRecord.position first.position (first :: fresh))
    (hAbove : lastSeqOf retained < first.position) :
    ∃ low, RunFrom JournalRecord.position low
      ((if decide (0 ≤ lastSeqOf retained ∧ lastSeqOf retained + 1 < first.position) = true then [] else retained)
        ++ first :: fresh) := by
  obtain ⟨start, hRun⟩ := (consecutive_iff _).mp hRetained
  split
  · exact ⟨_, hFresh⟩
  · rename_i hJoins
    by_cases hEmpty : retained = []
    · subst hEmpty
      exact ⟨_, hFresh⟩
    · have hLast := lastSeqOf_run hRun hEmpty
      have hPos := List.length_pos_of_ne_nil hEmpty
      have hStart : 0 ≤ start := by
        have hHead := hRun.key_head hEmpty
        have hNonneg := (retained.head hEmpty).position_nonneg
        omega
      have hNext : start + retained.length = first.position := by
        rw [decide_eq_true_eq] at hJoins
        omega
      exact ⟨start, (runFrom_append _ _ _).mpr ⟨hRun, hNext ▸ hFresh⟩⟩

variable {view : ConversationState}

theorem appendJournalRecords_consecutive
    {replaceRetained : Bool} {appended : AppendedRecords}
    (hView : Consecutive JournalRecord.position view.records) (hIncoming : Consecutive JournalRecord.position incoming)
    (hAppended : appendJournalRecords view incoming replaceRetained = some appended) :
    Consecutive JournalRecord.position appended.records := by
  unfold appendJournalRecords at hAppended
  dsimp only at hAppended
  generalize maxClientRecords = bound at hAppended
  have hRetained : Consecutive JournalRecord.position (if replaceRetained then [] else view.records) := by
    split
    · exact List.IsChain.nil
    · exact hView
  generalize (if replaceRetained then [] else view.records) = retained at hRetained hAppended
  obtain ⟨start, hRun⟩ := (consecutive_iff _).mp hIncoming
  split at hAppended
  · cases hAppended
  · rename_i first rest hFilter
    have hAbove : lastSeqOf retained < first.position := by
      have hMem : first ∈ incoming.filter (fun record => lastSeqOf retained < record.position) :=
        hFilter ▸ List.mem_cons_self
      exact of_decide_eq_true (List.mem_filter.mp hMem).2
    have hFresh : RunFrom JournalRecord.position first.position (first :: rest) := by
      rw [hRun.filter_gt] at hFilter
      have hDrop := hRun.drop (lastSeqOf retained + 1 - start).toNat
      rw [hFilter] at hDrop
      exact (runFrom_consecutive hDrop).runFrom_head
    obtain ⟨low, hLow⟩ := runFrom_window hRetained hFresh hAbove
    rw [← Option.some.inj hAppended]
    exact runFrom_consecutive (hLow.drop _)

theorem prependOlderRecords_consecutive {page : List JournalRecord} {hasOlder : Bool}
    (hView : Consecutive JournalRecord.position view.records)
    (hPage : RunFrom JournalRecord.position start page)
    (hJoins : ∀ oldest, view.records.head? = some oldest → oldest.position ≤ start + page.length)
    (hPrepended : prependOlderRecords view page = some (records, hasOlder)) :
    Consecutive JournalRecord.position records := by
  unfold prependOlderRecords at hPrepended
  dsimp only at hPrepended
  have hSort : ∀ {low : Int} {rows : List JournalRecord}, RunFrom JournalRecord.position low rows →
      rows.insertionSort (fun a b => a.position ≤ b.position) = rows :=
    fun hRows => List.Pairwise.insertionSort_eq (hRows.pairwise_lt.imp (fun hLt => le_of_lt hLt))
  cases hView' : view.records with
  | nil =>
    rw [hView', List.head?_nil] at hPrepended
    dsimp only at hPrepended
    rw [hSort hPage] at hPrepended
    split at hPrepended
    · cases hPrepended
    · obtain ⟨rfl, -⟩ := Prod.mk.inj (Option.some.inj hPrepended)
      rw [List.append_nil]
      exact runFrom_consecutive hPage
  | cons oldest rest =>
    rw [hView', List.head?_cons] at hPrepended
    dsimp only at hPrepended
    have hEnds := hJoins oldest (by rw [hView', List.head?_cons])
    have hBelow : page.filter (fun record => record.position < oldest.position) =
        page.take (oldest.position - start).toNat := by
      rw [← show oldest.position - 1 + 1 - start = oldest.position - start by omega, ← hPage.filter_le]
      exact List.filter_congr (fun record _ => decide_eq_decide.mpr (by omega))
    have hTake := hPage.take (oldest.position - start).toNat
    rw [hBelow, hSort hTake] at hPrepended
    split at hPrepended
    · cases hPrepended
    · rename_i first below hFirst
      obtain ⟨rfl, -⟩ := Prod.mk.inj (Option.some.inj hPrepended)
      have hLength : start + ((page.take (oldest.position - start).toNat).length : Int) = oldest.position := by
        have hSome : 0 < (page.take (oldest.position - start).toNat).length := by
          rw [hFirst]
          exact Nat.succ_pos _
        rw [List.length_take] at hSome ⊢
        omega
      rw [← hFirst]
      rw [hView'] at hView
      refine runFrom_consecutive ((runFrom_append _ _ _).mpr ⟨hTake, ?_⟩)
      rw [hLength]
      exact hView.runFrom_head

end Stella.Conversation
