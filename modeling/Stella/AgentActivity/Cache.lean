import Stella.Library.Transition
import Stella.Journal.Resident
import Stella.AgentActivity.Names

/-! # The journal's running agents

`runningAgents` of `journal.ts`: a fold of the resident rows that is kept in the
object's memory, caught up on each question and scanned anew after an eviction.
-/

namespace Stella.AgentActivity

open List

open Conversation (Journal JournalRow JournalRecord NewRow)
open Transition

def agentActivityScanRows : Nat := 2000

/-- `isAgentActivityPayload`: a plain object that is no stub of a spilled payload. -/
def isAgentActivityPayload (payload : Json) : Bool :=
  payload.asRecord.isSome && !((payload.member "$spill").bind Json.asBool == some true)

def activityRecord (record : JournalRecord) : AgentActivityRecordInput :=
  match record.body with
  | .message role hidden _ payload =>
    { kind := .message, createdAtMs := record.createdAtMs, role := some role, hidden
      payload := if isAgentActivityPayload payload then some payload else none }
  | .card card => { kind := .card, createdAtMs := record.createdAtMs, card := some card }
  | _ => { kind := .turn, createdAtMs := record.createdAtMs }

def activityRecords (rows : List JournalRow) : List AgentActivityRecordInput :=
  rows.map (fun row => activityRecord (Conversation.Journal.rowToRecord row))

structure AgentActivityCache where
  state : AgentActivityState
  toolCalls : ToolCalls
  throughSeq : Int
  epoch : Int

def headSeq (journal : Journal) : Int := (journal.nextSeq : Int) - 1

section

variable (jsonParse : String → Option Json)

def foldAgentActivityRows (cached : AgentActivityCache) (rows : List JournalRow) (head : Int) : AgentActivityCache :=
  let folded := rows.foldl (fun folded row => max folded row.position) cached.throughSeq
  let fold := foldAgentActivity jsonParse cached.state cached.toolCalls (activityRecords rows)
  let trimmed := trimAgentActivity fold.1 fold.2
  { cached with
    state := trimmed.1
    toolCalls := trimmed.2
    throughSeq := if rows.isEmpty then max folded head else folded }

def catchUp (journal : Journal) : Nat → AgentActivityCache → AgentActivityCache
  | 0, cached => cached
  | fuel + 1, cached =>
    if cached.throughSeq < headSeq journal then
      let rows := (journal.rows.filter (fun row => cached.throughSeq < row.position)).take agentActivityScanRows
      if rows.isEmpty then cached
      else catchUp journal fuel (foldAgentActivityRows jsonParse cached rows (headSeq journal))
    else cached

def scanAll (journal : Journal) : AgentActivityCache :=
  foldAgentActivityRows jsonParse ⟨emptyAgentActivityState, [], -1, journal.epoch⟩ journal.rows (headSeq journal)

def caughtUp (journal : Journal) : Option AgentActivityCache → AgentActivityCache
  | none => scanAll jsonParse journal
  | some cached =>
    if cached.epoch ≠ journal.epoch ∨ headSeq journal < cached.throughSeq then scanAll jsonParse journal
    else catchUp jsonParse journal journal.rows.length cached

/-- `runningAgents`, with the cache it leaves behind. -/
def runningAgents (journal : Journal) (cached : Option AgentActivityCache) (limit : Nat) :
    List AgentActivityEntry × AgentActivityCache :=
  let cached := caughtUp jsonParse journal cached
  (runningAgentEntries cached.state (some limit), cached)

structure ActivityHost where
  journal : Journal
  agentActivity : Option AgentActivityCache

inductive ActivityInput
  | append (batch : List NewRow)
  | ask (limit : Nat)
  | evict

def ActivityHost.step (host : ActivityHost) : ActivityInput → ActivityHost
  | .append batch => { host with journal := (host.journal.append batch).getD host.journal }
  | .ask limit => { host with agentActivity := some (runningAgents jsonParse host.journal host.agentActivity limit).2 }
  | .evict => { host with agentActivity := none }

def foldTrimmed (batches : List (List AgentActivityRecordInput)) : AgentActivityState × ToolCalls :=
  batches.foldl (fun carried batch =>
    let fold := foldAgentActivity jsonParse carried.1 carried.2 batch
    trimAgentActivity fold.1 fold.2) (emptyAgentActivityState, [])

def namedAgents (records : List AgentActivityRecordInput) : List String :=
  (records.filterMap (fun record =>
    (reading jsonParse (collectToolCalls records []) record).map Prod.fst)).dedup

def calledIds (records : List AgentActivityRecordInput) : List String :=
  ((records.flatMap toolCallsOf).map Prod.fst).dedup

section

variable (batches : List (List AgentActivityRecordInput))

theorem foldBatches_snoc (batch : List AgentActivityRecordInput) :
    foldBatches jsonParse emptyAgentActivityState [] (batches ++ [batch]) =
      foldAgentActivity jsonParse (foldBatches jsonParse emptyAgentActivityState [] batches).1
        (foldBatches jsonParse emptyAgentActivityState [] batches).2 batch := by
  unfold foldBatches
  rw [foldl_append]
  rfl

theorem foldBatches_calls :
    (foldBatches jsonParse emptyAgentActivityState [] batches).2 = collectToolCalls batches.flatten [] := by
  induction batches using List.reverseRecOn with
  | nil => rfl
  | append_singleton batches batch ih =>
    rw [foldBatches_snoc, flatten_append, collectToolCalls_append, ← ih]
    simp [foldAgentActivity]

end

variable {records : List AgentActivityRecordInput}

variable {after : List AgentActivityRecordInput}

theorem within_foldBatches (hSteady : ReadsSteadily jsonParse records)
    (batches : List (List AgentActivityRecordInput))
    (hSplit : records = batches.flatten ++ after) :
    Within (namedAgents jsonParse records) (foldBatches jsonParse emptyAgentActivityState [] batches).1 := by
  induction batches using List.reverseRecOn generalizing after with
  | nil => exact within_empty
  | append_singleton batches batch ih =>
    rw [flatten_append, flatten_singleton, append_assoc] at hSplit
    rw [foldBatches_snoc]
    refine (ih hSplit).foldAgentActivity jsonParse _ (fun record hRec row hRow => ?_)
    obtain ⟨front, mid, rfl⟩ := append_of_mem hRec
    have hRead := hSteady (batches.flatten ++ front) record mid after (by rw [hSplit]; simp)
    rw [foldBatches_calls, ← collectToolCalls_append, ← append_assoc] at hRow
    refine mem_dedup.mpr (mem_filterMap.mpr ⟨record, by rw [hSplit]; simp, ?_⟩)
    rw [← hRead]
    unfold reading
    rw [hRow]
    rfl

theorem foldTrimmed_eq (hSteady : ReadsSteadily jsonParse records)
    (hNames : (namedAgents jsonParse records).length ≤ maxSettledEntries)
    (hCalls : (calledIds records).length ≤ maxPendingToolCalls)
    (batches : List (List AgentActivityRecordInput))
    (hSplit : records = batches.flatten ++ after) :
    foldTrimmed jsonParse batches = foldBatches jsonParse emptyAgentActivityState [] batches := by
  induction batches using List.reverseRecOn generalizing after with
  | nil => simp only [foldTrimmed, foldBatches, foldl_nil]
  | append_singleton batches batch ih =>
    have hWith := within_foldBatches jsonParse hSteady _ hSplit
    have hToolCalls : KeysWithin (calledIds records)
        (foldBatches jsonParse emptyAgentActivityState [] (batches ++ [batch])).2 := by
      rw [foldBatches_calls]
      refine keysWithin_nil.collectToolCalls (fun callId hMem => mem_dedup.mpr ?_)
      rw [hSplit, flatMap_append, map_append]
      exact mem_append_left _ hMem
    have hPrefix : records = batches.flatten ++ (batch ++ after) := by
      rw [hSplit, flatten_append, flatten_singleton, append_assoc]
    have hSnoc : foldTrimmed jsonParse (batches ++ [batch]) =
        trimAgentActivity (foldBatches jsonParse emptyAgentActivityState [] (batches ++ [batch])).1
          (foldBatches jsonParse emptyAgentActivityState [] (batches ++ [batch])).2 := by
      rw [foldBatches_snoc, ← ih hPrefix]
      unfold foldTrimmed
      rw [foldl_append]
      rfl
    rw [hSnoc, trimAgentActivity_eq hWith hNames (hToolCalls.length_le.trans hCalls)]

structure Folded (journal : Journal) (cached : AgentActivityCache) : Prop where
  epoch : cached.epoch = journal.epoch
  through : cached.throughSeq ≤ headSeq journal
  folded : ∃ batches,
    batches.flatten = activityRecords (journal.rows.filter (fun row => row.position ≤ cached.throughSeq)) ∧
      (cached.state, cached.toolCalls) = foldTrimmed jsonParse batches

variable {rows : List JournalRow}

theorem foldl_max_run {s t : Int} (hRun : Gapless.RunFrom JournalRow.position s rows)
    (hRows : rows ≠ []) (hBelow : t < s) :
    rows.foldl (fun folded row => max folded row.position) t = s + rows.length - 1 := by
  induction rows generalizing s t with
  | nil => exact absurd rfl hRows
  | cons row rows ih =>
    obtain ⟨hFirst, hRest⟩ := hRun
    rw [foldl_cons, hFirst, max_eq_right (le_of_lt hBelow)]
    by_cases hEmpty : rows = []
    · subst hEmpty
      simp
    · rw [ih hRest hEmpty (by omega), length_cons]
      push_cast
      omega

variable {cached : AgentActivityCache}

theorem foldAgentActivityRows_eq {batches : List (List AgentActivityRecordInput)}
    (hFolded : (cached.state, cached.toolCalls) = foldTrimmed jsonParse batches) (rows : List JournalRow) (head : Int) :
    ((foldAgentActivityRows jsonParse cached rows head).state, (foldAgentActivityRows jsonParse cached rows head).toolCalls) =
      foldTrimmed jsonParse (batches ++ [activityRecords rows]) := by
  unfold foldTrimmed at hFolded ⊢
  rw [foldl_append, ← hFolded]
  simp only [foldl_cons, foldl_nil]
  rfl

variable {journal : Journal}

theorem Folded.foldRows (hResident : journal.Resident)
    (h : Folded jsonParse journal cached) {limit : Nat}
    (hRows : rows = (journal.rows.filter (fun row => cached.throughSeq < row.position)).take limit) (hSome : rows ≠ [])
    {next : AgentActivityCache} (hNext : next = foldAgentActivityRows jsonParse cached rows (headSeq journal)) :
    Folded jsonParse journal next ∧ (∀ row ∈ rows, row.position ≤ next.throughSeq) ∧
      (journal.rows.filter (fun row => next.throughSeq < row.position)).length <
        (journal.rows.filter (fun row => cached.throughSeq < row.position)).length := by
  obtain ⟨batches, hFlatten, hSt⟩ := h.folded
  have hFold := foldAgentActivityRows_eq jsonParse hSt rows (headSeq journal)
  rw [hResident.run.filter_gt] at hRows ⊢
  rw [hResident.run.filter_le] at hFlatten
  generalize hCnt : (cached.throughSeq + 1 - journal.hotMinSeq).toNat = count at hRows hFlatten ⊢
  have hRun : Gapless.RunFrom JournalRow.position (journal.hotMinSeq + count) rows :=
    hRows ▸ (hResident.run.drop count).take limit
  have hThrough : next.throughSeq = journal.hotMinSeq + count + rows.length - 1 := by
    rw [hNext]
    unfold foldAgentActivityRows
    dsimp only
    rw [if_neg (by simpa using hSome)]
    exact foldl_max_run hRun hSome (by omega)
  have hLen : rows.length ≤ journal.rows.length - count := by
    rw [hRows, length_take, length_drop]
    exact min_le_right _ _
  have hPos := length_pos_of_ne_nil hSome
  have hHead := hResident.next
  have hReached : (next.throughSeq + 1 - journal.hotMinSeq).toNat = count + rows.length := by omega
  refine ⟨⟨?_, ?_, batches ++ [activityRecords rows], ?_, ?_⟩, fun row hRow => ?_, ?_⟩
  · rw [hNext]
    unfold foldAgentActivityRows
    exact h.epoch
  · unfold headSeq
    omega
  · have hTaken : rows = (journal.rows.drop count).take rows.length := by
      rw [hRows]
      exact prefix_iff_eq_take.mp (List.take_prefix limit _)
    rw [hResident.run.filter_le, hReached, take_add, ← hTaken, flatten_append, hFlatten]
    simp [activityRecords]
  · rw [hNext]
    exact hFold
  · have hBounds := hRun.bounds hRow
    omega
  · rw [hResident.run.filter_gt, hReached, length_drop, length_drop]
    omega

theorem Folded.catchUp (hResident : journal.Resident) (fuel : Nat)
    (h : Folded jsonParse journal cached)
    (hFuel : (journal.rows.filter (fun row => cached.throughSeq < row.position)).length ≤ fuel) :
    Folded jsonParse journal (catchUp jsonParse journal fuel cached) ∧
      ∀ row ∈ journal.rows, row.position ≤ (catchUp jsonParse journal fuel cached).throughSeq := by
  have hAll : ∀ {c : AgentActivityCache}, journal.rows.filter (fun row => c.throughSeq < row.position) = [] →
      ∀ row ∈ journal.rows, row.position ≤ c.throughSeq := by
    intro c hNone row hRow
    have hNot := filter_eq_nil_iff.mp hNone row hRow
    exact not_lt.mp (by simpa using hNot)
  induction fuel generalizing cached with
  | zero => exact ⟨h, hAll (length_eq_zero_iff.mp (Nat.le_zero.mp hFuel))⟩
  | succ fuel ih =>
    unfold AgentActivity.catchUp
    split
    · dsimp only
      split
      · rename_i hEmpty
        refine ⟨h, hAll ?_⟩
        rw [List.isEmpty_iff, take_eq_nil_iff] at hEmpty
        exact hEmpty.resolve_left (by decide)
      · rename_i hSome
        obtain ⟨hNext, -, hLess⟩ := h.foldRows jsonParse hResident rfl (by simpa using hSome) rfl
        exact ih hNext (by omega)
    · rename_i hHead
      refine ⟨h, fun row hRow => ?_⟩
      have hBounds := hResident.run.bounds hRow
      have hNextSeq := hResident.next
      unfold headSeq at hHead
      omega

section

variable (hResident : journal.Resident)
include hResident

theorem folded_scanAll :
    Folded jsonParse journal (scanAll jsonParse journal) ∧
      ∀ row ∈ journal.rows, row.position ≤ (scanAll jsonParse journal).throughSeq := by
  have hFresh : ∀ row ∈ journal.rows, (-1 : Int) < row.position := fun row _ => by
    unfold JournalRow.position
    omega
  have hStart : Folded jsonParse journal ⟨emptyAgentActivityState, [], -1, journal.epoch⟩ := by
    refine ⟨rfl, ?_, [], ?_, rfl⟩
    · change (-1 : Int) ≤ headSeq journal
      unfold headSeq
      omega
    · have hNone : journal.rows.filter (fun row => row.position ≤ -1) = [] :=
        filter_eq_nil_iff.mpr (fun row hRow => by simpa using hFresh row hRow)
      simp only
      rw [hNone]
      rfl
  by_cases hRows : journal.rows = []
  · refine ⟨⟨rfl, ?_, [[]], ?_, ?_⟩, ?_⟩
    · unfold scanAll foldAgentActivityRows
      simp only [hRows, isEmpty_nil, if_true, foldl_nil, headSeq]
      omega
    · simp [hRows, activityRecords]
    · have hEmpty : (emptyAgentActivityState, ([] : ToolCalls)) = foldTrimmed jsonParse [] := rfl
      have hFold := @foldAgentActivityRows_eq jsonParse ⟨emptyAgentActivityState, [], -1, journal.epoch⟩ [] hEmpty
        journal.rows (headSeq journal)
      rw [hRows] at hFold
      unfold scanAll
      rw [hRows]
      exact hFold
    · simp [hRows]
  · have hAll : journal.rows =
        (journal.rows.filter (fun row => (-1 : Int) < row.position)).take journal.rows.length := by
      rw [filter_eq_self.mpr (fun row hRow => by simpa using hFresh row hRow), take_length]
    obtain ⟨hNext, hReached, -⟩ := hStart.foldRows jsonParse hResident hAll hRows rfl
    exact ⟨hNext, hReached⟩

theorem folded_caughtUp {cached : Option AgentActivityCache}
    (h : ∀ c, cached = some c → Folded jsonParse journal c) :
    Folded jsonParse journal (caughtUp jsonParse journal cached) ∧
      ∀ row ∈ journal.rows, row.position ≤ (caughtUp jsonParse journal cached).throughSeq := by
  unfold caughtUp
  cases cached with
  | none => exact folded_scanAll jsonParse hResident
  | some c =>
    dsimp only
    split
    · exact folded_scanAll jsonParse hResident
    · exact (h c rfl).catchUp jsonParse hResident _ (length_filter_le _ _)

theorem caughtUp_state {cached : Option AgentActivityCache}
    (h : ∀ c, cached = some c → Folded jsonParse journal c) :
    ∃ batches, batches.flatten = activityRecords journal.rows ∧
      (caughtUp jsonParse journal cached).state = (foldTrimmed jsonParse batches).1 := by
  obtain ⟨⟨-, -, batches, hFlatten, hSt⟩, hAll⟩ := folded_caughtUp jsonParse hResident h
  refine ⟨batches, ?_, congrArg Prod.fst hSt⟩
  rw [hFlatten, filter_eq_self.mpr (fun row hRow => by simpa using hAll row hRow)]

theorem Folded.append {later : Journal} {batch : List NewRow}
    (hApp : journal.append batch = some later) (h : Folded jsonParse journal cached) :
    Folded jsonParse later cached := by
  obtain ⟨hEpoch, added, hRows⟩ := Journal.append_rows hApp
  obtain ⟨hLater, -, hNext⟩ := hResident.append hApp
  obtain ⟨-, hFloor, -⟩ := Journal.append_tables hApp
  obtain ⟨batches, hFlatten, hSt⟩ := h.folded
  have hThrough := h.through
  have hLen := hResident.next
  unfold headSeq at hThrough
  refine ⟨h.epoch.trans hEpoch.symm, ?_, batches, ?_, hSt⟩
  · unfold headSeq
    omega
  · rw [hFlatten, hLater.run.filter_le, hResident.run.filter_le, hRows, hFloor,
      take_append_of_le_length (by omega)]

end

structure Carries (host : ActivityHost) : Prop where
  resident : host.journal.Resident
  cached : ∀ c, host.agentActivity = some c → Folded jsonParse host.journal c

theorem Carries.step {host : ActivityHost} (h : Carries jsonParse host) (input : ActivityInput) :
    Carries jsonParse (host.step jsonParse input) := by
  cases input with
  | append batch =>
    cases hApp : host.journal.append batch with
    | none =>
      simp only [ActivityHost.step, hApp, Option.getD_none]
      exact h
    | some later =>
      simp only [ActivityHost.step, hApp, Option.getD_some]
      exact ⟨(h.resident.append hApp).resident, fun c hCached => (h.cached c hCached).append jsonParse h.resident hApp⟩
  | ask limit =>
    refine ⟨h.resident, fun c hCached => ?_⟩
    obtain rfl := Option.some.inj hCached
    exact (folded_caughtUp jsonParse h.resident h.cached).1
  | evict => exact ⟨h.resident, by rintro c ⟨⟩⟩

def AnsweredAlike (records : List AgentActivityRecordInput) : Prop :=
  (∀ batches, batches.flatten = records → ∀ agentId,
    agentId ∈ runningIds (foldBatches jsonParse emptyAgentActivityState [] batches).1 ↔
      agentId ∈ runningIds (foldAgentActivity jsonParse emptyAgentActivityState [] records).1) ∧
  ∀ (start : Journal) (inputs : List ActivityInput), start.Resident → start.rows = [] →
    ∀ host, host = run (ActivityHost.step jsonParse) ⟨start, none⟩ inputs →
      activityRecords host.journal.rows = records → ∀ limit,
        (runningIds (foldAgentActivity jsonParse emptyAgentActivityState [] records).1).length ≤ limit → ∀ agentId,
          agentId ∈ (runningAgents jsonParse host.journal host.agentActivity limit).1.map AgentActivityEntry.agentId ↔
            agentId ∈ (runningAgents jsonParse host.journal none limit).1.map AgentActivityEntry.agentId

/-- The tool calls of the rows stay as the rows read them: none is made anew for a row that was read, and few enough
are made that a kept fold forgets none. -/
structure SteadyCalls (records : List AgentActivityRecordInput) : Prop where
  reads : ReadsSteadily jsonParse records
  few : (calledIds records).length ≤ maxPendingToolCalls

theorem runningIds_foldBatches (hSteady : ReadsSteadily jsonParse records)
    {batches : List (List AgentActivityRecordInput)} (hBatches : batches.flatten = records) (agentId : String) :
    agentId ∈ runningIds (foldBatches jsonParse emptyAgentActivityState [] batches).1 ↔
      (agentOf (foldBatches jsonParse emptyAgentActivityState [] batches).1 agentId).Running :=
  mem_runningIds (within_foldBatches jsonParse hSteady batches (by rw [hBatches, append_nil])) agentId

/-- The running agents do not depend on when they are asked for exactly when no agent's rows stray. -/
theorem runningAgents_alike_iff (records : List AgentActivityRecordInput) (hCalls : SteadyCalls jsonParse records)
    (hNames : (namedAgents jsonParse records).length ≤ maxSettledEntries) :
    AnsweredAlike jsonParse records ↔ ∀ agentId, ¬ AgentStrays jsonParse records agentId := by
  have hWhole : foldAgentActivity jsonParse emptyAgentActivityState [] records =
      foldBatches jsonParse emptyAgentActivityState [] [records] := rfl
  constructor
  · rintro ⟨hBatches, -⟩ agentId hStrays
    obtain ⟨batches, hFlatten, hDiffer⟩ := exists_foldBatches_of_strays jsonParse hCalls.reads hStrays
    refine hDiffer ?_
    rw [← runningIds_foldBatches jsonParse hCalls.reads hFlatten,
      ← runningIds_foldBatches jsonParse hCalls.reads (flatten_singleton ..)]
    exact hBatches batches hFlatten agentId
  · intro hNone
    have hAlike : ∀ batches, batches.flatten = records → ∀ agentId,
        agentId ∈ runningIds (foldBatches jsonParse emptyAgentActivityState [] batches).1 ↔
          agentId ∈ runningIds (foldAgentActivity jsonParse emptyAgentActivityState [] records).1 := by
      intro batches hFlatten agentId
      rw [hWhole, runningIds_foldBatches jsonParse hCalls.reads hFlatten,
        runningIds_foldBatches jsonParse hCalls.reads (flatten_singleton ..)]
      exact foldBatches_running_iff jsonParse hCalls.reads hFlatten (hNone agentId)
    refine ⟨hAlike, fun start inputs hStart hRows host hHost hRecords limit hLimit agentId => ?_⟩
    have hCarries : Carries jsonParse host := by
      have hFirst : Carries jsonParse ⟨start, none⟩ := ⟨hStart, by rintro c ⟨⟩⟩
      rw [hHost]
      have hStep : ∀ (h : ActivityHost) input, Carries jsonParse h → Carries jsonParse (h.step jsonParse input) :=
        fun _ input h => h.step jsonParse input
      exact run_invariant_always hStep inputs hFirst
    have hAnswer : ∀ cached : Option AgentActivityCache, (∀ c, cached = some c → Folded jsonParse host.journal c) →
        (agentId ∈ (runningAgents jsonParse host.journal cached limit).1.map AgentActivityEntry.agentId ↔
          agentId ∈ runningIds (foldAgentActivity jsonParse emptyAgentActivityState [] records).1) := by
      intro cached hFolded
      obtain ⟨batches, hFlatten, hState⟩ := caughtUp_state jsonParse hCarries.resident hFolded
      rw [hRecords] at hFlatten
      have hSplit : records = batches.flatten ++ [] := by rw [hFlatten, append_nil]
      rw [foldTrimmed_eq jsonParse hCalls.reads hNames hCalls.few batches hSplit] at hState
      have hWithin := within_foldBatches jsonParse hCalls.reads batches hSplit
      have hPerm : (runningIds (foldBatches jsonParse emptyAgentActivityState [] batches).1).length ≤ limit := by
        refine le_trans ?_ hLimit
        exact (subperm_of_subset (nodup_runningIds hWithin)
          (fun other hOther => (hAlike batches hFlatten other).mp hOther)).length_le
      unfold runningAgents
      dsimp only
      rw [hState, runningAgentEntries_limit hPerm]
      exact hAlike batches hFlatten agentId
    rw [hAnswer host.agentActivity hCarries.cached, hAnswer none (by rintro c ⟨⟩)]

theorem steadyCalls_of_noCalls
    (hNone : ∀ record ∈ records, toolCallsOf record = []) : SteadyCalls jsonParse records := by
  have hCollect : ∀ part : List AgentActivityRecordInput, part ⊆ records → collectToolCalls part [] = [] := by
    intro part hPart
    unfold collectToolCalls
    rw [flatMap_eq_nil_iff.mpr (fun record hMem => hNone record (hPart hMem))]
    rfl
  refine ⟨fun front record mid back hSplit => ?_, ?_⟩
  · rw [hCollect records (List.Subset.refl _), hCollect (front ++ record :: mid)]
    rw [hSplit]
    intro other hOther
    rw [← cons_append, ← append_assoc]
    exact mem_append_left _ hOther
  · unfold calledIds
    rw [flatMap_eq_nil_iff.mpr hNone]
    exact Nat.zero_le _

end

/-- The lifecycle card of agent `a`, as it is stored. -/
def lifecycleRow (type : String) (fields : List (String × Json)) : AgentActivityRecordInput where
  kind := .card
  createdAtMs := 0
  card := some (.object [("type", .string "agent-lifecycle"), ("eventId", .string "event"),
    ("event", .object [("type", .string type), ("payload", .object ([("agentId", .string "a"),
      ("attemptGeneration", .number 1)] ++ fields))])])

def startCard : AgentActivityRecordInput :=
  lifecycleRow "agent-started" [("description", .string "Fix it"), ("agentType", .string "general")]

/-- The result of the `spawn_agent` that started agent `a`, as a mirrored turn has it. -/
def spawnResult : AgentActivityRecordInput where
  kind := .message
  createdAtMs := 0
  role := some .toolResult
  payload := some (.object [("toolName", .string "spawn_agent"), ("toolCallId", .string "call"),
    ("details", .object [("thread_id", .string "a"), ("description", .string "Fix it")])])

theorem runningAgents_alike_iff_spawned :
    AnsweredAlike (fun _ => none) [spawnResult, startCard] ↔
      ∀ agentId, ¬ AgentStrays (fun _ => none) [spawnResult, startCard] agentId :=
  runningAgents_alike_iff (fun _ => none) [spawnResult, startCard]
    (steadyCalls_of_noCalls _ (by decide)) (by decide)

def lateStartRows : List AgentActivityRecordInput :=
  [lifecycleRow "agent-completed" [("result", .string "Done")], spawnResult, startCard]

/-- Cut before the start card, the fold keeps the agent running for good; in one piece it never shows it. -/
theorem lateStart_not_alike :
    (namedAgents (fun _ => none) lateStartRows).length ≤ maxSettledEntries ∧
      ¬ AnsweredAlike (fun _ => none) lateStartRows := by
  refine ⟨by decide, fun h => ?_⟩
  have hSame := h.1 [lateStartRows.take 2, lateStartRows.drop 2] rfl "a"
  have hBatches : "a" ∈ runningIds (foldBatches (fun _ => none) emptyAgentActivityState []
      [lateStartRows.take 2, lateStartRows.drop 2]).1 := by decide
  have hWhole : "a" ∉ runningIds (foldAgentActivity (fun _ => none) emptyAgentActivityState [] lateStartRows).1 := by
    decide
  exact hWhole (hSame.mp hBatches)

end Stella.AgentActivity
