import Mathlib.Data.List.Dedup
import Stella.AgentActivity.Refine

/-! # The agents a state mentions

The maps of a fold hold agents its rows named and nobody else, each once, and an entry stands
under its own agent.
-/

namespace Stella.AgentActivity

open List

variable {ids : List String}

structure KeysWithin {β : Type} (ids : List String) (m : InsertionMap String β) : Prop where
  nodup : m.keys.Nodup
  sub : m.keys ⊆ ids

variable {β : Type}

theorem keysWithin_nil : KeysWithin ids ([] : InsertionMap String β) :=
  ⟨nodup_nil, nil_subset _⟩

theorem KeysWithin.set {m : InsertionMap String β} (h : KeysWithin ids m) {key : String} (hKey : key ∈ ids)
    (value : β) : KeysWithin ids (m.set key value) where
  nodup := InsertionMap.nodup_keys_set h.nodup key value
  sub := fun other hMem => by
    rcases InsertionMap.mem_keys_set hMem with rfl | hOld
    · exact hKey
    · exact h.sub hOld

theorem KeysWithin.length_le {m : InsertionMap String β} (h : KeysWithin ids m) : m.length ≤ ids.length :=
  InsertionMap.length_le_of_keys_subset h.nodup h.sub

structure Within (ids : List String) (state : AgentActivityState) : Prop where
  entries : KeysWithin ids state.entries
  generations : KeysWithin ids state.generations
  settled : KeysWithin ids state.settledGenerations
  cardedNodup : state.carded.Nodup
  cardedSub : state.carded ⊆ ids
  own : ∀ agentId entry, state.entries.get? agentId = some entry → entry.agentId = agentId

theorem within_empty : Within ids emptyAgentActivityState :=
  ⟨keysWithin_nil, keysWithin_nil, keysWithin_nil, nodup_nil, nil_subset _, by rintro _ _ ⟨⟩⟩

namespace Within

variable {state : AgentActivityState}

section

variable (h : Within ids state)
include h

variable {agentId : String}

theorem setEntry (hAgent : agentId ∈ ids) {entry : AgentActivityEntry}
    (hOwn : entry.agentId = agentId) : Within ids { state with entries := state.entries.set agentId entry } :=
  { h with
    entries := h.entries.set hAgent entry
    own := fun other found hFound => by
      by_cases hEq : agentId = other
      · subst hEq
        obtain rfl := Option.some.inj ((InsertionMap.get?_set_self state.entries agentId entry).symm.trans hFound)
        exact hOwn
      · exact h.own other found ((InsertionMap.get?_set_of_ne state.entries entry hEq).symm.trans hFound) }

theorem start (hAgent : agentId ∈ ids) (title : Option String) (atMs : Int)
    (extra : EntryExtra) : Within ids (state.start agentId title atMs extra) := by
  unfold AgentActivityState.start
  dsimp only
  split
  · exact h
  · exact h.setEntry hAgent rfl

theorem settle (hAgent : agentId ∈ ids) (status : AgentActivityStatus)
    (atMs : Int) : Within ids (state.settle agentId status atMs) := by
  unfold AgentActivityState.settle
  split
  · exact h
  · rename_i existing hExist
    split
    · exact h
    · exact h.setEntry hAgent (h.own agentId existing hExist)

theorem applyCard (atMs : Int) {event : CloudAgentLifecycleEvent}
    (hAgent : event.identity.agentId ∈ ids) : Within ids (state.applyCard atMs event) := by
  have hTerm : ∀ (identity : LifecycleIdentity) (status : AgentActivityStatus), identity.agentId ∈ ids →
      Within ids (state.applyTerminal identity status atMs) := by
    intro identity status hIdent
    unfold AgentActivityState.applyTerminal
    dsimp only
    generalize max identity.attemptGeneration _ = newest
    have hSettled : Within ids
        { state with settledGenerations := state.settledGenerations.set identity.agentId newest } :=
      { h with settled := h.settled.set hIdent newest }
    split
    · exact hSettled
    · exact hSettled.settle hIdent status atMs
  cases event with
  | started identity description agentType isFollowUp statusText =>
    unfold AgentActivityState.applyCard AgentActivityState.applyStarted
    dsimp only
    split
    · exact h
    · split
      · exact h
      · have hOpened : Within ids
            { state with generations := state.generations.set identity.agentId identity.attemptGeneration } :=
          { h with generations := h.generations.set hAgent _ }
        exact hOpened.start hAgent _ atMs _
  | progress identity statusText =>
    unfold AgentActivityState.applyCard AgentActivityState.applyProgress
    dsimp only
    split
    · exact h
    split
    · exact h
    split
    · exact h
    · rename_i existing hExist
      split
      · exact h.setEntry hAgent (h.own _ existing hExist)
      · exact h
  | completed identity result => exact hTerm identity .completed hAgent
  | failed identity error => exact hTerm identity .error hAgent
  | canceled identity error => exact hTerm identity .canceled hAgent

theorem applyRow (atMs : Int) {row : ActivityRow} (hAgent : row.agentId ∈ ids) :
    Within ids (state.applyRow atMs row) := by
  by_cases hCard : ∃ event, row = .card event
  · obtain ⟨event, rfl⟩ := hCard
    exact h.applyCard atMs hAgent
  · obtain hIs | ⟨title, extra, hIs⟩ | ⟨status, -, hIs⟩ := AgentActivityState.applyRow_mirrored state atMs hCard
    · rw [hIs]
      exact h
    · rw [hIs]
      exact h.start hAgent title atMs extra
    · rw [hIs]
      exact h.settle hAgent status atMs

end

end Within

section

variable (jsonParse : String → Option Json)

theorem nodup_collectCarded {carded : List String} (hNd : carded.Nodup) (records : List AgentActivityRecordInput) :
    (collectCarded records carded).Nodup := by
  unfold collectCarded
  generalize records.filterMap startedAgent = started
  induction started generalizing carded with
  | nil => exact hNd
  | cons agentId started ih =>
    rw [foldl_cons]
    split
    · exact ih hNd
    · rename_i hNew
      exact ih (nodup_append.mpr ⟨hNd, nodup_singleton _, fun a hA b hB => by
        rintro rfl
        exact hNew (mem_singleton.mp hB ▸ hA)⟩)

variable {records : List AgentActivityRecordInput}

theorem Within.foldAgentActivity {state : AgentActivityState} (h : Within ids state) (toolCalls : ToolCalls)
    (hRows : ∀ record ∈ records, ∀ row,
      activityRow jsonParse (collectToolCalls records toolCalls) record = some row → row.agentId ∈ ids) :
    Within ids (foldAgentActivity jsonParse state toolCalls records).1 := by
  unfold AgentActivity.foldAgentActivity
  dsimp only
  have hCarded : Within ids { state with carded := collectCarded records state.carded } :=
    { h with
      cardedNodup := nodup_collectCarded h.cardedNodup records
      cardedSub := fun agentId hMem => by
        rcases (mem_collectCarded records state.carded agentId).mp hMem with hOld | ⟨record, hRec, hStarted⟩
        · exact h.cardedSub hOld
        · obtain ⟨row, hRow, rfl, -⟩ :=
            (startedAgent_iff jsonParse (collectToolCalls records toolCalls) record agentId).mp hStarted
          exact hRows record hRec row hRow }
  generalize { state with carded := collectCarded records state.carded } = carded at hCarded
  generalize collectToolCalls records toolCalls = calls at hRows
  induction records generalizing carded with
  | nil => exact hCarded
  | cons record records ih =>
    rw [foldl_cons]
    refine ih _ ?_ (fun other hOther => hRows other (mem_cons_of_mem _ hOther))
    unfold foldRecord
    cases hRow : activityRow jsonParse calls record with
    | none => exact hCarded
    | some row => exact hCarded.applyRow _ (hRows record mem_cons_self row hRow)

def runningIds (state : AgentActivityState) : List String :=
  (runningAgentEntries state none).map AgentActivityEntry.agentId

theorem mem_runningIds {state : AgentActivityState} (h : Within ids state) (agentId : String) :
    agentId ∈ runningIds state ↔ (agentOf state agentId).Running := by
  unfold runningIds runningAgentEntries agentOf Agent.Running
  simp only [mem_map, mem_filter, Option.map_eq_some_iff, decide_eq_true_eq, Prod.exists]
  constructor
  · rintro ⟨entry, ⟨⟨key, found, hMem, rfl⟩, hRuns⟩, hOwn⟩
    have hGet := (InsertionMap.mem_iff_get? h.entries.nodup key found).mp hMem
    have hKey := h.own key found hGet
    rw [← hOwn, hKey]
    exact ⟨found, hGet, hRuns⟩
  · rintro ⟨entry, hGet, hRuns⟩
    have hMem := (InsertionMap.mem_iff_get? h.entries.nodup agentId entry).mpr hGet
    exact ⟨entry, ⟨⟨agentId, entry, hMem, rfl⟩, hRuns⟩, h.own agentId entry hGet⟩

theorem nodup_runningIds {state : AgentActivityState} (h : Within ids state) : (runningIds state).Nodup := by
  have hKeys : runningIds state = ((state.entries.filter (fun e => e.2.status = .running)).map Prod.fst) := by
    unfold runningIds runningAgentEntries
    dsimp only
    rw [filter_map, map_map]
    refine map_congr_left (fun e hMem => ?_)
    exact h.own e.1 e.2 ((InsertionMap.mem_iff_get? h.entries.nodup e.1 e.2).mp (mem_filter.mp hMem).1)
  rw [hKeys]
  exact (filter_sublist.map Prod.fst).nodup h.entries.nodup

theorem runningAgentEntries_limit {state : AgentActivityState} {limit : Nat} (h : (runningIds state).length ≤ limit) :
    (runningAgentEntries state (some limit)).map AgentActivityEntry.agentId = runningIds state := by
  unfold runningIds at h ⊢
  rw [length_map] at h
  unfold runningAgentEntries at h ⊢
  dsimp only at h ⊢
  rw [Nat.sub_eq_zero_of_le h, drop_zero]

theorem KeysWithin.collectToolCalls {callIds : List String} {into : ToolCalls} (h : KeysWithin callIds into)
    (hCalls : (records.flatMap toolCallsOf).map Prod.fst ⊆ callIds) :
    KeysWithin callIds (collectToolCalls records into) := by
  unfold AgentActivity.collectToolCalls
  generalize records.flatMap toolCallsOf = calls at hCalls
  induction calls generalizing into with
  | nil => exact h
  | cons call calls ih =>
    rw [map_cons, cons_subset] at hCalls
    exact ih (h.set hCalls.1 call.2) hCalls.2

theorem trimAgentActivity_eq {state : AgentActivityState} (h : Within ids state) (hIds : ids.length ≤ maxSettledEntries)
    {toolCalls : ToolCalls} (hCalls : toolCalls.length ≤ maxPendingToolCalls) :
    trimAgentActivity state toolCalls = (state, toolCalls) := by
  have hNone : surplusSettled state = [] := by
    unfold surplusSettled
    have hLen : ((state.entries.map Prod.snd).filter (fun entry => entry.status ≠ .running)).length ≤
        maxSettledEntries := by
      refine (length_filter_le _ _).trans ?_
      rw [length_map]
      exact h.entries.length_le.trans hIds
    dsimp only
    rw [Nat.sub_eq_zero_of_le hLen]
    rfl
  have hGens : ¬ maxSettledEntries < state.generations.length := not_lt.mpr (h.generations.length_le.trans hIds)
  have hSettled : ¬ maxSettledEntries < state.settledGenerations.length := not_lt.mpr (h.settled.length_le.trans hIds)
  have hCarded : ¬ maxSettledEntries < state.carded.length :=
    not_lt.mpr ((subperm_of_subset h.cardedNodup h.cardedSub).length_le.trans hIds)
  unfold trimAgentActivity
  simp [hNone, dropUnlisted, hGens, hSettled, hCarded, not_lt.mpr hCalls]

end

end Stella.AgentActivity
