import Stella.AgentActivity.Fold
import Stella.AgentActivity.Split

/-! # The fold, agent by agent

What the fold keeps of one agent is what `Agent` says: a row moves only the
agent it names, and a batch knows the start cards of its own rows and of the
batches before it.
-/

namespace Stella.AgentActivity

open List

def titled (title : Option String) : Bool := title.any (fun t => trim t ≠ "")

def ActivityRow.event : ActivityRow → AgentEvent
  | .card (.started identity description ..) => .started identity.attemptGeneration (titled (some description))
  | .card (.progress ..) => .progress
  | .card (.completed identity _) => .terminal identity.attemptGeneration
  | .card (.failed identity _) => .terminal identity.attemptGeneration
  | .card (.canceled identity _) => .terminal identity.attemptGeneration
  | .wake .. => .wake
  | .spawn _ description => .spawn (titled description)
  | .send _ delivered => if delivered = none ∨ delivered = some "resumed" then .resume else .progress

def agentOf (state : AgentActivityState) (agentId : String) : Agent where
  attempts := ⟨state.generations.get? agentId, (state.settledGenerations.get? agentId).getD 0⟩
  entry := (state.entries.get? agentId).map (fun entry => decide (entry.status = .running))

theorem isSome_resolveTitle (title : Option String) (existing : Option AgentActivityEntry) :
    (resolveTitle title existing).isSome = (titled title || existing.isSome) := by
  unfold resolveTitle titled
  cases title with
  | none => simp
  | some t => by_cases hBlank : trim t = "" <;> simp [hBlank]

namespace AgentActivityState

section

variable (state : AgentActivityState)

@[simp] theorem start_carded (agentId : String) (title : Option String) (atMs : Int)
    (extra : EntryExtra) : (state.start agentId title atMs extra).carded = state.carded := by
  unfold start
  dsimp only
  split <;> rfl

@[simp] theorem settle_carded (agentId : String) (status : AgentActivityStatus)
    (atMs : Int) : (state.settle agentId status atMs).carded = state.carded := by
  unfold settle
  split
  · rfl
  · split <;> rfl

theorem agentOf_start (agentId : String) (title : Option String) (atMs : Int)
    (extra : EntryExtra) (other : String) :
    agentOf (state.start agentId title atMs extra) other =
      if other = agentId then
        { agentOf state other with
          entry := if titled title ∨ (agentOf state other).entry.isSome then some true else (agentOf state other).entry }
      else agentOf state other := by
  have hTitle := isSome_resolveTitle title (state.entries.get? agentId)
  unfold start
  dsimp only
  cases hResolved : resolveTitle title (state.entries.get? agentId) with
  | none =>
    rw [hResolved, Option.isSome_none, eq_comm, Bool.or_eq_false_iff] at hTitle
    dsimp only
    split
    · rename_i hOther
      subst hOther
      simp [agentOf, hTitle.1, hTitle.2]
    · rfl
  | some resolved =>
    rw [hResolved, Option.isSome_some, eq_comm, Bool.or_eq_true] at hTitle
    dsimp only
    split
    · rename_i hOther
      subst hOther
      have hCounts : titled title = true ∨ (agentOf state other).entry.isSome = true := by
        simpa [agentOf] using hTitle
      rw [if_pos hCounts]
      simp [agentOf]
    · rename_i hOther
      simp [agentOf, InsertionMap.get?_set_of_ne _ _ (Ne.symm hOther)]

variable {status : AgentActivityStatus}

theorem agentOf_settle (agentId : String)
    (hStat : status ≠ .running) (atMs : Int) (other : String) :
    agentOf (state.settle agentId status atMs) other =
      if other = agentId then { agentOf state other with entry := (agentOf state other).entry.map (fun _ => false) }
      else agentOf state other := by
  unfold settle
  cases hExist : state.entries.get? agentId with
  | none =>
    dsimp only
    split
    · rename_i hOther
      subst hOther
      simp [agentOf, hExist]
    · rfl
  | some existing =>
    dsimp only
    split
    · rename_i hRuns
      split
      · rename_i hOther
        subst hOther
        simp [agentOf, hExist, hRuns]
      · rfl
    · split
      · rename_i hOther
        subst hOther
        simp [agentOf, hExist, hStat]
      · rename_i hOther
        simp [agentOf, InsertionMap.get?_set_of_ne _ _ (Ne.symm hOther)]

theorem applyStarted_carded (identity : LifecycleIdentity) (description agentType : String)
    (statusText : Option String) (atMs : Int) :
    (state.applyStarted identity description agentType statusText atMs).carded = state.carded := by
  unfold applyStarted
  dsimp only
  split
  · rfl
  · split
    · rfl
    · rw [start_carded]

theorem applyProgress_carded (identity : LifecycleIdentity) (statusText : String)
    (atMs : Int) : (state.applyProgress identity statusText atMs).carded = state.carded := by
  unfold applyProgress
  split
  · rfl
  · split
    · rfl
    · split
      · rfl
      · split <;> rfl

theorem applyTerminal_carded (identity : LifecycleIdentity) (status : AgentActivityStatus)
    (atMs : Int) : (state.applyTerminal identity status atMs).carded = state.carded := by
  unfold applyTerminal
  dsimp only
  split
  · rfl
  · rw [settle_carded]

variable {row : ActivityRow}

theorem applyRow_mirrored (atMs : Int) (hRow : ¬ ∃ event, row = .card event) :
    state.applyRow atMs row = state ∨
    (∃ title extra, state.applyRow atMs row = state.start row.agentId title atMs extra) ∨
    ∃ status, row = .wake row.agentId status ∧ state.applyRow atMs row = state.settle row.agentId status atMs := by
  cases row with
  | card event => exact absurd ⟨event, rfl⟩ hRow
  | wake threadId status =>
    unfold applyRow
    dsimp only
    split
    · exact .inl rfl
    · exact .inr (.inr ⟨status, rfl, rfl⟩)
  | spawn threadId description =>
    unfold applyRow
    dsimp only
    split
    · exact .inl rfl
    · exact .inr (.inl ⟨description, _, rfl⟩)
  | send threadId delivered =>
    unfold applyRow
    dsimp only
    split
    · exact .inl rfl
    split
    · exact .inl rfl
    split
    · exact .inl rfl
    split
    · exact .inl rfl
    · exact .inr (.inl ⟨none, _, rfl⟩)

theorem applyCard_carded (atMs : Int) (event : CloudAgentLifecycleEvent) :
    (state.applyCard atMs event).carded = state.carded := by
  cases event with
  | started => exact applyStarted_carded ..
  | progress => exact applyProgress_carded ..
  | completed => exact applyTerminal_carded ..
  | failed => exact applyTerminal_carded ..
  | canceled => exact applyTerminal_carded ..

theorem applyRow_carded (atMs : Int) (row : ActivityRow) :
    (state.applyRow atMs row).carded = state.carded := by
  by_cases hCard : ∃ event, row = .card event
  · obtain ⟨event, rfl⟩ := hCard
    exact applyCard_carded state atMs event
  · obtain hIs | ⟨title, extra, hIs⟩ | ⟨status, -, hIs⟩ := applyRow_mirrored state atMs hCard
    · rw [hIs]
    · rw [hIs, start_carded]
    · rw [hIs, settle_carded]

theorem agentOf_applyStarted (identity : LifecycleIdentity)
    (description agentType : String) (statusText : Option String) (atMs : Int) (mirrored : Bool) (other : String) :
    agentOf (state.applyStarted identity description agentType statusText atMs) other =
      if other = identity.agentId then
        (agentOf state other).step mirrored (.started identity.attemptGeneration (titled (some description)))
      else agentOf state other := by
  have hAccepts : (agentOf state identity.agentId).attempts.Accepts identity.attemptGeneration ↔
      ¬ identity.attemptGeneration < (state.generations.get? identity.agentId).getD 0 ∧
      ¬ identity.attemptGeneration ≤ (state.settledGenerations.get? identity.agentId).getD 0 := by
    unfold Attempts.Accepts agentOf
    rw [not_lt, not_le]
  by_cases hCounts : (agentOf state identity.agentId).attempts.Accepts identity.attemptGeneration
  · obtain ⟨hNewest, hUnset⟩ := hAccepts.mp hCounts
    unfold applyStarted
    dsimp only
    rw [if_neg hNewest, if_neg hUnset, agentOf_start]
    split
    · rename_i hOther
      subst hOther
      simp only [Agent.step, Attempts.step, hCounts, if_true, true_and]
      simp [agentOf]
    · rename_i hOther
      simp [agentOf, InsertionMap.get?_set_of_ne _ _ (Ne.symm hOther)]
  · have hEq : state.applyStarted identity description agentType statusText atMs = state := by
      unfold applyStarted
      dsimp only
      split
      · rfl
      · split
        · rfl
        · exact absurd (hAccepts.mpr ⟨‹_›, ‹_›⟩) hCounts
    rw [hEq]
    split
    · rename_i hOther
      subst hOther
      simp only [Agent.step, Attempts.step, hCounts, if_false, false_and]
    · rfl

theorem agentOf_applyProgress (identity : LifecycleIdentity) (statusText : String)
    (atMs : Int) (other : String) :
    agentOf (state.applyProgress identity statusText atMs) other = agentOf state other := by
  unfold applyProgress
  split
  · rfl
  split
  · rfl
  cases hExist : state.entries.get? identity.agentId with
  | none => rfl
  | some existing =>
    dsimp only
    split
    · by_cases hOther : other = identity.agentId
      · subst hOther
        simp [agentOf, hExist]
      · simp [agentOf, InsertionMap.get?_set_of_ne _ _ (Ne.symm hOther)]
    · rfl

theorem agentOf_applyTerminal (identity : LifecycleIdentity)
    (hStat : status ≠ .running) (atMs : Int) (mirrored : Bool) (other : String) :
    agentOf (state.applyTerminal identity status atMs) other =
      if other = identity.agentId then (agentOf state other).step mirrored (.terminal identity.attemptGeneration)
      else agentOf state other := by
  have hOtherAttempt : state.isOtherAttempt identity = true ↔
      ¬ (agentOf state identity.agentId).attempts.generation.all (· = identity.attemptGeneration) = true := by
    unfold isOtherAttempt agentOf InsertionMap.has
    cases hGen : state.generations.get? identity.agentId with
    | none => simp
    | some generation => simp [ne_comm]
  unfold applyTerminal
  dsimp only
  split
  · rename_i hOther
    have hKeeps := hOtherAttempt.mp hOther
    split
    · rename_i hEq
      subst hEq
      simp only [Agent.step, Attempts.step, hKeeps]
      simp [agentOf]
    · rename_i hNe
      simp [agentOf, InsertionMap.get?_set_of_ne _ _ (Ne.symm hNe)]
  · rename_i hOther
    have hSettles := not_not.mp (fun h => hOther (hOtherAttempt.mpr h))
    rw [agentOf_settle _ _ hStat]
    split
    · rename_i hEq
      subst hEq
      simp only [Agent.step, Attempts.step, hSettles, if_true]
      simp [agentOf]
    · rename_i hNe
      simp [agentOf, InsertionMap.get?_set_of_ne _ _ (Ne.symm hNe)]

theorem agentOf_applySend (atMs : Int) (agentId : String) (delivered : Option String) :
    agentOf (state.applyRow atMs (.send agentId delivered)) agentId =
      (agentOf state agentId).step (agentId ∉ state.carded) (ActivityRow.send agentId delivered).event := by
  by_cases hCarded : agentId ∈ state.carded
  · simp only [applyRow, hCarded, if_true, ActivityRow.event]
    split <;> simp [Agent.step, Attempts.step]
  · by_cases hDelivered : delivered = none ∨ delivered = some "resumed"
    · have hPasses : ¬ (delivered ≠ none ∧ delivered ≠ some "resumed") := by tauto
      have hKnown : (agentOf state agentId).entry.isSome = state.entries.has agentId := by
        simp [agentOf, InsertionMap.has]
      simp only [applyRow, ActivityRow.event, hCarded, hPasses, hDelivered, if_true, if_false]
      split
      · rename_i hAbsent
        have hNone : (agentOf state agentId).entry = none := by
          simpa [← hKnown] using hAbsent.2
        simp only [Agent.step, Attempts.step, hNone, Option.map_none]
        exact congrArg (Agent.mk (agentOf state agentId).attempts) hNone
      · split
        · rename_i hRuns
          have hEnt : (agentOf state agentId).entry = some true := by
            obtain ⟨entry, hEnt, hStat⟩ := Option.map_eq_some_iff.mp hRuns
            simp [agentOf, hEnt, hStat]
          simp only [Agent.step, Attempts.step, hEnt, Option.map_some]
          exact congrArg (Agent.mk (agentOf state agentId).attempts) hEnt
        · rw [agentOf_start, if_pos rfl]
          cases hEnt : (agentOf state agentId).entry <;> simp [Agent.step, Attempts.step, titled, hEnt]
    · have hPasses : delivered ≠ none ∧ delivered ≠ some "resumed" := not_or.mp hDelivered
      simp [applyRow, ActivityRow.event, hCarded, hPasses.1, hPasses.2, Agent.step, Attempts.step]

theorem agentOf_mirrored_other (atMs : Int) (hCard : ¬ ∃ event, row = .card event)
    (hRow : ∀ threadId, row ≠ .wake threadId .running) {agentId : String} (hOther : agentId ≠ row.agentId) :
    agentOf (state.applyRow atMs row) agentId = agentOf state agentId := by
  obtain hIs | ⟨title, extra, hIs⟩ | ⟨status, hWake, hIs⟩ := applyRow_mirrored state atMs hCard
  · rw [hIs]
  · rw [hIs, agentOf_start, if_neg hOther]
  · have hStat : status ≠ .running := by
      rintro rfl
      exact hRow _ hWake
    rw [hIs, agentOf_settle _ _ hStat, if_neg hOther]

theorem agentOf_applyRow (atMs : Int) (row : ActivityRow)
    (hRow : ∀ threadId, row ≠ .wake threadId .running) (agentId : String) :
    agentOf (state.applyRow atMs row) agentId =
      if agentId = row.agentId then (agentOf state agentId).step (agentId ∉ state.carded) row.event
      else agentOf state agentId := by
  cases row with
  | card event =>
    cases event with
    | started => exact agentOf_applyStarted ..
    | progress identity statusText =>
      have hSame : agentOf (state.applyRow atMs (.card (.progress identity statusText))) agentId = agentOf state agentId :=
        agentOf_applyProgress ..
      rw [hSame]
      split <;> rfl
    | completed => exact agentOf_applyTerminal _ _ (by decide) ..
    | failed => exact agentOf_applyTerminal _ _ (by decide) ..
    | canceled => exact agentOf_applyTerminal _ _ (by decide) ..
  | wake threadId status =>
    have hStat : status ≠ .running := fun hEq => hRow threadId (by rw [hEq])
    by_cases hSame : agentId = threadId
    · subst hSame
      by_cases hCarded : agentId ∈ state.carded
      · simp [applyRow, hCarded, ActivityRow.agentId, ActivityRow.event, Agent.step, Attempts.step]
      · simp [applyRow, hCarded, ActivityRow.agentId, ActivityRow.event, Agent.step, Attempts.step,
          agentOf_settle _ _ hStat]
    · rw [ActivityRow.agentId, if_neg hSame]
      exact agentOf_mirrored_other state atMs (by simp) hRow hSame
  | spawn threadId description =>
    by_cases hSame : agentId = threadId
    · subst hSame
      by_cases hCarded : agentId ∈ state.carded
      · simp [applyRow, hCarded, ActivityRow.agentId, ActivityRow.event, Agent.step, Attempts.step]
      · simp [applyRow, hCarded, ActivityRow.agentId, ActivityRow.event, Agent.step, Attempts.step, agentOf_start]
    · rw [ActivityRow.agentId, if_neg hSame]
      exact agentOf_mirrored_other state atMs (by simp) hRow hSame
  | send threadId delivered =>
    by_cases hSame : agentId = threadId
    · subst hSame
      rw [ActivityRow.agentId, if_pos rfl]
      exact agentOf_applySend state atMs agentId delivered
    · rw [ActivityRow.agentId, if_neg hSame]
      exact agentOf_mirrored_other state atMs (by simp) hRow hSame

end

end AgentActivityState

theorem wakeStatus_ne_running (text : String) : wakeStatus text ≠ some .running := by
  unfold wakeStatus
  intro hRuns
  obtain ⟨entry, hFind, hStat⟩ := Option.map_eq_some_iff.mp hRuns
  have hMem := mem_of_find?_eq_some hFind
  simp only [wakeStatuses, mem_cons, not_mem_nil, or_false] at hMem
  rcases hMem with rfl | rfl | rfl | rfl <;> cases hStat

section

variable (jsonParse : String → Option Json)

theorem activityRow_ne_wake_running (calls : ToolCalls) {record : AgentActivityRecordInput} {row : ActivityRow}
    (hRow : activityRow jsonParse calls record = some row) (threadId : String) : row ≠ .wake threadId .running := by
  rintro rfl
  unfold activityRow at hRow
  split at hRow
  · simp at hRow
  · split at hRow
    · unfold wakeRow at hRow
      simp only [Option.bind_eq_bind, Option.bind_eq_some_iff] at hRow
      obtain ⟨target, -, status, hStat, hEq⟩ := hRow
      obtain ⟨-, rfl⟩ := ActivityRow.wake.inj (Option.some.inj hEq)
      exact wakeStatus_ne_running _ hStat
    · unfold toolResultRow at hRow
      simp only [Option.bind_eq_bind, Option.bind_eq_some_iff] at hRow
      obtain ⟨-, -, toolName, -, -, -, threadId, -, hEq⟩ := hRow
      split at hEq <;> cases Option.some.inj hEq
  · cases hRow

def eventsOf (calls : ToolCalls) (records : List AgentActivityRecordInput) (agentId : String) : List AgentEvent :=
  records.filterMap (fun record => (activityRow jsonParse calls record).bind (fun row =>
    if agentId = row.agentId then some row.event else none))

section

variable (calls : ToolCalls)

theorem foldRecord_carded (state : AgentActivityState) (record : AgentActivityRecordInput) :
    (foldRecord jsonParse calls state record).carded = state.carded := by
  unfold foldRecord
  split
  · rw [AgentActivityState.applyRow_carded]
  · rfl

theorem foldl_carded (records : List AgentActivityRecordInput) (state : AgentActivityState) :
    (records.foldl (foldRecord jsonParse calls) state).carded = state.carded := by
  induction records generalizing state with
  | nil => rfl
  | cons record records ih => rw [foldl_cons, ih, foldRecord_carded]

theorem agentOf_foldl (records : List AgentActivityRecordInput) (state : AgentActivityState)
    (agentId : String) :
    agentOf (records.foldl (foldRecord jsonParse calls) state) agentId =
      (agentOf state agentId).run (agentId ∉ state.carded) (eventsOf jsonParse calls records agentId) := by
  induction records generalizing state with
  | nil => rfl
  | cons record records ih =>
    rw [foldl_cons, ih, foldRecord_carded]
    unfold foldRecord eventsOf
    rw [filterMap_cons]
    cases hRow : activityRow jsonParse calls record with
    | none => rfl
    | some row =>
      dsimp only [Option.bind_some]
      rw [AgentActivityState.agentOf_applyRow _ _ _ (activityRow_ne_wake_running jsonParse calls hRow)]
      split <;> rfl

end

theorem mem_collectCarded (records : List AgentActivityRecordInput) (carded : List String) (agentId : String) :
    agentId ∈ collectCarded records carded ↔ agentId ∈ carded ∨ ∃ record ∈ records, startedAgent record = some agentId := by
  unfold collectCarded
  rw [← mem_filterMap]
  generalize records.filterMap startedAgent = started
  induction started generalizing carded with
  | nil => simp
  | cons other started ih =>
    rw [foldl_cons, ih, mem_cons]
    split
    · rename_i hKnown
      constructor
      · rintro (hMem | hMem)
        · exact .inl hMem
        · exact .inr (.inr hMem)
      · rintro (hMem | rfl | hMem)
        · exact .inl hMem
        · exact .inl hKnown
        · exact .inr hMem
    · rw [mem_append, mem_singleton, or_assoc]

theorem activityRow_eq_card (calls : ToolCalls) (record : AgentActivityRecordInput) (event : CloudAgentLifecycleEvent) :
    activityRow jsonParse calls record = some (.card event) ↔ cardEvent record = some event := by
  unfold activityRow
  cases hKind : record.kind with
  | card => simp
  | turn => simp [cardEvent, hKind]
  | message =>
    have hNone : cardEvent record = none := if_neg (by simp [hKind])
    rw [hNone]
    refine iff_of_false (fun hRow => ?_) (by simp)
    dsimp only at hRow
    split at hRow
    · unfold wakeRow at hRow
      simp [Option.bind_eq_some_iff] at hRow
    · unfold toolResultRow at hRow
      simp only [Option.bind_eq_bind, Option.bind_eq_some_iff] at hRow
      obtain ⟨-, -, toolName, -, -, -, threadId, -, hEq⟩ := hRow
      split at hEq <;> cases Option.some.inj hEq

theorem isStart_event (row : ActivityRow) : row.event.isStart = true ↔
    ∃ identity description agentType isFollowUp statusText,
      row = .card (.started identity description agentType isFollowUp statusText) := by
  cases row with
  | card event => cases event <;> simp [ActivityRow.event, AgentEvent.isStart]
  | wake => simp [ActivityRow.event, AgentEvent.isStart]
  | spawn => simp [ActivityRow.event, AgentEvent.isStart]
  | send threadId delivered =>
    simp only [ActivityRow.event, reduceCtorEq, exists_false, iff_false]
    split <;> simp [AgentEvent.isStart]

theorem startedAgent_iff (calls : ToolCalls) (record : AgentActivityRecordInput) (agentId : String) :
    startedAgent record = some agentId ↔ ∃ row, activityRow jsonParse calls record = some row ∧
      agentId = row.agentId ∧ row.event.isStart = true := by
  constructor
  · intro hStarted
    unfold startedAgent at hStarted
    split at hStarted
    · rename_i identity description agentType isFollowUp statusText hCard
      refine ⟨_, (activityRow_eq_card jsonParse calls record _).mpr hCard, (Option.some.inj hStarted).symm, rfl⟩
    · cases hStarted
  · rintro ⟨row, hRow, rfl, hStart⟩
    obtain ⟨identity, description, agentType, isFollowUp, statusText, rfl⟩ := (isStart_event row).mp hStart
    unfold startedAgent
    rw [(activityRow_eq_card jsonParse calls record _).mp hRow]
    rfl

theorem any_isStart_eventsOf (calls : ToolCalls) (records : List AgentActivityRecordInput) (agentId : String) :
    (eventsOf jsonParse calls records agentId).any AgentEvent.isStart = true ↔
      ∃ record ∈ records, startedAgent record = some agentId := by
  simp only [eventsOf, any_eq_true, mem_filterMap, startedAgent_iff jsonParse calls, Option.bind_eq_some_iff]
  constructor
  · rintro ⟨event, ⟨record, hMem, row, hRow, hEv⟩, hStart⟩
    split at hEv
    · rename_i hAgent
      obtain rfl := Option.some.inj hEv
      exact ⟨record, hMem, row, hRow, hAgent, hStart⟩
    · cases hEv
  · rintro ⟨record, hMem, row, hRow, hAgent, hStart⟩
    exact ⟨row.event, ⟨record, hMem, row, hRow, if_pos hAgent⟩, hStart⟩

theorem agentOf_foldAgentActivity (state : AgentActivityState) (toolCalls : ToolCalls)
    (records : List AgentActivityRecordInput) (agentId : String) :
    agentOf (foldAgentActivity jsonParse state toolCalls records).1 agentId =
      (agentOf state agentId).run
        (!(decide (agentId ∈ state.carded) ||
          (eventsOf jsonParse (collectToolCalls records toolCalls) records agentId).any AgentEvent.isStart))
        (eventsOf jsonParse (collectToolCalls records toolCalls) records agentId) := by
  unfold foldAgentActivity
  dsimp only
  rw [agentOf_foldl]
  congr 1
  have hCarded : decide (agentId ∈ collectCarded records state.carded) = (decide (agentId ∈ state.carded) ||
      (eventsOf jsonParse (collectToolCalls records toolCalls) records agentId).any AgentEvent.isStart) := by
    rw [Bool.eq_iff_iff, Bool.or_eq_true, decide_eq_true_iff, decide_eq_true_iff, mem_collectCarded,
      any_isStart_eventsOf]
  rw [decide_not]
  exact congrArg Bool.not hCarded

def foldBatches (state : AgentActivityState) (toolCalls : ToolCalls) (batches : List (List AgentActivityRecordInput)) :
    AgentActivityState × ToolCalls :=
  batches.foldl (fun carried batch => foldAgentActivity jsonParse carried.1 carried.2 batch) (state, toolCalls)

def batchEvents (toolCalls : ToolCalls) (agentId : String) :
    List (List AgentActivityRecordInput) → List (List AgentEvent)
  | [] => []
  | batch :: rest => eventsOf jsonParse (collectToolCalls batch toolCalls) batch agentId ::
      batchEvents (collectToolCalls batch toolCalls) agentId rest

theorem agentOf_foldBatches (state : AgentActivityState) (toolCalls : ToolCalls)
    (batches : List (List AgentActivityRecordInput)) (agentId : String) :
    agentOf (foldBatches jsonParse state toolCalls batches).1 agentId =
      Agent.runBatches (decide (agentId ∈ state.carded)) (agentOf state agentId)
        (batchEvents jsonParse toolCalls agentId batches) := by
  induction batches generalizing state toolCalls with
  | nil => rfl
  | cons batch rest ih =>
    unfold foldBatches batchEvents Agent.runBatches
    rw [foldl_cons]
    change agentOf (foldBatches jsonParse (foldAgentActivity jsonParse state toolCalls batch).1
      (foldAgentActivity jsonParse state toolCalls batch).2 rest).1 agentId = _
    rw [ih, agentOf_foldAgentActivity]
    congr 1
    rw [Bool.eq_iff_iff, Bool.or_eq_true, decide_eq_true_iff, decide_eq_true_iff,
      any_isStart_eventsOf, ← mem_collectCarded]
    unfold foldAgentActivity
    dsimp only
    rw [foldl_carded]

def reading (calls : ToolCalls) (record : AgentActivityRecordInput) : Option (String × AgentEvent) :=
  (activityRow jsonParse calls record).map (fun row => (row.agentId, row.event))

def ReadsSteadily (records : List AgentActivityRecordInput) : Prop :=
  ∀ front record mid back, records = front ++ record :: (mid ++ back) →
    reading jsonParse (collectToolCalls (front ++ record :: mid) []) record =
      reading jsonParse (collectToolCalls records []) record

theorem collectToolCalls_append (xs ys : List AgentActivityRecordInput) (into : ToolCalls) :
    collectToolCalls (xs ++ ys) into = collectToolCalls ys (collectToolCalls xs into) := by
  unfold collectToolCalls
  rw [flatMap_append, foldl_append]

variable {records : List AgentActivityRecordInput}

theorem eventsOf_congr {calls calls' : ToolCalls}
    (h : ∀ record ∈ records, reading jsonParse calls record = reading jsonParse calls' record) (agentId : String) :
    eventsOf jsonParse calls records agentId = eventsOf jsonParse calls' records agentId := by
  have hReading : ∀ calls, eventsOf jsonParse calls records agentId = records.filterMap (fun record =>
      (reading jsonParse calls record).bind (fun e => if agentId = e.1 then some e.2 else none)) := by
    intro calls
    unfold eventsOf reading
    simp only [Option.bind_map]
    rfl
  rw [hReading, hReading]
  exact filterMap_congr (fun record hMem => by rw [h record hMem])

theorem batchEvents_steady (hSteady : ReadsSteadily jsonParse records)
    (agentId : String) (batches : List (List AgentActivityRecordInput)) (before : List AgentActivityRecordInput)
    (hSplit : records = before ++ batches.flatten) :
    batchEvents jsonParse (collectToolCalls before []) agentId batches =
      batches.map (fun batch => eventsOf jsonParse (collectToolCalls records []) batch agentId) := by
  induction batches generalizing before with
  | nil => rfl
  | cons batch rest ih =>
    unfold batchEvents
    rw [map_cons, ← collectToolCalls_append]
    rw [flatten_cons] at hSplit
    rw [ih (before ++ batch) (by rw [hSplit, append_assoc])]
    congr 1
    refine eventsOf_congr jsonParse (fun record hMem => ?_) agentId
    obtain ⟨front, mid, rfl⟩ := append_of_mem hMem
    have hRead := hSteady (before ++ front) record mid rest.flatten (by rw [hSplit]; simp)
    rw [← hRead]
    simp

theorem flatten_eventsOf (calls : ToolCalls) (batches : List (List AgentActivityRecordInput)) (agentId : String) :
    (batches.map (fun batch => eventsOf jsonParse calls batch agentId)).flatten =
      eventsOf jsonParse calls batches.flatten agentId := by
  unfold eventsOf
  rw [filterMap_flatten]

def AgentStrays (records : List AgentActivityRecordInput) (agentId : String) : Prop :=
  Strays (eventsOf jsonParse (collectToolCalls records []) records agentId)

section

variable (hSteady : ReadsSteadily jsonParse records)
include hSteady

variable {batches : List (List AgentActivityRecordInput)}

theorem agentOf_batches (hBatches : batches.flatten = records) (agentId : String) :
    agentOf (foldBatches jsonParse emptyAgentActivityState [] batches).1 agentId = Agent.runBatches false {}
      (batches.map (fun batch => eventsOf jsonParse (collectToolCalls records []) batch agentId)) := by
  rw [agentOf_foldBatches, ← batchEvents_steady jsonParse hSteady agentId batches [] (by simpa using hBatches.symm)]
  rfl

variable {agentId : String}

theorem foldBatches_running_iff (hBatches : batches.flatten = records)
    (hStrays : ¬ AgentStrays jsonParse records agentId) :
    (agentOf (foldBatches jsonParse emptyAgentActivityState [] batches).1 agentId).Running ↔
      (agentOf (foldBatches jsonParse emptyAgentActivityState [] [records]).1 agentId).Running := by
  rw [agentOf_batches jsonParse hSteady hBatches, agentOf_batches jsonParse hSteady (by simp)]
  unfold AgentStrays at hStrays
  rw [← hBatches, ← flatten_eventsOf] at hStrays
  have hAlike := Agent.runBatches_running_iff hStrays
  rw [flatten_eventsOf, hBatches] at hAlike
  simpa using hAlike

theorem exists_foldBatches_of_strays (hStrays : AgentStrays jsonParse records agentId) :
    ∃ batches, batches.flatten = records ∧
      ¬ ((agentOf (foldBatches jsonParse emptyAgentActivityState [] batches).1 agentId).Running ↔
        (agentOf (foldBatches jsonParse emptyAgentActivityState [] [records]).1 agentId).Running) := by
  obtain ⟨front, back, hSplit, hDiffer⟩ := Agent.exists_split_of_strays hStrays
  obtain ⟨xs, ys, hRecords, rfl, rfl⟩ := filterMap_eq_append_iff.mp hSplit
  refine ⟨[xs, ys], by simpa using hRecords.symm, ?_⟩
  rw [agentOf_batches jsonParse hSteady (by simpa using hRecords.symm), agentOf_batches jsonParse hSteady (by simp)]
  exact hDiffer

end

end

end Stella.AgentActivity
