import Stella.AgentActivity.Names
import Stella.Library.Transition

/-! # Runs of agent activity

The fold row by row, in any order with the trim: which attempt a running entry is of, and where it
stands among the running ones.
-/

namespace Stella.AgentActivity

open Transition List

inductive ActivityOp
  | carded (records : List AgentActivityRecordInput)
  | row (atMs : Int) (row : ActivityRow)
  | trim

def activityStep (state : AgentActivityState) : ActivityOp → AgentActivityState
  | .carded records => { state with carded := collectCarded records state.carded }
  | .row atMs row => state.applyRow atMs row
  | .trim => (trimAgentActivity state []).1

namespace AgentActivityState

def Starts (state : AgentActivityState) : ActivityRow → Prop
  | .card (.started identity description ..) => (agentOf state identity.agentId).attempts.Accepts identity.attemptGeneration ∧
      (titled (some description) = true ∨ (state.entries.get? identity.agentId).isSome = true)
  | .spawn threadId description => threadId ∉ state.carded ∧
      (titled description = true ∨ (state.entries.get? threadId).isSome = true)
  | .send threadId delivered => threadId ∉ state.carded ∧ (delivered = none ∨ delivered = some "resumed") ∧
      (state.entries.get? threadId).any (fun entry => entry.status ≠ .running) = true
  | _ => False

instance (state : AgentActivityState) (row : ActivityRow) : Decidable (state.Starts row) := by
  unfold Starts
  split <;> infer_instance

end AgentActivityState

variable {state : AgentActivityState}

theorem start_cases (state : AgentActivityState) (agentId : String) (title : Option String) (atMs : Int) (extra : EntryExtra) :
    (titled title = false ∧ state.entries.get? agentId = none ∧ state.start agentId title atMs extra = state) ∨
    ((titled title = true ∨ (state.entries.get? agentId).isSome = true) ∧ ∃ entry : AgentActivityEntry,
      entry.agentId = agentId ∧ entry.status = .running ∧ entry.createdAtMs = atMs ∧ entry.attemptGeneration = extra.attemptGeneration ∧
      state.start agentId title atMs extra = { state with entries := state.entries.set agentId entry }) := by
  have hSome := isSome_resolveTitle title (state.entries.get? agentId)
  unfold AgentActivityState.start
  dsimp only
  cases hTitle : resolveTitle title (state.entries.get? agentId) with
  | none =>
    rw [hTitle, Option.isSome_none, eq_comm, Bool.or_eq_false_iff] at hSome
    exact .inl ⟨hSome.1, Option.isSome_eq_false_iff.mp hSome.2 |> Option.isNone_iff_eq_none.mp, rfl⟩
  | some resolved =>
    rw [hTitle, Option.isSome_some, eq_comm, Bool.or_eq_true] at hSome
    exact .inr ⟨hSome, _, rfl, rfl, rfl, rfl, rfl⟩

def SameStart (existing entry : AgentActivityEntry) : Prop :=
  entry.agentId = existing.agentId ∧ entry.createdAtMs = existing.createdAtMs ∧ entry.attemptGeneration = existing.attemptGeneration

theorem settle_cases (state : AgentActivityState) (agentId : String) (status : AgentActivityStatus) (atMs : Int) :
    state.settle agentId status atMs = state ∨ ∃ existing entry, state.entries.get? agentId = some existing ∧ existing.status = .running ∧
      SameStart existing entry ∧ state.settle agentId status atMs = { state with entries := state.entries.set agentId entry } := by
  unfold AgentActivityState.settle
  split
  · exact .inl rfl
  · next existing hExist =>
    split
    · exact .inl rfl
    · next hRuns =>
      refine .inr ⟨existing, { existing with status, statusText := none, completedAtMs := some atMs, updatedAtMs := atMs }, hExist,
        not_not.mp hRuns, ⟨rfl, rfl, rfl⟩, rfl⟩

inductive RowEffect (state : AgentActivityState) (atMs : Int) (row : ActivityRow) (next : AgentActivityState) : Prop
  | same (hStays : ¬ state.Starts row) (hEntries : next.entries = state.entries) (hGenerations : next.generations = state.generations ∨
      state.entries.get? row.agentId = none ∧ ∃ generation, next.generations = state.generations.set row.agentId generation)
  | started (entry : AgentActivityEntry) (hStarts : state.Starts row) (hOwn : entry.agentId = row.agentId) (hRunning : entry.status = .running)
      (hAt : entry.createdAtMs = atMs) (hEntries : next.entries = state.entries.set row.agentId entry)
      (hGenerations : entry.attemptGeneration = none ∧ next.generations = state.generations ∨
        ∃ generation, entry.attemptGeneration = some generation ∧ next.generations = state.generations.set row.agentId generation)
  | kept (existing entry : AgentActivityEntry) (hStays : ¬ state.Starts row) (hExisting : state.entries.get? row.agentId = some existing)
      (hRunning : existing.status = .running) (hSame : SameStart existing entry)
      (hEntries : next.entries = state.entries.set row.agentId entry) (hGenerations : next.generations = state.generations)

theorem untitled {title : Option String} {existing : Option AgentActivityEntry} (hBlank : titled title = false)
    (hNone : existing = none)
    (h : titled title = true ∨ existing.isSome = true) : False := by
  rcases h with hTitle | hSome
  · exact absurd (hBlank.symm.trans hTitle) Bool.false_ne_true
  · rw [hNone] at hSome
    cases hSome

theorem rowEffect_applyStarted (state : AgentActivityState) (atMs : Int) (identity : LifecycleIdentity)
    (description agentType : String)
    (isFollowUp : Bool) (statusText : Option String) :
    RowEffect state atMs (.card (.started identity description agentType isFollowUp statusText))
      (state.applyStarted identity description agentType statusText atMs) := by
  unfold AgentActivityState.applyStarted
  dsimp only
  split
  · next hOlder => exact .same (fun hStarts => absurd hOlder (not_lt.mpr hStarts.1.1)) rfl (.inl rfl)
  · next hNewest =>
    split
    · next hSettled => exact .same (fun hStarts => absurd hSettled (not_le.mpr hStarts.1.2)) rfl (.inl rfl)
    · next hUnset =>
      have hAccepts : (agentOf state identity.agentId).attempts.Accepts identity.attemptGeneration :=
          ⟨not_lt.mp hNewest, not_le.mp hUnset⟩
      obtain ⟨hBlank, hNone, hEq⟩ | ⟨hTitle, entry, hOwn, hRuns, hAt, hAtt, hIs⟩ := start_cases
        { state with generations := state.generations.set identity.agentId identity.attemptGeneration } identity.agentId (some description)
        atMs ⟨nonempty (some agentType), nonempty (statusText.map trim), some identity.attemptGeneration⟩
      · rw [hEq]
        exact .same (fun hStarts => untitled hBlank hNone hStarts.2) rfl (.inr ⟨hNone, _, rfl⟩)
      · rw [hIs]
        exact .started entry ⟨hAccepts, hTitle⟩ hOwn hRuns hAt rfl (.inr ⟨_, hAtt, rfl⟩)

variable {atMs : Int} {row : ActivityRow} {agentId : String}

theorem rowEffect_settle (hStays : ¬ state.Starts row) (hAgent : row.agentId = agentId) (status : AgentActivityStatus)
    {settled : InsertionMap String Int} :
    RowEffect state atMs row (AgentActivityState.settle { state with settledGenerations := settled } agentId status atMs) := by
  obtain hEq | ⟨existing, entry, hExist, hRuns, hStart, hIs⟩ :=
      settle_cases { state with settledGenerations := settled } agentId status atMs
  · rw [hEq]
    exact .same hStays rfl (.inl rfl)
  · rw [hIs]
    subst hAgent
    exact .kept existing entry hStays hExist hRuns hStart rfl rfl

theorem rowEffect_applyTerminal {identity : LifecycleIdentity} (hStays : ¬ state.Starts row)
    (hAgent : row.agentId = identity.agentId)
    (status : AgentActivityStatus) : RowEffect state atMs row (state.applyTerminal identity status atMs) := by
  unfold AgentActivityState.applyTerminal
  dsimp only
  split
  · exact .same hStays rfl (.inl rfl)
  · exact rowEffect_settle hStays hAgent status

section

variable (state : AgentActivityState)

theorem rowEffect_applyProgress (atMs : Int) (identity : LifecycleIdentity) (statusText : String) :
    RowEffect state atMs (.card (.progress identity statusText)) (state.applyProgress identity statusText atMs) := by
  unfold AgentActivityState.applyProgress
  split
  · exact .same not_false rfl (.inl rfl)
  · split
    · exact .same not_false rfl (.inl rfl)
    · split
      · exact .same not_false rfl (.inl rfl)
      · next existing hExist =>
        split
        · next hRuns =>
          exact .kept existing { existing with statusText := some (trim statusText), updatedAtMs := atMs } not_false hExist hRuns.1
            ⟨rfl, rfl, rfl⟩ rfl rfl
        · exact .same not_false rfl (.inl rfl)

theorem applySend_eq (atMs : Int) (threadId : String) (delivered : Option String) :
    state.applyRow atMs (.send threadId delivered) =
      if state.Starts (.send threadId delivered) then state.start threadId none atMs {} else state := by
  have hNothing : state.entries.get? threadId = none → state.start threadId none atMs {} = state := by
    intro hNone
    obtain ⟨-, -, hEq⟩ | ⟨hTitle, -⟩ := start_cases state threadId none atMs {}
    · exact hEq
    · exact (untitled rfl hNone hTitle).elim
  unfold AgentActivityState.applyRow AgentActivityState.Starts
  dsimp only
  obtain hEnt | ⟨existing, hEnt⟩ := Option.eq_none_or_eq_some (state.entries.get? threadId)
  · simp [hNothing hEnt]
  · have hHas : state.entries.has threadId = true := by
      rw [InsertionMap.has_eq_isSome, hEnt]
      rfl
    by_cases hCarded : threadId ∈ state.carded
    · simp [hCarded]
    · by_cases hDelivered : delivered = none ∨ delivered = some "resumed"
      · have hPasses : ¬ (delivered ≠ none ∧ delivered ≠ some "resumed") := by tauto
        simp [hCarded, hPasses, hDelivered, hHas, hEnt]
      · have hPasses : delivered ≠ none ∧ delivered ≠ some "resumed" := not_or.mp hDelivered
        simp [hCarded, hPasses, hDelivered]

theorem rowEffect_applySend (atMs : Int) (threadId : String) (delivered : Option String) :
    RowEffect state atMs (.send threadId delivered) (state.applyRow atMs (.send threadId delivered)) := by
  rw [applySend_eq]
  split
  · next hStarts =>
    obtain ⟨-, hNone, -⟩ | ⟨-, entry, hOwn, hRuns, hAt, hAtt, hIs⟩ := start_cases state threadId none atMs {}
    · have hThere := hStarts.2.2
      rw [hNone] at hThere
      cases hThere
    · rw [hIs]
      exact .started entry hStarts hOwn hRuns hAt rfl (.inl ⟨hAtt, rfl⟩)
  · next hStays => exact .same hStays rfl (.inl rfl)

theorem rowEffect_applyRow (atMs : Int) (row : ActivityRow) : RowEffect state atMs row (state.applyRow atMs row) := by
  cases row with
  | card event =>
    cases event with
    | started => exact rowEffect_applyStarted ..
    | progress => exact rowEffect_applyProgress ..
    | completed =>
      refine rowEffect_applyTerminal ?_ rfl _
      exact not_false
    | failed =>
      refine rowEffect_applyTerminal ?_ rfl _
      exact not_false
    | canceled =>
      refine rowEffect_applyTerminal ?_ rfl _
      exact not_false
  | wake threadId status =>
    unfold AgentActivityState.applyRow
    dsimp only
    split
    · exact .same not_false rfl (.inl rfl)
    · have hStays : ¬ state.Starts (.wake threadId status) := not_false
      exact @rowEffect_settle state atMs _ threadId hStays rfl status state.settledGenerations
  | spawn threadId description =>
    unfold AgentActivityState.applyRow
    dsimp only
    split
    · next hCarded => exact .same (fun hStarts => hStarts.1 hCarded) rfl (.inl rfl)
    · next hMirrored =>
      obtain ⟨hBlank, hNone, hEq⟩ | ⟨hTitle, entry, hOwn, hRuns, hAt, hAtt, hIs⟩ :=
        start_cases state threadId description atMs { agentType := some "general" }
      · rw [hEq]
        exact .same (fun hStarts => untitled hBlank hNone hStarts.2) rfl (.inl rfl)
      · rw [hIs]
        exact .started entry ⟨hMirrored, hTitle⟩ hOwn hRuns hAt rfl (.inl ⟨hAtt, rfl⟩)
  | send threadId delivered => exact rowEffect_applySend state atMs threadId delivered

end

/-! ## The trim -/

variable {β : Type}

theorem get?_dropUnlisted (entries : InsertionMap String AgentActivityEntry) (m : InsertionMap String β) (agentId : String) :
    (dropUnlisted entries m).get? agentId =
      if maxSettledEntries < m.length ∧ entries.has agentId = false then none else m.get? agentId := by
  unfold dropUnlisted
  split
  · next hMany =>
    rw [InsertionMap.get?_filter_key]
    cases entries.has agentId with
    | true => exact (if_pos rfl).trans (if_neg fun hBoth => absurd hBoth.2.symm Bool.false_ne_true).symm
    | false => exact (if_neg Bool.false_ne_true).trans (if_pos ⟨hMany, rfl⟩).symm
  · next hFew => rw [if_neg fun hBoth => hFew hBoth.1]

theorem entries_trim (state : AgentActivityState) (toolCalls : ToolCalls) (agentId : String) :
    (trimAgentActivity state toolCalls).1.entries.get? agentId =
      if agentId ∈ surplusSettled state then none else state.entries.get? agentId := by
  unfold trimAgentActivity
  dsimp only
  rw [InsertionMap.get?_foldl_erase]

theorem attempts_trim (state : AgentActivityState) (toolCalls : ToolCalls) :
    (trimAgentActivity state toolCalls).1.generations = dropUnlisted (trimAgentActivity state toolCalls).1.entries
        ((surplusSettled state).foldl InsertionMap.erase state.generations) ∧
      (trimAgentActivity state toolCalls).1.settledGenerations = dropUnlisted (trimAgentActivity state toolCalls).1.entries
        ((surplusSettled state).foldl InsertionMap.erase state.settledGenerations) := by
  unfold trimAgentActivity
  dsimp only
  exact ⟨rfl, rfl⟩

variable {ids : List String} {entry : AgentActivityEntry}

theorem not_mem_surplusSettled (h : Within ids state)
    (hEnt : state.entries.get? agentId = some entry) (hRuns : entry.status = .running) : agentId ∉ surplusSettled state := by
  intro hMem
  obtain ⟨settled, hTaken, hOwn⟩ := mem_map.mp hMem
  obtain ⟨hList, hSettled⟩ := mem_filter.mp ((mem_insertionSort _).mp (mem_of_mem_take hTaken))
  obtain ⟨⟨key, found⟩, hFound, rfl⟩ := mem_map.mp hList
  have hGet := (InsertionMap.mem_iff_get? h.entries.nodup key found).mp hFound
  have hKey : agentId = key := hOwn.symm.trans (h.own key found hGet)
  rw [← hKey, hEnt] at hGet
  rw [← Option.some.inj hGet, hRuns] at hSettled
  exact absurd hSettled (by decide)

theorem generations_trim (h : Within ids state)
    (hEnt : state.entries.get? agentId = some entry) (hRuns : entry.status = .running) (toolCalls : ToolCalls) :
    (trimAgentActivity state toolCalls).1.generations.get? agentId = state.generations.get? agentId := by
  have hKept := not_mem_surplusSettled h hEnt hRuns
  have hThere : (trimAgentActivity state toolCalls).1.entries.has agentId = true := by
    rw [InsertionMap.has_eq_isSome, entries_trim, if_neg hKept, hEnt]
    rfl
  rw [(attempts_trim state toolCalls).1, get?_dropUnlisted, if_neg (fun hBoth => by rw [hThere] at hBoth; exact absurd hBoth.2.symm Bool.false_ne_true),
    InsertionMap.get?_foldl_erase, if_neg hKept]

theorem settled_trim (h : Within ids state) (toolCalls : ToolCalls) (agentId : String) :
    (trimAgentActivity state toolCalls).1.settledGenerations.get? agentId = state.settledGenerations.get? agentId ∨
      (trimAgentActivity state toolCalls).1.settledGenerations.get? agentId = none ∧
      (∀ entry, state.entries.get? agentId = some entry → entry.status ≠ .running) ∧
      (maxSettledEntries < ((state.entries.map Prod.snd).filter fun entry => entry.status ≠ .running).length ∨
        maxSettledEntries < state.settledGenerations.length) := by
  rw [(attempts_trim state toolCalls).2, get?_dropUnlisted]
  by_cases hForgotten : agentId ∈ surplusSettled state
  · refine .inr ⟨?_, fun entry hEnt hRuns => not_mem_surplusSettled h hEnt hRuns hForgotten, .inl ?_⟩
    · split
      · rfl
      · rw [InsertionMap.get?_foldl_erase, if_pos hForgotten]
    · by_contra hFew
      unfold surplusSettled at hForgotten
      dsimp only at hForgotten
      rw [Nat.sub_eq_zero_of_le (not_lt.mp hFew)] at hForgotten
      cases hForgotten
  · split
    · next hGone =>
      refine .inr ⟨rfl, fun entry hEnt _ => ?_, .inr (hGone.1.trans_le (InsertionMap.foldl_erase_sublist _ _).length_le)⟩
      have hThere := hGone.2
      rw [InsertionMap.has_eq_isSome, entries_trim, if_neg hForgotten, hEnt] at hThere
      cases hThere
    · rw [InsertionMap.get?_foldl_erase, if_neg hForgotten]
      exact .inl rfl

/-! ## Which attempt runs -/

structure Traced (state : AgentActivityState) : Prop where
  within : ∃ ids, Within ids state
  attempt : ∀ agentId entry, state.entries.get? agentId = some entry → entry.status = .running →
    ∀ generation ∈ entry.attemptGeneration, state.generations.get? agentId = some generation

variable {more : List String}

theorem KeysWithin.mono {m : InsertionMap String β} (h : KeysWithin ids m) (hMore : ids ⊆ more) :
    KeysWithin more m := ⟨h.nodup, List.Subset.trans h.sub hMore⟩

theorem Within.mono (h : Within ids state) (hMore : ids ⊆ more) : Within more state :=
  ⟨h.entries.mono hMore, h.generations.mono hMore, h.settled.mono hMore, h.cardedNodup, List.Subset.trans h.cardedSub hMore, h.own⟩

theorem KeysWithin.sublist {m less : InsertionMap String β} (h : KeysWithin ids m) (hLess : less.Sublist m) :
    KeysWithin ids less := ⟨(hLess.map Prod.fst).nodup h.nodup, List.Subset.trans (hLess.map Prod.fst).subset h.sub⟩

theorem Within.trim (h : Within ids state) (toolCalls : ToolCalls) : Within ids (trimAgentActivity state toolCalls).1 := by
  have hDrop : ∀ {β : Type} (entries : InsertionMap String AgentActivityEntry) (m : InsertionMap String β),
      (dropUnlisted entries m).Sublist m := by
    intro β entries m
    unfold dropUnlisted
    split
    · exact filter_sublist
    · exact List.Sublist.refl m
  have hCarded : (trimAgentActivity state toolCalls).1.carded.Sublist state.carded := by
    unfold trimAgentActivity
    dsimp only
    split
    · exact filter_sublist.trans filter_sublist
    · exact filter_sublist
  have hEnts : (trimAgentActivity state toolCalls).1.entries.Sublist state.entries := by
    unfold trimAgentActivity
    dsimp only
    exact InsertionMap.foldl_erase_sublist _ _
  obtain ⟨hGens, hSettled⟩ := attempts_trim state toolCalls
  refine ⟨h.entries.sublist hEnts, ?_, ?_, hCarded.nodup h.cardedNodup, List.Subset.trans hCarded.subset h.cardedSub,
    fun agentId entry hEnt => ?_⟩
  · rw [hGens]
    exact h.generations.sublist ((hDrop _ _).trans (InsertionMap.foldl_erase_sublist _ _))
  · rw [hSettled]
    exact h.settled.sublist ((hDrop _ _).trans (InsertionMap.foldl_erase_sublist _ _))
  rw [entries_trim] at hEnt
  split at hEnt
  · cases hEnt
  · exact h.own agentId entry hEnt

theorem Traced.step (h : Traced state) (op : ActivityOp) : Traced (activityStep state op) := by
  obtain ⟨ids, hWith⟩ := h.within
  cases op with
  | carded records =>
    refine ⟨⟨ids ++ collectCarded records state.carded, ?_⟩, h.attempt⟩
    have hMore := hWith.mono (subset_append_left ids (collectCarded records state.carded))
    exact { hMore with
      cardedNodup := nodup_collectCarded hWith.cardedNodup records
      cardedSub := subset_append_right _ _ }
  | row atMs row =>
    have hMore := hWith.mono (subset_cons_self row.agentId ids)
    refine ⟨⟨_, hMore.applyRow atMs mem_cons_self⟩, fun agentId entry hEnt hRuns generation hAtt => ?_⟩
    change (state.applyRow atMs row).generations.get? agentId = _
    change (state.applyRow atMs row).entries.get? agentId = _ at hEnt
    cases rowEffect_applyRow state atMs row with
    | same hStays hEnts hGens =>
      rw [hEnts] at hEnt
      rcases hGens with hEq | ⟨hNone, other, hSet⟩
      · rw [hEq]
        exact h.attempt agentId entry hEnt hRuns generation hAtt
      · have hOther : row.agentId ≠ agentId := fun hEq => by
          rw [hEq, hEnt] at hNone
          cases hNone
        rw [hSet, InsertionMap.get?_set_of_ne _ _ hOther]
        exact h.attempt agentId entry hEnt hRuns generation hAtt
    | started fresh hStarts hOwn hRunning hAt hEnts hGens =>
      rw [hEnts] at hEnt
      by_cases hEq : row.agentId = agentId
      · subst hEq
        rw [InsertionMap.get?_set_self] at hEnt
        obtain rfl := Option.some.inj hEnt
        rcases hGens with ⟨hNone, -⟩ | ⟨opened, hIs, hSet⟩
        · rw [hNone] at hAtt
          cases hAtt
        · rw [hSet, InsertionMap.get?_set_self, ← hIs]
          exact hAtt
      · rw [InsertionMap.get?_set_of_ne _ _ hEq] at hEnt
        have hOld := h.attempt agentId entry hEnt hRuns generation hAtt
        rcases hGens with ⟨-, hKeeps⟩ | ⟨opened, -, hSet⟩
        · rw [hKeeps]
          exact hOld
        · rw [hSet, InsertionMap.get?_set_of_ne _ _ hEq]
          exact hOld
    | kept existing fresh hStays hExist hRunning hKept hEnts hGens =>
      rw [hEnts] at hEnt
      rw [hGens]
      by_cases hEq : row.agentId = agentId
      · subst hEq
        rw [InsertionMap.get?_set_self] at hEnt
        obtain rfl := Option.some.inj hEnt
        exact h.attempt _ existing hExist hRunning generation (hKept.2.2 ▸ hAtt)
      · rw [InsertionMap.get?_set_of_ne _ _ hEq] at hEnt
        exact h.attempt agentId entry hEnt hRuns generation hAtt
  | trim =>
    refine ⟨⟨ids, hWith.trim []⟩, fun agentId entry hEnt hRuns generation hAtt => ?_⟩
    change (trimAgentActivity state []).1.entries.get? agentId = _ at hEnt
    rw [entries_trim] at hEnt
    split at hEnt
    · cases hEnt
    · exact (generations_trim hWith hEnt hRuns []).trans (h.attempt agentId entry hEnt hRuns generation hAtt)

theorem traced_run (ops : List ActivityOp) : Traced (run activityStep emptyAgentActivityState ops) :=
  run_invariant_always (fun _ op h => h.step op) ops ⟨⟨[], within_empty⟩, fun _ _ hEnt => by cases hEnt⟩

/-! ## Settled attempts -/

section

variable (state : AgentActivityState)

theorem settledGenerations_start (agentId : String) (title : Option String) (atMs : Int) (extra : EntryExtra) :
    (state.start agentId title atMs extra).settledGenerations = state.settledGenerations := by
  obtain ⟨-, -, hEq⟩ | ⟨-, entry, -, -, -, -, hIs⟩ := start_cases state agentId title atMs extra
  · rw [hEq]
  · rw [hIs]

theorem settledGenerations_settle (agentId : String) (status : AgentActivityStatus) (atMs : Int) :
    (state.settle agentId status atMs).settledGenerations = state.settledGenerations := by
  obtain hEq | ⟨existing, entry, -, -, -, hIs⟩ := settle_cases state agentId status atMs
  · rw [hEq]
  · rw [hIs]

theorem settledGenerations_applyTerminal (identity : LifecycleIdentity) (status : AgentActivityStatus) (atMs : Int) :
    (state.applyTerminal identity status atMs).settledGenerations = state.settledGenerations.set identity.agentId
      (max identity.attemptGeneration ((state.settledGenerations.get? identity.agentId).getD 0)) := by
  unfold AgentActivityState.applyTerminal
  dsimp only
  split
  · rfl
  · exact settledGenerations_settle _ _ _ _

theorem settledGenerations_applyStarted (identity : LifecycleIdentity) (description agentType : String)
    (statusText : Option String) (atMs : Int) :
    (state.applyStarted identity description agentType statusText atMs).settledGenerations = state.settledGenerations := by
  unfold AgentActivityState.applyStarted
  dsimp only
  split
  · rfl
  · split
    · rfl
    · exact settledGenerations_start _ _ _ _ _

theorem settledGenerations_applyProgress (identity : LifecycleIdentity) (statusText : String) (atMs : Int) :
    (state.applyProgress identity statusText atMs).settledGenerations = state.settledGenerations := by
  unfold AgentActivityState.applyProgress
  split
  · rfl
  · split
    · rfl
    · split
      · rfl
      · split <;> rfl

end

theorem event_of_mirrored (hCard : ¬ ∃ event, row = .card event) (generation : Int) : row.event ≠ .terminal generation := by
  cases row with
  | card event => exact absurd ⟨event, rfl⟩ hCard
  | wake threadId status => exact AgentEvent.noConfusion
  | spawn threadId description => exact AgentEvent.noConfusion
  | send threadId delivered =>
    intro hEv
    unfold ActivityRow.event at hEv
    dsimp only at hEv
    split at hEv <;> cases hEv

theorem settledGenerations_applyRow (state : AgentActivityState) (atMs : Int) (row : ActivityRow) :
    (∃ generation, row.event = .terminal generation ∧ (state.applyRow atMs row).settledGenerations =
      state.settledGenerations.set row.agentId (max generation ((state.settledGenerations.get? row.agentId).getD 0))) ∨
    (∀ generation, row.event ≠ .terminal generation) ∧ (state.applyRow atMs row).settledGenerations = state.settledGenerations := by
  by_cases hCard : ∃ event, row = .card event
  · obtain ⟨event, rfl⟩ := hCard
    cases event with
    | started => exact .inr ⟨fun _ => AgentEvent.noConfusion, settledGenerations_applyStarted ..⟩
    | progress => exact .inr ⟨fun _ => AgentEvent.noConfusion, settledGenerations_applyProgress ..⟩
    | completed => exact .inl ⟨_, rfl, settledGenerations_applyTerminal ..⟩
    | failed => exact .inl ⟨_, rfl, settledGenerations_applyTerminal ..⟩
    | canceled => exact .inl ⟨_, rfl, settledGenerations_applyTerminal ..⟩
  · refine .inr ⟨event_of_mirrored hCard, ?_⟩
    obtain hIs | ⟨title, extra, hIs⟩ | ⟨status, -, hIs⟩ := AgentActivityState.applyRow_mirrored state atMs hCard
    · rw [hIs]
    · rw [hIs, settledGenerations_start]
    · rw [hIs, settledGenerations_settle]

def Settled (state : AgentActivityState) (agentId : String) (generation : Int) : Prop :=
  ∃ newest, state.settledGenerations.get? agentId = some newest ∧ generation ≤ newest

def Remembers (agentId : String) (state : AgentActivityState) (op : ActivityOp) : Prop :=
  op = .trim → (activityStep state op).settledGenerations.has agentId = true

variable {generation : Int}

theorem Settled.step (hTraced : Traced state) (h : Settled state agentId generation) {op : ActivityOp}
    (hRemembers : Remembers agentId state op) : Settled (activityStep state op) agentId generation := by
  obtain ⟨newest, hNewest, hLe⟩ := h
  cases op with
  | carded records => exact ⟨newest, hNewest, hLe⟩
  | row atMs row =>
    unfold Settled
    change ∃ newest, (state.applyRow atMs row).settledGenerations.get? agentId = some newest ∧ generation ≤ newest
    obtain ⟨settled, -, hSet⟩ | ⟨-, hEq⟩ := settledGenerations_applyRow state atMs row
    · rw [hSet]
      by_cases hAgent : row.agentId = agentId
      · subst hAgent
        refine ⟨_, InsertionMap.get?_set_self _ _ _, hLe.trans ?_⟩
        rw [hNewest]
        exact le_max_right _ _
      · exact ⟨newest, (InsertionMap.get?_set_of_ne _ _ hAgent).trans hNewest, hLe⟩
    · exact ⟨newest, by rw [hEq, hNewest], hLe⟩
  | trim =>
    obtain ⟨ids, hWith⟩ := hTraced.within
    have hThere := hRemembers rfl
    obtain hKept | ⟨hGone, -, -⟩ := settled_trim hWith [] agentId
    · exact ⟨newest, hKept.trans hNewest, hLe⟩
    · rw [InsertionMap.has_eq_isSome] at hThere
      change ((trimAgentActivity state []).1.settledGenerations.get? agentId).isSome = true at hThere
      rw [hGone] at hThere
      cases hThere

theorem settled_run (hTraced : Traced state) (h : Settled state agentId generation)
    {ops : List ActivityOp} (hRemembers : Along activityStep (Remembers agentId) state ops) :
    Settled (run activityStep state ops) agentId generation := by
  induction ops generalizing state with
  | nil => exact h
  | cons op ops ih => exact ih (hTraced.step op) (h.step hTraced hRemembers.1) hRemembers.2

theorem applyRow_of_settled {titled : Bool} (hEv : row.event = .started generation titled)
    (h : Settled state row.agentId generation) (atMs : Int) : state.applyRow atMs row = state := by
  obtain ⟨newest, hNewest, hLe⟩ := h
  cases row with
  | card event =>
    cases event with
    | started identity description agentType isFollowUp statusText =>
      obtain ⟨rfl, -⟩ := AgentEvent.started.inj hEv
      change state.applyStarted identity description agentType statusText atMs = state
      unfold AgentActivityState.applyStarted
      dsimp only
      split
      · rfl
      · rw [if_pos]
        change state.settledGenerations.get? identity.agentId = some newest at hNewest
        rw [hNewest]
        exact hLe
    | progress => cases hEv
    | completed => cases hEv
    | failed => cases hEv
    | canceled => cases hEv
  | wake => cases hEv
  | spawn => cases hEv
  | send threadId delivered =>
    unfold ActivityRow.event at hEv
    dsimp only at hEv
    split at hEv <;> cases hEv

theorem entries_of_older (hTraced : Traced state) {old : Int} (hEvent : row.event = .terminal old)
    (hEntry : state.entries.get? row.agentId = some entry) (hRunning : entry.status = .running)
    (hAttempt : entry.attemptGeneration = some generation) (hOld : old < generation) (atMs : Int) :
    (state.applyRow atMs row).entries = state.entries := by
  have hOpened := hTraced.attempt row.agentId entry hEntry hRunning generation hAttempt
  have hTerminal : ∀ (identity : LifecycleIdentity) (status : AgentActivityStatus), identity.agentId = row.agentId →
      identity.attemptGeneration = old → (state.applyTerminal identity status atMs).entries = state.entries := by
    rintro identity status hAgent rfl
    have hOther : state.isOtherAttempt identity = true := by
      unfold AgentActivityState.isOtherAttempt
      rw [hAgent, InsertionMap.has_eq_isSome, hOpened, Option.getD_some, Option.isSome_some, Bool.and_true, decide_eq_true_iff]
      exact hOld.ne
    unfold AgentActivityState.applyTerminal
    dsimp only
    rw [if_pos hOther]
  cases row with
  | card event =>
    cases event with
    | started => cases hEvent
    | progress => cases hEvent
    | completed identity => exact hTerminal identity _ rfl (AgentEvent.terminal.inj hEvent)
    | failed identity => exact hTerminal identity _ rfl (AgentEvent.terminal.inj hEvent)
    | canceled identity => exact hTerminal identity _ rfl (AgentEvent.terminal.inj hEvent)
  | wake => cases hEvent
  | spawn => cases hEvent
  | send threadId delivered =>
    unfold ActivityRow.event at hEvent
    dsimp only at hEvent
    split at hEvent <;> cases hEvent

/-- In every state of a run: a start card of an attempt at or below a settled one changes nothing while what is settled of its agent
is remembered, and a terminal card of an older attempt never settles a running newer one. The trim forgets only what is settled of an
agent that does not run, and only above its bounds. -/
theorem old_attempts_of_run (ops : List ActivityOp) :
    let state := run activityStep emptyAgentActivityState ops
    (∀ before endedAt ended after settled, ops = before ++ .row endedAt ended :: after → ended.event = .terminal settled →
      Along activityStep (Remembers ended.agentId) (run activityStep emptyAgentActivityState (before ++ [.row endedAt ended])) after →
      ∀ atMs row generation titled, row.agentId = ended.agentId → row.event = .started generation titled → generation ≤ settled →
        state.applyRow atMs row = state) ∧
    (∀ atMs row old, row.event = .terminal old → ∀ entry generation, state.entries.get? row.agentId = some entry →
      entry.status = .running → entry.attemptGeneration = some generation → old < generation →
        (state.applyRow atMs row).entries = state.entries) ∧
    ∀ agentId, (activityStep state .trim).settledGenerations.get? agentId = state.settledGenerations.get? agentId ∨
      (∀ entry, state.entries.get? agentId = some entry → entry.status ≠ .running) ∧
        (maxSettledEntries < ((state.entries.map Prod.snd).filter fun entry => entry.status ≠ .running).length ∨
          maxSettledEntries < state.settledGenerations.length) := by
  intro state
  have hTraced : Traced state := traced_run ops
  refine ⟨?_, fun atMs row old hEvent entry generation hEntry hRunning hAttempt hOld =>
    entries_of_older hTraced hEvent hEntry hRunning hAttempt hOld atMs, fun agentId => ?_⟩
  · intro before endedAt ended after settled hOps hEnded hRemembers atMs row generation titled hAgent hEvent hLe
    have hThen : Settled (run activityStep emptyAgentActivityState (before ++ [.row endedAt ended])) ended.agentId settled := by
      rw [run_append]
      unfold Settled
      change ∃ newest, (AgentActivityState.applyRow _ endedAt ended).settledGenerations.get? _ = _ ∧ _
      obtain ⟨other, hOther, hSet⟩ | ⟨hNone, -⟩ :=
        settledGenerations_applyRow (run activityStep emptyAgentActivityState before) endedAt ended
      · rw [hEnded] at hOther
        obtain rfl := AgentEvent.terminal.inj hOther
        rw [hSet]
        exact ⟨_, InsertionMap.get?_set_self _ _ _, le_max_left _ _⟩
      · exact absurd hEnded (hNone settled)
    obtain ⟨newest, hNewest, hBound⟩ := settled_run (traced_run _) hThen hRemembers
    have hState : state = run activityStep (run activityStep emptyAgentActivityState (before ++ [.row endedAt ended])) after := by
      rw [← run_append, append_assoc, singleton_append, ← hOps]
    refine applyRow_of_settled hEvent ⟨newest, ?_, hLe.trans hBound⟩ atMs
    rw [hState, hAgent]
    exact hNewest
  · obtain ⟨ids, hWithin⟩ := hTraced.within
    exact (settled_trim hWithin [] agentId).imp_right And.right

def xName (n : Nat) : String := String.ofList (List.replicate (n + 1) 'x')

theorem xName_ne {n m : Nat} (h : n ≠ m) : xName n ≠ xName m := fun hEq => h (by
  simpa using congrArg List.length (String.ofList_injective hEq))

def xIdentity (n : Nat) : LifecycleIdentity where
  agentId := xName n
  rootRunId := none
  attemptGeneration := 1
  hAgentId hEmpty := by
    have hNil := (congrArg String.toList hEmpty).symm.trans String.toList_ofList
    cases hNil
  hGeneration := le_rfl

def endedOps (n : Nat) : List ActivityOp := (List.range n).map fun m => .row 0 (.card (.completed (xIdentity m) ""))

theorem run_endedOps (n : Nat) : run activityStep emptyAgentActivityState (endedOps n) =
    { settledGenerations := (List.range n).map fun m => (xName m, 1) } := by
  induction n with
  | zero => rfl
  | succ n ih =>
    have hNew : ∀ entry ∈ (List.range n).map (fun m => (xName m, (1 : Int))), decide (entry.1 ≠ xName n) = true := by
      intro entry hEnt
      obtain ⟨m, hMem, rfl⟩ := mem_map.mp hEnt
      exact decide_eq_true (xName_ne (mem_range.mp hMem).ne)
    have hNone : InsertionMap.get? ((List.range n).map fun m => (xName m, (1 : Int))) (xName n) = none := by
      by_contra hSome
      obtain ⟨value, hGet⟩ := Option.ne_none_iff_exists'.mp hSome
      exact of_decide_eq_true (hNew _ (InsertionMap.mem_of_get? hGet)) rfl
    have hSet : InsertionMap.set ((List.range n).map fun m => (xName m, (1 : Int))) (xName n) 1 =
        (List.range (n + 1)).map fun m => (xName m, 1) := by
      rw [InsertionMap.set_eq_append, takeWhile_eq_self_iff.mpr hNew, dropWhile_eq_nil_iff.mpr hNew, range_succ, map_append]
      rfl
    have hOps : endedOps (n + 1) = endedOps n ++ [.row 0 (.card (.completed (xIdentity n) ""))] := by
      unfold endedOps
      rw [range_succ, map_append]
      rfl
    rw [hOps, run_append, ih]
    change AgentActivityState.mk [] [] (InsertionMap.set _ (xName n) (max 1 ((InsertionMap.get? _ (xName n)).getD 0))) [] = _
    rw [hNone]
    exact congrArg (fun settled => AgentActivityState.mk [] [] settled []) hSet

theorem old_attempts_of_run_ended :
    let ops : List ActivityOp := [.row 0 (.card (.started (xIdentity 0) "look" "general" false none)), .row 1 (.card (.completed (xIdentity 0) ""))]
    let state := run activityStep emptyAgentActivityState ops
    state.applyRow 2 (.card (.started (xIdentity 0) "look" "general" false none)) = state :=
  (old_attempts_of_run _).1 [.row 0 (.card (.started (xIdentity 0) "look" "general" false none))] 1 (.card (.completed (xIdentity 0) "")) [] 1
    rfl rfl trivial 2 _ 1 true rfl (by decide +kernel) le_rfl

/-- Once the trim has forgotten that an attempt is settled, its start card makes the agent run again. -/
theorem forgotten_attempt_runs :
    (endedOps 257).head? = some (.row 0 (.card (.completed (xIdentity 0) ""))) ∧
      (agentOf ((run activityStep emptyAgentActivityState (endedOps 257 ++ [.trim])).applyRow 1
        (.card (.started (xIdentity 0) "look" "general" false none))) (xName 0)).Running := by
  refine ⟨rfl, ?_⟩
  have hForgets : run activityStep emptyAgentActivityState (endedOps 257 ++ [.trim]) = emptyAgentActivityState := by
    rw [run_append, run_endedOps]
    have hMany : maxSettledEntries < ((List.range 257).map fun m => (xName m, (1 : Int))).length := by
      rw [length_map, length_range]
      decide
    have hGone : dropUnlisted [] ((List.range 257).map fun m => (xName m, (1 : Int))) = [] := by
      unfold dropUnlisted
      rw [if_pos hMany]
      exact filter_eq_nil_iff.mpr fun _ _ => Bool.false_ne_true
    change (trimAgentActivity _ []).1 = _
    unfold trimAgentActivity
    exact congrArg (fun settled => AgentActivityState.mk [] [] settled []) hGone
  rw [hForgets]
  unfold Agent.Running
  decide +kernel

end Stella.AgentActivity
