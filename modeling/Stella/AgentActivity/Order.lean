import Stella.AgentActivity.Runs

/-! # The order of the running agents

The running agents are listed in the order of the map of entries. An agent that starts again keeps
its place there, so its new start may stand before older ones.
-/

namespace Stella.AgentActivity

open Transition List

abbrev Entries := InsertionMap String AgentActivityEntry

def runningOf (entries : Entries) : List AgentActivityEntry := (entries.map Prod.snd).filter fun entry => entry.status = .running

def OldestFirst (running : List AgentActivityEntry) : Prop := running.Pairwise fun a b => a.createdAtMs ≤ b.createdAtMs

def InPlace (entries : Entries) (agentId : String) (atMs : Int) : Prop :=
  (∀ entry ∈ runningOf (entries.takeWhile fun e => e.1 ≠ agentId), entry.createdAtMs ≤ atMs) ∧
    ∀ entry ∈ runningOf (entries.dropWhile fun e => e.1 ≠ agentId).tail, atMs ≤ entry.createdAtMs

def StartsInPlace (state : AgentActivityState) : ActivityOp → Prop
  | .row atMs row => state.Starts row → InPlace state.entries row.agentId atMs
  | _ => True

instance (entries : Entries) (agentId : String) (atMs : Int) : Decidable (InPlace entries agentId atMs) :=
  inferInstanceAs (Decidable (_ ∧ _))

instance (state : AgentActivityState) (op : ActivityOp) : Decidable (StartsInPlace state op) := by
  unfold StartsInPlace
  split <;> infer_instance

def trackedStep (s : AgentActivityState × (String → Option Int)) (op : ActivityOp) : AgentActivityState × (String → Option Int) :=
  (activityStep s.1 op, match op with
    | .row atMs row => if s.1.Starts row then Function.update s.2 row.agentId (some atMs) else s.2
    | _ => s.2)

def noStarts : AgentActivityState × (String → Option Int) := (emptyAgentActivityState, fun _ => none)

theorem runningOf_append (before after : Entries) : runningOf (before ++ after) = runningOf before ++ runningOf after := by
  unfold runningOf
  rw [map_append, filter_append]

theorem runningOf_cons_of_running {agentId : String} {entry : AgentActivityEntry} (hRuns : entry.status = .running)
    (rest : Entries) :
    runningOf ((agentId, entry) :: rest) = entry :: runningOf rest := filter_cons_of_pos (decide_eq_true hRuns)

theorem runningOf_sublist {less entries : Entries} (h : less.Sublist entries) : (runningOf less).Sublist (runningOf entries) :=
  (h.map Prod.snd).filter _

section Entries

variable {entries : Entries} {agentId : String} {entry : AgentActivityEntry}

theorem runningOf_split (entries : Entries) (agentId : String) :
    (runningOf (entries.takeWhile fun e => e.1 ≠ agentId) ++ runningOf (entries.dropWhile fun e => e.1 ≠ agentId).tail).Sublist
      (runningOf entries) := by
  rw [← runningOf_append]
  refine runningOf_sublist ?_
  conv_rhs => rw [← takeWhile_append_dropWhile (p := fun e => decide (e.1 ≠ agentId)) (l := entries)]
  exact (List.Sublist.refl _).append (tail_sublist _)

theorem oldestFirst_set_iff (h : OldestFirst (runningOf entries)) (hRuns : entry.status = .running) :
    OldestFirst (runningOf (entries.set agentId entry)) ↔ InPlace entries agentId entry.createdAtMs := by
  have hOthers : OldestFirst (runningOf (entries.takeWhile fun e => e.1 ≠ agentId) ++
      runningOf (entries.dropWhile fun e => e.1 ≠ agentId).tail) := List.Pairwise.sublist (runningOf_split entries agentId) h
  unfold OldestFirst at hOthers ⊢
  rw [pairwise_append] at hOthers
  obtain ⟨hBef, hAfter, hAcross⟩ := hOthers
  rw [InsertionMap.set_eq_append, runningOf_append, runningOf_cons_of_running hRuns, pairwise_append, pairwise_cons]
  constructor
  · rintro ⟨-, ⟨hLater, -⟩, hEarlier⟩
    exact ⟨fun other hOther => hEarlier other hOther entry mem_cons_self, hLater⟩
  · rintro ⟨hEarlier, hLater⟩
    refine ⟨hBef, ⟨hLater, hAfter⟩, fun other hOther next hNext => ?_⟩
    rcases mem_cons.mp hNext with rfl | hRest
    · exact hEarlier other hOther
    · exact hAcross other hOther next hRest

theorem oldestFirst_kept {existing : AgentActivityEntry} (h : OldestFirst (runningOf entries))
    (hExist : entries.get? agentId = some existing)
    (hRunning : existing.status = .running) (hAt : entry.createdAtMs = existing.createdAtMs) :
    OldestFirst (runningOf (entries.set agentId entry)) := by
  have hEq : entries.set agentId existing = entries := by
    rw [InsertionMap.set_eq_append, ← InsertionMap.dropWhile_of_get? hExist, takeWhile_append_dropWhile]
  have hPlace : InPlace entries agentId entry.createdAtMs := by
    rw [hAt, ← oldestFirst_set_iff h hRunning, hEq]
    exact h
  by_cases hRuns : entry.status = .running
  · exact (oldestFirst_set_iff h hRuns).mpr hPlace
  · rw [InsertionMap.set_eq_append, runningOf_append]
    have hGone : runningOf ((agentId, entry) :: (entries.dropWhile fun e => e.1 ≠ agentId).tail) =
        runningOf (entries.dropWhile fun e => e.1 ≠ agentId).tail :=
      filter_cons_of_neg (by rw [decide_eq_true_iff]; exact hRuns)
    rw [hGone]
    exact List.Pairwise.sublist (runningOf_split entries agentId) h

end Entries

structure Ordered (s : AgentActivityState × (String → Option Int)) : Prop where
  traced : Traced s.1
  order : OldestFirst (runningOf s.1.entries)
  starts : ∀ agentId entry, s.1.entries.get? agentId = some entry → entry.status = .running → s.2 agentId = some entry.createdAtMs

variable {s : AgentActivityState × (String → Option Int)}

theorem Ordered.step (h : Ordered s) {op : ActivityOp} (hOp : StartsInPlace s.1 op) :
    Ordered (trackedStep s op) := by
  obtain ⟨state, starts⟩ := s
  refine ⟨h.traced.step op, ?_, ?_⟩
  · cases op with
    | carded records => exact h.order
    | row atMs row =>
      change OldestFirst (runningOf (state.applyRow atMs row).entries)
      cases rowEffect_applyRow state atMs row with
      | same hStays hEnts hGens =>
        rw [hEnts]
        exact h.order
      | started entry hStarts hOwn hRunning hAt hEnts hGens =>
        rw [hEnts, oldestFirst_set_iff h.order hRunning, hAt]
        exact hOp hStarts
      | kept existing entry hStays hExist hRunning hEq hEnts hGens =>
        rw [hEnts]
        exact oldestFirst_kept h.order hExist hRunning hEq.2.1
    | trim =>
      refine List.Pairwise.sublist (runningOf_sublist ?_) h.order
      change ((trimAgentActivity state []).1.entries).Sublist state.entries
      unfold trimAgentActivity
      dsimp only
      exact InsertionMap.foldl_erase_sublist _ _
  · intro agentId entry hEnt hRuns
    cases op with
    | carded records => exact h.starts agentId entry hEnt hRuns
    | row atMs row =>
      change (state.applyRow atMs row).entries.get? agentId = _ at hEnt
      change (if state.Starts row then Function.update starts row.agentId (some atMs) else starts) agentId = _
      cases rowEffect_applyRow state atMs row with
      | same hStays hEnts hGens =>
        rw [hEnts] at hEnt
        rw [if_neg hStays]
        exact h.starts agentId entry hEnt hRuns
      | started fresh hStarts hOwn hRunning hAt hEnts hGens =>
        rw [hEnts] at hEnt
        rw [if_pos hStarts]
        by_cases hAgent : row.agentId = agentId
        · subst hAgent
          rw [InsertionMap.get?_set_self] at hEnt
          rw [Function.update_self, ← Option.some.inj hEnt, hAt]
        · rw [InsertionMap.get?_set_of_ne _ _ hAgent] at hEnt
          rw [Function.update_of_ne (Ne.symm hAgent)]
          exact h.starts agentId entry hEnt hRuns
      | kept existing fresh hStays hExist hRunning hEq hEnts hGens =>
        rw [hEnts] at hEnt
        rw [if_neg hStays]
        by_cases hAgent : row.agentId = agentId
        · subst hAgent
          rw [InsertionMap.get?_set_self] at hEnt
          rw [← Option.some.inj hEnt, hEq.2.1]
          exact h.starts _ existing hExist hRunning
        · rw [InsertionMap.get?_set_of_ne _ _ hAgent] at hEnt
          exact h.starts agentId entry hEnt hRuns
    | trim =>
      change (trimAgentActivity state []).1.entries.get? agentId = _ at hEnt
      rw [entries_trim] at hEnt
      split at hEnt
      · cases hEnt
      · exact h.starts agentId entry hEnt hRuns

theorem ordered_run (h : Ordered s) {ops : List ActivityOp}
    (hOps : Along activityStep StartsInPlace s.1 ops) :
    Ordered (run trackedStep s ops) ∧ (run trackedStep s ops).1 = run activityStep s.1 ops := by
  induction ops generalizing s with
  | nil => exact ⟨h, rfl⟩
  | cons op ops ih => exact ih (h.step hOps.1) hOps.2

/-- In every state of a run whose starts are all in place: the running agents are listed by the time of their current start, the
oldest first, and a limit keeps the ones started last. -/
theorem oldestFirst_of_run (ops : List ActivityOp) (hOps : Along activityStep StartsInPlace emptyAgentActivityState ops) :
    let state := run activityStep emptyAgentActivityState ops
    let running := runningAgentEntries state none
    (∀ entry ∈ running, (run trackedStep noStarts ops).2 entry.agentId = some entry.createdAtMs) ∧ OldestFirst running ∧
      ∀ limit, ∃ earlier, running = earlier ++ runningAgentEntries state (some limit) ∧
        (runningAgentEntries state (some limit)).length = min limit running.length ∧
        ∀ a ∈ earlier, ∀ b ∈ runningAgentEntries state (some limit), a.createdAtMs ≤ b.createdAtMs := by
  intro state running
  have hEmpty : Ordered noStarts := ⟨traced_run [], List.Pairwise.nil, fun agentId entry hEntry => by cases hEntry⟩
  obtain ⟨hOrdered, hState⟩ := ordered_run hEmpty hOps
  have hSorted : OldestFirst running := by
    have hOrder := hOrdered.order
    rw [hState] at hOrder
    exact hOrder
  refine ⟨fun entry hEntry => ?_, hSorted, fun limit => ⟨running.take (running.length - limit), ?_, ?_, ?_⟩⟩
  · obtain ⟨hListed, hRuns⟩ := mem_filter.mp hEntry
    obtain ⟨⟨agentId, found⟩, hMem, rfl⟩ := mem_map.mp hListed
    obtain ⟨ids, hWithin⟩ := hOrdered.traced.within
    rw [hState] at hWithin
    have hGet := (InsertionMap.mem_iff_get? hWithin.entries.nodup agentId found).mp hMem
    rw [hWithin.own agentId found hGet]
    refine hOrdered.starts agentId found ?_ (of_decide_eq_true hRuns)
    rw [hState]
    exact hGet
  · exact (take_append_drop _ _).symm
  · change (running.drop (running.length - limit)).length = _
    rw [length_drop]
    omega
  · have hSplit := hSorted
    unfold OldestFirst at hSplit
    rw [← take_append_drop (running.length - limit) running, pairwise_append] at hSplit
    exact hSplit.2.2

def startOp (atMs : Int) (identity : LifecycleIdentity) : ActivityOp := .row atMs (.card (.started identity "look" "general" false none))

def again (identity : LifecycleIdentity) : LifecycleIdentity := { identity with attemptGeneration := 2, hGeneration := by decide }

theorem oldestFirst_of_run_two :
    let ops := [startOp 1 (xIdentity 0), startOp 2 (xIdentity 1)]
    OldestFirst (runningAgentEntries (run activityStep emptyAgentActivityState ops) none) :=
  (oldestFirst_of_run _ (by decide +kernel)).2.1

/-- An agent that starts again after another is still listed before it, and is the one that a limit drops. -/
theorem restart_not_last :
    let ops := [startOp 1 (xIdentity 0), startOp 2 (xIdentity 1), .row 3 (.card (.completed (xIdentity 0) "")), startOp 4 (again (xIdentity 0))]
    let state := run activityStep emptyAgentActivityState ops
    (runningAgentEntries state none).map (fun entry => (entry.agentId, entry.createdAtMs)) = [(xName 0, 4), (xName 1, 2)] ∧
      (runningAgentEntries state (some 1)).map (fun entry => (entry.agentId, entry.createdAtMs)) = [(xName 1, 2)] := by
  decide +kernel

end Stella.AgentActivity
