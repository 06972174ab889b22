import Mathlib.Data.List.TakeWhile
import Mathlib.Data.List.Nodup

/-! # The orchestrator's lane

One run is active at a time and turns wait in a queue. A drain pass is a fiber that executes the
waiting turns one after another and is suspended while a turn executes; `run-coordinator.ts`
starts a pass for a wake-up, or lets the pass that runs consume it.
-/

namespace Stella.RunLane

open List

inductive Priority
  | user
  | system
deriving DecidableEq

structure Turn where
  number : Nat
  priority : Priority
deriving DecidableEq

def Turn.isUser (turn : Turn) : Bool := turn.priority = .user

structure Start where
  turn : Turn
  waiting : List Turn
  busy : Bool

/-- The fields from `enqueued` on record what happened and are read by no function of the source. -/
structure Lane where
  activeOrchestratorRunId : Option String := none
  queuedOrchestratorTurns : List Turn := []
  draining : Bool := false
  wakePending : Bool := false
  closed : Bool := false
  microtasks : Nat := 0
  executing : List Turn := []
  enqueued : List Turn := []
  started : List Start := []
  activeSince : Bool := false

namespace Lane

variable (lane : Lane)

def busy : Bool := lane.activeOrchestratorRunId.any (· ≠ "")

def canStart : Bool := !lane.closed && !lane.busy && !lane.queuedOrchestratorTurns.isEmpty

def settleTurn : Lane :=
  match lane.queuedOrchestratorTurns with
  | [] => lane
  | nextTurn :: waiting =>
    { lane with
      queuedOrchestratorTurns := waiting
      executing := lane.executing ++ [nextTurn]
      started := lane.started ++ [⟨nextTurn, waiting, lane.busy⟩] }

def drainEffect (lane : Lane) : Lane :=
  if lane.canStart then lane.settleTurn
  else if !lane.closed && lane.wakePending then drainEffect { lane with wakePending := false }
  else { lane with draining := false }
termination_by lane.wakePending.toNat
decreasing_by simp_all

def startDrain : Lane :=
  if lane.closed then lane
  else if lane.draining then { lane with wakePending := true }
  else drainEffect { lane with draining := true }

def beginRun (runId : String) : Except String Lane :=
  if lane.busy && lane.activeOrchestratorRunId ≠ some runId then .error "The orchestrator is already running."
  else .ok { lane with activeOrchestratorRunId := some runId }

def releaseRun (runId : String) : Lane × Bool :=
  if lane.activeOrchestratorRunId ≠ some runId then (lane, false)
  else ({ lane with activeOrchestratorRunId := none }, true)

def insertTurn (turn : Turn) (queue : List Turn) : List Turn :=
  if turn.isUser then queue.takeWhile Turn.isUser ++ turn :: queue.dropWhile Turn.isUser else queue ++ [turn]

def enqueueTurn (priority : Priority) : Lane :=
  let turn : Turn := ⟨lane.enqueued.length, priority⟩
  { lane with
    queuedOrchestratorTurns := insertTurn turn lane.queuedOrchestratorTurns
    enqueued := lane.enqueued ++ [turn]
    microtasks := if lane.busy then lane.microtasks else lane.microtasks + 1 }

def wake : Lane := { lane with microtasks := lane.microtasks + 1 }

end Lane

/-- What can happen next: a call, a scheduled `startDrain`, or the end of a turn that executes. -/
inductive Event
  | enqueueTurn (priority : Priority)
  | wake
  | drainNow
  | beginRun (runId : String)
  | releaseRun (runId : String)
  | shutdown
  | microtask
  | settled (index : Nat)

def Event.wakes : Event → Bool
  | .enqueueTurn _ | .wake | .drainNow => true
  | _ => false

namespace Lane

def after (lane : Lane) : Event → Lane
  | .enqueueTurn priority => lane.enqueueTurn priority
  | .wake => lane.wake
  | .drainNow => lane.startDrain
  | .beginRun runId => (lane.beginRun runId).toOption.getD lane
  | .releaseRun runId => (lane.releaseRun runId).1
  | .shutdown => { lane with closed := true }
  | .microtask => if lane.microtasks = 0 then lane else startDrain { lane with microtasks := lane.microtasks - 1 }
  | .settled index =>
    if index < lane.executing.length then drainEffect { lane with executing := lane.executing.eraseIdx index } else lane

def step (lane : Lane) (event : Event) : Lane :=
  { lane.after event with activeSince := (if event.wakes then lane.busy else lane.activeSince) || (lane.after event).busy }

/-! ## What one step does -/

theorem drainEffect_eq (lane : Lane) :
    lane.drainEffect =
      if lane.canStart then lane.settleTurn else { lane with wakePending := lane.wakePending && lane.closed, draining := false } := by
  rw [drainEffect]
  split
  · rfl
  · next hIdle =>
    split
    · next hWake =>
      have hIdle' : ¬ ({ lane with wakePending := false } : Lane).canStart = true := hIdle
      rw [drainEffect, if_neg hIdle']
      simp_all
    · next hWake => cases hPend : lane.wakePending <;> simp_all

structure Ordered (queue enqueued : List Turn) (started : List Start) : Prop where
  waits : queue.Pairwise fun ahead behind => behind.isUser = true → ahead.isUser = true
  users : enqueued.filter Turn.isUser = (started.map Start.turn).filter Turn.isUser ++ queue.filter Turn.isUser
  others : (enqueued.filter fun turn => !turn.isUser) =
    ((started.map Start.turn).filter fun turn => !turn.isUser) ++ queue.filter fun turn => !turn.isUser
  first : ∀ start ∈ started, ∀ behind ∈ start.waiting, behind.isUser = true → start.turn.isUser = true
  free : ∀ start ∈ started, start.busy = false
  numbered : enqueued.map Turn.number = range enqueued.length

structure Kept (lane : Lane) : Prop where
  ordered : Ordered lane.queuedOrchestratorTurns lane.enqueued lane.started
  single : lane.executing.length = lane.draining.toNat

def Idle (lane : Lane) : Prop :=
  lane.closed = true ∨ lane.draining = true ∨ lane.queuedOrchestratorTurns = [] ∨ lane.busy = true

def Woken (lane : Lane) : Prop :=
  lane.closed = true ∨ lane.draining = true ∨ 0 < lane.microtasks ∨ lane.queuedOrchestratorTurns = [] ∨ lane.activeSince = true

variable {lane : Lane}

theorem ordered_shift {nextTurn : Turn} {waiting enqueued : List Turn} {started : List Start}
    (h : Ordered (nextTurn :: waiting) enqueued started) : Ordered waiting enqueued (started ++ [⟨nextTurn, waiting, false⟩]) := by
  obtain ⟨hAhead, hWaits⟩ := pairwise_cons.mp h.waits
  constructor
  · exact hWaits
  · rw [h.users, map_append, ← filter_append, ← filter_append, append_assoc]
    rfl
  · rw [h.others, map_append, ← filter_append, ← filter_append, append_assoc]
    rfl
  · intro start hStart
    rcases mem_append.mp hStart with hOld | hNew
    · exact h.first start hOld
    · rw [mem_singleton.mp hNew]
      exact hAhead
  · intro start hStart
    rcases mem_append.mp hStart with hOld | hNew
    · exact h.free start hOld
    · rw [mem_singleton.mp hNew]
  · exact h.numbered

theorem not_isUser_of_mem_dropWhile {queue : List Turn}
    (h : queue.Pairwise fun ahead behind => behind.isUser = true → ahead.isUser = true) :
    ∀ turn ∈ queue.dropWhile Turn.isUser, turn.isUser = false := by
  induction queue with
  | nil => exact nofun
  | cons head rest ih =>
    obtain ⟨hAhead, hRest⟩ := pairwise_cons.mp h
    rw [dropWhile_cons]
    split
    · exact ih hRest
    · next hHead =>
      intro turn hTurn
      rcases mem_cons.mp hTurn with rfl | hLater
      · exact eq_false_of_ne_true hHead
      · exact eq_false_of_ne_true fun hUser => hHead (hAhead turn hLater hUser)

theorem ordered_insert {queue enqueued : List Turn} {started : List Start} (h : Ordered queue enqueued started)
    (priority : Priority) :
    Ordered (insertTurn ⟨enqueued.length, priority⟩ queue) (enqueued ++ [⟨enqueued.length, priority⟩]) started := by
  have hSplit : queue.takeWhile Turn.isUser ++ queue.dropWhile Turn.isUser = queue := takeWhile_append_dropWhile
  have hFront : ∀ turn ∈ queue.takeWhile Turn.isUser, turn.isUser = true := fun turn => mem_takeWhile_imp
  have hBack := not_isUser_of_mem_dropWhile h.waits
  have hNumbered : (enqueued ++ [(⟨enqueued.length, priority⟩ : Turn)]).map Turn.number = range (enqueued ++ [(⟨enqueued.length, priority⟩ : Turn)]).length := by
    rw [map_append, h.numbered, length_append, length_singleton, range_succ]
    rfl
  generalize (⟨enqueued.length, priority⟩ : Turn) = turn at hNumbered ⊢
  unfold insertTurn
  generalize queue.takeWhile Turn.isUser = front at *
  generalize queue.dropWhile Turn.isUser = back at *
  subst hSplit
  have hFrontUsers : front.filter Turn.isUser = front := filter_eq_self.mpr hFront
  have hBackUsers : back.filter Turn.isUser = [] := filter_eq_nil_iff.mpr (by simpa using hBack)
  have hFrontOthers : (front.filter fun other => !other.isUser) = [] := filter_eq_nil_iff.mpr (by simpa using hFront)
  have hBackOthers : (back.filter fun other => !other.isUser) = back := filter_eq_self.mpr (by simpa using hBack)
  have hUsers := h.users
  have hOthers := h.others
  rw [filter_append, hFrontUsers, hBackUsers, append_nil] at hUsers
  rw [filter_append _ back, hFrontOthers, hBackOthers, nil_append] at hOthers
  obtain ⟨hFrontWaits, hBackWaits, -⟩ := pairwise_append.mp h.waits
  split
  · next hUser =>
    refine { h with waits := ?_, users := ?_, others := ?_, numbered := hNumbered }
    · apply pairwise_append.mpr
      simp_all
    · simp [hUsers, hFrontUsers, hBackUsers, hUser]
    · simp [hOthers, hFrontOthers, hBackOthers, hUser]
  · next hOther =>
    refine { h with waits := ?_, users := ?_, others := ?_, numbered := hNumbered }
    · refine pairwise_append.mpr ⟨h.waits, pairwise_singleton _ _, fun ahead _ behind hBehind hUser => absurd hUser ?_⟩
      rw [mem_singleton.mp hBehind]
      exact hOther
    · simp [hUsers, hFrontUsers, hBackUsers, hOther]
    · simp [hOthers, hFrontOthers, hBackOthers, hOther]

/-! ## Every step keeps the order and the wake-up -/

theorem kept_drainEffect (h : Ordered lane.queuedOrchestratorTurns lane.enqueued lane.started) (hNone : lane.executing = [])
    (hDraining : lane.draining = true) : lane.drainEffect.Kept ∧ lane.drainEffect.Idle := by
  rw [drainEffect_eq]
  split
  · next hStart =>
    unfold canStart at hStart
    rw [Bool.and_eq_true, Bool.and_eq_true, Bool.not_eq_true', Bool.not_eq_true'] at hStart
    unfold settleTurn
    cases hQueue : lane.queuedOrchestratorTurns with
    | nil => simp [hQueue] at hStart
    | cons nextTurn waiting =>
      rw [hQueue] at h
      refine ⟨⟨?_, ?_⟩, .inr (.inl hDraining)⟩
      · rw [hStart.1.2]
        exact ordered_shift h
      · simp [hNone, hDraining]
  · next hIdle =>
    refine ⟨⟨h, by simp [hNone]⟩, ?_⟩
    unfold Idle
    simp only [canStart, Bool.and_eq_true, not_and_or] at hIdle
    rcases hIdle with (hClosed | hBusy) | hQueue
    · simp_all
    · simp_all [busy]
    · simp_all

section

variable (h : lane.Kept)
include h

theorem kept_startDrain : lane.startDrain.Kept ∧ lane.startDrain.Idle := by
  unfold startDrain
  split
  · next hClosed => exact ⟨h, .inl hClosed⟩
  · split
    · next hDraining => exact ⟨⟨h.ordered, h.single⟩, .inr (.inl hDraining)⟩
    · next hIdle =>
      have hNone : lane.executing.length = 0 := by
        rw [h.single]
        simp [hIdle]
      exact kept_drainEffect h.ordered (length_eq_zero_iff.mp hNone) rfl

theorem kept_settled {index : Nat} (hIndex : index < lane.executing.length) :
    (drainEffect { lane with executing := lane.executing.eraseIdx index }).Kept ∧
      (drainEffect { lane with executing := lane.executing.eraseIdx index }).Idle := by
  have hSingle := h.single
  have hDraining : lane.draining = true := by
    cases hDraining : lane.draining with
    | true => rfl
    | false =>
      rw [hDraining] at hSingle
      change lane.executing.length = 0 at hSingle
      omega
  rw [hDraining] at hSingle
  refine kept_drainEffect h.ordered (length_eq_zero_iff.mp ?_) hDraining
  rw [length_eraseIdx_of_lt hIndex, hSingle]
  rfl

theorem after_cases (event : Event) :
    (lane.after event).Kept ∧ ((lane.after event).Idle ∨ 0 < (lane.after event).microtasks ∨
      event.wakes = false ∧ ∃ runId, lane.after event = { lane with activeOrchestratorRunId := runId }) := by
  cases event with
  | enqueueTurn priority =>
    refine ⟨⟨ordered_insert h.ordered priority, h.single⟩, ?_⟩
    cases hBusy : lane.busy with
    | true => exact .inl (.inr (.inr (.inr hBusy)))
    | false =>
      refine .inr (.inl ?_)
      simp [after, enqueueTurn, hBusy]
  | wake => exact ⟨⟨h.ordered, h.single⟩, .inr (.inl (Nat.succ_pos _))⟩
  | drainNow => exact (kept_startDrain h).imp_right Or.inl
  | beginRun runId =>
    have hFrame : ∃ runId', lane.after (.beginRun runId) = { lane with activeOrchestratorRunId := runId' } := by
      dsimp only [after, beginRun]
      split
      · exact ⟨_, rfl⟩
      · exact ⟨_, rfl⟩
    refine ⟨?_, .inr (.inr ⟨rfl, hFrame⟩)⟩
    obtain ⟨runId', hAfter⟩ := hFrame
    rw [hAfter]
    exact ⟨h.ordered, h.single⟩
  | releaseRun runId =>
    have hFrame : ∃ runId', lane.after (.releaseRun runId) = { lane with activeOrchestratorRunId := runId' } := by
      dsimp only [after, releaseRun]
      split
      · exact ⟨_, rfl⟩
      · exact ⟨_, rfl⟩
    refine ⟨?_, .inr (.inr ⟨rfl, hFrame⟩)⟩
    obtain ⟨runId', hAfter⟩ := hFrame
    rw [hAfter]
    exact ⟨h.ordered, h.single⟩
  | shutdown => exact ⟨⟨h.ordered, h.single⟩, .inl (.inl rfl)⟩
  | microtask =>
    dsimp only [after]
    split
    · exact ⟨h, .inr (.inr ⟨rfl, _, rfl⟩)⟩
    · have hFired : Kept { lane with microtasks := lane.microtasks - 1 } := ⟨h.ordered, h.single⟩
      exact (kept_startDrain hFired).imp_right Or.inl
  | settled index =>
    dsimp only [after]
    split
    · next hIndex => exact (kept_settled h hIndex).imp_right Or.inl
    · exact ⟨h, .inr (.inr ⟨rfl, _, rfl⟩)⟩

theorem kept_step (event : Event) : (lane.step event).Kept := by
  have hAfter := (after_cases h event).1
  exact ⟨hAfter.ordered, hAfter.single⟩

theorem woken_step (hWoken : lane.Woken) (event : Event) : (lane.step event).Woken := by
  rcases (after_cases h event).2 with (hClosed | hDraining | hQueue | hBusy) | hTasks | ⟨hWakes, runId, hAfter⟩
  · exact .inl hClosed
  · exact .inr (.inl hDraining)
  · exact .inr (.inr (.inr (.inl hQueue)))
  · refine .inr (.inr (.inr (.inr ?_)))
    unfold step
    rw [hBusy, Bool.or_true]
  · exact .inr (.inr (.inl hTasks))
  · unfold Woken step at *
    rw [hWakes, hAfter]
    rcases hWoken with hClosed | hDraining | hTasks | hQueue | hAct
    all_goals simp_all

end

def run (events : List Event) : Lane := events.foldl step {}

theorem kept_run (events : List Event) : (run events).Kept ∧ (run events).Woken := by
  apply foldlRecOn events step (motive := fun lane => lane.Kept ∧ lane.Woken)
  · exact ⟨⟨⟨Pairwise.nil, rfl, rfl, nofun, nofun, rfl⟩, rfl⟩, .inr (.inr (.inr (.inl rfl)))⟩
  · rintro lane ⟨hKept, hWoken⟩ event -
    exact ⟨kept_step hKept event, woken_step hKept hWoken event⟩

theorem count_started_le (h : lane.Kept) (turn : Turn) : (lane.started.map Start.turn).count turn ≤ lane.enqueued.count turn := by
  cases hUser : turn.isUser with
  | true =>
    rw [← count_filter hUser, ← count_filter (l := lane.enqueued) hUser, h.ordered.users, count_append]
    exact Nat.le_add_right _ _
  | false =>
    have hOther : (!turn.isUser) = true := by rw [hUser]; rfl
    rw [← count_filter (p := fun turn : Turn => !turn.isUser) hOther, ← count_filter (p := fun turn : Turn => !turn.isUser) (l := lane.enqueued) hOther,
      h.ordered.others, count_append]
    exact Nat.le_add_right _ _

structure Orderly (lane : Lane) : Prop where
  one_at_a_time : lane.executing.length ≤ 1
  free : ∀ start ∈ lane.started, start.busy = false
  once : (lane.started.map Start.turn).Nodup ∧ lane.started.map Start.turn ⊆ lane.enqueued
  users : (lane.started.map Start.turn).filter Turn.isUser <+: lane.enqueued.filter Turn.isUser
  users_first : ∀ start ∈ lane.started, ∀ behind ∈ start.waiting, behind.isUser = true → start.turn.isUser = true
  others : ((lane.started.map Start.turn).filter fun turn => !turn.isUser) <+: lane.enqueued.filter fun turn => !turn.isUser
  woken : lane.closed = false → lane.draining = false → lane.microtasks = 0 → lane.queuedOrchestratorTurns = [] ∨ lane.activeSince = true

end Lane

end Stella.RunLane
