import Stella.OwnerGate.Table

/-! # The deadline of a dispatch and the object's alarm

Every row that waits for a deadline needs a wake. A handler that ends with
`scheduleAlarm` computes it from all rows; the executor frames write a lease
and leave the alarm as it is, so they rely on the wake of the lease before.
-/

namespace Stella.OwnerGate

open Stella.Transition List

def After.now : After → Nat
  | .returns => 0
  | .schedule now => now
  | .alarm now _ => now

def After.schedules : After → Bool
  | .returns => false
  | _ => true

/-- The greatest `now` a parked handler still uses. -/
def Task.now : Task → Nat
  | .cloud _ _ now after => max now after.now
  | .reporting _ after => after.now
  | .stopping now => now
  | .waking now => now
  | .woken now => now

def Task.schedules : Task → Bool
  | .cloud _ _ _ after => after.schedules
  | .reporting _ after => after.schedules
  | _ => true

namespace Gate

def Awake (g : Gate) : Prop :=
  ∀ row ∈ g.dispatches, ∀ deadline ∈ row.deadlines,
    ∃ wake, g.alarm = some wake ∧ wake ≤ max deadline (g.clock + alarmMinDelayMs)

def Scheduling (g : Gate) : Prop := (∃ task ∈ g.tasks, task.schedules = true) ∨ g.expiring.isSome = true

def Covered (g : Gate) : Prop := g.Awake ∨ g.Scheduling

structure Timely (g : Gate) : Prop where
  ids : g.ids.Nodup
  tasks : ∀ task ∈ g.tasks, task.now ≤ g.clock
  expiring : ∀ pair ∈ g.expiring, pair.1 ≤ g.clock

/-- A handler that goes on with `after` at `now`: either it will schedule
the alarm or no deadline is uncovered. -/
structure Ready (g : Gate) (now : Nat) (after : After) : Prop where
  timely : Timely g
  clock : max now after.now ≤ g.clock
  covered : after.schedules = true ∨ g.Covered

structure Sound (g : Gate) : Prop where
  timely : Timely g
  covered : g.Covered

theorem Ready.now_le {g : Gate} {now : Nat} {after : After} (h : Ready g now after) : now ≤ g.clock :=
  (le_max_left now after.now).trans h.clock

theorem Ready.after_le {g : Gate} {now : Nat} {after : After} (h : Ready g now after) : after.now ≤ g.clock :=
  (le_max_right now after.now).trans h.clock

theorem awake_scheduleAlarm {g : Gate} (out : Outside) {now : Nat} (preserve : Bool) (hNow : now ≤ g.clock) :
    Awake (g.scheduleAlarm out now preserve) := by
  intro row hRow deadline hDead
  rw [scheduleAlarm_dispatches] at hRow
  rw [scheduleAlarm_clock]
  have hWake : deadline ∈ g.wakes out preserve := by
    refine mem_append_left _ (mem_append_right _ ?_)
    exact mem_flatMap.mpr ⟨row, hRow, hDead⟩
  unfold scheduleAlarm
  cases hMin : (g.wakes out preserve).min? with
  | none => rw [min?_eq_none_iff] at hMin; rw [hMin] at hWake; exact absurd hWake not_mem_nil
  | some next =>
    refine ⟨_, rfl, ?_⟩
    have hNext : next ≤ deadline := (min?_eq_some_iff.mp hMin).2 deadline hWake
    omega

theorem Timely.scheduleAlarm {g : Gate} (h : Timely g) (out : Outside) (now : Nat) (preserve : Bool) :
    Timely (g.scheduleAlarm out now preserve) :=
  ⟨by simpa [Gate.ids] using h.ids, by simpa using h.tasks, by simpa using h.expiring⟩

theorem sound_scheduleAlarm {g : Gate} (h : Timely g) (out : Outside) {now : Nat} (preserve : Bool)
    (hNow : now ≤ g.clock) : Sound (g.scheduleAlarm out now preserve) :=
  ⟨h.scheduleAlarm out now preserve, .inl (awake_scheduleAlarm out preserve hNow)⟩

def Foreseen (g : Gate) (deadline : Nat) : Prop :=
  (∃ wake ∈ g.alarm, wake ≤ deadline) ∨ ∃ row ∈ g.dispatches, ∃ older ∈ row.deadlines, older ≤ deadline

theorem foreseen_of_mem {g : Gate} {row : DispatchRow} (hRow : row ∈ g.dispatches) {deadline : Nat}
    (hDead : deadline ∈ row.deadlines) : g.Foreseen deadline :=
  .inr ⟨row, hRow, deadline, hDead, le_rfl⟩

/-- The deadlines of `g'` are foreseen in `g`. -/
structure Later (g g' : Gate) : Prop where
  ids : g'.ids = g.ids
  alarm : g'.alarm = g.alarm
  clock : g'.clock = g.clock
  tasks : g'.tasks = g.tasks
  expiring : g'.expiring = g.expiring
  deadlines : ∀ row ∈ g'.dispatches, ∀ deadline ∈ row.deadlines, g.Foreseen deadline

theorem Later.covered {g g' : Gate} (h : Later g g') (hCovered : g.Covered) : g'.Covered := by
  obtain hAwake | hScheduling := hCovered
  · left
    intro row' hRow' deadline' hDead'
    rw [h.clock, h.alarm]
    obtain ⟨wake, hWake, hLe⟩ | ⟨row, hRow, deadline, hDead, hLe⟩ := h.deadlines row' hRow' deadline' hDead'
    · exact ⟨wake, hWake, hLe.trans (le_max_left _ _)⟩
    · obtain ⟨wake, hWake, hBound⟩ := hAwake row hRow deadline hDead
      exact ⟨wake, hWake, by omega⟩
  · right
    rw [Scheduling, h.tasks, h.expiring]
    exact hScheduling

theorem Timely.congr {g g' : Gate} (h : Timely g) (hIds : g'.ids = g.ids) (hClock : g'.clock = g.clock)
    (hTasks : g'.tasks = g.tasks) (hExpiring : g'.expiring = g.expiring) : Timely g' :=
  ⟨by rw [hIds]; exact h.ids, by rw [hTasks, hClock]; exact h.tasks, by rw [hExpiring, hClock]; exact h.expiring⟩

theorem Ready.later {g g' : Gate} {now : Nat} {after : After} (h : Ready g now after) (hLater : Later g g') :
    Ready g' now after :=
  ⟨h.timely.congr hLater.ids hLater.clock hLater.tasks hLater.expiring, by rw [hLater.clock]; exact h.clock,
    h.covered.imp_right hLater.covered⟩

structure Relaxes (patch : DispatchRow → DispatchRow) : Prop where
  id : Keeps patch
  deadlines : ∀ row, ∀ deadline ∈ (patch row).deadlines, deadline ∈ row.deadlines

theorem later_update {g : Gate} {id : String} {patch : DispatchRow → DispatchRow} (hKeeps : Keeps patch)
    (hPatch : ∀ row ∈ g.dispatches, row.dispatchId = id → ∀ deadline ∈ (patch row).deadlines,
      g.Foreseen deadline) : Later g (g.update id patch) where
  ids := g.update_ids hKeeps id
  alarm := rfl
  clock := rfl
  tasks := rfl
  expiring := rfl
  deadlines row' hRow' deadline' hDead' := by
    obtain ⟨row, hRow, rfl⟩ := mem_map.mp hRow'
    split at hDead'
    · next hId => exact hPatch row hRow hId deadline' hDead'
    · exact foreseen_of_mem hRow hDead'

theorem Relaxes.later {patch : DispatchRow → DispatchRow} (h : Relaxes patch) (g : Gate) (id : String) :
    Later g (g.update id patch) :=
  later_update h.id fun row hRow _ deadline hDead => foreseen_of_mem hRow (h.deadlines row deadline hDead)

theorem Relaxes.later_patch {patch : DispatchRow → DispatchRow} (h : Relaxes patch) (g : Gate) (row : DispatchRow)
    (now : Nat) : Later g (g.patchDispatch row patch now) := by
  have hPatched : Relaxes (patched patch now) := ⟨h.id, h.deadlines⟩
  exact hPatched.later g row.dispatchId

theorem Later.of_same {g g' : Gate} (hRows : g'.dispatches = g.dispatches) (hAlarm : g'.alarm = g.alarm)
    (hClock : g'.clock = g.clock) (hTasks : g'.tasks = g.tasks) (hExpiring : g'.expiring = g.expiring) :
    Later g g' :=
  ⟨by rw [Gate.ids, hRows, Gate.ids], hAlarm, hClock, hTasks, hExpiring, fun _ hRow _ hDead =>
    foreseen_of_mem (hRows ▸ hRow) hDead⟩

theorem deadlines_eq_nil {row : DispatchRow} (hOffering : row.state ≠ .offering) (hLeased : leased row.state = false)
    (hPay : row.payloadJson = none) : row.deadlines = [] := by
  have hComm : row.state ≠ .cloudCommitted := by
    intro hSt
    rw [hSt] at hLeased
    exact Bool.noConfusion hLeased
  simp [DispatchRow.deadlines, hOffering, hLeased, hComm, hPay]

theorem relaxes_of_idle {patch : DispatchRow → DispatchRow} (hKeeps : Keeps patch)
    (hOffering : ∀ row, (patch row).state ≠ .offering)
    (hLeased : ∀ row, leased (patch row).state = false) (hPay : ∀ row, (patch row).payloadJson = none) :
    Relaxes patch := ⟨hKeeps, fun row deadline hDead => by
  rw [deadlines_eq_nil (hOffering row) (hLeased row) (hPay row)] at hDead
  exact absurd hDead not_mem_nil⟩

theorem relaxes_refusalPatch (code message : String) : Relaxes (refusalPatch code message) :=
  relaxes_of_idle (fun _ => rfl) (fun _ => nofun) (fun _ => rfl) (fun _ => rfl)

theorem relaxes_blockedPatch (refusal : Refusal) : Relaxes (blockedPatch refusal) :=
  relaxes_of_idle (fun _ => rfl) (fun _ => nofun) (fun _ => rfl) (fun _ => rfl)

theorem relaxes_runningPatch (turnId threadId : Option String) (now : Nat) :
    Relaxes (runningPatch turnId threadId now) :=
  relaxes_of_idle (fun _ => rfl) (fun _ => nofun) (fun _ => rfl) (fun _ => rfl)

structure Fails (patch : DispatchRow → DispatchRow) : Prop where
  id : Keeps patch
  state : ∀ row, (patch row).state = .failed
  payload : ∀ row, (patch row).payloadJson.isSome = true →
    row.payloadJson.isSome = true ∧ (patch row).payloadExpiresAt = row.payloadExpiresAt

theorem Fails.mem_deadlines {patch : DispatchRow → DispatchRow} (h : Fails patch) {row : DispatchRow}
    {deadline : Nat} (hDead : deadline ∈ (patch row).deadlines) :
    row.payloadJson.isSome = true ∧ row.payloadExpiresAt = some deadline := by
  rw [DispatchRow.mem_deadlines, h.state] at hDead
  obtain ⟨hSt, -⟩ | ⟨hLeased, -⟩ | ⟨hSt, -⟩ | ⟨hSome, hExpires⟩ := hDead
  · exact DispatchState.noConfusion hSt
  · exact absurd hLeased Bool.false_ne_true
  · exact DispatchState.noConfusion hSt
  · obtain ⟨hStored, hEq⟩ := h.payload row hSome
    exact ⟨hStored, hEq ▸ hExpires⟩

theorem Fails.relaxes {patch : DispatchRow → DispatchRow} (h : Fails patch) : Relaxes patch :=
  ⟨h.id, fun _ _ hDead => DispatchRow.mem_deadlines.mpr (.inr (.inr (.inr (h.mem_deadlines hDead))))⟩

theorem fails_unsupportedPatch (unsupported : List ExecutionCapability) : Fails (unsupportedPatch unsupported) :=
  ⟨fun _ => rfl, fun _ => rfl, fun _ h => absurd h Bool.false_ne_true⟩

theorem fails_payloadUnavailablePatch : Fails payloadUnavailablePatch :=
  ⟨fun _ => rfl, fun _ => rfl, fun _ h => ⟨h, rfl⟩⟩

theorem relaxes_gatePatch (held : Bool) : Relaxes (gatePatch held) := ⟨fun _ => rfl, fun _ _ h => h⟩

theorem relaxes_turnPatch (turnId : String) : Relaxes (turnPatch turnId) := ⟨fun _ => rfl, fun _ _ h => h⟩

theorem mem_attempt_deadlines {row : DispatchRow} {deadline : Nat} (h : deadline ∈ (attemptPatch row).deadlines) :
    row.state = .offering ∧ row.offerDeadlineAt = some deadline ∨
    leased row.state = true ∧ row.leaseExpiresAt = some deadline ∨
    row.payloadJson.isSome = true ∧ row.payloadExpiresAt = some deadline := by
  rw [DispatchRow.mem_deadlines] at h
  obtain hOffer | hLease | ⟨-, hRetry⟩ | hPay := h
  · exact .inl hOffer
  · exact .inr (.inl hLease)
  · cases hRetry
  · exact .inr (.inr hPay)

theorem relaxes_attemptPatch : Relaxes attemptPatch := by
  refine ⟨fun _ => rfl, fun row deadline hDead => ?_⟩
  rw [DispatchRow.mem_deadlines]
  obtain hOffer | hLease | hPay := mem_attempt_deadlines hDead
  · exact .inl hOffer
  · exact .inr (.inl hLease)
  · exact .inr (.inr (.inr hPay))

theorem later_releaseGate (g : Gate) (row : DispatchRow) : Later g (g.releaseGate row) := by
  unfold releaseGate
  split
  · exact (relaxes_gatePatch false).later g row.dispatchId
  · exact .of_same rfl rfl rfl rfl rfl

/-! ## Handlers that end or park -/

theorem Ready.goOn {g : Gate} {now : Nat} {after : After} (h : Ready g now after) (out : Outside) :
    Sound (g.goOn out after) := by
  cases after with
  | returns => exact ⟨h.timely, h.covered.resolve_left Bool.false_ne_true⟩
  | schedule now' => exact sound_scheduleAlarm h.timely out true h.after_le
  | alarm now' rest =>
    refine ⟨⟨h.timely.ids, h.timely.tasks, ?_⟩, .inr (.inr rfl)⟩
    rintro pair ⟨⟩
    exact h.after_le

theorem Ready.park {g : Gate} {now : Nat} {after : After} (h : Ready g now after) {task : Task}
    (hNow : task.now ≤ max now after.now) (hSchedules : task.schedules = after.schedules) : Sound (g.park task) := by
  refine ⟨⟨h.timely.ids, ?_, h.timely.expiring⟩, ?_⟩
  · intro other hOther
    rw [park_tasks, mem_append, mem_singleton] at hOther
    obtain hOld | rfl := hOther
    · exact h.timely.tasks other hOld
    · exact hNow.trans h.clock
  · obtain hWill | hAwake | ⟨other, hOther, hWill⟩ | hExpiring := h.covered
    · exact .inr (.inl ⟨task, mem_append_right _ (mem_singleton_self task), hSchedules ▸ hWill⟩)
    · exact .inl hAwake
    · exact .inr (.inl ⟨other, mem_append_left _ hOther, hWill⟩)
    · exact .inr (.inr hExpiring)

theorem Ready.parkCloud {g : Gate} {now : Nat} {after : After} (h : Ready g now after) (stage : Stage)
    (row : DispatchRow) : Sound (g.park (.cloud stage row now after)) :=
  h.park le_rfl rfl

theorem Ready.settle {g : Gate} {now : Nat} {after : After} (h : Ready g now after) (out : Outside)
    (before next : DispatchRow) : Sound (g.settle out before next after) := by
  unfold Gate.settle
  split
  · exact h.park (le_max_right now after.now) rfl
  · exact (h.later (later_releaseGate g next)).goOn out

theorem Ready.patch {g : Gate} {now : Nat} {after : After} (h : Ready g now after) {patch : DispatchRow → DispatchRow}
    (hPatch : after.schedules = true ∧ Keeps patch ∨ Relaxes patch) (row : DispatchRow) :
    Ready (g.patchDispatch row patch now) now after := by
  obtain ⟨hWill, hKeeps⟩ | hRelaxes := hPatch
  · exact ⟨h.timely.congr (g.patchDispatch_ids hKeeps row now) rfl rfl rfl, h.clock, .inl hWill⟩
  · exact h.later (hRelaxes.later_patch g row now)

theorem Ready.patchAndSettle {g : Gate} {now : Nat} {after : After} (h : Ready g now after)
    {patch : DispatchRow → DispatchRow} (hPatch : after.schedules = true ∧ Keeps patch ∨ Relaxes patch)
    (out : Outside) (row : DispatchRow) : Sound (g.patchAndSettle out row patch now after) :=
  (h.patch hPatch row).settle out row _

theorem Ready.cloudRefusal {g : Gate} {now : Nat} {after : After} (h : Ready g now after) (out : Outside)
    (row : DispatchRow) (status : Nat) (code message : String) :
    Sound (g.cloudRefusal out row status code message now after) := by
  unfold Gate.cloudRefusal
  split
  · have hKeeps : Keeps (retryPatch code message now) := fun _ => rfl
    have hTimely : Timely (g.patchDispatch row (retryPatch code message now) now) :=
      h.timely.congr (g.patchDispatch_ids hKeeps row now) rfl rfl rfl
    have hSound := sound_scheduleAlarm hTimely out true h.now_le
    have hReady : Ready ((g.patchDispatch row (retryPatch code message now) now).scheduleAlarm out now true) now
        after := ⟨hSound.timely, by simpa using h.clock, .inr hSound.covered⟩
    exact hReady.goOn out
  · exact h.patchAndSettle (.inr (relaxes_refusalPatch code message)) out row

theorem Ready.send {g : Gate} {now : Nat} {after : After} (h : Ready g now after) (via : Via) (row : DispatchRow) :
    Sound (g.send via row now after) := by
  have hNoted : Ready (g.note (.started row.dispatchId g.log.length)) now after :=
    h.later (.of_same rfl rfl rfl rfl rfl)
  exact hNoted.parkCloud _ row

theorem Ready.putHandoff {g : Gate} {now : Nat} {after : After} (h : Ready g now after) (id : String)
    (handoff : CloudChatHandoff) : Ready (g.putHandoff id handoff) now after :=
  h.later (.of_same rfl rfl rfl rfl rfl)

theorem Ready.sendChat {g : Gate} {now : Nat} {after : After} (h : Ready g now after) (out : Outside)
    (row : DispatchRow) (turnId : String) : Sound (g.sendChat out row turnId now after) := by
  unfold Gate.sendChat
  split
  · exact (h.later ((relaxes_turnPatch turnId).later g row.dispatchId)).send _ row
  · split
    · exact ((h.putHandoff row.dispatchId _).later (later_releaseGate _ _)).goOn out
    · exact h.goOn out

theorem Ready.startCloudChat {g : Gate} {now : Nat} {after : After} (h : Ready g now after) (out : Outside)
    (row : DispatchRow) : Sound (g.startCloudChat out row now after) := by
  unfold Gate.startCloudChat
  split
  · split
    · exact (h.putHandoff row.dispatchId _).parkCloud _ row
    · exact h.send _ row
  · exact h.parkCloud _ row
  · exact h.sendChat out row _
  · exact h.cloudRefusal out row _ _ _

theorem Ready.startCloudAgent {g : Gate} {now : Nat} {after : After} (h : Ready g now after) (out : Outside)
    (row : DispatchRow) (payload : DispatchPayload) : Sound (g.startCloudAgent out row payload now after) := by
  unfold Gate.startCloudAgent
  split
  · exact h.goOn out
  · split
    · exact h.send _ row
    · exact h.send _ row

theorem Ready.attempt {g : Gate} {now : Nat} {after : After} (h : Ready g now after) (out : Outside)
    (row : DispatchRow) (payload : DispatchPayload) : Sound (g.attempt out row payload now after) := by
  unfold Gate.attempt
  split
  · exact h.startCloudChat out _
  · exact h.startCloudAgent out _ payload

theorem Ready.runCloudBranch {g : Gate} {now : Nat} {after : After} {row : DispatchRow}
    (hIdle : row.state ≠ .cloudCommitted → Ready g now after)
    (hFresh : row.state = .cloudCommitted → Ready (g.update row.dispatchId attemptPatch) now after ∧
      ∀ patch, Fails patch → Ready (g.patchDispatch row patch now) now after) (out : Outside) :
    Sound (g.runCloudBranch out row now after) := by
  unfold Gate.runCloudBranch
  split
  · next hSt => exact (hIdle hSt).goOn out
  · next hSt =>
    obtain ⟨hAtt, hPatch⟩ := hFresh (by simpa using hSt)
    split
    · exact (hPatch _ (fails_unsupportedPatch _)).settle out row _
    · split
      · exact (hPatch _ fails_payloadUnavailablePatch).settle out row _
      · exact hAtt.attempt out row _

theorem Ready.cloudBranch {g : Gate} {now : Nat} {after : After} (h : Ready g now after) (out : Outside)
    (row : DispatchRow) : Sound (g.runCloudBranch out row now after) :=
  Ready.runCloudBranch (fun _ => h) (fun _ => ⟨h.later (relaxes_attemptPatch.later g row.dispatchId),
    fun _ hFails => h.patch (.inr hFails.relaxes) row⟩) out

theorem Ready.resolveUnaccepted {g : Gate} {now : Nat} {after : After} (h : Ready g now after)
    (hWill : after.schedules = true) (out : Outside) (row : DispatchRow) (reason : String) :
    Sound (g.resolveUnaccepted out row now reason after) := by
  have hWithdrawn : Ready (g.withdrawOffers row.dispatchId none) now after := h.later (.of_same rfl rfl rfl rfl rfl)
  unfold Gate.resolveUnaccepted
  split
  · exact h.goOn out
  · split
    · split
      · exact hWithdrawn.patchAndSettle (.inr (relaxes_blockedPatch _)) out row
      · have hKeeps : Keeps (committedPatch reason now) := fun _ => rfl
        exact (hWithdrawn.patch (.inl ⟨hWill, hKeeps⟩) row).cloudBranch out _
    · exact hWithdrawn.patchAndSettle (.inr (relaxes_blockedPatch _)) out row

theorem Ready.expireRow {g : Gate} {now : Nat} {after : After} (h : Ready g now after)
    (hWill : after.schedules = true) (out : Outside) (row : DispatchRow) :
    Sound (g.expireRow out row now after) := by
  have hPatch : ∀ patch, Keeps patch → Ready (g.update row.dispatchId patch) now after := fun patch hKeeps =>
    ⟨h.timely.congr (g.update_ids hKeeps row.dispatchId) rfl rfl rfl, h.clock, .inl hWill⟩
  unfold Gate.expireRow
  split
  · exact h.resolveUnaccepted hWill out row _
  · split
    · exact h.cloudBranch out row
    · split
      · exact h.resolveUnaccepted hWill out row _
      · split
        · have hKeeps : Keeps (reconcilePatch row.state) := fun _ => rfl
          exact (h.patch (.inl ⟨hWill, hKeeps⟩) row).goOn out
        · split
          · exact (hPatch dropPayloadPatch fun _ => rfl).goOn out
          · exact h.goOn out

/-! ## Frames: a lease without a new alarm -/

/-- The lease a frame writes at `now` needs no new alarm: the alarm is set no
later, or the row has a lease the alarm waits for that ends no later. -/
def watched (g : Gate) (row : DispatchRow) (now : Nat) : Prop :=
  (∃ wake ∈ g.alarm, wake ≤ now + dispatchAcceptedLeaseMs) ∨
    leased row.state = true ∧ ∃ lease ∈ row.leaseExpiresAt, lease ≤ now + dispatchAcceptedLeaseMs

instance (g : Gate) (row : DispatchRow) (now : Nat) : Decidable (g.watched row now) := by
  unfold watched
  infer_instance

theorem foreseen_lease {g : Gate} {row : DispatchRow} (hRow : row ∈ g.dispatches) {now : Nat}
    (h : g.watched row now) : g.Foreseen (now + dispatchAcceptedLeaseMs) := by
  obtain hWake | ⟨hLeased, lease, hLease, hLe⟩ := h
  · exact .inl hWake
  · exact .inr ⟨row, hRow, lease, DispatchRow.mem_deadlines.mpr (.inr (.inl ⟨hLeased, hLease⟩)), hLe⟩

/-- A patch whose only new deadline is the lease of `now`. -/
structure Leases (now : Nat) (patch : DispatchRow → DispatchRow) : Prop where
  id : Keeps patch
  deadlines : ∀ row, ∀ deadline ∈ (patch row).deadlines, deadline = now + dispatchAcceptedLeaseMs ∨
    row.payloadJson.isSome = true ∧ row.payloadExpiresAt = some deadline

theorem Leases.later {now : Nat} {patch : DispatchRow → DispatchRow} (h : Leases now patch) {g : Gate}
    (hIds : g.ids.Nodup) {row : DispatchRow} (hRow : g.dispatchRow row.dispatchId = some row)
    (hWatched : g.watched row now) : Later g (g.update row.dispatchId patch) := by
  refine later_update h.id fun stored hStored hId deadline hDead => ?_
  have hRead := dispatchRow_of_mem hIds hStored
  rw [hId, hRow] at hRead
  obtain rfl := Option.some.inj hRead
  obtain rfl | hPay := h.deadlines row deadline hDead
  · exact foreseen_lease hStored hWatched
  · exact foreseen_of_mem hStored (DispatchRow.mem_deadlines.mpr (.inr (.inr (.inr hPay))))

theorem leases_ackPatch (now : Nat) : Leases now (ackPatch now) := by
  refine ⟨fun _ => rfl, fun row deadline hDead => ?_⟩
  rw [DispatchRow.mem_deadlines] at hDead
  obtain ⟨hSt, -⟩ | ⟨-, hLease⟩ | ⟨hSt, -⟩ | ⟨hSome, -⟩ := hDead
  · exact DispatchState.noConfusion hSt
  · exact .inl (Option.some.inj hLease).symm
  · exact DispatchState.noConfusion hSt
  · exact absurd hSome Bool.false_ne_true

theorem leases_leasePatch {state : DispatchState} (startedAt : Option Nat) (now : Nat)
    (hOffering : state ≠ .offering) (hComm : state ≠ .cloudCommitted) :
    Leases now (leasePatch state startedAt now) := by
  refine ⟨fun _ => rfl, fun row deadline hDead => ?_⟩
  rw [DispatchRow.mem_deadlines] at hDead
  obtain ⟨hSt, -⟩ | ⟨-, hLease⟩ | ⟨hSt, -⟩ | hPay := hDead
  · exact absurd hSt hOffering
  · exact .inl (Option.some.inj hLease).symm
  · exact absurd hSt hComm
  · exact .inr hPay

theorem leases_committed_attempt (reason : String) (now : Nat) :
    Leases now (fun row => attemptPatch (patched (committedPatch reason now) now (patched releasedPatch now row))) := by
  refine ⟨fun _ => rfl, fun row deadline hDead => ?_⟩
  obtain ⟨hSt, -⟩ | ⟨-, hLease⟩ | hPay := mem_attempt_deadlines hDead
  · exact DispatchState.noConfusion hSt
  · exact .inl (Option.some.inj hLease).symm
  · exact .inr hPay

theorem leases_released_fails {now : Nat} {patch : DispatchRow → DispatchRow} (h : Fails patch)
    (reason : String) :
    Leases now (fun row => patched patch now
      (patched (committedPatch reason now) now (patched releasedPatch now row))) := by
  refine ⟨fun row => h.id _, fun row deadline hDead => ?_⟩
  have hMem : deadline ∈ (patch (patched (committedPatch reason now) now (patched releasedPatch now row))).deadlines :=
    hDead
  have hPay := h.mem_deadlines hMem
  exact .inr hPay

theorem patchDispatch_released {g g₁ : Gate} {row released : DispatchRow} {now : Nat} (patch)
    (hRows : g₁.dispatches = (g.patchDispatch row releasedPatch now).dispatches)
    (hId : released.dispatchId = row.dispatchId) :
    (g₁.patchDispatch released patch now).dispatches =
      (g.update row.dispatchId (fun stored => patched patch now (patched releasedPatch now stored))).dispatches := by
  have hKeeps : Keeps (patched releasedPatch now) := fun _ => rfl
  rw [← g.update_update hKeeps row.dispatchId, patchDispatch, hId]
  show g₁.dispatches.map _ = (g.patchDispatch row releasedPatch now).dispatches.map _
  rw [hRows]

def writesLease (out : Outside) (attachment : Attachment) (row : DispatchRow) (frame : Frame) (now : Nat) : Bool :=
  ownsDispatch row attachment &&
    match frame with
    | .release _ => row.state = .computerClaimed && row.onNoEligibleComputer = .cloud &&
        !(row.request.kind = .agent && out.sandbox = some false)
    | .ack => row.state = .computerClaimed && row.leaseExpiresAt.any (fun lease => now < lease)
    | .running => owned row.state
    | .renew => owned row.state || row.state = .cancelPending
    | _ => false

def WatchedLease (g : Gate) : Event → Prop
  | .frame out attachment dispatchId frame now =>
    ∀ row ∈ g.dispatchRow dispatchId, writesLease out attachment row frame now = true → g.watched row now
  | _ => True

instance (g : Gate) : ∀ event, Decidable (WatchedLease g event)
  | .frame _ _ _ _ _ => by unfold WatchedLease; infer_instance
  | .submit .. | .cancel .. | .status .. | .terminal .. | .unregister .. | .other .. | .fire .. | .resume .. | .turn .. =>
    .isTrue trivial

theorem Ready.handleRelease {g : Gate} {now : Nat} (h : Ready g now .returns) {out : Outside}
    {attachment : Attachment} {row : DispatchRow} (hRow : g.dispatchRow row.dispatchId = some row)
    (hWatched : row.onNoEligibleComputer = .cloud → ¬ (row.request.kind = .agent ∧ out.sandbox = some false) →
      g.watched row now) (reason : String) : Sound (g.handleRelease out attachment row reason now) := by
  have hKeeps : Keeps releasedPatch := fun _ => rfl
  have hReleased : (g.patchDispatch row releasedPatch now).current row = patched releasedPatch now row := by
    apply current_of_some
    rw [g.dispatchRow_patchDispatch hKeeps, if_pos rfl, hRow, Option.map_some]
  unfold Gate.handleRelease
  rw [hReleased]
  generalize hOffers : ((g.patchDispatch row releasedPatch now).setOffer row.dispatchId attachment.deviceId
    .withdrawn).withdrawOffers (patched releasedPatch now row).dispatchId none = g₁
  have hEq : g₁.alarm = g.alarm ∧ g₁.clock = g.clock ∧ g₁.tasks = g.tasks ∧ g₁.expiring = g.expiring ∧
      g₁.dispatches = (g.patchDispatch row releasedPatch now).dispatches := by
    subst hOffers
    exact ⟨rfl, rfl, rfl, rfl, rfl⟩
  obtain ⟨hAlarm, hClock, hTasks, hExpiring, hRows⟩ := hEq
  have hPatch : ∀ patch, Later g (g.update row.dispatchId
      (fun stored => patched patch now (patched releasedPatch now stored))) →
      Ready (g₁.patchDispatch (patched releasedPatch now row) patch now) now .returns := fun patch hLater =>
    (h.later hLater).later (.of_same (patchDispatch_released patch hRows rfl) hAlarm hClock hTasks hExpiring)
  have hBlocked : ∀ refusal, Sound (g₁.patchAndSettle out (patched releasedPatch now row) (blockedPatch refusal) now
      .returns) := fun refusal => by
    refine (hPatch (blockedPatch refusal) ?_).settle out _ _
    have hRelaxes : Relaxes (fun stored => patched (blockedPatch refusal) now (patched releasedPatch now stored)) :=
      relaxes_of_idle (fun _ => rfl) (fun _ => nofun) (fun _ => rfl) (fun _ => rfl)
    exact hRelaxes.later g row.dispatchId
  unfold Gate.resolveUnaccepted
  rw [if_neg (show ¬ ((patched releasedPatch now row).state ≠ .offering ∧ _) from fun hNe => hNe.1 rfl), hOffers]
  split
  · next hCloud =>
    split
    · exact hBlocked _
    · next hAllowed =>
      have hLease := hWatched hCloud hAllowed
      unfold commitToCloud
      generalize hText : "computer-claim-released:" ++ slice 160 reason = text
      have hComm : Keeps (committedPatch text now) := fun _ => rfl
      have hStored : (g₁.patchDispatch (patched releasedPatch now row) (committedPatch text now) now).dispatchRow
          (patched releasedPatch now row).dispatchId = some (patched (committedPatch text now) now
            (patched releasedPatch now row)) := by
        have hRead : g₁.dispatchRow (patched releasedPatch now row).dispatchId =
            some (patched releasedPatch now row) := by
          rw [dispatchRow_congr hRows]
          show (g.patchDispatch row releasedPatch now).dispatchRow row.dispatchId = _
          rw [g.dispatchRow_patchDispatch hKeeps, if_pos rfl, hRow, Option.map_some]
        rw [g₁.dispatchRow_patchDispatch hComm, if_pos rfl, hRead, Option.map_some]
      rw [current_of_some hStored]
      refine Ready.runCloudBranch (fun hSt => absurd rfl hSt) (fun _ => ?_) out
      have hThree : ∀ patch, Leases now (fun stored => patch (patched (committedPatch text now) now
          (patched releasedPatch now stored))) →
          Ready ((g₁.patchDispatch (patched releasedPatch now row) (committedPatch text now) now).update
            row.dispatchId patch) now .returns := by
        intro patch hLeases
        have hLater := hLeases.later h.timely.ids hRow hLease
        refine (h.later hLater).later (.of_same ?_ hAlarm hClock hTasks hExpiring)
        have hTwo : Keeps (fun stored => patched (committedPatch text now) now (patched releasedPatch now stored)) :=
          fun _ => rfl
        rw [← g.update_update hTwo row.dispatchId]
        have hRowsTwo : (g₁.patchDispatch (patched releasedPatch now row) (committedPatch text now) now).dispatches =
            (g.update row.dispatchId (fun stored =>
              patched (committedPatch text now) now (patched releasedPatch now stored))).dispatches :=
          patchDispatch_released (committedPatch text now) hRows rfl
        show (g₁.patchDispatch (patched releasedPatch now row) (committedPatch text now) now).dispatches.map _ =
          (g.update row.dispatchId _).dispatches.map _
        rw [hRowsTwo]
      exact ⟨hThree attemptPatch (leases_committed_attempt text now),
        fun patch hFails => hThree (patched patch now) (leases_released_fails hFails text)⟩
  · exact hBlocked _

theorem Ready.sound {g : Gate} {now : Nat} (h : Ready g now .returns) : Sound g :=
  ⟨h.timely, h.covered.resolve_left Bool.false_ne_true⟩

theorem Ready.scheduling {g : Gate} {now : Nat} (h : Ready g now .returns) : Ready g now (.schedule now) :=
  ⟨h.timely, by simpa [After.now] using h.clock, .inl rfl⟩

theorem Ready.settles {g : Gate} {now : Nat} (h : Ready g now .returns) {patch : DispatchRow → DispatchRow}
    (hKeeps : Keeps patch) (out : Outside) (row : DispatchRow) :
    Sound (g.patchAndSettle out row patch now (.schedule now)) :=
  h.scheduling.patchAndSettle (.inl ⟨rfl, hKeeps⟩) out row

theorem Ready.leased {g : Gate} {now : Nat} (h : Ready g now .returns) {row : DispatchRow}
    (hRow : g.dispatchRow row.dispatchId = some row) (hWatched : g.watched row now) {patch : DispatchRow → DispatchRow}
    (hLeases : Leases now patch) : Ready (g.patchDispatch row patch now) now .returns := by
  have hPatched : Leases now (patched patch now) := ⟨hLeases.id, hLeases.deadlines⟩
  exact h.later (hPatched.later h.timely.ids hRow hWatched)

theorem Ready.handleClaim {g : Gate} {now : Nat} (h : Ready g now .returns) (out : Outside)
    (attachment : Attachment) (row : DispatchRow) (claimRequestId : String) :
    Sound (g.handleClaim out attachment row claimRequestId now) := by
  unfold Gate.handleClaim
  split
  · exact h.sound
  · split
    · exact h.sound
    · split
      · exact h.sound
      · have hKeeps : Keeps (claimedPatch attachment now) := fun _ => rfl
        have hOffers : Ready ((g.setOffer row.dispatchId attachment.deviceId .claimed).withdrawOffers row.dispatchId
            (some attachment.deviceId)) now .returns := h.later (.of_same rfl rfl rfl rfl rfl)
        have hClaimed := hOffers.scheduling.patch (.inl ⟨rfl, hKeeps⟩) row
        exact sound_scheduleAlarm hClaimed.timely out true hClaimed.now_le

theorem owned_states {state : DispatchState} (h : owned state = true ∨ state = .cancelPending) :
    state ≠ .offering ∧ state ≠ .cloudCommitted := by
  constructor
  · rintro rfl
    simp [owned] at h
  · rintro rfl
    simp [owned] at h

theorem renewedState_states {row : DispatchRow} (h : owned row.state = true ∨ row.state = .cancelPending) :
    renewedState row ≠ .offering ∧ renewedState row ≠ .cloudCommitted := by
  unfold renewedState
  split
  · split <;> exact ⟨nofun, nofun⟩
  · exact owned_states h

theorem Ready.handleOwnedFrame {g : Gate} {now : Nat} (h : Ready g now .returns) {out : Outside}
    {attachment : Attachment} {row : DispatchRow} {frame : Frame} (hRow : g.dispatchRow row.dispatchId = some row)
    (hOwns : ownsDispatch row attachment = true)
    (hWatched : writesLease out attachment row frame now = true → g.watched row now) :
    Sound (g.handleOwnedFrame out attachment row frame now) := by
  cases frame with
  | claim claimRequestId => exact h.sound
  | release reason =>
    simp only [Gate.handleOwnedFrame]
    split
    · exact h.sound
    · next hSt =>
      refine h.handleRelease hRow (fun hCloud hAllowed => hWatched ?_) reason
      have hClaimed : row.state = .computerClaimed := by simpa using hSt
      simp only [writesLease, hOwns, hClaimed, hCloud, Bool.true_and, decide_true, Bool.and_true]
      rw [Bool.not_eq_true', Bool.and_eq_false_iff, decide_eq_false_iff_not, decide_eq_false_iff_not]
      exact not_and_or.mp hAllowed
  | ack =>
    simp only [Gate.handleOwnedFrame]
    split
    · exact h.sound
    · next hGuard =>
      push Not at hGuard
      have hLeases := leases_ackPatch now
      have hAcked := h.leased hRow (hWatched (by simp [writesLease, hOwns, hGuard.1, hGuard.2])) hLeases
      have hNoted : Ready ((g.patchDispatch row (ackPatch now) now).note (.acked row.dispatchId)) now .returns :=
        hAcked.later (.of_same rfl rfl rfl rfl rfl)
      exact hNoted.sound
  | running =>
    simp only [Gate.handleOwnedFrame]
    split
    · exact h.sound
    · next hOwned =>
      have hLeases := @leases_leasePatch .computerRunning (some (row.startedAt.getD now)) now nofun nofun
      refine (h.leased hRow (hWatched ?_) hLeases).sound
      simpa [writesLease, hOwns] using hOwned
  | renew =>
    simp only [Gate.handleOwnedFrame]
    split
    · exact h.sound
    · next hOwned =>
      obtain ⟨hOffering, hComm⟩ := renewedState_states (not_not.mp hOwned)
      have hLeases := leases_leasePatch none now hOffering hComm
      refine (h.leased hRow (hWatched ?_) hLeases).sound
      simpa [writesLease, hOwns] using not_not.mp hOwned
  | complete outcome resultJson errorCode errorMessage =>
    simp only [Gate.handleOwnedFrame]
    split
    · exact h.sound
    · refine h.settles ?_ out row
      exact fun _ => rfl

theorem Ready.handleExecutorFrame {g : Gate} {now : Nat} (h : Ready g now .returns) {out : Outside}
    {attachment : Attachment} {id : String} {frame : Frame}
    (hWatched : ∀ row ∈ g.dispatchRow id, writesLease out attachment row frame now = true → g.watched row now) :
    Sound (g.handleExecutorFrame out attachment id frame now) := by
  unfold Gate.handleExecutorFrame
  split
  · exact h.sound
  · next row hRow =>
    have hRead : g.dispatchRow row.dispatchId = some row := by rw [dispatchRow_id hRow, hRow]
    split
    · exact h.handleClaim out attachment row _
    · split
      · next hOwns => exact h.handleOwnedFrame hRead hOwns (hWatched row hRow)
      · exact h.sound

theorem Ready.dispatchStatus {g : Gate} {now : Nat} (h : Ready g now .returns) (out : Outside) (id : String) :
    Sound (g.dispatchStatus out id now) := by
  unfold Gate.dispatchStatus
  split
  · exact h.sound
  · next row hRow =>
    split
    · exact h.sound
    · split
      · exact h.sound
      · refine h.settles ?_ out row
        exact fun _ => rfl

theorem later_keepReceipt (g : Gate) (receipt : CloudDispatchTerminal) : Later g (g.keepReceipt receipt) := by
  unfold keepReceipt
  split
  · exact .of_same rfl rfl rfl rfl rfl
  · exact .of_same rfl rfl rfl rfl rfl

theorem Ready.recordCloudDispatchTerminal {g : Gate} {now : Nat} (h : Ready g now .returns) (out : Outside)
    (receipt : CloudDispatchTerminal) : Sound (g.recordCloudDispatchTerminal out receipt now) := by
  have hKept := h.later (later_keepReceipt g receipt)
  unfold Gate.recordCloudDispatchTerminal
  split
  · exact hKept.sound
  · exact hKept.dispatchStatus out _

theorem Ready.stopRunning {g : Gate} {now : Nat} (h : Ready g now .returns) (out : Outside) (row : DispatchRow)
    (cancelRequestId reason : String) : Sound (g.stopRunning out row cancelRequestId reason now) := by
  have hKeeps : Keeps (cancelPendingPatch cancelRequestId reason) := fun _ => rfl
  have hStopped := h.scheduling.patch (.inl ⟨rfl, hKeeps⟩) row
  unfold Gate.stopRunning
  split
  · exact hStopped.park (le_max_left now _) rfl
  · exact sound_scheduleAlarm hStopped.timely out true hStopped.now_le

theorem Ready.cancelDispatch {g : Gate} {now : Nat} (h : Ready g now .returns) (out : Outside)
    (id cancelRequestId reason : String) : Sound (g.cancelDispatch out id cancelRequestId reason now) := by
  have hNoted : ∀ n, Ready (g.note n) now .returns := fun n => h.later (.of_same rfl rfl rfl rfl rfl)
  have hWithdrawn : Ready (g.withdrawOffers id none) now .returns := h.later (.of_same rfl rfl rfl rfl rfl)
  have hBoth : Ready ((g.withdrawOffers id none).note (.canceled id)) now .returns :=
    hWithdrawn.later (.of_same rfl rfl rfl rfl rfl)
  unfold Gate.cancelDispatch
  split
  · exact h.sound
  · next row hRow =>
    split
    · exact h.sound
    · split
      · split
        · exact (hNoted _).sound
        · exact h.sound
      · split
        · refine hBoth.settles ?_ out row
          exact fun _ => rfl
        · exact hWithdrawn.stopRunning out row cancelRequestId reason

theorem Ready.route {g : Gate} {now : Nat} (h : Ready g now (.schedule now)) (out : Outside) (row : DispatchRow)
    (candidates : List Attachment) : Sound (g.route out row candidates now) := by
  unfold Gate.route
  split
  · have hOffered : Ready (g.openOffers row candidates) now (.schedule now) := h.later (.of_same rfl rfl rfl rfl rfl)
    exact sound_scheduleAlarm hOffered.timely out true hOffered.now_le
  · split
    · exact h.cloudBranch out row
    · exact sound_scheduleAlarm h.timely out true h.now_le

theorem Ready.submit {g : Gate} {now : Nat} (h : Ready g now .returns) (out : Outside) {submission : Submission}
    (hFresh : g.dispatchRow submission.dispatchId = none) : Sound (g.submit out submission now) := by
  unfold Gate.submit
  split
  · exact h.sound
  · split
    · exact h.sound
    · next row hRow =>
      rw [← submission_row_id hRow] at hFresh
      have hInserted : Ready { g with dispatches := g.dispatches ++ [row] } now (.schedule now) :=
        ⟨⟨nodup_ids_append h.timely.ids hFresh, h.timely.tasks, h.timely.expiring⟩, h.scheduling.clock, .inl rfl⟩
      exact hInserted.route out row submission.candidates

theorem Ready.unregister {g : Gate} {now : Nat} (h : Ready g now .returns) (turnId : String) :
    Sound (g.unregister turnId) := by
  unfold Gate.unregister
  split
  · exact h.sound
  · next entry hEnt => exact ((h.putHandoff entry.1 _).later ((relaxes_gatePatch false).later _ entry.1)).sound

/-! ## Parked handlers and runs -/

theorem Ready.admitted {g g' : Gate} {now : Nat} {after : After} (h : Ready g now after) {out : Outside}
    {turnId : String} {row : DispatchRow} {answer : Answer}
    (hRes : g.admitted out turnId row now after answer = some g') : Sound g' := by
  have hHeld : Ready (g.update row.dispatchId (gatePatch true)) now after :=
    h.later ((relaxes_gatePatch true).later g row.dispatchId)
  cases answer with
  | threw => cases hRes; exact h.goOn out
  | refused status code message => cases hRes; exact h.cloudRefusal out row _ _ _
  | unregistered => cases hRes; exact hHeld.cloudRefusal out _ _ _ _
  | ok sentTurn sentThread =>
    simp only [Gate.admitted] at hRes
    split at hRes
    · cases hRes; exact hHeld.cloudRefusal out _ _ _ _
    · cases hRes; exact (hHeld.putHandoff row.dispatchId _).sendChat out _ turnId
  | read => cases hRes

theorem Ready.startRefused {g : Gate} {now : Nat} {after : After} (h : Ready g now after) (out : Outside)
    (start : Nat) (via : Via) (row : DispatchRow) (status : Nat) (code message : String) :
    Sound (g.startRefused out start via row now after status code message) := by
  have hNoted : Ready (g.note (.refused row.dispatchId start)) now after := h.later (.of_same rfl rfl rfl rfl rfl)
  unfold Gate.startRefused
  split
  · exact hNoted.parkCloud _ row
  · split
    · exact (hNoted.putHandoff row.dispatchId _).parkCloud _ row
    · exact hNoted.goOn out

theorem Ready.runs {g : Gate} {now : Nat} {after : After} (h : Ready g now after) (out : Outside)
    (row : DispatchRow) (turnId threadId : Option String) :
    Sound ((g.patchDispatch row (runningPatch turnId threadId now) now).goOn out after) :=
  (h.patch (.inr (relaxes_runningPatch turnId threadId now)) row).goOn out

theorem Ready.answered {g g' : Gate} {now : Nat} {after : After} (h : Ready g now after) {out : Outside}
    {start : Nat} {via : Via} {row : DispatchRow} {answer : Answer}
    (hRes : g.answered out start via row now after answer = some g') : Sound g' := by
  cases answer with
  | threw => cases hRes; exact h.goOn out
  | ok turnId threadId =>
    cases via with
    | chat turn => cases hRes; exact h.parkCloud _ row
    | session thread => cases hRes; exact h.parkCloud _ row
    | pi thread => cases hRes; exact (h.later (later_releaseGate g row)).runs out row _ _
  | refused status code message =>
    cases via with
    | chat turn => cases hRes; exact h.startRefused out start _ row _ _ _
    | session thread => cases hRes; exact h.startRefused out start _ row _ _ _
    | pi thread => cases hRes
  | unregistered => cases hRes
  | read => cases hRes

theorem Ready.bodyRead {g g' : Gate} {now : Nat} {after : After} (h : Ready g now after) {out : Outside}
    {via : Via} {turnId threadId : Option String} {row : DispatchRow} {answer : Answer}
    (hRes : g.bodyRead out via turnId threadId row now after answer = some g') : Sound g' := by
  cases answer with
  | threw => cases hRes; exact h.goOn out
  | read =>
    cases via with
    | session thread => cases hRes; exact h.runs out row _ _
    | pi thread => cases hRes; exact h.runs out row _ _
    | chat registered =>
      simp only [Gate.bodyRead] at hRes
      split at hRes
      · cases hRes; exact h.goOn out
      · split at hRes
        · cases hRes; exact h.goOn out
        · cases hRes; exact h.runs out row _ _
  | ok turn thread => cases hRes
  | refused status code message => cases hRes
  | unregistered => cases hRes

theorem sound_resume {g g' : Gate} {out : Outside} {task : Task} {answer : Answer} (hTimely : Timely g)
    (hNow : task.now ≤ g.clock) (hCovered : task.schedules = true ∨ g.Covered)
    (hRes : g.resume out task answer = some g') : Sound g' := by
  cases task with
  | cloud stage row now after =>
    have h : Ready g now after := ⟨hTimely, hNow, hCovered⟩
    cases stage with
    | admitting turnId => exact h.admitted hRes
    | sent start via => exact h.answered hRes
    | accepted start via turnId threadId => exact h.bodyRead hRes
    | refused start status code message =>
      cases answer with
      | read => cases hRes; exact h.cloudRefusal out row _ _ _
      | threw => cases hRes
      | ok turn thread => cases hRes
      | refused status code message => cases hRes
      | unregistered => cases hRes
  | reporting row after =>
    have h : Ready g 0 after := ⟨hTimely, by simpa [Task.now] using hNow, hCovered⟩
    cases answer with
    | read => cases hRes; exact (h.later (later_releaseGate g row)).goOn out
    | threw => cases hRes
    | ok turn thread => cases hRes
    | refused status code message => cases hRes
    | unregistered => cases hRes
  | stopping now =>
    cases answer with
    | read => cases hRes; exact sound_scheduleAlarm hTimely out true hNow
    | threw => cases hRes
    | ok turn thread => cases hRes
    | refused status code message => cases hRes
    | unregistered => cases hRes
  | waking now =>
    have hExpire : ∀ base : Gate, Timely base → base.clock = g.clock → Sound (base.expire now) := by
      intro base hBase hClock
      refine ⟨⟨hBase.ids, hBase.tasks, ?_⟩, .inr (.inr rfl)⟩
      intro pair hPair
      obtain rfl : (now, base.selectExpired now) = pair := Option.some.inj hPair
      exact hNow.trans_eq hClock.symm
    cases answer with
    | read =>
      simp only [resume] at hRes
      split at hRes
      · cases hRes; exact hExpire _ (hTimely.scheduleAlarm out now true) (by simp)
      · cases hRes; exact hExpire g hTimely rfl
    | threw => cases hRes; exact sound_scheduleAlarm hTimely out false hNow
    | ok turn thread => cases hRes
    | refused status code message => cases hRes
    | unregistered => cases hRes
  | woken now =>
    cases answer with
    | read => cases hRes; exact sound_scheduleAlarm hTimely out false hNow
    | threw => cases hRes
    | ok turn thread => cases hRes
    | refused status code message => cases hRes
    | unregistered => cases hRes

theorem Sound.tick {g : Gate} (h : Sound g) (now : Nat) : Ready (g.tick now) now .returns where
  timely := ⟨h.timely.ids, fun task hTask => (h.timely.tasks task hTask).trans (le_max_left _ _),
    fun pair hPair => (h.timely.expiring pair hPair).trans (le_max_left _ _)⟩
  clock := by simp [After.now, Gate.tick]
  covered := by
    right
    obtain hAwake | hScheduling := h.covered
    · left
      intro row hRow deadline hDead
      obtain ⟨wake, hWake, hLe⟩ := hAwake row hRow deadline hDead
      refine ⟨wake, hWake, ?_⟩
      have hClock : g.clock ≤ (g.tick now).clock := le_max_left _ _
      omega
    · exact .inr hScheduling

theorem Sound.step {g : Gate} (h : Sound g) {event : Event} (hWatched : g.WatchedLease event) :
    Sound (g.step event) := by
  unfold Gate.step segment
  split
  · next out =>
    split
    · exact h
    · next now hExpiring =>
      have hNow : now ≤ g.clock := h.timely.expiring (now, []) hExpiring
      refine ⟨⟨h.timely.ids, ?_, nofun⟩, .inr (.inl ⟨.woken now, mem_append_right _ (by simp), rfl⟩)⟩
      intro task hTask
      obtain hOld | hNew := mem_append.mp hTask
      · exact h.timely.tasks task hOld
      · rw [mem_singleton.mp hNew]; exact hNow
    · next now row rest hExpiring =>
      have hNow : now ≤ g.clock := h.timely.expiring (now, row :: rest) hExpiring
      have hReady : Ready { g with expiring := none } now (.alarm now rest) :=
        ⟨⟨h.timely.ids, h.timely.tasks, nofun⟩, max_le hNow hNow, .inl rfl⟩
      exact hReady.expireRow rfl out row
  · next hNotTurn =>
    split
    · exact h
    · next hIdle =>
      split
      · split
        · exact h
        · next out submission now hFresh =>
          rw [Bool.not_eq_true, Option.isSome_eq_false_iff, Option.isNone_iff_eq_none] at hFresh
          exact (h.tick now).submit out hFresh
      · next out attachment id frame now => exact (h.tick now).handleExecutorFrame hWatched
      · exact (h.tick _).cancelDispatch _ _ _ _
      · exact (h.tick _).dispatchStatus _ _
      · exact (h.tick _).recordCloudDispatchTerminal _ _
      · have hReady : Ready g 0 .returns := ⟨h.timely, Nat.zero_le _, .inr h.covered⟩
        exact hReady.unregister _
      · exact sound_scheduleAlarm (h.tick _).timely _ true (h.tick _).now_le
      · split
        · next now hDue =>
          have hTick := (h.tick now).timely
          refine ⟨⟨hTick.ids, ?_, hTick.expiring⟩,
            .inr (.inl ⟨.waking now, mem_append_right _ (by simp), rfl⟩)⟩
          intro task hTask
          obtain hOld | hNew := mem_append.mp hTask
          · exact hTick.tasks task hOld
          · rw [mem_singleton.mp hNew]; exact (h.tick now).now_le
        · exact h
      · next out task answer =>
        split
        · exact h
        · next parked hParked =>
          cases hRes : ({ g with tasks := g.tasks.eraseIdx task } : Gate).resume out parked answer with
          | none => exact h
          | some g' =>
            have hMem : parked ∈ g.tasks := mem_of_getElem? hParked
            have hTaken : Timely { g with tasks := g.tasks.eraseIdx task } :=
              ⟨h.timely.ids, fun other hOther => h.timely.tasks other (mem_of_mem_eraseIdx hOther),
                h.timely.expiring⟩
            refine sound_resume hTaken (h.timely.tasks parked hMem) ?_ hRes
            by_cases hWill : parked.schedules = true
            · exact .inl hWill
            · right
              obtain hAwake | ⟨other, hOther, hOtherWill⟩ | hExpiring := h.covered
              · exact .inl hAwake
              · refine .inr (.inl ⟨other, ?_, hOtherWill⟩)
                rw [mem_eraseIdx_iff_getElem?]
                obtain ⟨place, hPlace⟩ := mem_iff_getElem?.mp hOther
                refine ⟨place, fun hEq => hWill ?_, hPlace⟩
                rw [hEq, hParked] at hPlace
                exact Option.some.inj hPlace ▸ hOtherWill
              · exact .inr (.inr hExpiring)
      · next out => exact absurd rfl (hNotTurn out)

def Quiescent (g : Gate) : Prop := g.tasks = [] ∧ g.expiring = none

theorem sound_empty : Sound empty :=
  ⟨⟨nodup_nil, by simp [empty], by simp [empty]⟩, .inl (by simp [Awake, empty])⟩

/-- In a run in which no frame writes a lease the alarm would not see, every
pending deadline has a wake whenever no handler is running. -/
theorem awake_of_run {events : List Event} (hRun : Along step WatchedLease empty events)
    (hQuiescent : (run step empty events).Quiescent) : (run step empty events).Awake := by
  have hStep : ∀ (g : Gate) (event : Event), Sound g → WatchedLease g event → Sound (g.step event) :=
    fun _ _ h hWatched => h.step hWatched
  obtain hAwake | ⟨task, hTask, -⟩ | hExpiring := (run_invariant hStep sound_empty hRun).covered
  · exact hAwake
  · rw [hQuiescent.1] at hTask
    exact absurd hTask not_mem_nil
  · rw [hQuiescent.2] at hExpiring
    exact absurd hExpiring Bool.false_ne_true

/-! ## A revived lease -/

def socketOutside : Outside := ⟨[3600000], some true, .other, "uuid", true, false, none, true, false⟩

def desktopRequest : DispatchSubmitRequest :=
  ⟨"key-0001", .chat, .desktop, .computer, .automatic, none, some "desktop-1", none, "conversation", none, none,
    [.chat], ⟨"prompt", none⟩⟩

def desktop : Attachment := ⟨"desktop-1", "session-1"⟩

def lapsed : List Event :=
  [.submit socketOutside ⟨"dsp:1", desktopRequest, "generation", false, [], some "session-1"⟩ 0,
    .fire 120000, .resume socketOutside 0 .read, .turn socketOutside, .turn socketOutside,
    .resume socketOutside 0 .read]

def renewed : List Event := lapsed ++ [.frame socketOutside desktop "dsp:1" .renew 121000]

/-- The renewed lease ends at 241000; the alarm is left at the socket's hour. -/
theorem renewed_not_awake : (run step empty renewed).Quiescent ∧ ¬ (run step empty renewed).Awake := by
  refine ⟨by unfold Quiescent; decide, fun h => ?_⟩
  have hRow : ∃ row ∈ (run step empty renewed).dispatches, 241000 ∈ row.deadlines := by decide
  obtain ⟨row, hMem, hDeadline⟩ := hRow
  obtain ⟨wake, hWake, hLe⟩ := h row hMem 241000 hDeadline
  have hAlarm : (run step empty renewed).alarm = some 3600000 := by decide
  have hClock : (run step empty renewed).clock = 121000 := by decide
  obtain rfl := Option.some.inj (hAlarm.symm.trans hWake)
  rw [hClock] at hLe
  exact absurd hLe (by decide)

/-- The lapse itself, and a renewal before it, meet the condition. -/
theorem awake_of_lapse : Along step WatchedLease empty
    (lapsed.take 1 ++ [.frame socketOutside desktop "dsp:1" .renew 60000]) ∧
    (run step empty (lapsed.take 1 ++ [.frame socketOutside desktop "dsp:1" .renew 60000])).Awake :=
  ⟨by decide, awake_of_run (by decide) (by unfold Quiescent; decide)⟩

end Gate

end Stella.OwnerGate
