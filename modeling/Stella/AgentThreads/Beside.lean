import Stella.AgentThreads.Turns

/-! # What a step parks and queues

A task that a step parks, and a dispatch that it queues, come from what the step
read: the lemmas say of each operation what it leaves of tasks, acknowledgements
and jobs.
-/

namespace Stella.AgentThreads

open List

def Beside (db db' : Db) : Prop := db'.tasks = db.tasks ∧ db'.acknowledged = db.acknowledged

/-- A job of the one is in the other, or of a turn in `X`. -/
def Queues (X : String → Prop) (db db' : Db) : Prop := ∀ j ∈ db'.jobs, j ∈ db.jobs ∨ X j.2.turnId

section Operations

variable (db : Db) (now : Int) {X : String → Prop}

variable {db' : Db}

theorem Queues.of_jobs {db : Db} (h : db'.jobs = db.jobs) : Queues X db db' := by
  intro j hj
  rw [h] at hj
  exact .inl hj

theorem Queues.then_jobs {db db'' : Db} (hQueues : Queues X db db') (h : ∀ j ∈ db''.jobs, j ∈ db'.jobs) :
    Queues X db db'' := fun j hj => hQueues j (h j hj)

theorem queues_schedule (runAt : Int) (job : DispatchJob) (h : X job.turnId) : Queues X db (db.schedule runAt job) := by
  intro j hj
  obtain hOld | hNew := mem_append.mp hj
  · exact .inl ((mem_filter.mp hOld).1)
  · rw [mem_singleton.mp hNew]
    exact .inr h

theorem beside_startAttempt (thread : ThreadRow) (attempt : NewAttempt) :
    Beside db (db.startAttempt now thread attempt) := by
  unfold Db.startAttempt
  split <;> exact ⟨rfl, rfl⟩

theorem queues_startAttempt (h : ∀ id, db.readTurn id = none → X id) (thread : ThreadRow) (attempt : NewAttempt) :
    Queues X db (db.startAttempt now thread attempt) := by
  unfold Db.startAttempt
  split
  · exact .of_jobs rfl
  · next hFree =>
    have hNone : db.readTurn attempt.turnId = none := by
      unfold Db.readTurn Rows.lookup
      refine find?_eq_none.mpr fun row hRow hIs => hFree ?_
      refine any_eq_true.mpr ⟨row, hRow, ?_⟩
      exact decide_eq_true (.inl (of_decide_eq_true hIs))
    exact queues_schedule { db with
        turns := db.turns ++ [attemptTurn now thread attempt.turnId attempt.clientMsgId attempt.fingerprint],
        prompts := db.prompts ++ [attempt.turnId] }
      now ⟨thread.threadId, attempt.turnId, thread.attemptGeneration, 1, 0⟩ (h _ hNone)

theorem beside_insertTurn (row : TurnRow) : Beside db (db.insertTurn row) ∧ (db.insertTurn row).jobs = db.jobs := by
  unfold Db.insertTurn
  split <;> exact ⟨⟨rfl, rfl⟩, rfl⟩

theorem beside_spawn (row : ThreadRow) (attempt : NewAttempt) : Beside db (db.spawn now row attempt) := by
  unfold Db.spawn
  split
  · exact ⟨rfl, rfl⟩
  · exact beside_startAttempt { db with threads := db.threads ++ [row] } now row attempt

theorem queues_spawn (h : ∀ id, db.readTurn id = none → X id) (row : ThreadRow) (attempt : NewAttempt) :
    Queues X db (db.spawn now row attempt) := by
  unfold Db.spawn
  split
  · exact .of_jobs rfl
  · exact queues_startAttempt { db with threads := db.threads ++ [row] } now h row attempt

theorem beside_resume (id : String) (patch : ThreadRow → ThreadRow) (attempt : NewAttempt) :
    Beside db (db.resume now id patch attempt) := by
  unfold Db.resume
  dsimp only
  split
  · exact ⟨rfl, rfl⟩
  · next thread _ => exact beside_startAttempt (db.setThread id patch) now thread attempt

theorem queues_resume (h : ∀ id, db.readTurn id = none → X id) (id : String) (patch : ThreadRow → ThreadRow)
    (attempt : NewAttempt) : Queues X db (db.resume now id patch attempt) := by
  unfold Db.resume
  dsimp only
  split
  · exact .of_jobs rfl
  · next thread _ => exact queues_startAttempt (db.setThread id patch) now h thread attempt

theorem beside_deliveredMessage (thread : ThreadRow) (attempt : NewAttempt) :
    Beside db (db.deliveredMessage now thread attempt) := by
  unfold Db.deliveredMessage
  split
  · exact ⟨rfl, rfl⟩
  · split
    · exact ⟨rfl, rfl⟩
    · split
      · exact ⟨rfl, rfl⟩
      · exact beside_resume db now _ _ _

theorem queues_deliveredMessage (h : ∀ id, db.readTurn id = none → X id) (thread : ThreadRow) (attempt : NewAttempt) :
    Queues X db (db.deliveredMessage now thread attempt) := by
  unfold Db.deliveredMessage
  split
  · exact .of_jobs rfl
  · split
    · exact .of_jobs rfl
    · split
      · exact .of_jobs rfl
      · exact queues_resume db now h _ _ _

theorem beside_settleDeviceAttempt (turnId : String) (status : Status) (resultJson errorMessage : Option String) :
    Beside db (db.settleDeviceAttempt now turnId status resultJson errorMessage) ∧
      (db.settleDeviceAttempt now turnId status resultJson errorMessage).jobs = db.jobs := by
  unfold Db.settleDeviceAttempt
  dsimp only
  repeat' split
  all_goals exact ⟨⟨rfl, rfl⟩, rfl⟩

theorem waits_cases {turn : TurnRow} {retries : Nat} {c : Prop} [Decidable c] {waits : Db}
    (h : (if c then db.waitForAvailableDevice now turn retries else none) = some waits) :
    Beside db waits ∧ (X turn.turnId → Queues X db waits) := by
  unfold Db.waitForAvailableDevice at h
  split at h
  · split at h
    · split at h
      · cases h
      · obtain rfl := Option.some.inj h
        exact ⟨⟨rfl, rfl⟩, fun hIn => queues_schedule db _ _ hIn⟩
    · cases h
  · cases h

theorem mem_dropJob {turnId : String} {runAt : Int} : ∀ j ∈ (db.dropJob turnId runAt).jobs, j ∈ db.jobs :=
  fun _ hj => (mem_filter.mp hj).1

theorem ranDispatch_leaves (runAt : Int) (job : DispatchJob) (answer : Handed) :
    Beside db (db.ranDispatch now runAt job answer) ∧
      (X job.turnId → Queues X db (db.ranDispatch now runAt job answer)) := by
  cases answer with
  | accepted dispatchId => exact ⟨⟨rfl, rfl⟩, fun _ => .then_jobs (.of_jobs rfl) (mem_dropJob (db.dropPrompt job.turnId))⟩
  | refused unavailable retryable message =>
    unfold Db.ranDispatch
    dsimp only
    split
    · exact ⟨⟨rfl, rfl⟩, fun hIn => (queues_schedule db _ { job with attempt := job.attempt + 1 } hIn).then_jobs
        (mem_dropJob _)⟩
    · exact ⟨⟨rfl, rfl⟩, fun _ => .then_jobs (.of_jobs rfl) (mem_dropJob db)⟩

theorem ranDeviceDispatch_leaves (runAt : Int) (job : DispatchJob) (turn : TurnRow) (answer : Handed) :
    Beside db (db.ranDeviceDispatch now runAt job turn answer) ∧
      (X job.turnId → X turn.turnId → Queues X db (db.ranDeviceDispatch now runAt job turn answer)) := by
  cases answer with
  | accepted dispatchId => exact ⟨⟨rfl, rfl⟩, fun _ _ => .then_jobs (.of_jobs rfl) (mem_dropJob db)⟩
  | refused unavailable retryable message =>
    unfold Db.ranDeviceDispatch
    dsimp only
    cases hWaits : (if unavailable then db.waitForAvailableDevice now turn job.availabilityRetries else none) with
    | some waits =>
      obtain ⟨hBeside, hQueues⟩ := waits_cases (X := X) db now hWaits
      exact ⟨hBeside, fun _ hIn => (hQueues hIn).then_jobs (mem_dropJob waits)⟩
    | none =>
      rw [Option.getD_none]
      split
      · exact ⟨⟨rfl, rfl⟩, fun hIn _ => (queues_schedule db _ { job with attempt := job.attempt + 1 } hIn).then_jobs
          (mem_dropJob _)⟩
      · obtain ⟨hBeside, hJobs⟩ := beside_settleDeviceAttempt (db.dropPrompt turn.turnId) now turn.turnId .failed none
          (some message)
        exact ⟨hBeside, fun _ _ => .then_jobs (.of_jobs hJobs) (mem_dropJob _)⟩

theorem deviceSettled_leaves (turnId : String) (requeue : Nat) (status : Status) (unavailable : Bool)
    (resultJson errorMessage : Option String)
    (h : ∀ id turn, db.readTurn id = some turn → turn.status.terminal = false → X id) :
    Beside db (db.deviceSettled now turnId requeue status unavailable resultJson errorMessage) ∧
      Queues X db (db.deviceSettled now turnId requeue status unavailable resultJson errorMessage) := by
  unfold Db.deviceSettled
  split
  · exact ⟨⟨rfl, rfl⟩, .of_jobs rfl⟩
  · next turn hTurn =>
    split
    · exact ⟨⟨rfl, rfl⟩, .of_jobs rfl⟩
    · next hRuns =>
      dsimp only
      cases hWaits : (if unavailable then db.waitForAvailableDevice now turn requeue else none) with
      | some waits =>
        obtain ⟨hBeside, hQueues⟩ := waits_cases (X := X) db now hWaits
        have hId : turn.turnId = turnId := Rows.lookup_key hTurn
        exact ⟨hBeside, hQueues (hId ▸ h turnId turn hTurn (Bool.eq_false_iff.mpr hRuns))⟩
      | none =>
        rw [Option.getD_none]
        obtain ⟨hBeside, hJobs⟩ := beside_settleDeviceAttempt db now turnId status resultJson errorMessage
        exact ⟨hBeside, .of_jobs hJobs⟩

theorem ownerEvent_leaves (event : AgentThreadEvent) : Beside db (db.applyAgentThreadEvent event) ∧
    (db.applyAgentThreadEvent event).jobs = db.jobs := by
  cases event with
  | turnStarted event =>
    unfold Db.applyAgentThreadEvent
    dsimp only
    split
    · exact ⟨⟨rfl, rfl⟩, rfl⟩
    · exact beside_insertTurn db _
  | turnEvent event =>
    unfold Db.applyAgentThreadEvent
    dsimp only
    repeat' split
    all_goals exact ⟨⟨rfl, rfl⟩, rfl⟩
  | threadSpawned event =>
    unfold Db.applyAgentThreadEvent
    dsimp only
    repeat' split
    all_goals exact ⟨⟨rfl, rfl⟩, rfl⟩
  | threadCompleted event =>
    unfold Db.applyAgentThreadEvent
    dsimp only
    repeat' split
    all_goals exact ⟨⟨rfl, rfl⟩, rfl⟩

end Operations

/-! ## Steps -/

def World.stops (w : World) : Input → Option ThreadRow
  | .cancelDevice _ args => w.db.readCloudDeviceThread args
  | .cancelThread _ args => (w.db.readThread args.threadId).filter (fun thread => thread.onDevice &&
      thread.ownerGeneration = some args.ownerGeneration && thread.originDeviceId = some args.originDeviceId &&
      thread.originConversationId = some args.originConversationId &&
      (!thread.status.active || (thread.attemptGeneration = args.expectedAttemptGeneration &&
        thread.updatedAt = args.expectedThreadUpdatedAt && (w.db.runningTurn thread).isSome)))
  | _ => none

def Input.isCancel : Input → Bool
  | .cancelDevice _ _ | .cancelThread _ _ => true
  | _ => false

theorem cancel_cases {w : World} {input : Input} (h : input.isCancel = true) :
    (∃ now thread, w.stops input = some thread ∧ w.step input = w.stopDeviceAttempt now thread) ∨
    (w.stops input = none ∧
      (w.step input = w ∨ ∃ thread turnId, w.step input = w.withDb (w.db.park (.cancel thread turnId)))) := by
  cases input with
  | cancelDevice now args =>
    unfold World.step World.cancelDeviceForCloud World.stops
    dsimp only
    cases hThr : w.db.readCloudDeviceThread args with
    | none => exact .inr ⟨rfl, .inl rfl⟩
    | some thread => exact .inl ⟨now, thread, rfl, rfl⟩
  | cancelThread now args =>
    unfold World.step World.cancelThread World.stops
    dsimp only
    cases hThr : w.db.readThread args.threadId with
    | none => exact .inr ⟨rfl, .inl rfl⟩
    | some thread =>
      have hNot : ∀ p : ThreadRow → Bool, p thread = false → (some thread).filter p = none := by
        intro p hp
        rw [Option.filter_some, if_neg (by rw [hp]; exact Bool.false_ne_true)]
      dsimp only
      split
      · next hOwner =>
        refine .inr ⟨hNot _ ?_, .inl rfl⟩
        obtain hOther | hOther | hOther := hOwner <;> simp [hOther]
      · next hOwner =>
        simp only [not_or, not_not] at hOwner
        split
        · next hIdle =>
          split
          · next hDevice =>
            refine .inl ⟨now, thread, ?_, ?_⟩
            · refine Option.filter_eq_some_iff.mpr ⟨rfl, ?_⟩
              simp [hDevice, hOwner, hIdle]
            · unfold World.stopDeviceAttempt
              have hOff : ¬ thread.status.active = true := by simpa using hIdle
              rw [if_neg hOff]
          · next hDevice => exact .inr ⟨hNot _ (by simp [hDevice]), .inl rfl⟩
        · next hAct =>
          split
          · next hExpected =>
            refine .inr ⟨hNot _ ?_, .inl rfl⟩
            obtain hOther | hOther := hExpected <;> simp [hOther, hAct]
          · next hExpected =>
            simp only [not_or, not_not] at hExpected
            split
            · next hTurn => exact .inr ⟨hNot _ (by simp [hAct, hTurn]), .inl rfl⟩
            · next turn hTurn =>
              split
              · next hDevice =>
                refine .inl ⟨now, thread, Option.filter_eq_some_iff.mpr ⟨rfl, ?_⟩, rfl⟩
                simp [hDevice, hOwner, hExpected, hTurn]
              · next hDevice =>
                exact .inr ⟨hNot _ (by simp [hDevice]), .inr ⟨thread, turn.turnId, rfl⟩⟩
  | spawnOnDevice now args => cases h
  | spawnFromDesktop now args => cases h
  | continueFromDesktop now args => cases h
  | continueDevice args description clientMsgId fingerprint => cases h
  | message target ownerGeneration messageId => cases h
  | acknowledge now args => cases h
  | startComputer now args => cases h
  | completeComputer now args failed resultJson errorMessage => cases h
  | cancelComputer now args reason => cases h
  | ownerEvent event => cases h
  | deviceSettled now turnId requeue status unavailable resultJson errorMessage => cases h
  | runJob i => cases h
  | gateAdmits i dispatchId => cases h
  | gateEnds dispatchId => cases h
  | proceed i now turnId answer => cases h
  | lose i => cases h

def Task.dispatches (id : String) : Task → Bool
  | .dispatch _ job => job.turnId = id
  | .deviceDispatch _ job turn => job.turnId = id || turn.turnId = id
  | _ => false

def Db.running (db : Db) (id : String) : Prop := ∃ turn, db.readTurn id = some turn ∧ turn.status.terminal = false

def World.mayQueue (w : World) (id : String) : Prop :=
  w.db.readTurn id = none ∨ w.db.running id ∨ ∃ task ∈ w.db.tasks, task.dispatches id = true

def World.parks (w : World) (input : Input) : Task → Prop
  | .continueDevice thread _ _ _ => ∃ args, w.db.readCloudDeviceThread args = some thread
  | .dispatch _ job => w.db.running job.turnId
  | .deviceDispatch _ job turn => turn.turnId = job.turnId ∧ w.db.running job.turnId
  | .stop turnIds dispatchId => ∃ thread turn, w.stops input = some thread ∧ w.db.runningTurn thread = some turn ∧
      thread.status.active = true ∧ turn.dispatchId.filter (· ≠ "") = some dispatchId ∧
      turnIds = w.db.attemptTurns thread
  | _ => True

structure Leaves (w : World) (input : Input) : Prop where
  tasks : ∀ task ∈ (w.step input).db.tasks, task ∈ w.db.tasks ∨ w.parks input task
  acknowledged : ∀ told ∈ w.db.acknowledged, told ∈ (w.step input).db.acknowledged
  jobs : Queues w.mayQueue w.db (w.step input).db

section Steps

variable (w : World)

variable {input : Input}

theorem Leaves.of_beside (hBeside : Beside w.db (w.step input).db)
    (hQueues : Queues w.mayQueue w.db (w.step input).db) : Leaves w input := by
  refine ⟨fun task hTask => .inl ?_, fun told hTold => ?_, hQueues⟩
  · exact hBeside.1 ▸ hTask
  · rw [hBeside.2]
    exact hTold

theorem Leaves.of_park {task : Task} (hStep : (w.step input).db = w.db.park task)
    (h : w.parks input task) : Leaves w input := by
  refine ⟨fun other hOther => ?_, fun told hTold => ?_, Queues.of_jobs (by rw [hStep]; rfl)⟩
  · rw [hStep] at hOther
    obtain hOld | hNew := mem_append.mp hOther
    · exact .inl hOld
    · rw [mem_singleton.mp hNew]
      exact .inr h
  · rw [hStep]
    exact hTold

theorem Leaves.of_same (hStep : (w.step input).db = w.db) : Leaves w input :=
  .of_beside w (by rw [hStep]; exact ⟨rfl, rfl⟩) (by rw [hStep]; exact .of_jobs rfl)

theorem leaves_stopDeviceAttempt {now : Int} {thread : ThreadRow} (hStops : w.stops input = some thread)
    (hStep : w.step input = w.stopDeviceAttempt now thread) : Leaves w input := by
  have hDb : (w.step input).db = (w.stopDeviceAttempt now thread).db := by rw [hStep]
  unfold World.stopDeviceAttempt at hDb
  split at hDb
  · exact .of_same w hDb
  · next turn hTurn =>
    have hFound : thread.status.active = true ∧ w.db.runningTurn thread = some turn := by
      split at hTurn
      · next hAct => exact ⟨hAct, hTurn⟩
      · cases hTurn
    have hJobs : ∀ j ∈ (w.db.stopTurn now thread turn).jobs, j ∈ w.db.jobs := fun j hj => (mem_filter.mp hj).1
    split at hDb
    · refine .of_beside w (by rw [hDb]; exact ⟨rfl, rfl⟩) ?_
      rw [hDb]
      exact .then_jobs (.of_jobs rfl) hJobs
    · next dispatchId hDispatch =>
      refine ⟨fun task hTask => ?_, fun told hTold => by rw [hDb]; exact hTold, ?_⟩
      · rw [hDb] at hTask
        obtain hOld | hNew := mem_append.mp hTask
        · exact .inl hOld
        · rw [mem_singleton.mp hNew]
          exact .inr ⟨thread, turn, hStops, hFound.2, hFound.1, hDispatch, rfl⟩
      · rw [hDb]
        exact .then_jobs (.of_jobs rfl) hJobs

theorem Leaves.of_dropTask (i : Nat) {db : Db} (hStep : (w.step input).db = db)
    (hBeside : Beside (w.dropTask i).db db) (hQueues : Queues w.mayQueue (w.dropTask i).db db) : Leaves w input := by
  refine ⟨fun task hTask => .inl ?_, fun told hTold => ?_, ?_⟩
  · rw [hStep, hBeside.1] at hTask
    exact mem_of_mem_eraseIdx hTask
  · rw [hStep, hBeside.2]
    exact hTold
  · rw [hStep]
    exact hQueues

theorem leaves_proceed (i : Nat) (now : Int) (turnId : String) (answer : Handed) :
    Leaves w (.proceed i now turnId answer) := by
  have hStep : (w.step (.proceed i now turnId answer)).db = (w.proceed i now turnId answer).db := rfl
  unfold World.proceed at hStep
  have hNew : ∀ id, (w.dropTask i).db.readTurn id = none → w.mayQueue id := fun id hNone => .inl hNone
  split at hStep
  · exact .of_same w hStep
  · next task hTask =>
    have hIn : task ∈ w.db.tasks := mem_of_getElem? hTask
    cases task with
    | continueDevice thread clientMsgId fingerprint description =>
      exact .of_dropTask w i hStep (beside_resume (w.dropTask i).db now _ _ _) (queues_resume (w.dropTask i).db now hNew _ _ _)
    | message thread messageId =>
      exact .of_dropTask w i hStep (beside_deliveredMessage (w.dropTask i).db now thread _)
        (queues_deliveredMessage (w.dropTask i).db now hNew thread _)
    | cancel thread stopTurnId =>
      refine .of_dropTask w i hStep ⟨rfl, rfl⟩ (.then_jobs (.of_jobs rfl) fun j hj => ?_)
      exact (mem_filter.mp hj).1
    | stop turnIds dispatchId => exact .of_dropTask w i hStep ⟨rfl, rfl⟩ (.of_jobs rfl)
    | dispatch runAt job =>
      obtain ⟨hBeside, hQueues⟩ := ranDispatch_leaves (X := w.mayQueue) (w.dropTask i).db now runAt job answer
      exact .of_dropTask w i hStep hBeside (hQueues (.inr (.inr ⟨_, hIn, decide_eq_true rfl⟩)))
    | deviceDispatch runAt job turn =>
      unfold World.proceedTask at hStep
      dsimp only at hStep
      split at hStep
      · obtain ⟨hBeside, hQueues⟩ := ranDeviceDispatch_leaves (X := w.mayQueue) (w.dropTask i).db now runAt job turn answer
        refine .of_dropTask w i hStep hBeside (hQueues ?_ ?_)
        · exact .inr (.inr ⟨_, hIn, by simp [Task.dispatches]⟩)
        · exact .inr (.inr ⟨_, hIn, by simp [Task.dispatches]⟩)
      · exact .of_dropTask w i hStep ⟨rfl, rfl⟩ (.of_jobs rfl)

theorem leaves_runJob (i : Nat) : Leaves w (.runJob i) := by
  have hStep : (w.step (.runJob i)).db = (w.runJob i).db := rfl
  unfold World.runJob at hStep
  split at hStep
  · exact .of_same w hStep
  · next runAt job hJob =>
    have hDrop : (w.step (.runJob i)).db = w.db.dropJob job.turnId runAt → Leaves w (.runJob i) := by
      intro hDb
      refine .of_beside w (by rw [hDb]; exact ⟨rfl, rfl⟩) ?_
      rw [hDb]
      exact .then_jobs (.of_jobs rfl) (mem_dropJob w.db)
    have hDb : (w.step (.runJob i)).db = w.db.runDispatch runAt job := hStep
    unfold Db.runDispatch at hDb
    split at hDb
    · next thread turn hThr hTurn =>
      split at hDb
      · exact hDrop hDb
      · next hRuns =>
        simp only [not_or, not_not] at hRuns
        have hRunning : w.db.running job.turnId := ⟨turn, hTurn, by rw [hRuns.2.2]; rfl⟩
        split at hDb
        · exact .of_park w hDb ⟨Rows.lookup_key hTurn, hRunning⟩
        · exact .of_park w hDb hRunning
    · exact hDrop hDb

theorem leaves_step (input : Input) : Leaves w input := by
  have hNew : ∀ id, w.db.readTurn id = none → w.mayQueue id := fun id hNone => .inl hNone
  cases hCancel : input.isCancel with
  | true =>
    obtain ⟨now, thread, hStops, hStep⟩ | ⟨-, hEq | ⟨thread, turnId, hPark⟩⟩ := cancel_cases (w := w) hCancel
    · exact leaves_stopDeviceAttempt w hStops hStep
    · exact .of_same w (by rw [hEq])
    · have hDb : (w.step input).db = w.db.park (.cancel thread turnId) := by rw [hPark]; rfl
      exact .of_park w hDb trivial
  | false =>
    cases input with
    | spawnOnDevice now args => exact .of_beside w (beside_spawn _ _ _ _) (queues_spawn _ _ hNew _ _)
    | spawnFromDesktop now args => exact .of_beside w (beside_spawn _ _ _ _) (queues_spawn _ _ hNew _ _)
    | continueFromDesktop now args =>
      have hDb : (w.step (.continueFromDesktop now args)).db = w.db.continueFromDesktop now args := rfl
      unfold Db.continueFromDesktop at hDb
      split at hDb
      · exact .of_same w hDb
      · split at hDb
        · exact .of_same w hDb
        · split at hDb
          · exact .of_same w hDb
          · split at hDb
            · exact .of_same w hDb
            · refine .of_beside w ?_ ?_
              · rw [hDb]
                exact beside_resume _ _ _ _ _
              · rw [hDb]
                exact queues_resume _ _ hNew _ _ _
    | continueDevice args description clientMsgId fingerprint =>
      have hDb : (w.step (.continueDevice args description clientMsgId fingerprint)).db =
        w.db.continueDeviceForCloud args description clientMsgId fingerprint := rfl
      unfold Db.continueDeviceForCloud at hDb
      split at hDb
      · exact .of_same w hDb
      · next thread hThr =>
        split at hDb
        · exact .of_same w hDb
        · exact .of_park w hDb ⟨args, hThr⟩
    | message target ownerGeneration messageId =>
      have hDb : (w.step (.message target ownerGeneration messageId)).db =
        w.db.deliverAgentMessage target ownerGeneration messageId := rfl
      unfold Db.deliverAgentMessage at hDb
      repeat' split at hDb
      all_goals first | exact .of_same w hDb | exact .of_park w hDb trivial
    | cancelDevice now args => cases hCancel
    | cancelThread now args => cases hCancel
    | acknowledge now args =>
      have hDb : (w.step (.acknowledge now args)).db = w.db.acknowledgeDelivery now args := rfl
      unfold Db.acknowledgeDelivery at hDb
      dsimp only at hDb
      repeat' split at hDb
      all_goals first
        | exact .of_same w hDb
        | exact ⟨fun task hTask => .inl (by rw [hDb] at hTask; exact hTask),
            fun told hTold => by rw [hDb]; exact mem_append_left _ hTold, .of_jobs (by rw [hDb]; rfl)⟩
    | startComputer now args =>
      have hDb : (w.step (.startComputer now args)).db = w.db.startComputerThread now args := rfl
      unfold Db.startComputerThread at hDb
      repeat' split at hDb
      all_goals exact .of_beside w (by rw [hDb]; exact ⟨rfl, rfl⟩) (by rw [hDb]; exact .of_jobs rfl)
    | completeComputer now args failed resultJson errorMessage =>
      have hDb : (w.step (.completeComputer now args failed resultJson errorMessage)).db =
        w.db.completeComputerThread now args failed resultJson errorMessage := rfl
      unfold Db.completeComputerThread Db.endComputerThread at hDb
      repeat' split at hDb
      all_goals exact .of_beside w (by rw [hDb]; exact ⟨rfl, rfl⟩) (by rw [hDb]; exact .of_jobs rfl)
    | cancelComputer now args reason =>
      have hDb : (w.step (.cancelComputer now args reason)).db = w.db.cancelComputerThread now args reason := rfl
      unfold Db.cancelComputerThread Db.endComputerThread at hDb
      repeat' split at hDb
      all_goals exact .of_beside w (by rw [hDb]; exact ⟨rfl, rfl⟩) (by rw [hDb]; exact .of_jobs rfl)
    | ownerEvent event =>
      obtain ⟨hBeside, hJobs⟩ := ownerEvent_leaves w.db event
      exact .of_beside w hBeside (.of_jobs hJobs)
    | deviceSettled now turnId requeue status unavailable resultJson errorMessage =>
      obtain ⟨hBeside, hQueues⟩ := deviceSettled_leaves (X := w.mayQueue) w.db now turnId requeue status unavailable
        resultJson errorMessage (fun id turn hTurn hRuns => .inr (.inl ⟨turn, hTurn, hRuns⟩))
      exact .of_beside w hBeside hQueues
    | runJob i => exact leaves_runJob w i
    | gateAdmits i dispatchId =>
      have hEq : (w.gateAdmits i dispatchId).db = w.db := by
        unfold World.gateAdmits
        repeat' split
        all_goals rfl
      exact .of_same w hEq
    | gateEnds dispatchId => exact .of_same w rfl
    | proceed i now turnId answer => exact leaves_proceed w i now turnId answer
    | lose i => exact .of_dropTask w i rfl ⟨rfl, rfl⟩ (.of_jobs rfl)

end Steps

end Stella.AgentThreads
