import Stella.AgentThreads.Machine

/-! # What a step does to a thread and to a turn

Every step keeps a thread's row or moves it in one of a few ways, and so a
turn's; the results about runs follow from these moves.
-/

namespace Stella.AgentThreads

inductive RowMove (w : World) (input : Input) (row next : ThreadRow) : Prop
  | keeps (status : next.status = row.status) (generation : next.attemptGeneration = row.attemptGeneration)
      (updated : next.updatedAt = row.updatedAt) (ack : next.originDeliveryAckAt = row.originDeliveryAckAt)
  | restarts (generation : row.attemptGeneration < next.attemptGeneration) (status : next.status = .running)
      (ack : next.originDeliveryAckAt = none)
  | ends (active : row.status.active = true) (generation : next.attemptGeneration = row.attemptGeneration)
      (ack : next.originDeliveryAckAt = row.originDeliveryAckAt ∨ next.originDeliveryAckAt = none)
  | acks (waits : row.status.terminal = true ∨ row.status = .waitingForUser) (status : next.status = row.status)
      (generation : next.attemptGeneration = row.attemptGeneration) (updated : next.updatedAt = row.updatedAt)
      (told : (row.threadId, row.attemptGeneration, row.updatedAt) ∈ (w.step input).db.acknowledged)
  | reports (event : ThreadCompleted) (isEvent : input = .ownerEvent (.threadCompleted event))
      (about : event.threadId = row.threadId) (fresh : Db.stale row event = false) (status : next.status = event.status)
      (generation : next.attemptGeneration = event.attemptGeneration)
      (ack : next.originDeliveryAckAt = row.originDeliveryAckAt)
  | continues (i : Nat) (now : Int) (turnId : String) (answer : Handed) (thread : ThreadRow)
      (clientMsgId fingerprint description : String) (isProceed : input = .proceed i now turnId answer)
      (task : w.db.tasks[i]? = some (.continueDevice thread clientMsgId fingerprint description))
      (about : thread.threadId = row.threadId) (status : next.status = .running)
      (generation : next.attemptGeneration = thread.attemptGeneration + 1)
      (ack : next.originDeliveryAckAt = row.originDeliveryAckAt)

theorem RowMove.refl (w : World) (input : Input) (row : ThreadRow) : RowMove w input row row :=
  .keeps rfl rfl rfl rfl

def Founds (db db' : Db) : Prop :=
  ∀ t next, db.readThread t = none → db'.readThread t = some next →
    next.status = .running ∧ next.originDeliveryAckAt = none

/-- Each row of `db` is kept in `db'`, of the same device, with `P` from the old to the new. -/
def Moves (P : ThreadRow → ThreadRow → Prop) (db db' : Db) : Prop :=
  Rows.Kept ThreadRow.threadId (fun row next => next.originDeviceId = row.originDeviceId ∧ P row next)
    db.threads db'.threads ∧ Founds db db'

section Rules

variable {P : ThreadRow → ThreadRow → Prop} {db db' db'' : Db}

theorem readThread_of_threads (h : db'.threads = db.threads) (t : String) : db'.readThread t = db.readThread t := by
  unfold Db.readThread
  rw [h]

theorem Moves.kept (h : Moves P db db') : Rows.Kept ThreadRow.threadId
    (fun row next => next.originDeviceId = row.originDeviceId ∧ P row next) db.threads db'.threads := h.1

theorem Moves.founds (h : Moves P db db') : Founds db db' := h.2

variable {added : ThreadRow}

theorem Founds.append (hRuns : added.status = .running) (hAck : added.originDeliveryAckAt = none) :
    Founds db { db with threads := db.threads ++ [added] } := by
  intro t next hNone hNext
  have hApp : (db.readThread t).or (Rows.lookup ThreadRow.threadId [added] t) = some next :=
    (Rows.lookup_append _ _ _).symm.trans hNext
  rw [hNone, Option.none_or] at hApp
  have hIs := Rows.lookup_mem hApp
  rw [List.mem_singleton.mp hIs]
  exact ⟨hRuns, hAck⟩

theorem Moves.of_threads (hRefl : ∀ row, P row row) (h : db'.threads = db.threads) : Moves P db db' := by
  constructor
  · rw [h]
    exact Rows.Kept.refl (fun row => ⟨rfl, hRefl row⟩) _
  · intro t next hNone hNext
    rw [readThread_of_threads h t, hNone] at hNext
    cases hNext

theorem Moves.then_threads (hMoves : Moves P db db') (h : db''.threads = db'.threads) : Moves P db db'' := by
  constructor
  · rw [h]
    exact hMoves.kept
  · intro t next hNone hNext
    exact hMoves.founds t next hNone ((readThread_of_threads h t).symm.trans hNext)

theorem Moves.setThread (hRefl : ∀ row, P row row) {id : String} {patch : ThreadRow → ThreadRow}
    (hKey : ∀ row, (patch row).threadId = row.threadId) (hOrig : ∀ row, (patch row).originDeviceId = row.originDeviceId)
    (h : ∀ row, db.readThread id = some row → P row (patch row)) : Moves P db (db.setThread id patch) := by
  constructor
  · exact Rows.Kept.modify (fun row => ⟨rfl, hRefl row⟩) hKey (fun row hRow => ⟨hOrig row, h row hRow⟩)
  · intro t next hNone hNext
    rw [readThread_setThread patch hKey, hNone] at hNext
    cases hNext

theorem Moves.append (hRefl : ∀ row, P row row) (hRuns : added.status = .running)
    (hAck : added.originDeliveryAckAt = none) : Moves P db { db with threads := db.threads ++ [added] } :=
  ⟨Rows.Kept.append (fun row => ⟨rfl, hRefl row⟩) _ _, Founds.append hRuns hAck⟩

end Rules

/-! ## Parts that leave the threads -/

@[simp] theorem threads_startAttempt (db : Db) (now : Int) (thread : ThreadRow) (attempt : NewAttempt) :
    (db.startAttempt now thread attempt).threads = db.threads := by
  unfold Db.startAttempt
  split <;> rfl

@[simp] theorem threads_insertTurn (db : Db) (row : TurnRow) : (db.insertTurn row).threads = db.threads := by
  unfold Db.insertTurn
  split <;> rfl

theorem threads_waitForAvailableDevice {db db' : Db} {now : Int} {turn : TurnRow} {retries : Nat}
    (h : db.waitForAvailableDevice now turn retries = some db') : db'.threads = db.threads := by
  unfold Db.waitForAvailableDevice at h
  split at h
  · split at h
    · cases h
    · obtain rfl := Option.some.inj h
      rfl
  · cases h

theorem threads_resume (db : Db) (now : Int) (id : String) (patch : ThreadRow → ThreadRow) (attempt : NewAttempt) :
    (db.resume now id patch attempt).threads = (db.setThread id patch).threads := by
  unfold Db.resume
  dsimp only
  split
  · rfl
  · exact threads_startAttempt _ _ _ _

/-! ## Operations -/

structure Allows (P : ThreadRow → ThreadRow → Prop) : Prop where
  refl : ∀ row, P row row
  restarts : ∀ row next : ThreadRow, row.attemptGeneration < next.attemptGeneration → next.status = .running →
    next.originDeliveryAckAt = none → P row next
  ends : ∀ row next : ThreadRow, row.status.active = true → next.attemptGeneration = row.attemptGeneration →
    next.originDeliveryAckAt = row.originDeliveryAckAt ∨ next.originDeliveryAckAt = none → P row next

theorem allows_rowMove (w : World) (input : Input) : Allows (RowMove w input) :=
  ⟨RowMove.refl w input, fun _ _ => .restarts, fun _ _ => .ends⟩

section Operations

variable {P : ThreadRow → ThreadRow → Prop} (hAllows : Allows P) (db : Db) (now : Int)

include hAllows

theorem moves_spawn {row : ThreadRow} (hRuns : row.status = .running) (hAck : row.originDeliveryAckAt = none)
    (attempt : NewAttempt) : Moves P db (db.spawn now row attempt) := by
  unfold Db.spawn
  split
  · exact .of_threads hAllows.refl rfl
  · exact Moves.then_threads (.append hAllows.refl hRuns hAck) (threads_startAttempt _ _ _ _)

variable {patch : ThreadRow → ThreadRow}

theorem moves_resume {id : String} (attempt : NewAttempt)
    (hKey : ∀ row, (patch row).threadId = row.threadId) (hOrig : ∀ row, (patch row).originDeviceId = row.originDeviceId)
    (h : ∀ row, db.readThread id = some row → P row (patch row)) : Moves P db (db.resume now id patch attempt) :=
  Moves.then_threads (.setThread hAllows.refl hKey hOrig h) (threads_resume _ _ _ _ _)

theorem moves_continueFromDesktop (args : ContinueFromDesktop) : Moves P db (db.continueFromDesktop now args) := by
  unfold Db.continueFromDesktop
  split
  · exact .of_threads hAllows.refl rfl
  · next thread hThr =>
    split
    · exact .of_threads hAllows.refl rfl
    · split
      · exact .of_threads hAllows.refl rfl
      · split
        · exact .of_threads hAllows.refl rfl
        · refine moves_resume hAllows db now args.attempt (fun _ => rfl) (fun _ => rfl) (fun row hRow => ?_)
          obtain rfl := Option.some.inj (hThr.symm.trans hRow)
          exact hAllows.restarts _ _ (Int.lt_succ _) rfl rfl

theorem moves_deliveredMessage (thread : ThreadRow) (attempt : NewAttempt) :
    Moves P db (db.deliveredMessage now thread attempt) := by
  unfold Db.deliveredMessage
  split
  · exact .of_threads hAllows.refl rfl
  · split
    · exact .of_threads hAllows.refl rfl
    · next current hCur =>
      split
      · exact .of_threads hAllows.refl rfl
      · refine moves_resume hAllows db now attempt (fun _ => rfl) (fun _ => rfl) (fun row hRow => ?_)
        obtain rfl := Option.some.inj (hCur.symm.trans hRow)
        exact hAllows.restarts _ _ (Int.lt_succ _) rfl rfl

theorem pausedPatch_moves (generation : Int) (row : ThreadRow) : P row (pausedPatch now generation row) := by
  unfold pausedPatch
  split
  · next hRuns => exact hAllows.ends _ _ hRuns.2 rfl (.inl rfl)
  · exact hAllows.refl row

theorem failedPatch_moves (generation : Int) (message : String) (row : ThreadRow) :
    P row (failedPatch now generation message row) := by
  unfold failedPatch
  split
  · next hRuns =>
    have hAct : row.status.active = true := by rw [hRuns.2]; rfl
    exact hAllows.ends _ _ hAct rfl (.inl rfl)
  · exact hAllows.refl row

theorem moves_pause (thread : ThreadRow) (turnId : String) : Moves P db (db.pause now thread turnId) := by
  have hSet : Moves P (db.setTurn turnId (turnStatusPatch now .canceled)) (db.pause now thread turnId) := by
    refine .setThread hAllows.refl (fun row => ?_) (fun row => ?_) (fun row _ => ?_)
    · unfold pausedPatch
      split <;> rfl
    · unfold pausedPatch
      split <;> rfl
    · exact pausedPatch_moves hAllows now thread.attemptGeneration row
  exact hSet

theorem moves_failAttempt (job : DispatchJob) (message : String) : Moves P db (db.failAttempt now job message) := by
  have hSet : Moves P (db.setTurn job.turnId (turnFailedPatch now)) (db.failAttempt now job message) := by
    refine .setThread hAllows.refl (fun row => ?_) (fun row => ?_) (fun row _ => ?_)
    · unfold failedPatch
      split <;> rfl
    · unfold failedPatch
      split <;> rfl
    · exact failedPatch_moves hAllows now job.attemptGeneration message row
  exact hSet

theorem moves_startComputerThread (args : StartComputer) : Moves P db (db.startComputerThread now args) := by
  unfold Db.startComputerThread
  split
  · next existing hExist =>
    split
    · exact .of_threads hAllows.refl rfl
    · split
      · exact .of_threads hAllows.refl rfl
      · next hNewer =>
        refine .setThread hAllows.refl (fun _ => rfl) (fun _ => rfl) (fun row hRow => ?_)
        obtain rfl := Option.some.inj (hExist.symm.trans hRow)
        exact hAllows.restarts _ _ (Int.not_le.mp hNewer) rfl rfl
  · split
    · exact .of_threads hAllows.refl rfl
    · exact .append hAllows.refl rfl rfl

theorem moves_endComputerThread (args : ComputerAttempt)
    (hKey : ∀ row, (patch row).threadId = row.threadId) (hOrig : ∀ row, (patch row).originDeviceId = row.originDeviceId)
    (hEq : ∀ row, (patch row).attemptGeneration = row.attemptGeneration)
    (hAck : ∀ row, (patch row).originDeliveryAckAt = row.originDeliveryAckAt) :
    Moves P db (db.endComputerThread args patch) := by
  unfold Db.endComputerThread
  split
  · exact .of_threads hAllows.refl rfl
  · next row hRow =>
    split
    · exact .of_threads hAllows.refl rfl
    · next hRuns =>
      have hRead : db.readThread args.threadId = some row := (Option.filter_eq_some_iff.mp hRow).1
      have hId : row.threadId = args.threadId := Rows.lookup_key hRead
      refine .setThread hAllows.refl hKey hOrig (fun stored hStored => ?_)
      rw [hId, hRead] at hStored
      obtain rfl := Option.some.inj hStored
      have hAct : row.status.active = true := by
        rw [not_not.mp (not_or.mp hRuns).2]
        rfl
      exact hAllows.ends _ _ hAct (hEq row) (.inl (hAck row))

theorem moves_settleDeviceAttempt (turnId : String) (status : Status) (resultJson errorMessage : Option String) :
    Moves P db (db.settleDeviceAttempt now turnId status resultJson errorMessage) := by
  unfold Db.settleDeviceAttempt
  split
  · exact .of_threads hAllows.refl rfl
  · split
    · exact .of_threads hAllows.refl rfl
    · split
      · exact .of_threads hAllows.refl rfl
      · dsimp only
        split
        · exact .of_threads hAllows.refl rfl
        · next thread hThr =>
          split
          · exact .of_threads hAllows.refl rfl
          · next hRuns =>
            have hRead : db.readThread _ = some thread := hThr
            have hId := Rows.lookup_key hRead
            have hSet : Moves P ((db.setTurn turnId (turnStatusPatch now status)).dropPrompt turnId)
                (Db.setThread ((db.setTurn turnId (turnStatusPatch now status)).dropPrompt turnId) thread.threadId
                  (settledPatch now status resultJson errorMessage)) := by
              refine .setThread hAllows.refl (fun _ => rfl) (fun _ => rfl) (fun row hRow => ?_)
              have hStored : db.readThread thread.threadId = some row := hRow
              rw [hId, hRead] at hStored
              obtain rfl := Option.some.inj hStored
              have hAct : thread.status.active = true := by
                simpa using (not_or.mp (not_or.mp hRuns).2).2
              exact hAllows.ends _ _ hAct rfl (.inr rfl)
            exact hSet

theorem moves_ranDispatch (runAt : Int) (job : DispatchJob) (answer : Handed) :
    Moves P db (db.ranDispatch now runAt job answer) := by
  cases answer with
  | accepted dispatchId => exact .of_threads hAllows.refl rfl
  | refused unavailable retryable message =>
    unfold Db.ranDispatch
    dsimp only
    split
    · exact .of_threads hAllows.refl rfl
    · exact moves_failAttempt hAllows db now job message

theorem moves_ranDeviceDispatch (runAt : Int) (job : DispatchJob) (turn : TurnRow) (answer : Handed) :
    Moves P db (db.ranDeviceDispatch now runAt job turn answer) := by
  cases answer with
  | accepted dispatchId => exact .of_threads hAllows.refl rfl
  | refused unavailable retryable message =>
    unfold Db.ranDeviceDispatch
    dsimp only
    cases hWaits : (if unavailable then db.waitForAvailableDevice now turn job.availabilityRetries else none) with
    | some waits =>
      split at hWaits
      · have hEq : waits.threads = db.threads := threads_waitForAvailableDevice hWaits
        exact .of_threads hAllows.refl hEq
      · cases hWaits
    | none =>
      rw [Option.getD_none]
      split
      · exact .of_threads hAllows.refl rfl
      · exact moves_settleDeviceAttempt hAllows (db.dropPrompt turn.turnId) now turn.turnId .failed none (some message)

theorem moves_deviceSettled (turnId : String) (requeue : Nat) (status : Status) (unavailable : Bool)
    (resultJson errorMessage : Option String) :
    Moves P db (db.deviceSettled now turnId requeue status unavailable resultJson errorMessage) := by
  unfold Db.deviceSettled
  split
  · exact .of_threads hAllows.refl rfl
  · next turn hTurn =>
    split
    · exact .of_threads hAllows.refl rfl
    · dsimp only
      cases hWaits : (if unavailable then db.waitForAvailableDevice now turn requeue else none) with
      | some waits =>
        split at hWaits
        · exact .of_threads hAllows.refl (threads_waitForAvailableDevice hWaits)
        · cases hWaits
      | none =>
        rw [Option.getD_none]
        exact moves_settleDeviceAttempt hAllows db now turnId status resultJson errorMessage

end Operations

/-! ## Steps -/

section Steps

variable (w : World) (input : Input)

theorem moves_acknowledge (now : Int) (args : AcknowledgeDelivery) :
    Moves (RowMove w (.acknowledge now args)) w.db (w.db.acknowledgeDelivery now args) := by
  have hStep : (w.step (.acknowledge now args)).db = w.db.acknowledgeDelivery now args := rfl
  have hRefl := RowMove.refl w (.acknowledge now args)
  generalize hAll : w.db.acknowledgeDelivery now args = after at hStep ⊢
  unfold Db.acknowledgeDelivery at hAll
  split at hAll
  · exact .of_threads hRefl (by rw [← hAll])
  · next thread hThr =>
    split at hAll
    · exact .of_threads hRefl (by rw [← hAll])
    · split at hAll
      · exact .of_threads hRefl (by rw [← hAll])
      · split at hAll
        · exact .of_threads hRefl (by rw [← hAll])
        · next hWaits =>
          split at hAll
          · exact .of_threads hRefl (by rw [← hAll])
          · have hSet : Moves (RowMove w (.acknowledge now args)) w.db
                (w.db.setThread args.threadId (fun row => { row with originDeliveryAckAt := some now })) := by
              refine .setThread hRefl (fun _ => rfl) (fun _ => rfl) (fun row hRow => ?_)
              obtain rfl := Option.some.inj (hThr.symm.trans hRow)
              refine .acks ?_ rfl rfl rfl ?_
              · cases hStat : thread.status <;> simp_all [Status.terminal]
              · rw [hStep, ← hAll]
                exact List.mem_append_right _ List.mem_cons_self
            exact hSet.then_threads (by rw [← hAll])

theorem moves_ownerEvent (event : AgentThreadEvent) :
    Moves (RowMove w (.ownerEvent event)) w.db (w.db.applyAgentThreadEvent event) := by
  have hAllows := allows_rowMove w (.ownerEvent event)
  cases event with
  | turnStarted event =>
    unfold Db.applyAgentThreadEvent
    dsimp only
    split
    · exact .of_threads hAllows.refl rfl
    · exact .of_threads hAllows.refl (threads_insertTurn _ _)
  | turnEvent event =>
    unfold Db.applyAgentThreadEvent
    dsimp only
    repeat' split
    all_goals exact .of_threads hAllows.refl rfl
  | threadSpawned event =>
    unfold Db.applyAgentThreadEvent
    dsimp only
    split
    · exact .append hAllows.refl rfl rfl
    · next thread hThr =>
      split
      · split
        · refine .setThread hAllows.refl (fun _ => rfl) (fun _ => rfl) (fun row _ => ?_)
          exact .keeps rfl rfl rfl rfl
        · exact .of_threads hAllows.refl rfl
      · next hNewer =>
        refine .setThread hAllows.refl (fun _ => rfl) (fun _ => rfl) (fun row hRow => ?_)
        obtain rfl := Option.some.inj (hThr.symm.trans hRow)
        exact hAllows.restarts _ _ (Int.not_le.mp hNewer) rfl rfl
  | threadCompleted event =>
    unfold Db.applyAgentThreadEvent
    dsimp only
    split
    · exact .of_threads hAllows.refl rfl
    · next thread hThr =>
      split
      · exact .of_threads hAllows.refl rfl
      · next hFresh =>
        refine .setThread hAllows.refl (fun _ => rfl) (fun _ => rfl) (fun row hRow => ?_)
        obtain rfl := Option.some.inj (hThr.symm.trans hRow)
        exact .reports event rfl (Rows.lookup_key hThr).symm (Bool.eq_false_iff.mpr hFresh) rfl rfl rfl

theorem moves_stopDeviceAttempt {P : ThreadRow → ThreadRow → Prop} (hAllows : Allows P) (now : Int) (thread : ThreadRow) :
    Moves P w.db (w.stopDeviceAttempt now thread).db := by
  unfold World.stopDeviceAttempt
  split
  · exact .of_threads hAllows.refl rfl
  · next turn _ =>
    have hPause : Moves P w.db (w.db.stopTurn now thread turn) :=
      moves_pause hAllows ((w.db.cancelJob turn.turnId).dropPrompt turn.turnId) now thread turn.turnId
    split
    · exact hPause
    · exact hPause.then_threads rfl

theorem moves_proceed (i : Nat) (now : Int) (turnId : String) (answer : Handed) :
    Moves (RowMove w (.proceed i now turnId answer)) w.db (w.proceed i now turnId answer).db := by
  have hAllows := allows_rowMove w (.proceed i now turnId answer)
  unfold World.proceed
  split
  · exact .of_threads hAllows.refl rfl
  · next task hTask =>
    cases task with
    | continueDevice thread clientMsgId fingerprint description =>
      have hResume : Moves (RowMove w (.proceed i now turnId answer)) (w.dropTask i).db
          ((w.dropTask i).db.continuedDevice now thread description ⟨turnId, clientMsgId, fingerprint⟩) := by
        refine moves_resume hAllows (w.dropTask i).db now _ (fun _ => rfl) (fun _ => rfl) (fun row hRow => ?_)
        exact .continues i now turnId answer thread clientMsgId fingerprint description rfl hTask
          (Rows.lookup_key hRow).symm rfl rfl rfl
      exact hResume
    | message thread messageId => exact moves_deliveredMessage hAllows (w.dropTask i).db now thread _
    | cancel thread stopTurnId =>
      have hPause := moves_pause hAllows (w.dropTask i).db now thread stopTurnId
      exact hPause.then_threads rfl
    | stop turnIds dispatchId => exact .of_threads hAllows.refl rfl
    | dispatch runAt job => exact moves_ranDispatch hAllows (w.dropTask i).db now runAt job answer
    | deviceDispatch runAt job turn =>
      unfold World.proceedTask
      dsimp only
      split
      · exact moves_ranDeviceDispatch hAllows (w.dropTask i).db now runAt job turn answer
      · exact .of_threads hAllows.refl rfl

theorem moves_step : Moves (RowMove w input) w.db (w.step input).db := by
  have hAllows := allows_rowMove w input
  cases input with
  | spawnOnDevice now args =>
    have hRuns : (deviceThread now args).status = .running := rfl
    exact moves_spawn hAllows w.db now hRuns rfl args.attempt
  | spawnFromDesktop now args =>
    have hRuns : (desktopThread now args).status = .running := rfl
    exact moves_spawn hAllows w.db now hRuns rfl args.attempt
  | continueFromDesktop now args => exact moves_continueFromDesktop hAllows w.db now args
  | continueDevice args description clientMsgId fingerprint =>
    have hEq : (w.db.continueDeviceForCloud args description clientMsgId fingerprint).threads = w.db.threads := by
      unfold Db.continueDeviceForCloud
      repeat' split
      all_goals rfl
    exact .of_threads hAllows.refl hEq
  | message target ownerGeneration messageId =>
    have hEq : (w.db.deliverAgentMessage target ownerGeneration messageId).threads = w.db.threads := by
      unfold Db.deliverAgentMessage
      repeat' split
      all_goals rfl
    exact .of_threads hAllows.refl hEq
  | cancelDevice now args =>
    unfold World.step World.cancelDeviceForCloud
    dsimp only
    split
    · exact .of_threads hAllows.refl rfl
    · next thread _ => exact moves_stopDeviceAttempt w hAllows now thread
  | cancelThread now args =>
    unfold World.step World.cancelThread
    dsimp only
    split
    · exact .of_threads hAllows.refl rfl
    · next thread _ =>
      split
      · exact .of_threads hAllows.refl rfl
      · split
        · split
          · exact .of_threads hAllows.refl rfl
          · exact .of_threads hAllows.refl rfl
        · split
          · exact .of_threads hAllows.refl rfl
          · split
            · exact .of_threads hAllows.refl rfl
            · split
              · exact moves_stopDeviceAttempt w hAllows now thread
              · exact .of_threads hAllows.refl rfl
  | acknowledge now args => exact moves_acknowledge w now args
  | startComputer now args => exact moves_startComputerThread hAllows w.db now args
  | completeComputer now args failed resultJson errorMessage =>
    exact moves_endComputerThread hAllows w.db args (fun _ => rfl) (fun _ => rfl) (fun _ => rfl) (fun _ => rfl)
  | cancelComputer now args reason =>
    exact moves_endComputerThread hAllows w.db args (fun _ => rfl) (fun _ => rfl) (fun _ => rfl) (fun _ => rfl)
  | ownerEvent event => exact moves_ownerEvent w event
  | deviceSettled now turnId requeue status unavailable resultJson errorMessage =>
    exact moves_deviceSettled hAllows w.db now turnId requeue status unavailable resultJson errorMessage
  | runJob i =>
    have hEq : (w.runJob i).db.threads = w.db.threads := by
      unfold World.runJob Db.runDispatch
      repeat' split
      all_goals rfl
    exact .of_threads hAllows.refl hEq
  | gateAdmits i dispatchId =>
    have hEq : (w.gateAdmits i dispatchId).db.threads = w.db.threads := by
      unfold World.gateAdmits
      repeat' split
      all_goals rfl
    exact .of_threads hAllows.refl hEq
  | gateEnds dispatchId => exact .of_threads hAllows.refl rfl
  | proceed i now turnId answer => exact moves_proceed w i now turnId answer
  | lose i => exact .of_threads hAllows.refl rfl

end Steps

end Stella.AgentThreads
