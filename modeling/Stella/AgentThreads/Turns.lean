import Stella.AgentThreads.Moves

/-! # What a step does to a turn

A turn keeps its status, leaves a status that is not terminal, or is set to
`canceled` by the end of a stop, whatever it was.
-/

namespace Stella.AgentThreads

inductive TurnMove (w : World) (input : Input) (turn next : TurnRow) : Prop
  | keeps (status : next.status = turn.status)
  | ends (running : turn.status.terminal = false)
  | cancels (i : Nat) (now : Int) (turnId : String) (answer : Handed) (thread : ThreadRow)
      (isProceed : input = .proceed i now turnId answer)
      (task : w.db.tasks[i]? = some (.cancel thread turn.turnId)) (status : next.status = .canceled)

/-- Each turn of `db` is kept in `db'`, with `P` from the old to the new. -/
def TurnMoves (P : TurnRow → TurnRow → Prop) (db db' : Db) : Prop := Rows.Kept TurnRow.turnId P db.turns db'.turns

structure TurnAllows (P : TurnRow → TurnRow → Prop) : Prop where
  keeps : ∀ turn next : TurnRow, next.status = turn.status → P turn next
  ends : ∀ turn next : TurnRow, turn.status.terminal = false → P turn next

theorem TurnAllows.refl {P : TurnRow → TurnRow → Prop} (h : TurnAllows P) (turn : TurnRow) : P turn turn :=
  h.keeps turn turn rfl

theorem turnAllows_turnMove (w : World) (input : Input) : TurnAllows (TurnMove w input) :=
  ⟨fun _ _ => .keeps, fun _ _ => .ends⟩

theorem turns_setThread (db : Db) (id : String) (patch : ThreadRow → ThreadRow) :
    (db.setThread id patch).turns = db.turns := rfl

theorem active_not_terminal {status : Status} (h : status.active = true) : status.terminal = false := by
  cases status <;> first | rfl | cases h

section Operations

variable {P : TurnRow → TurnRow → Prop} (hAllows : TurnAllows P) {db db' db'' : Db} (now : Int)

theorem TurnMoves.then_turns (hMoves : TurnMoves P db db') (h : db''.turns = db'.turns) : TurnMoves P db db'' := by
  unfold TurnMoves
  rw [h]
  exact hMoves

include hAllows

theorem TurnMoves.of_turns (h : db'.turns = db.turns) : TurnMoves P db db' := by
  unfold TurnMoves
  rw [h]
  exact Rows.Kept.refl hAllows.refl _

section

variable (db : Db)

theorem turnMoves_startAttempt (thread : ThreadRow) (attempt : NewAttempt) :
    TurnMoves P db (db.startAttempt now thread attempt) := by
  unfold Db.startAttempt
  split
  · exact .of_turns hAllows rfl
  · exact Rows.Kept.append hAllows.refl _ _

theorem turnMoves_insertTurn (row : TurnRow) : TurnMoves P db (db.insertTurn row) := by
  unfold Db.insertTurn
  split
  · exact .of_turns hAllows rfl
  · exact Rows.Kept.append hAllows.refl _ _

theorem turnMoves_resume (id : String) (patch : ThreadRow → ThreadRow) (attempt : NewAttempt) :
    TurnMoves P db (db.resume now id patch attempt) := by
  unfold Db.resume
  dsimp only
  split
  · exact .of_turns hAllows rfl
  · next thread _ => exact turnMoves_startAttempt hAllows now (db.setThread id patch) thread attempt

theorem turnMoves_spawn (row : ThreadRow) (attempt : NewAttempt) :
    TurnMoves P db (db.spawn now row attempt) := by
  unfold Db.spawn
  split
  · exact .of_turns hAllows rfl
  · exact turnMoves_startAttempt hAllows now { db with threads := db.threads ++ [row] } row attempt

theorem turnMoves_setStatus {turn : TurnRow} {id : String} {patch : TurnRow → TurnRow}
    (hKey : ∀ row, (patch row).turnId = row.turnId) (hTurn : db.readTurn id = some turn)
    (hRuns : turn.status.terminal = false) : TurnMoves P db (db.setTurn id patch) := by
  refine Rows.Kept.modify hAllows.refl hKey (fun row hRow => ?_)
  obtain rfl := Option.some.inj (hTurn.symm.trans hRow)
  exact hAllows.ends _ _ hRuns

theorem turnMoves_failAttempt (job : DispatchJob) (message : String) :
    TurnMoves P db (db.failAttempt now job message) := by
  have hSet : TurnMoves P db (db.setTurn job.turnId (turnFailedPatch now)) := by
    refine Rows.Kept.modify hAllows.refl (fun row => ?_) (fun row _ => ?_)
    · unfold turnFailedPatch
      split <;> rfl
    · unfold turnFailedPatch
      split
      · next hAct => exact hAllows.ends _ _ (active_not_terminal hAct)
      · exact hAllows.refl row
  exact hSet.then_turns (turns_setThread _ _ _)

theorem turnMoves_settleDeviceAttempt (turnId : String) (status : Status)
    (resultJson errorMessage : Option String) :
    TurnMoves P db (db.settleDeviceAttempt now turnId status resultJson errorMessage) := by
  unfold Db.settleDeviceAttempt
  split
  · exact .of_turns hAllows rfl
  · next turn hTurn =>
    split
    · exact .of_turns hAllows rfl
    · split
      · exact .of_turns hAllows rfl
      · next hRuns =>
        have hSet : TurnMoves P db (db.setTurn turnId (turnStatusPatch now status)) :=
          turnMoves_setStatus hAllows db (fun _ => rfl) hTurn (Bool.eq_false_iff.mpr hRuns)
        dsimp only
        split
        · exact hSet.then_turns rfl
        · split
          · exact hSet.then_turns rfl
          · exact hSet.then_turns rfl

end

theorem turns_of_wait {turn : TurnRow} {retries : Nat} {c : Prop} [Decidable c] {waits : Db}
    (h : (if c then db.waitForAvailableDevice now turn retries else none) = some waits) : TurnMoves P db waits := by
  unfold Db.waitForAvailableDevice at h
  split at h
  · split at h
    · split at h
      · cases h
      · obtain rfl := Option.some.inj h
        exact .of_turns hAllows rfl
    · cases h
  · cases h

theorem turnMoves_ranDispatch (db : Db) (runAt : Int) (job : DispatchJob) (answer : Handed) :
    TurnMoves P db (db.ranDispatch now runAt job answer) := by
  cases answer with
  | accepted dispatchId => exact .of_turns hAllows rfl
  | refused unavailable retryable message =>
    unfold Db.ranDispatch
    dsimp only
    split
    · exact .of_turns hAllows rfl
    · exact (turnMoves_failAttempt hAllows now db job message).then_turns rfl

theorem turnMoves_ranDeviceDispatch (db : Db) (runAt : Int) (job : DispatchJob) (turn : TurnRow) (answer : Handed) :
    TurnMoves P db (db.ranDeviceDispatch now runAt job turn answer) := by
  cases answer with
  | accepted dispatchId =>
    have hSet : TurnMoves P db (db.setTurn turn.turnId (fun row => { row with dispatchId := some dispatchId })) :=
      Rows.Kept.modify hAllows.refl (fun _ => rfl) (fun _ _ => hAllows.keeps _ _ rfl)
    exact hSet.then_turns rfl
  | refused unavailable retryable message =>
    unfold Db.ranDeviceDispatch
    dsimp only
    cases hWaits : (if unavailable then db.waitForAvailableDevice now turn job.availabilityRetries else none) with
    | some waits => exact (turns_of_wait hAllows now hWaits).then_turns rfl
    | none =>
      rw [Option.getD_none]
      split
      · exact .of_turns hAllows rfl
      · exact (turnMoves_settleDeviceAttempt hAllows now (db.dropPrompt turn.turnId) turn.turnId .failed none
          (some message)).then_turns rfl

theorem turnMoves_deviceSettled (db : Db) (turnId : String) (requeue : Nat) (status : Status) (unavailable : Bool)
    (resultJson errorMessage : Option String) :
    TurnMoves P db (db.deviceSettled now turnId requeue status unavailable resultJson errorMessage) := by
  unfold Db.deviceSettled
  split
  · exact .of_turns hAllows rfl
  · next turn hTurn =>
    split
    · exact .of_turns hAllows rfl
    · dsimp only
      cases hWaits : (if unavailable then db.waitForAvailableDevice now turn requeue else none) with
      | some waits => exact turns_of_wait hAllows now hWaits
      | none =>
        rw [Option.getD_none]
        exact turnMoves_settleDeviceAttempt hAllows now db turnId status resultJson errorMessage

theorem turnMoves_ownerEvent (db : Db) (event : AgentThreadEvent) : TurnMoves P db (db.applyAgentThreadEvent event) := by
  cases event with
  | turnStarted event =>
    unfold Db.applyAgentThreadEvent
    dsimp only
    split
    · exact .of_turns hAllows rfl
    · exact turnMoves_insertTurn hAllows db _
  | turnEvent event =>
    have hSet : TurnMoves P db (db.setTurn event.turnId (turnTerminalPatch event)) := by
      refine Rows.Kept.modify hAllows.refl (fun row => ?_) (fun row _ => ?_)
      · unfold turnTerminalPatch
        split <;> rfl
      · unfold turnTerminalPatch
        split
        · next hRuns =>
          refine hAllows.ends _ _ ?_
          obtain hIs | hIs | hIs := hRuns <;> rw [hIs] <;> rfl
        · exact hAllows.refl row
    unfold Db.applyAgentThreadEvent
    dsimp only
    repeat' split
    all_goals first | exact hSet | exact .of_turns hAllows rfl
  | threadSpawned event =>
    unfold Db.applyAgentThreadEvent
    dsimp only
    repeat' split
    all_goals exact .of_turns hAllows rfl
  | threadCompleted event =>
    unfold Db.applyAgentThreadEvent
    dsimp only
    repeat' split
    all_goals exact .of_turns hAllows rfl

end Operations

/-! ## Steps -/

theorem mem_newestTurn {rows : List TurnRow} {turn : TurnRow} (h : Db.newestTurn rows = some turn) : turn ∈ rows := by
  induction rows with
  | nil => cases h
  | cons row rows ih =>
    unfold Db.newestTurn at h
    split at h
    · obtain rfl := Option.some.inj h
      exact List.mem_cons_self
    · next newest hNewest =>
      split at h
      · obtain rfl := Option.some.inj h
        exact List.mem_cons_of_mem _ (ih hNewest)
      · obtain rfl := Option.some.inj h
        exact List.mem_cons_self

theorem mem_runningTurn {db : Db} {thread : ThreadRow} {turn : TurnRow} (h : db.runningTurn thread = some turn) :
    db.readTurn turn.turnId = some turn ∧ turn.threadId = some thread.threadId ∧
      turn.attemptGeneration = some thread.attemptGeneration ∧ turn.status.active = true := by
  unfold Db.runningTurn at h
  obtain ⟨-, hIs⟩ := List.mem_filter.mp (mem_newestTurn h)
  simp only [Bool.and_eq_true, decide_eq_true_eq] at hIs
  exact ⟨hIs.1.1.1, hIs.1.1.2, hIs.1.2, hIs.2⟩

section Steps

variable (w : World) (input : Input)

theorem turnMoves_stopDeviceAttempt {P : TurnRow → TurnRow → Prop} (hAllows : TurnAllows P) (now : Int)
    (thread : ThreadRow) : TurnMoves P w.db (w.stopDeviceAttempt now thread).db := by
  unfold World.stopDeviceAttempt
  split
  · exact .of_turns hAllows rfl
  · next turn hTurn =>
    have hFound : w.db.runningTurn thread = some turn := by
      split at hTurn
      · exact hTurn
      · cases hTurn
    obtain ⟨hRead, -, -, hAct⟩ := mem_runningTurn hFound
    have hSet : TurnMoves P w.db (w.db.setTurn turn.turnId (turnStatusPatch now .canceled)) :=
      turnMoves_setStatus hAllows w.db (fun _ => rfl) hRead (active_not_terminal hAct)
    split
    · exact hSet.then_turns rfl
    · exact hSet.then_turns rfl

theorem turnMoves_proceed (i : Nat) (now : Int) (turnId : String) (answer : Handed) :
    TurnMoves (TurnMove w (.proceed i now turnId answer)) w.db (w.proceed i now turnId answer).db := by
  have hAllows := turnAllows_turnMove w (.proceed i now turnId answer)
  unfold World.proceed
  split
  · exact .of_turns hAllows rfl
  · next task hTask =>
    cases task with
    | continueDevice thread clientMsgId fingerprint description =>
      exact turnMoves_resume hAllows now (w.dropTask i).db _ _ _
    | message thread messageId =>
      have hDelivered : TurnMoves (TurnMove w (.proceed i now turnId answer)) (w.dropTask i).db
          ((w.dropTask i).db.deliveredMessage now thread ⟨turnId, messageId, "agent-message"⟩) := by
        unfold Db.deliveredMessage
        split
        · exact .of_turns hAllows rfl
        · split
          · exact .of_turns hAllows rfl
          · split
            · exact .of_turns hAllows rfl
            · exact turnMoves_resume hAllows now (w.dropTask i).db _ _ _
      exact hDelivered
    | cancel thread stopTurnId =>
      have hSet : TurnMoves (TurnMove w (.proceed i now turnId answer)) w.db
          (w.db.setTurn stopTurnId (turnStatusPatch now .canceled)) := by
        refine Rows.Kept.modify hAllows.refl (fun _ => rfl) (fun row hRow => ?_)
        have hId : row.turnId = stopTurnId := Rows.lookup_key hRow
        exact .cancels i now turnId answer thread rfl (hId ▸ hTask) rfl
      exact hSet.then_turns rfl
    | stop turnIds dispatchId => exact .of_turns hAllows rfl
    | dispatch runAt job => exact turnMoves_ranDispatch hAllows now (w.dropTask i).db runAt job answer
    | deviceDispatch runAt job turn =>
      unfold World.proceedTask
      dsimp only
      split
      · exact turnMoves_ranDeviceDispatch hAllows now (w.dropTask i).db runAt job turn answer
      · exact .of_turns hAllows rfl

theorem turnMoves_step : TurnMoves (TurnMove w input) w.db (w.step input).db := by
  have hAllows := turnAllows_turnMove w input
  cases input with
  | spawnOnDevice now args => exact turnMoves_spawn hAllows now w.db (deviceThread now args) args.attempt
  | spawnFromDesktop now args => exact turnMoves_spawn hAllows now w.db (desktopThread now args) args.attempt
  | continueFromDesktop now args =>
    unfold World.step World.withDb Db.continueFromDesktop
    dsimp only
    split
    · exact .of_turns hAllows rfl
    · split
      · exact .of_turns hAllows rfl
      · split
        · exact .of_turns hAllows rfl
        · split
          · exact .of_turns hAllows rfl
          · exact turnMoves_resume hAllows now w.db _ _ _
  | continueDevice args description clientMsgId fingerprint =>
    have hEq : (w.db.continueDeviceForCloud args description clientMsgId fingerprint).turns = w.db.turns := by
      unfold Db.continueDeviceForCloud
      repeat' split
      all_goals rfl
    exact .of_turns hAllows hEq
  | message target ownerGeneration messageId =>
    have hEq : (w.db.deliverAgentMessage target ownerGeneration messageId).turns = w.db.turns := by
      unfold Db.deliverAgentMessage
      repeat' split
      all_goals rfl
    exact .of_turns hAllows hEq
  | cancelDevice now args =>
    unfold World.step World.cancelDeviceForCloud
    dsimp only
    split
    · exact .of_turns hAllows rfl
    · next thread _ => exact turnMoves_stopDeviceAttempt w hAllows now thread
  | cancelThread now args =>
    unfold World.step World.cancelThread
    dsimp only
    split
    · exact .of_turns hAllows rfl
    · next thread _ =>
      split
      · exact .of_turns hAllows rfl
      · split
        · split
          · exact .of_turns hAllows rfl
          · exact .of_turns hAllows rfl
        · split
          · exact .of_turns hAllows rfl
          · split
            · exact .of_turns hAllows rfl
            · split
              · exact turnMoves_stopDeviceAttempt w hAllows now thread
              · exact .of_turns hAllows rfl
  | acknowledge now args =>
    have hEq : (w.db.acknowledgeDelivery now args).turns = w.db.turns := by
      unfold Db.acknowledgeDelivery
      repeat' split
      all_goals rfl
    exact .of_turns hAllows hEq
  | startComputer now args =>
    have hEq : (w.db.startComputerThread now args).turns = w.db.turns := by
      unfold Db.startComputerThread
      repeat' split
      all_goals rfl
    exact .of_turns hAllows hEq
  | completeComputer now args failed resultJson errorMessage =>
    have hEq : (w.db.completeComputerThread now args failed resultJson errorMessage).turns = w.db.turns := by
      unfold Db.completeComputerThread Db.endComputerThread
      repeat' split
      all_goals rfl
    exact .of_turns hAllows hEq
  | cancelComputer now args reason =>
    have hEq : (w.db.cancelComputerThread now args reason).turns = w.db.turns := by
      unfold Db.cancelComputerThread Db.endComputerThread
      repeat' split
      all_goals rfl
    exact .of_turns hAllows hEq
  | ownerEvent event => exact turnMoves_ownerEvent hAllows w.db event
  | deviceSettled now turnId requeue status unavailable resultJson errorMessage =>
    exact turnMoves_deviceSettled hAllows now w.db turnId requeue status unavailable resultJson errorMessage
  | runJob i =>
    have hEq : (w.runJob i).db.turns = w.db.turns := by
      unfold World.runJob Db.runDispatch
      repeat' split
      all_goals rfl
    exact .of_turns hAllows hEq
  | gateAdmits i dispatchId =>
    have hEq : (w.gateAdmits i dispatchId).db.turns = w.db.turns := by
      unfold World.gateAdmits
      repeat' split
      all_goals rfl
    exact .of_turns hAllows hEq
  | gateEnds dispatchId => exact .of_turns hAllows rfl
  | proceed i now turnId answer => exact turnMoves_proceed w i now turnId answer
  | lose i => exact .of_turns hAllows rfl

end Steps

end Stella.AgentThreads
