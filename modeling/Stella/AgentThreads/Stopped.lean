import Stella.AgentThreads.Beside

/-! # A stopped device attempt does not run

A stop withdraws the queued dispatch of its turn and asks the gate to cancel the dispatch the
turn has recorded.
-/

namespace Stella.AgentThreads

open Stella.Transition List

def GateDispatch.closed (d : GateDispatch) : Bool := d.terminal || d.cancelRequested

def World.handsOn (w : World) (turnId : String) : Bool := w.db.tasks.any (Task.dispatches turnId)

def Stopped (w : World) : Prop :=
  (∀ id, w.handsOn id = false) → ∀ id ∈ w.stopped,
    (∀ d ∈ w.dispatches, d.turnId = id → d.closed = true) ∧ ∀ j ∈ w.db.jobs, j.2.turnId ≠ id

def World.seen (w : World) (recorded : Option String) (id : String) : Bool :=
  !w.handsOn id && w.dispatches.all (fun d => d.turnId ≠ id || d.closed || recorded = some d.dispatchId)

/-- The stop of `thread` sees all of its attempt: no turn of it is being handed on, the running one has
no open dispatch but the recorded, and the others have ended, with nothing queued. -/
def World.seesAll (w : World) (thread : ThreadRow) : Bool :=
  let turn := if thread.status.active then w.db.runningTurn thread else none
  (w.db.attemptTurns thread).all fun id =>
    if turn.any (fun turn => turn.turnId = id) then
      w.seen (turn.bind fun turn => turn.dispatchId.filter (· ≠ "")) id
    else w.seen none id && (w.db.readTurn id).all (fun turn => turn.status.terminal) &&
      w.db.jobs.all (fun j => j.2.turnId ≠ id)

def stopSees (w : World) (input : Input) : Bool := (w.stops input).all w.seesAll

structure Quiet (w : World) (but : Option String) (id : String) : Prop where
  ended : ∃ turn, w.db.readTurn id = some turn ∧ turn.status.terminal = true
  tasks : ∀ task ∈ w.db.tasks, task.dispatches id = false
  jobs : ∀ j ∈ w.db.jobs, j.2.turnId ≠ id
  closed : ∀ d ∈ w.dispatches, d.turnId = id → d.closed = true ∨ but = some d.dispatchId

structure Stopping (w : World) : Prop where
  stopped : ∀ id ∈ w.stopped, Quiet w none id
  parked : ∀ turnIds dispatchId, .stop turnIds dispatchId ∈ w.db.tasks →
    ∀ id ∈ turnIds, Quiet w (some dispatchId) id

section Step

variable {w : World} {input : Input}

theorem stop_dispatches (now : Int) (thread : ThreadRow) : (w.stopDeviceAttempt now thread).dispatches = w.dispatches := by
  unfold World.stopDeviceAttempt
  split
  · rfl
  · split <;> rfl

theorem cancel_dispatches (h : input.isCancel = true) : (w.step input).dispatches = w.dispatches := by
  obtain ⟨now, thread, -, hStep⟩ | ⟨-, hEq | ⟨thread, turnId, hPark⟩⟩ := cancel_cases (w := w) h
  · rw [hStep]
    exact stop_dispatches now thread
  · rw [hEq]
  · rw [hPark]
    rfl

theorem dispatches_step (d : GateDispatch) (hIn : d ∈ (w.step input).dispatches) :
    (∃ before ∈ w.dispatches, before.turnId = d.turnId ∧ before.dispatchId = d.dispatchId ∧
      (before.closed = true → d.closed = true)) ∨ w.handsOn d.turnId = true := by
  have hSame : (w.step input).dispatches = w.dispatches → ∃ before ∈ w.dispatches, before.turnId = d.turnId ∧
      before.dispatchId = d.dispatchId ∧ (before.closed = true → d.closed = true) :=
    fun hEq => ⟨d, hEq ▸ hIn, rfl, rfl, id⟩
  have hModify : ∀ (dispatchId : String) (f : GateDispatch → GateDispatch), (∀ d, (f d).turnId = d.turnId ∧
      (f d).dispatchId = d.dispatchId ∧ (d.closed = true → (f d).closed = true)) →
      d ∈ Rows.modify GateDispatch.dispatchId w.dispatches dispatchId f →
      ∃ before ∈ w.dispatches, before.turnId = d.turnId ∧ before.dispatchId = d.dispatchId ∧
        (before.closed = true → d.closed = true) := by
    intro dispatchId f hf hMem
    obtain ⟨before, hBef, rfl⟩ := mem_map.mp hMem
    refine ⟨before, hBef, ?_⟩
    split
    · exact ⟨(hf before).1.symm, (hf before).2.1.symm, (hf before).2.2⟩
    · exact ⟨rfl, rfl, id⟩
  cases input with
  | gateEnds dispatchId =>
    exact .inl (hModify dispatchId (fun d => { d with terminal := true })
      (fun d => ⟨rfl, rfl, fun _ => by simp [GateDispatch.closed]⟩) hIn)
  | gateAdmits i dispatchId =>
    have hAdmit : d ∈ (w.gateAdmits i dispatchId).dispatches := hIn
    unfold World.gateAdmits at hAdmit
    split at hAdmit
    · next job turn hTask =>
      split at hAdmit
      · exact .inl ⟨d, hAdmit, rfl, rfl, id⟩
      · obtain hOld | hNew := mem_append.mp hAdmit
        · exact .inl ⟨d, hOld, rfl, rfl, id⟩
        · right
          rw [mem_singleton.mp hNew]
          exact any_eq_true.mpr ⟨_, mem_of_getElem? hTask, by simp [Task.dispatches]⟩
    · exact .inl ⟨d, hAdmit, rfl, rfl, id⟩
  | proceed i now turnId answer =>
    left
    have hProceed : d ∈ (w.proceed i now turnId answer).dispatches := hIn
    unfold World.proceed at hProceed
    split at hProceed
    · exact ⟨d, hProceed, rfl, rfl, id⟩
    · next task _ =>
      cases task with
      | stop turnIds dispatchId =>
        exact hModify dispatchId (fun d => { d with cancelRequested := true })
          (fun d => ⟨rfl, rfl, fun _ => by simp [GateDispatch.closed]⟩) hProceed
      | deviceDispatch runAt job turn =>
        unfold World.proceedTask at hProceed
        dsimp only at hProceed
        split at hProceed
        · exact ⟨d, hProceed, rfl, rfl, id⟩
        · exact ⟨d, hProceed, rfl, rfl, id⟩
      | continueDevice thread clientMsgId fingerprint description => exact ⟨d, hProceed, rfl, rfl, id⟩
      | message thread messageId => exact ⟨d, hProceed, rfl, rfl, id⟩
      | cancel thread stopTurnId => exact ⟨d, hProceed, rfl, rfl, id⟩
      | dispatch runAt job => exact ⟨d, hProceed, rfl, rfl, id⟩
  | cancelDevice now args => exact .inl (hSame (cancel_dispatches rfl))
  | cancelThread now args => exact .inl (hSame (cancel_dispatches rfl))
  | spawnOnDevice now args => exact .inl (hSame rfl)
  | spawnFromDesktop now args => exact .inl (hSame rfl)
  | continueFromDesktop now args => exact .inl (hSame rfl)
  | continueDevice args description clientMsgId fingerprint => exact .inl (hSame rfl)
  | message target ownerGeneration messageId => exact .inl (hSame rfl)
  | acknowledge now args => exact .inl (hSame rfl)
  | startComputer now args => exact .inl (hSame rfl)
  | completeComputer now args failed resultJson errorMessage => exact .inl (hSame rfl)
  | cancelComputer now args reason => exact .inl (hSame rfl)
  | ownerEvent event => exact .inl (hSame rfl)
  | deviceSettled now turnId requeue status unavailable resultJson errorMessage => exact .inl (hSame rfl)
  | runJob i =>
    have hRun : (w.runJob i).dispatches = w.dispatches := by
      unfold World.runJob
      split <;> rfl
    exact .inl (hSame hRun)
  | lose i => exact .inl (hSame rfl)

variable {id : String}

theorem Quiet.step {but : Option String} (h : Quiet w but id) : Quiet (w.step input) but id := by
  have hLeaves := leaves_step w input
  obtain ⟨turn, hTurn, hEnded⟩ := h.ended
  have hOff : w.handsOn id = false := any_eq_false.mpr fun task hTask => by simp [h.tasks task hTask]
  have hNotRunning : ¬ w.db.running id := by
    rintro ⟨other, hOther, hRuns⟩
    obtain rfl := Option.some.inj (hTurn.symm.trans hOther)
    rw [hEnded] at hRuns
    cases hRuns
  constructor
  · obtain ⟨next, hNext, hMove⟩ := turnMoves_step w input id turn hTurn
    refine ⟨next, hNext, ?_⟩
    cases hMove with
    | keeps hStat => rwa [hStat]
    | ends hRuns =>
      rw [hEnded] at hRuns
      cases hRuns
    | cancels i now turnId answer thread hProceed hTask hStat =>
      rw [hStat]
      rfl
  · intro task hTask
    obtain hOld | hParks := hLeaves.tasks task hTask
    · exact h.tasks task hOld
    · cases task with
      | continueDevice thread clientMsgId fingerprint description => rfl
      | message thread messageId => rfl
      | cancel thread turnId => rfl
      | stop turnIds dispatchId => rfl
      | dispatch runAt job =>
        refine decide_eq_false fun hIs => hNotRunning ?_
        have hRuns : w.db.running job.turnId := hParks
        exact hIs ▸ hRuns
      | deviceDispatch runAt job other =>
        have hRuns : other.turnId = job.turnId ∧ w.db.running job.turnId := hParks
        have hOther : job.turnId ≠ id := fun hIs => hNotRunning (hIs ▸ hRuns.2)
        simp [Task.dispatches, hOther, hRuns.1]
  · intro j hj hIs
    obtain hOld | hNew := hLeaves.jobs j hj
    · exact h.jobs j hOld hIs
    · rw [hIs] at hNew
      obtain hNone | hRuns | ⟨task, hTask, hOn⟩ := hNew
      · rw [hTurn] at hNone
        cases hNone
      · exact hNotRunning hRuns
      · rw [h.tasks task hTask] at hOn
        cases hOn
  · intro d hd hIs
    obtain ⟨before, hBef, hId, hEq, hClosed⟩ | hOn := dispatches_step d hd
    · obtain hDone | hBut := h.closed before hBef (hId.trans hIs)
      · exact .inl (hClosed hDone)
      · exact .inr (hEq ▸ hBut)
    · rw [hIs, hOff] at hOn
      cases hOn

theorem Quiet.but (h : Quiet w none id) (but : Option String) : Quiet w but id := by
  refine ⟨h.ended, h.tasks, h.jobs, fun d hd hIs => ?_⟩
  obtain hClosed | hNone := h.closed d hd hIs
  · exact .inl hClosed
  · cases hNone

variable {thread : ThreadRow}

theorem readTurn_of_attemptTurns (h : id ∈ w.db.attemptTurns thread) :
    ∃ turn, w.db.readTurn id = some turn := by
  obtain ⟨row, hRow, rfl⟩ := mem_map.mp h
  have hSome : (w.db.readTurn row.turnId).isSome = true := by
    unfold Db.readTurn Rows.lookup
    exact find?_isSome.mpr ⟨row, (mem_filter.mp hRow).1, decide_eq_true rfl⟩
  exact Option.isSome_iff_exists.mp hSome

theorem seen_iff {recorded : Option String} : w.seen recorded id = true ↔
    (∀ task ∈ w.db.tasks, task.dispatches id = false) ∧
      ∀ d ∈ w.dispatches, d.turnId = id → d.closed = true ∨ recorded = some d.dispatchId := by
  unfold World.seen World.handsOn
  simp only [Bool.and_eq_true, Bool.not_eq_true', any_eq_false, Bool.not_eq_true, all_eq_true,
    Bool.or_eq_true, decide_eq_true_eq]
  refine and_congr_right fun _ => forall₂_congr fun d _ => ?_
  constructor
  · rintro ((hOther | hClosed) | hRecorded) hIs
    · exact absurd hIs hOther
    · exact .inl hClosed
    · exact .inr hRecorded
  · intro hAll
    by_cases hIs : d.turnId = id
    · obtain hClosed | hRecorded := hAll hIs
      · exact .inl (.inr hClosed)
      · exact .inr hRecorded
    · exact .inl (.inl hIs)

def World.stopTurn (w : World) (thread : ThreadRow) : Option TurnRow :=
  if thread.status.active then w.db.runningTurn thread else none

def TurnRow.recorded (turn : TurnRow) : Option String := turn.dispatchId.filter (· ≠ "")

theorem stop_cases (now : Int) {turn : TurnRow} (hTurn : w.stopTurn thread = some turn) :
    (turn.recorded = none ∧ w.stopDeviceAttempt now thread =
      { w with db := w.db.stopTurn now thread turn, stopped := w.db.attemptTurns thread ++ w.stopped }) ∨
    ∃ dispatchId, turn.recorded = some dispatchId ∧ w.stopDeviceAttempt now thread =
      w.withDb ((w.db.stopTurn now thread turn).park (.stop (w.db.attemptTurns thread) dispatchId)) := by
  unfold World.stopTurn at hTurn
  unfold World.stopDeviceAttempt TurnRow.recorded
  simp only [hTurn]
  cases hRecorded : turn.dispatchId.filter (· ≠ "") with
  | none => exact .inl ⟨rfl, rfl⟩
  | some dispatchId => exact .inr ⟨dispatchId, rfl, rfl⟩

theorem stop_idle (now : Int) (hTurn : w.stopTurn thread = none) :
    w.stopDeviceAttempt now thread = { w with stopped := w.db.attemptTurns thread ++ w.stopped } := by
  unfold World.stopTurn at hTurn
  unfold World.stopDeviceAttempt
  simp only [hTurn]

theorem quiet_of_stop {now : Int} (hSees : w.seesAll thread = true)
    (hStep : w.step input = w.stopDeviceAttempt now thread) (hId : id ∈ w.db.attemptTurns thread) :
    Quiet (w.step input) ((w.stopTurn thread).bind TurnRow.recorded) id := by
  have hOne : (if (w.stopTurn thread).any (fun turn => turn.turnId = id) then
      w.seen ((w.stopTurn thread).bind TurnRow.recorded) id
      else w.seen none id && (w.db.readTurn id).all (fun turn => turn.status.terminal) &&
        w.db.jobs.all (fun j => j.2.turnId ≠ id)) = true := all_eq_true.mp hSees id hId
  obtain ⟨stored, hStored⟩ := readTurn_of_attemptTurns hId
  split at hOne
  · next hThis =>
    cases hTurn : w.stopTurn thread with
    | none =>
      rw [hTurn] at hThis
      cases hThis
    | some turn =>
      rw [hTurn, Option.any_some] at hThis
      have hIs : turn.turnId = id := of_decide_eq_true hThis
      rw [hTurn, Option.bind_some] at hOne
      obtain ⟨hTasks, hClosed⟩ := seen_iff.mp hOne
      have hRead : ((w.db.stopTurn now thread turn).readTurn id).map TurnRow.status = some .canceled := by
        have hSet : (w.db.stopTurn now thread turn).readTurn id =
            (w.db.readTurn id).map (fun row => if id = turn.turnId then turnStatusPatch now .canceled row else row) :=
          readTurn_setTurn (turnStatusPatch now .canceled) (fun _ => rfl) turn.turnId
        rw [hSet, hStored, Option.map_some, if_pos hIs.symm]
        rfl
      obtain ⟨next, hNext, hStat⟩ := Option.map_eq_some_iff.mp hRead
      have hEnded : next.status.terminal = true := by
        rw [hStat]
        rfl
      have hJobs : ∀ j ∈ (w.db.stopTurn now thread turn).jobs, j.2.turnId ≠ id := by
        intro j hj
        have hOther := (mem_filter.mp hj).2
        exact hIs ▸ of_decide_eq_true hOther
      rw [hStep, Option.bind_some]
      obtain ⟨hNone, hStop⟩ | ⟨dispatchId, hRecorded, hStop⟩ := stop_cases now hTurn
      · rw [hStop]
        exact ⟨⟨next, hNext, hEnded⟩, hTasks, hJobs, hClosed⟩
      · rw [hStop]
        refine ⟨⟨next, hNext, hEnded⟩, fun task hTask => ?_, hJobs, hClosed⟩
        obtain hOld | hNew := mem_append.mp hTask
        · exact hTasks task hOld
        · rw [mem_singleton.mp hNew]
          rfl
  · simp only [Bool.and_eq_true, all_eq_true, decide_eq_true_eq] at hOne
    obtain ⟨⟨hSeen, hEnded⟩, hJobs⟩ := hOne
    obtain ⟨hTasks, hClosed⟩ := seen_iff.mp hSeen
    rw [hStored, Option.all_some] at hEnded
    have hQuiet : Quiet w none id := ⟨⟨stored, hStored, hEnded⟩, hTasks, hJobs, hClosed⟩
    exact hQuiet.step.but _

theorem stopped_step (h : Stopping w) (hSees : stopSees w input = true)
    (hIn : id ∈ (w.step input).stopped) : Quiet (w.step input) none id := by
  have hOld : id ∈ w.stopped → Quiet (w.step input) none id := fun hIs => (h.stopped id hIs).step
  cases hCancel : input.isCancel with
  | true =>
    obtain ⟨now, thread, hStops, hStep⟩ | ⟨-, hEq | ⟨thread, turnId, hPark⟩⟩ := cancel_cases (w := w) hCancel
    · unfold stopSees at hSees
      rw [hStops, Option.all_some] at hSees
      have hQuiet : id ∈ w.db.attemptTurns thread →
          Quiet (w.step input) ((w.stopTurn thread).bind TurnRow.recorded) id := quiet_of_stop hSees hStep
      rw [hStep] at hIn
      cases hTurn : w.stopTurn thread with
      | none =>
        rw [stop_idle now hTurn] at hIn
        rw [hTurn] at hQuiet
        obtain hNew | hStopped := mem_append.mp hIn
        · exact hQuiet hNew
        · exact hOld hStopped
      | some turn =>
        rw [hTurn, Option.bind_some] at hQuiet
        obtain ⟨hNone, hStop⟩ | ⟨dispatchId, hRecorded, hStop⟩ := stop_cases now hTurn
        · rw [hStop] at hIn
          rw [hNone] at hQuiet
          obtain hNew | hStopped := mem_append.mp hIn
          · exact hQuiet hNew
          · exact hOld hStopped
        · rw [hStop] at hIn
          exact hOld hIn
    · rw [hEq] at hIn
      exact hOld hIn
    · rw [hPark] at hIn
      exact hOld hIn
  | false =>
    cases input with
    | proceed i now turnId answer =>
      have hProceed : id ∈ (w.proceed i now turnId answer).stopped := hIn
      unfold World.proceed at hProceed
      split at hProceed
      · exact hOld hProceed
      · next task hTask =>
        cases task with
        | stop turnIds dispatchId =>
          obtain hNew | hStopped := mem_append.mp hProceed
          · have hBef := h.parked turnIds dispatchId (mem_of_getElem? hTask) id hNew
            have hAfter : Quiet (w.step (.proceed i now turnId answer)) (some dispatchId) id := hBef.step
            refine ⟨hAfter.ended, hAfter.tasks, hAfter.jobs, fun d hd hIs => ?_⟩
            obtain hClosed | hBut := hAfter.closed d hd hIs
            · exact .inl hClosed
            · left
              have hStep : (w.step (.proceed i now turnId answer)).dispatches = Rows.modify GateDispatch.dispatchId
                  w.dispatches dispatchId (fun d => { d with cancelRequested := true }) := by
                have hDef : w.step (.proceed i now turnId answer) = w.proceed i now turnId answer := rfl
                rw [hDef]
                unfold World.proceed
                rw [hTask]
                rfl
              rw [hStep] at hd
              obtain ⟨before, hBeforeIn, rfl⟩ := mem_map.mp hd
              split
              · simp [GateDispatch.closed]
              · next hOther =>
                rw [if_neg hOther] at hBut
                exact absurd (Option.some.inj hBut).symm hOther
          · exact hOld hStopped
        | deviceDispatch runAt job turn =>
          unfold World.proceedTask at hProceed
          dsimp only at hProceed
          split at hProceed
          · exact hOld hProceed
          · exact hOld hProceed
        | continueDevice thread clientMsgId fingerprint description => exact hOld hProceed
        | message thread messageId => exact hOld hProceed
        | cancel thread stopTurnId => exact hOld hProceed
        | dispatch runAt job => exact hOld hProceed
    | runJob i =>
      have hRun : (w.runJob i).stopped = w.stopped := by
        unfold World.runJob
        split <;> rfl
      have hIs : id ∈ (w.runJob i).stopped := hIn
      exact hOld (hRun ▸ hIs)
    | gateAdmits i dispatchId =>
      have hAdmit : (w.gateAdmits i dispatchId).stopped = w.stopped := by
        unfold World.gateAdmits
        repeat' split
        all_goals rfl
      have hIs : id ∈ (w.gateAdmits i dispatchId).stopped := hIn
      exact hOld (hAdmit ▸ hIs)
    | cancelDevice now args => cases hCancel
    | cancelThread now args => cases hCancel
    | spawnOnDevice now args => exact hOld hIn
    | spawnFromDesktop now args => exact hOld hIn
    | continueFromDesktop now args => exact hOld hIn
    | continueDevice args description clientMsgId fingerprint => exact hOld hIn
    | message target ownerGeneration messageId => exact hOld hIn
    | acknowledge now args => exact hOld hIn
    | startComputer now args => exact hOld hIn
    | completeComputer now args failed resultJson errorMessage => exact hOld hIn
    | cancelComputer now args reason => exact hOld hIn
    | ownerEvent event => exact hOld hIn
    | deviceSettled now turnId requeue status unavailable resultJson errorMessage => exact hOld hIn
    | gateEnds dispatchId => exact hOld hIn
    | lose i => exact hOld hIn

theorem Stopping.step (h : Stopping w) (hSees : stopSees w input = true) : Stopping (w.step input) := by
  refine ⟨fun id hIn => stopped_step h hSees hIn, fun turnIds dispatchId hTask id hId => ?_⟩
  obtain hOld | ⟨thread, turn, hStops, hFound, hAct, hRecorded, rfl⟩ := (leaves_step w input).tasks _ hTask
  · exact (h.parked turnIds dispatchId hOld id hId).step
  · unfold stopSees at hSees
    rw [hStops, Option.all_some] at hSees
    have hTurn : w.stopTurn thread = some turn := by
      unfold World.stopTurn
      rw [if_pos hAct, hFound]
    have hCancel : input.isCancel = true := by
      cases input <;> first | rfl | cases hStops
    obtain ⟨now, stopped, hOther, hStep⟩ | ⟨hNone, -⟩ := cancel_cases (w := w) hCancel
    · obtain rfl := Option.some.inj (hStops.symm.trans hOther)
      have hQuiet := quiet_of_stop hSees hStep hId
      rw [hTurn, Option.bind_some] at hQuiet
      have hIs : turn.recorded = some dispatchId := hRecorded
      rwa [hIs] at hQuiet
    · rw [hStops] at hNone
      cases hNone

end Step

theorem Stopping.isStopped {w : World} (h : Stopping w) : Stopped w := by
  intro _ id hId
  have hQuiet := h.stopped id hId
  refine ⟨fun d hd hIs => ?_, hQuiet.jobs⟩
  obtain hClosed | hNone := hQuiet.closed d hd hIs
  · exact hClosed
  · cases hNone

theorem stopping_empty : Stopping emptyWorld := by
  constructor
  · intro id hIn
    cases hIn
  · intro turnIds dispatchId hTask
    cases hTask

/-- Where every stop sees all of the attempt it stops, a stopped attempt does not run. -/
theorem stopped_of_run {inputs : List Input}
    (hRun : Along World.step (fun w input => stopSees w input = true) emptyWorld inputs) :
    Stopped (run World.step emptyWorld inputs) := by
  have hStep : ∀ (w : World) (input : Input), Stopping w → stopSees w input = true → Stopping (w.step input) :=
    fun _ _ h hSees => h.step hSees
  exact (run_invariant hStep stopping_empty hRun).isStopped

def handsOn : List Input :=
  [.spawnOnDevice 10 ⟨"thr-1", "conv-1", "gen-1", "turn-0", none, "device-1", "List files", ⟨"turn-1", "msg-1", "print-1"⟩⟩,
    .runJob 0, .gateAdmits 0 "dsp-1"]

def stopsAgent : Input := .cancelDevice 20 ⟨"thr-1", "conv-1", "gen-1"⟩

def answered : Input := .proceed 0 15 "" (.accepted "dsp-1")

theorem stopped_after_answer :
    Stopped (run World.step emptyWorld (handsOn ++ [answered, stopsAgent, .proceed 0 21 "" (.accepted "")])) :=
  stopped_of_run (by decide)

/-- The stop comes while the submit runs: it succeeds, and the dispatch stays open. -/
theorem stopped_runs_on : let w := run World.step emptyWorld (handsOn ++ [stopsAgent, answered])
    w.stopped = ["turn-1"] ∧ w.db.tasks = [] ∧ w.dispatches = [⟨"dsp-1", "turn-1", 0, false, false⟩] ∧ ¬ Stopped w := by
  intro w
  have hStopped : w.stopped = ["turn-1"] := by decide
  have hTasks : w.db.tasks = [] := by decide
  have hOpen : w.dispatches = [⟨"dsp-1", "turn-1", 0, false, false⟩] := by decide
  refine ⟨hStopped, hTasks, hOpen, fun h => ?_⟩
  have hIdle : ∀ id, w.handsOn id = false := by
    intro id
    unfold World.handsOn
    rw [hTasks]
    rfl
  obtain ⟨hClosed, -⟩ := h hIdle "turn-1" (by rw [hStopped]; exact mem_cons_self)
  have hDone := hClosed ⟨"dsp-1", "turn-1", 0, false, false⟩ (by rw [hOpen]; exact mem_cons_self) rfl
  cases hDone

end Stella.AgentThreads
