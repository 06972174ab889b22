import Stella.AgentThreads.Turns

/-! # Attempts are fenced and final

A thread's attempt number only grows, and in an attempt what has ended stays as it ended, unless a
handler goes on from a thread or a turn that has moved since it was read: `continueDeviceForCloud`
counts on from the attempt it read, and `cancelThread` sets its turn to `canceled` whatever it is
by then.
-/

namespace Stella.AgentThreads

open Stella.Transition

structure Final (db db' : Db) : Prop where
  thread : ∀ t row, db.readThread t = some row → ∃ next, db'.readThread t = some next ∧
    row.attemptGeneration ≤ next.attemptGeneration ∧
    (next.attemptGeneration = row.attemptGeneration → row.status.terminal = true → next.status = row.status)
  turn : ∀ t turn, db.readTurn t = some turn → ∃ next, db'.readTurn t = some next ∧
    (turn.status.terminal = true → next.status = turn.status)

theorem Final.refl (db : Db) : Final db db :=
  ⟨fun _ row hRow => ⟨row, hRow, Int.le_refl _, fun _ _ => rfl⟩, fun _ turn hTurn => ⟨turn, hTurn, fun _ => rfl⟩⟩

theorem Final.trans {db db' db'' : Db} (h : Final db db') (h' : Final db' db'') : Final db db'' := by
  constructor
  · intro t row hRow
    obtain ⟨next, hNext, hLe, hKept⟩ := h.thread t row hRow
    obtain ⟨last, hLast, hLe', hKept'⟩ := h'.thread t next hNext
    refine ⟨last, hLast, Int.le_trans hLe hLe', fun hEq hEnded => ?_⟩
    have hMiddle := hKept (by omega) hEnded
    rw [← hMiddle] at hEnded ⊢
    exact hKept' (by omega) hEnded
  · intro t turn hTurn
    obtain ⟨next, hNext, hKept⟩ := h.turn t turn hTurn
    obtain ⟨last, hLast, hKept'⟩ := h'.turn t next hNext
    refine ⟨last, hLast, fun hEnded => ?_⟩
    have hMiddle := hKept hEnded
    rw [← hMiddle] at hEnded ⊢
    exact hKept' hEnded

def fenced (w : World) : Input → Bool
  | .proceed i _ _ _ =>
    match w.db.tasks[i]? with
    | some (.continueDevice thread _ _ _) => (w.db.readThread thread.threadId).all (fun row =>
        row.attemptGeneration ≤ thread.attemptGeneration ||
          (row.attemptGeneration = thread.attemptGeneration + 1 && !row.status.terminal))
    | some (.cancel _ turnId) => (w.db.readTurn turnId).all (fun turn =>
        !turn.status.terminal || turn.status = .canceled)
    | _ => true
  | _ => true

theorem fresh_of_not_stale {row : ThreadRow} {event : ThreadCompleted} (h : Db.stale row event = false) :
    row.attemptGeneration ≤ event.attemptGeneration ∧
      (event.attemptGeneration = row.attemptGeneration → row.status.terminal = false) := by
  unfold Db.stale at h
  simp only [Bool.or_eq_false_iff, decide_eq_false_iff_not] at h
  refine ⟨Int.not_lt.mp h.1.2, fun hEq => ?_⟩
  cases hStat : row.status <;> simp_all [Status.active, Status.terminal]

section Step

variable {w : World} {input : Input} (hFenced : fenced w input = true)

include hFenced

theorem RowMove.final {row next : ThreadRow} (hRow : w.db.readThread row.threadId = some row)
    (h : RowMove w input row next) : row.attemptGeneration ≤ next.attemptGeneration ∧
      (next.attemptGeneration = row.attemptGeneration → row.status.terminal = true → next.status = row.status) := by
  cases h with
  | keeps hStat hGen => exact ⟨Int.le_of_eq hGen.symm, fun _ _ => hStat⟩
  | restarts hGen => exact ⟨Int.le_of_lt hGen, fun hEq => by omega⟩
  | ends hAct hGen =>
    refine ⟨Int.le_of_eq hGen.symm, fun _ hEnded => ?_⟩
    rw [active_not_terminal hAct] at hEnded
    cases hEnded
  | acks _ hStat hGen => exact ⟨Int.le_of_eq hGen.symm, fun _ _ => hStat⟩
  | reports event _ _ hFresh _ hGen =>
    obtain ⟨hLe, hRuns⟩ := fresh_of_not_stale hFresh
    refine ⟨hGen ▸ hLe, fun hEq hEnded => ?_⟩
    rw [hRuns (hGen ▸ hEq)] at hEnded
    cases hEnded
  | continues i now turnId answer thread clientMsgId fingerprint description hProceed hTask hAbout _ hGen =>
    subst hProceed
    unfold fenced at hFenced
    dsimp only at hFenced
    rw [hTask] at hFenced
    dsimp only at hFenced
    rw [hAbout, hRow, Option.all_some] at hFenced
    simp only [Bool.or_eq_true, Bool.and_eq_true, decide_eq_true_eq, Bool.not_eq_true'] at hFenced
    constructor
    · omega
    · intro hEq hEnded
      obtain hOlder | ⟨-, hRuns⟩ := hFenced
      · omega
      · rw [hRuns] at hEnded
        cases hEnded

theorem TurnMove.final {turn next : TurnRow} (hTurn : w.db.readTurn turn.turnId = some turn)
    (h : TurnMove w input turn next) (hEnded : turn.status.terminal = true) : next.status = turn.status := by
  cases h with
  | keeps hStat => exact hStat
  | ends hRuns =>
    rw [hRuns] at hEnded
    cases hEnded
  | cancels i now turnId answer thread hProceed hTask hStat =>
    subst hProceed
    unfold fenced at hFenced
    dsimp only at hFenced
    rw [hTask] at hFenced
    dsimp only at hFenced
    rw [hTurn, Option.all_some, hEnded] at hFenced
    simp only [Bool.not_true, Bool.false_or, decide_eq_true_eq] at hFenced
    exact hStat.trans hFenced.symm

theorem final_step : Final w.db (w.step input).db := by
  constructor
  · intro t row hRow
    obtain ⟨next, hNext, -, hMove⟩ := (moves_step w input).kept t row hRow
    have hId : row.threadId = t := Rows.lookup_key hRow
    exact ⟨next, hNext, hMove.final hFenced (hId.symm ▸ hRow)⟩
  · intro t turn hTurn
    obtain ⟨next, hNext, hMove⟩ := turnMoves_step w input t turn hTurn
    have hId : turn.turnId = t := Rows.lookup_key hTurn
    exact ⟨next, hNext, hMove.final hFenced (hId.symm ▸ hTurn)⟩

end Step

/-- From any state, in a run whose handlers go on from what has not moved, attempts only grow and what
ended stays. -/
theorem final_of_run (w : World) (inputs : List Input)
    (hRun : Along World.step (fun w input => fenced w input = true) w inputs) :
    Final w.db (run World.step w inputs).db := by
  have hStep : ∀ (s : World) (input : Input), Final w.db s.db → fenced s input = true →
      Final w.db (s.step input).db := fun _ _ hFinal hFenced => hFinal.trans (final_step hFenced)
  exact @run_invariant World Input World.step _ (fun s => Final w.db s.db) hStep w inputs (Final.refl w.db) hRun

def oneAttempt : List Input :=
  [.spawnOnDevice 10 ⟨"thr-1", "conv-1", "gen-1", "turn-0", none, "device-1", "List files", ⟨"turn-1", "msg-1", "print-1"⟩⟩,
    .deviceSettled 20 "turn-1" 0 .completed false (some "ok") none]

def continues (message : String) : Input := .continueDevice ⟨"thr-1", "conv-1", "gen-1"⟩ "Again" message "print-2"

def nextAttempt : List Input :=
  [.proceed 0 30 "turn-2" (.accepted ""), .deviceSettled 40 "turn-2" 0 .completed false (some "done") none]

theorem nextAttempt_final : Final emptyDb (run World.step emptyWorld (oneAttempt ++ continues "msg-2" :: nextAttempt)).db :=
  final_of_run emptyWorld _ (by decide)

/-- Two follow-ups read the first attempt; the second goes on when the first has completed attempt 2,
which runs again. -/
theorem completed_runs_again :
    let before := run World.step emptyWorld (oneAttempt ++ continues "msg-2" :: continues "msg-3" :: nextAttempt)
    let after := run World.step before [.proceed 0 50 "turn-3" (.accepted "")]
    (before.db.readThread "thr-1").map (fun row => (row.attemptGeneration, row.status)) = some (2, .completed) ∧
      (after.db.readThread "thr-1").map (fun row => (row.attemptGeneration, row.status)) = some (2, .running) ∧
      ¬ Final before.db after.db := by
  intro before after
  have hBefore : (before.db.readThread "thr-1").map (fun row => (row.attemptGeneration, row.status)) =
      some (2, .completed) := by decide
  have hAfter : (after.db.readThread "thr-1").map (fun row => (row.attemptGeneration, row.status)) =
      some (2, .running) := by decide
  refine ⟨hBefore, hAfter, fun hFinal => ?_⟩
  obtain ⟨row, hRow, hIs⟩ := Option.map_eq_some_iff.mp hBefore
  obtain ⟨next, hNext, -, hKept⟩ := hFinal.thread "thr-1" row hRow
  rw [hNext, Option.map_some] at hAfter
  have hRowIs : row.attemptGeneration = 2 ∧ row.status = .completed := Prod.ext_iff.mp hIs
  have hNextIs : next.attemptGeneration = 2 ∧ next.status = .running := Prod.ext_iff.mp (Option.some.inj hAfter)
  have hSame := hKept (hNextIs.1.trans hRowIs.1.symm) (by rw [hRowIs.2]; rfl)
  rw [hNextIs.2, hRowIs.2] at hSame
  cases hSame

end Stella.AgentThreads
