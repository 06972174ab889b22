import Stella.AgentThreads.Beside

/-! # Terminal results reach their device

A thread of a device that has ended is listed for it until the device has acknowledged this end.
-/

namespace Stella.AgentThreads

open Stella.Transition

/-- `deviceThreads` lists the thread, whatever the page's limit. -/
def ThreadRow.listed (row : ThreadRow) : Bool := row.originDeviceId.isSome && row.originDeliveryAckAt = none

def Db.hasAcknowledged (db : Db) (row : ThreadRow) : Prop :=
  (row.threadId, row.attemptGeneration, row.updatedAt) ∈ db.acknowledged

def Delivered (db : Db) : Prop :=
  ∀ t row, db.readThread t = some row → row.originDeviceId ≠ none → row.status.terminal = true →
    row.listed = true ∨ db.hasAcknowledged row

/-- A completion that is not `waiting_for_user` finds its thread unacknowledged. -/
def unacknowledged (w : World) : Input → Bool
  | .ownerEvent (.threadCompleted event) => (w.db.readThread event.threadId).all (fun row =>
      Db.stale row event || event.status = .waitingForUser || row.originDeviceId = none || row.originDeliveryAckAt = none)
  | _ => true

def AckStands (db : Db) (row : ThreadRow) : Prop :=
  row.originDeviceId = none ∨ row.originDeliveryAckAt = none ∨ row.status = .waitingForUser ∨
    (row.status.terminal = true ∧ db.hasAcknowledged row)

structure Delivering (w : World) : Prop where
  rows : ∀ t row, w.db.readThread t = some row → AckStands w.db row
  /-- A parked follow-up of the cloud is of a thread without a device to deliver to. -/
  parked : ∀ thread clientMsgId fingerprint description,
    .continueDevice thread clientMsgId fingerprint description ∈ w.db.tasks →
      ∃ row, w.db.readThread thread.threadId = some row ∧ row.originDeviceId = none

variable {row : ThreadRow}

theorem ackStands_of_active {db : Db} (h : AckStands db row) (hAct : row.status.active = true) :
    row.originDeviceId = none ∨ row.originDeliveryAckAt = none := by
  obtain hNone | hNone | hWaits | ⟨hEnded, -⟩ := h
  · exact .inl hNone
  · exact .inr hNone
  · rw [hWaits] at hAct
    cases hAct
  · rw [active_not_terminal hAct] at hEnded
    cases hEnded

variable {w : World} {input : Input}

theorem ackStands_step (h : Delivering w) (hKeeps : unacknowledged w input = true)
    {next : ThreadRow} (hRow : w.db.readThread row.threadId = some row) (hKey : next.threadId = row.threadId)
    (hOrig : next.originDeviceId = row.originDeviceId) (hMove : RowMove w input row next) :
    AckStands (w.step input).db next := by
  have hLeaves := leaves_step w input
  have hStands := h.rows _ row hRow
  cases hMove with
  | keeps hStat hGen hUpdated hAck =>
    unfold AckStands Db.hasAcknowledged at hStands ⊢
    rw [hOrig, hAck, hStat, hKey, hGen, hUpdated]
    obtain hNone | hNone | hWaits | ⟨hEnded, hTold⟩ := hStands
    · exact .inl hNone
    · exact .inr (.inl hNone)
    · exact .inr (.inr (.inl hWaits))
    · exact .inr (.inr (.inr ⟨hEnded, hLeaves.acknowledged _ hTold⟩))
  | restarts _ _ hAck => exact .inr (.inl hAck)
  | ends hAct _ hAck =>
    obtain hEq | hNone := hAck
    · obtain hNone | hNone := ackStands_of_active hStands hAct
      · exact .inl (hOrig.trans hNone)
      · exact .inr (.inl (hEq.trans hNone))
    · exact .inr (.inl hNone)
  | acks hWaits hStat hGen hUpdated hTold =>
    obtain hEnded | hWaits := hWaits
    · refine .inr (.inr (.inr ⟨hStat ▸ hEnded, ?_⟩))
      unfold Db.hasAcknowledged
      rw [hKey, hGen, hUpdated]
      exact hTold
    · exact .inr (.inr (.inl (hStat.trans hWaits)))
  | reports event hEv hAbout hFresh hStat _ hAck =>
    subst hEv
    unfold unacknowledged at hKeeps
    dsimp only at hKeeps
    rw [hAbout, hRow, Option.all_some, hFresh] at hKeeps
    simp only [Bool.false_or, Bool.or_eq_true, decide_eq_true_eq] at hKeeps
    obtain (hWaits | hNone) | hNone := hKeeps
    · exact .inr (.inr (.inl (hStat.trans hWaits)))
    · exact .inl (hOrig.trans hNone)
    · exact .inr (.inl (hAck.trans hNone))
  | continues i now turnId answer thread clientMsgId fingerprint description _ hTask hAbout _ _ _ =>
    obtain ⟨stored, hStored, hNone⟩ := h.parked _ _ _ _ (List.mem_of_getElem? hTask)
    rw [hAbout, hRow] at hStored
    obtain rfl := Option.some.inj hStored
    exact .inl (hOrig.trans hNone)

theorem Delivering.step (h : Delivering w) (hKeeps : unacknowledged w input = true) :
    Delivering (w.step input) := by
  have hMoves := moves_step w input
  constructor
  · intro t next hNext
    cases hRow : w.db.readThread t with
    | none => exact .inr (.inl (hMoves.founds t next hRow hNext).2)
    | some row =>
      obtain ⟨same, hEq, hOrig, hMove⟩ := hMoves.kept t row hRow
      obtain rfl := Option.some.inj (hEq.symm.trans hNext)
      have hId : row.threadId = t := Rows.lookup_key hRow
      have hNextId : same.threadId = t := Rows.lookup_key hNext
      exact ackStands_step h hKeeps (hId.symm ▸ hRow) (hNextId.trans hId.symm) hOrig hMove
  · intro thread clientMsgId fingerprint description hTask
    have hBef : ∃ row, w.db.readThread thread.threadId = some row ∧ row.originDeviceId = none := by
      obtain hOld | ⟨args, hRead⟩ := (leaves_step w input).tasks _ hTask
      · exact h.parked thread clientMsgId fingerprint description hOld
      · obtain ⟨hThr, hIs⟩ := Option.filter_eq_some_iff.mp hRead
        have hId : thread.threadId = args.threadId := Rows.lookup_key hThr
        simp only [Bool.and_eq_true, decide_eq_true_eq] at hIs
        exact ⟨thread, hId.symm ▸ hThr, hIs.1.1.2⟩
    obtain ⟨row, hRow, hNone⟩ := hBef
    obtain ⟨next, hNext, hOrig, -⟩ := hMoves.kept _ row hRow
    exact ⟨next, hNext, hOrig.trans hNone⟩

theorem Delivering.delivered (h : Delivering w) : Delivered w.db := by
  intro t row hRow hOrig hEnded
  obtain hNone | hNone | hWaits | ⟨-, hTold⟩ := h.rows t row hRow
  · exact absurd hNone hOrig
  · left
    unfold ThreadRow.listed
    rw [hNone]
    simpa using Option.isSome_iff_ne_none.mpr hOrig
  · rw [hWaits] at hEnded
    cases hEnded
  · exact .inr hTold

theorem delivering_empty : Delivering emptyWorld := by
  constructor
  · intro t row hRow
    cases hRow
  · intro thread clientMsgId fingerprint description hTask
    cases hTask

/-- Where terminal completions find their thread unacknowledged, every terminal result is listed for its
device or acknowledged, at every moment of every run. -/
theorem kept_delivery_of_run {inputs : List Input}
    (hRun : Along World.step (fun w input => unacknowledged w input = true) emptyWorld inputs) :
    Delivered (run World.step emptyWorld inputs).db := by
  have hStep : ∀ (w : World) (input : Input), Delivering w → unacknowledged w input = true →
      Delivering (w.step input) := fun _ _ h hKeeps => h.step hKeeps
  exact (run_invariant hStep delivering_empty hRun).delivered

def spawnsCloud : Input :=
  .spawnFromDesktop 10 ⟨"thr-1", "conv-1", "gen-1", "desktop-1", "chat-1", none, "List files", ⟨"turn-1", "msg-1", "print-1"⟩⟩

def reportsStatus (status : Status) (time : Int) : Input :=
  .ownerEvent (.threadCompleted ⟨"thr-1", "gen-1", 1, status, none, none, time⟩)

def acknowledges (updatedAt : Int) : Input := .acknowledge 25 ⟨"thr-1", "desktop-1", "gen-1", 1, updatedAt⟩

theorem delivered_of_waits : Delivered (run World.step emptyWorld
    [spawnsCloud, reportsStatus .waitingForUser 20, reportsStatus .completed 30, acknowledges 30]).db :=
  kept_delivery_of_run (by decide)

/-- An attempt waits, is acknowledged, and completes: it is not listed, and its end was not acknowledged. -/
theorem completed_unlisted :
    let db := (run World.step emptyWorld
      [spawnsCloud, reportsStatus .waitingForUser 20, acknowledges 20, reportsStatus .completed 30]).db
    (db.readThread "thr-1").map (fun row => (row.status, row.updatedAt, row.listed)) = some (.completed, 30, false) ∧
      db.acknowledged = [("thr-1", 1, 20)] ∧ ¬ Delivered db := by
  intro db
  have hRow : (db.readThread "thr-1").map (fun row => (row.status, row.updatedAt, row.listed)) =
      some (.completed, 30, false) := by decide
  have hOrigin : (db.readThread "thr-1").map (fun row => row.originDeviceId) = some (some "desktop-1") := by decide
  have hTold : db.acknowledged = [("thr-1", 1, 20)] := by decide
  refine ⟨hRow, hTold, fun hDelivered => ?_⟩
  obtain ⟨row, hRead, hIs⟩ := Option.map_eq_some_iff.mp hRow
  rw [hRead, Option.map_some] at hOrigin
  simp only [Prod.mk.injEq] at hIs
  obtain ⟨hStatus, hUpdated, hListed⟩ := hIs
  have hDevice : row.originDeviceId ≠ none := by
    rw [Option.some.inj hOrigin]
    exact Option.some_ne_none _
  obtain hListed' | hAcked := hDelivered "thr-1" row hRead hDevice (by rw [hStatus]; rfl)
  · rw [hListed] at hListed'
    cases hListed'
  · unfold Db.hasAcknowledged at hAcked
    rw [hTold, hUpdated] at hAcked
    simp at hAcked

end Stella.AgentThreads
