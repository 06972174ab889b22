import Stella.UserAsks.Model

/-! # What the steps of the asks keep

An ask that is closed is not armed, an ask that is open has no accepted answer, and the
pushes on record are all that were recorded within an hour of the clock.
-/

namespace Stella.UserAsks

open Stella.Rows

def Limited : List Recorded → Prop
  | [] => True
  | push :: earlier => (earlier.countP fun other => push.sentAt - pushWindowMs ≤ other.sentAt) < push.limit ∧ Limited earlier

theorem Limited.rolling {recorded : List Recorded} (h : Limited recorded) (since : Int) {limit : Nat}
    (hLimit : ∀ push ∈ recorded, since ≤ push.sentAt → push.sentAt ≤ since + pushWindowMs → push.limit ≤ limit) :
    (recorded.countP fun push => since ≤ push.sentAt && push.sentAt ≤ since + pushWindowMs) ≤ limit := by
  induction recorded with
  | nil => exact Nat.zero_le _
  | cons push earlier ih =>
    obtain ⟨hPush, hEarlier⟩ := h
    by_cases hIn : since ≤ push.sentAt ∧ push.sentAt ≤ since + pushWindowMs
    · rw [List.countP_cons_of_pos (by simpa using hIn)]
      have hMost := List.countP_mono_left (l := earlier)
        (p := fun other => since ≤ other.sentAt && other.sentAt ≤ since + pushWindowMs)
        (q := fun other => push.sentAt - pushWindowMs ≤ other.sentAt) (fun other _ hOther => by
          simp only [Bool.and_eq_true, decide_eq_true_eq] at hOther ⊢
          omega)
      have hOwn := hLimit push List.mem_cons_self hIn.1 hIn.2
      omega
    · rw [List.countP_cons_of_neg (by simpa using hIn)]
      exact ih hEarlier fun other hOther => hLimit other (List.mem_cons_of_mem _ hOther)

namespace AskStore

variable {δ α : Type}

def Grows (w later : AskStore δ α) : Prop :=
  ∀ row ∈ w.asks, ∃ next ∈ later.asks, next.serial = row.serial ∧ (userAskIsOpen row.state = false → next = row) ∧
    row.revision ≤ next.revision ∧ row.escalationLevel ≤ next.escalationLevel

structure Kept (w : AskStore δ α) : Prop where
  askIds : (w.asks.map AskRow.askId).Nodup
  serials : (w.asks.map AskRow.serial).Nodup
  known : ∀ row ∈ w.asks, row.serial < w.nextSerial
  levels : ∀ row ∈ w.asks, row.escalationLevel ≤ 4
  once : (w.accepted.map Acceptance.serial).Nodup
  current : ∀ acceptance ∈ w.accepted, acceptance.given = acceptance.revision ∧ acceptance.serial < w.nextSerial
  unanswered : ∀ row ∈ w.asks, userAskIsOpen row.state = true → ∀ acceptance ∈ w.accepted, acceptance.serial ≠ row.serial
  disarmed : ∀ row ∈ w.asks, userAskIsOpen row.state = false → ∀ armed ∈ w.jobs, armed.askId = row.askId →
    armed.job = .deliverLateJob
  /-- What is recorded or waits for a closed ask began before the ask was closed. -/
  pushed : ∀ push ∈ w.pushes, push.sentAt ≤ w.clock ∧
    ∀ row ∈ w.asks, userAskIsOpen row.state = false → row.askId = push.askId → push.sentAt ≤ row.updatedAt
  waiting : ∀ call ∈ w.calls, (call.level ≤ 4 ∧ call.now ≤ w.clock) ∧
    (∀ row ∈ w.asks, userAskIsOpen row.state = false → row.askId = call.askId → call.now ≤ row.updatedAt) ∧
    call.recordedBefore ≤ w.recorded.length ∧ (call.recordedBefore = w.recorded.length →
      (w.recorded.countP fun push => call.now - pushWindowMs ≤ push.sentAt) < call.limit)
  /-- No push of the last day is forgotten. -/
  retained : ∀ since, w.clock - pushRetentionMs ≤ since →
    (w.recorded.countP fun push => since ≤ push.sentAt) ≤ w.pushes.countP fun push => since ≤ push.sentAt
  limited : Limited w.recorded

variable {w later : AskStore δ α}

theorem grows_of_asks (h : later.asks = w.asks) : w.Grows later :=
  fun row hRow => ⟨row, h ▸ hRow, rfl, fun _ => rfl, Nat.le_refl _, Nat.le_refl _⟩

theorem Grows.trans {last : AskStore δ α} (h : w.Grows later) (hLast : later.Grows last) : w.Grows last := by
  intro row hRow
  obtain ⟨next, hNext, hSerial, hClosed, hRev, hLevel⟩ := h row hRow
  obtain ⟨final, hFinal, hSerial', hClosed', hRev', hLevel'⟩ := hLast next hNext
  refine ⟨final, hFinal, hSerial'.trans hSerial, fun hSt => ?_, hRev.trans hRev', hLevel.trans hLevel'⟩
  have hEq := hClosed hSt
  rw [hClosed' (hEq ▸ hSt), hEq]

structure Admits (w : AskStore δ α) (askId : String) (f : AskRow δ → AskRow δ) : Prop where
  id : ∀ row, (f row).askId = row.askId
  serial : ∀ row, (f row).serial = row.serial
  wasOpen : ∀ row ∈ w.asks, row.askId = askId → userAskIsOpen row.state = true
  revision : ∀ row, row.revision ≤ (f row).revision
  level : ∀ row ∈ w.asks, row.askId = askId → row.escalationLevel ≤ (f row).escalationLevel ∧ (f row).escalationLevel ≤ 4

variable {askId : String} {f : AskRow δ → AskRow δ}

theorem mem_update {row : AskRow δ} (hRow : row ∈ (w.update askId f).asks) :
    (∃ old ∈ w.asks, old.askId = askId ∧ row = f old) ∨ (row ∈ w.asks ∧ row.askId ≠ askId) := mem_modify hRow

theorem Admits.grows (h : w.Admits askId f) : w.Grows (w.update askId f) := by
  intro row hRow
  refine ⟨_, List.mem_map_of_mem hRow, ?_⟩
  split
  · next hId =>
    refine ⟨h.serial row, fun hClosed => ?_, h.revision row, (h.level row hRow hId).1⟩
    rw [h.wasOpen row hRow hId] at hClosed
    cases hClosed
  · exact ⟨rfl, fun _ => rfl, Nat.le_refl _, Nat.le_refl _⟩

theorem map_serial_update (h : w.Admits askId f) : (w.update askId f).asks.map AskRow.serial = w.asks.map AskRow.serial := by
  unfold update Rows.modify
  rw [List.map_map]
  refine List.map_congr_left fun row _ => ?_
  rw [Function.comp_apply]
  split
  · exact h.serial row
  · rfl

theorem Kept.update (h : w.Kept) (hAdmits : w.Admits askId f)
    (hOpen : ∀ row ∈ w.asks, row.askId = askId → userAskIsOpen (f row).state = true) : (w.update askId f).Kept := by
  have hClosed : ∀ row ∈ (w.update askId f).asks, userAskIsOpen row.state = false → row ∈ w.asks := by
    intro row hRow hSt
    rcases mem_update hRow with ⟨old, hOld, hId, rfl⟩ | ⟨hOld, -⟩
    · rw [hOpen old hOld hId] at hSt
      cases hSt
    · exact hOld
  have hWas : ∀ row ∈ (w.update askId f).asks, ∃ old ∈ w.asks, row.serial = old.serial ∧
      (userAskIsOpen row.state = true → userAskIsOpen old.state = true) ∧ row.escalationLevel ≤ 4 := by
    intro row hRow
    rcases mem_update hRow with ⟨old, hOld, hId, rfl⟩ | ⟨hOld, -⟩
    · exact ⟨old, hOld, hAdmits.serial old, fun _ => hAdmits.wasOpen old hOld hId, (hAdmits.level old hOld hId).2⟩
    · exact ⟨row, hOld, rfl, fun hSt => hSt, h.levels row hOld⟩
  exact
    { h with
      askIds := (map_key_modify hAdmits.id w.asks askId).symm ▸ h.askIds
      serials := (map_serial_update hAdmits).symm ▸ h.serials
      known := fun row hRow => by
        obtain ⟨old, hOld, hSerial, -⟩ := hWas row hRow
        exact hSerial ▸ h.known old hOld
      levels := fun row hRow => by
        obtain ⟨_, _, _, _, hLevel⟩ := hWas row hRow
        exact hLevel
      unanswered := fun row hRow hSt acceptance hAccept => by
        obtain ⟨old, hOld, hSerial, hWasOpen, -⟩ := hWas row hRow
        exact hSerial ▸ h.unanswered old hOld (hWasOpen hSt) acceptance hAccept
      disarmed := fun row hRow hSt => h.disarmed row (hClosed row hRow hSt) hSt
      pushed := fun push hPush => ⟨(h.pushed push hPush).1, fun row hRow hSt =>
        (h.pushed push hPush).2 row (hClosed row hRow hSt) hSt⟩
      waiting := fun call hCall => ⟨(h.waiting call hCall).1, fun row hRow hSt =>
        (h.waiting call hCall).2.1 row (hClosed row hRow hSt) hSt, (h.waiting call hCall).2.2⟩ }

theorem Kept.cancelJob (h : w.Kept) (job : AskJob) (askId : String) : (w.cancelJob job askId).Kept :=
  { h with disarmed := fun row hRow hSt armed hArmed => h.disarmed row hRow hSt armed (mem_erase.mp hArmed).1 }

theorem Kept.schedule (h : w.Kept) {job : AskJob} (hOpen : ∀ row ∈ w.asks, row.askId = askId → userAskIsOpen row.state = false →
    job = .deliverLateJob) (runAt : Int) : (w.schedule job askId runAt).Kept :=
  { h with
    disarmed := fun row hRow hSt armed hArmed hId => by
      rcases mem_upsert hArmed with rfl | ⟨hOld, -⟩
      · exact hOpen row hRow hId.symm hSt
      · exact h.disarmed row hRow hSt armed hOld hId }

def closing (w : AskStore δ α) (state : UserAskState) (row : AskRow δ) : AskRow δ :=
  { row with state, revision := row.revision + 1, nextEscalationAt := none, updatedAt := w.clock }

theorem closeAsk_asks (w : AskStore δ α) (askId : String) (state : UserAskState) :
    (w.closeAsk askId state).asks = modify AskRow.askId w.asks askId (w.closing state) := rfl

theorem Kept.admits_closing (h : w.Kept) (state : UserAskState)
    (hOpen : ∀ row ∈ w.asks, row.askId = askId → userAskIsOpen row.state = true) : w.Admits askId (w.closing state) where
  id _ := rfl
  serial _ := rfl
  wasOpen := hOpen
  revision _ := Nat.le_succ _
  level row hRow _ := ⟨Nat.le_refl _, h.levels row hRow⟩

theorem closeAsk_jobs {state : UserAskState} {armed : ArmedJob} (hArmed : armed ∈ (w.closeAsk askId state).jobs) :
    armed ∈ w.jobs ∧ (armed.askId = askId → armed.job = .deliverLateJob) := by
  obtain ⟨hArmed, hCloud⟩ := mem_erase.mp hArmed
  obtain ⟨hArmed, hRepeat⟩ := mem_erase.mp hArmed
  obtain ⟨hArmed, hExpire⟩ := mem_erase.mp hArmed
  obtain ⟨hArmed, hDefault⟩ := mem_erase.mp hArmed
  refine ⟨hArmed, fun hId => ?_⟩
  simp only [ArmedJob.id, hId, ne_eq, Prod.mk.injEq, and_true] at hCloud hRepeat hExpire hDefault
  cases hJob : armed.job with
  | deliverLateJob => rfl
  | defaultJob => exact absurd hJob hDefault
  | expireJob => exact absurd hJob hExpire
  | repeatJob => exact absurd hJob hRepeat
  | cloudEscalateJob => exact absurd hJob hCloud

end AskStore

end Stella.UserAsks
