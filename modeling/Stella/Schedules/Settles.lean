import Stella.Schedules.Armed

/-! # The owner's calls and a fire's parts settle what they touch -/

namespace Stella.Schedules.Db

variable {db db' : Db} {cron : CronLib}

theorem settles_receipts (receipts : List Receipt) : db.Settles { db with receipts } :=
  fun _ => .inr ⟨rfl, rfl⟩

variable {requestId intent : String}

theorem settles_withReceipt {now : Nat} {action : Action} {write : Db → Option Db}
    (hWrite : ∀ db', write db = some db' → db.Settles db')
    (h : db.withReceipt now requestId action intent write = some db') : db.Settles db' := by
  unfold withReceipt at h
  split at h
  · split at h
    · cases h
    · obtain rfl := Option.some.inj h
      exact Settles.refl db
  · obtain ⟨written, hWritten, rfl⟩ := Option.map_eq_some_iff.mp h
    exact (hWrite written hWritten).trans (settles_receipts _)

variable {row : Row}

theorem settles_insert {id : String} {fireId : Option String} (hFresh : db.readRow id = none)
    (hKey : row.scheduleId = id) {rows : List Row} (hRows : rows = db.rows ++ [row]) :
    db.Settles ({ db with rows }.arm id row.status row.nextRunAt fireId) := by
  subst hRows
  have hRead : ∀ j, ({ db with rows := db.rows ++ [row] } : Db).readRow j =
      (db.readRow j).or (Rows.lookup Row.scheduleId [row] j) := fun j => Rows.lookup_append db.rows [row] j
  intro j
  by_cases hAt : j = id
  · left
    subst hAt
    refine armed_arm ?_
    rw [hRead, hFresh]
    simp [Rows.lookup, hKey]
  · right
    have hEq : db.Same { db with rows := db.rows ++ [row] } j := by
      refine ⟨rfl, ?_⟩
      unfold viewOf
      rw [hRead]
      simp [Rows.lookup, hKey, Ne.symm hAt]
    exact hEq.trans (same_arm id row.status row.nextRunAt fireId hAt)

variable {isAnonymous : Bool}

theorem settles_create {now : Nat} {input : CreateInput} {id : String}
    (h : db.createSchedule cron now input isAnonymous id = some db') : db.Settles db' := by
  unfold createSchedule at h
  split at h
  · cases h
  · refine settles_withReceipt (fun db' hWrite => ?_) h
    split at hWrite
    · next nextRunAt _ _ =>
      split at hWrite
      · cases hWrite
      · next hRoom =>
        obtain rfl := Option.some.inj hWrite
        have hFresh : db.readRow id = none := by
          rw [← Option.not_isSome_iff_eq_none]
          exact fun hSome => hRoom (.inr hSome)
        exact settles_insert hFresh rfl rfl
    · cases hWrite

theorem settles_update {now : Nat} {input : UpdateInput}
    (h : db.updateSchedule cron now input isAnonymous = some db') : db.Settles db' := by
  unfold updateSchedule at h
  split at h
  · cases h
  · refine settles_withReceipt (fun db' hWrite => ?_) h
    obtain ⟨row, hRow, hMove⟩ := Option.bind_eq_some_iff.mp hWrite
    obtain ⟨moved, -, hResume⟩ := Option.bind_eq_some_iff.mp hMove
    obtain ⟨nextRunAt, -, rfl⟩ := Option.map_eq_some_iff.mp hResume
    dsimp only
    split
    · exact settles_write (by intro; rfl) hRow rfl rfl
    · next hEq =>
      -- nothing that the job depends on has changed
      obtain ⟨hStat, hNext⟩ := not_or.mp hEq
      refine fun j => .inr (same_setRow (by intro; rfl) (fun row' hRow' => ?_) j)
      obtain rfl := Option.some.inj (hRow.symm.trans hRow')
      exact Prod.ext (not_not.mp hStat) (Prod.ext (not_not.mp hNext) rfl)

theorem settles_remove {now : Nat} {id : String}
    (h : db.removeSchedule now requestId intent id = some db') : db.Settles db' := by
  refine settles_withReceipt (fun db' hWrite => ?_) h
  obtain rfl := Option.some.inj hWrite
  intro j
  have hJobs : ({ db.cancel id with rows := Rows.erase Row.scheduleId db.rows id } : Db).jobsOf j =
      if j = id then [] else db.jobsOf j := jobsOf_cancel id j
  have hRow : ({ db.cancel id with rows := Rows.erase Row.scheduleId db.rows id } : Db).readRow j =
      if j = id then none else db.readRow j := Rows.lookup_erase db.rows id j
  by_cases hAt : j = id
  · left
    rw [if_pos hAt] at hJobs hRow
    simp only [Armed, hRow]
    exact hJobs
  · right
    rw [if_neg hAt] at hJobs hRow
    exact ⟨hJobs, by rw [viewOf, viewOf, hRow]⟩

theorem settles_runNow {now : Nat} {id : String} (h : db.runNow now id = some db') : db.Settles db' := by
  unfold runNow at h
  split at h
  · cases h
  · next row hRow =>
    split at h
    · cases h
    · obtain rfl := Option.some.inj h
      exact settles_write (by intro; rfl) hRow rfl rfl

theorem settles_purge : db.Settles db.purge := by
  intro j
  cases hRow : db.readRow j with
  | none =>
    right
    refine ⟨?_, ?_⟩
    · unfold jobsOf purge
      rw [List.filter_filter]
      refine List.filter_congr fun job _ => ?_
      by_cases hJob : job.scheduleId = j
      · have hNone : db.rows.any (fun r => r.scheduleId = j) = false := by
          rw [List.any_eq_false]
          exact fun r hr => List.find?_eq_none.mp hRow r hr
        simp only [hJob, hNone]
        rfl
      · simp [hJob]
    · rw [viewOf, viewOf, hRow]
      rfl
  | some row =>
    left
    have hEmpty : db.purge.readRow j = none := rfl
    simp only [Armed, hEmpty]
    unfold jobsOf purge
    rw [List.filter_filter, List.filter_eq_nil_iff]
    intro job _ hBoth
    simp only [Bool.and_eq_true, decide_eq_true_eq, Bool.not_eq_true', List.any_eq_false] at hBoth
    have hThere := hBoth.2 row (Rows.lookup_mem hRow)
    rw [Rows.lookup_key hRow, hBoth.1] at hThere
    exact hThere rfl

/-! ## Closing a fire out -/

variable {job : Job}

theorem dueAgain_iff (hRow : db.readRow job.scheduleId = some row) :
    db.dueAgain job = false ↔ (row.status = .active → row.nextRunAt ≠ job.runAt) := by
  rw [dueAgain, hRow, Option.any_some, Bool.and_eq_false_iff, decide_eq_false_iff_not, decide_eq_false_iff_not]
  exact imp_iff_not_or.symm

theorem dueAgain_write {f : Row → Row} (hKey : ∀ r, (f r).scheduleId = r.scheduleId)
    {status : Status} {nextRunAt : Nat} {again : Option String} (hRow : db.readRow job.scheduleId = some row)
    (h : (f row).status = .active → (f row).nextRunAt ≠ job.runAt) :
    ((db.setRow job.scheduleId f).arm job.scheduleId status nextRunAt again).dueAgain job = false := by
  have hWritten : ((db.setRow job.scheduleId f).arm job.scheduleId status nextRunAt again).readRow job.scheduleId =
      some (f row) := by
    rw [readRow_arm]
    exact readRow_setRow_self hKey hRow
  exact (dueAgain_iff hWritten).mpr h

section Finish

variable (now : Nat) (id fireId : String) (outcome : Outcome)

theorem finishFire_cases : db.finishFire now id fireId outcome = db ∧ ¬ db.Claimed id fireId ∨
    (db.finishFire now id fireId outcome).Armed id ∧ ∀ j ≠ id, db.Same (db.finishFire now id fireId outcome) j := by
  unfold finishFire
  split
  · next hRow =>
    left
    refine ⟨rfl, ?_⟩
    rintro ⟨row, hSome, -⟩
    rw [hRow] at hSome
    cases hSome
  · next row hRow =>
    split
    · next hOther =>
      left
      refine ⟨rfl, ?_⟩
      rintro ⟨row', hSome, hFire⟩
      rw [hRow] at hSome
      obtain rfl := Option.some.inj hSome
      exact hOther hFire
    · right
      split
      · exact ⟨armed_write (by intro; rfl) hRow rfl rfl, fun j hAway => same_write (by intro; rfl) _ _ _ hAway⟩
      · exact ⟨armed_write (by intro; rfl) hRow rfl rfl, fun j hAway => same_write (by intro; rfl) _ _ _ hAway⟩

theorem finishFire_settles : db.Settles (db.finishFire now id fireId outcome) := by
  obtain ⟨hEq, -⟩ | ⟨hArmed, hOthers⟩ := @finishFire_cases db now id fireId outcome
  · rw [hEq]
    exact Settles.refl db
  · intro j
    by_cases hAt : j = id
    · exact .inl (hAt ▸ hArmed)
    · exact .inr (hOthers j hAt)

theorem finishFire_armed (h : db.Claimed id fireId) : (db.finishFire now id fireId outcome).Armed id := by
  obtain ⟨-, hNot⟩ | ⟨hArmed, -⟩ := @finishFire_cases db now id fireId outcome
  · exact absurd h hNot
  · exact hArmed

theorem finishFire_dueAgain {job : Job} (hDue : job.runAt ≤ now) (h : db.dueAgain job = false) :
    (db.finishFire now job.scheduleId fireId outcome).dueAgain job = false := by
  unfold finishFire
  split
  · exact h
  · next row hRow =>
    have hAway := (dueAgain_iff hRow).mp h
    split
    · exact h
    · split
      · exact dueAgain_write (by intro; rfl) hRow hAway
      · refine dueAgain_write (by intro; rfl) hRow ?_
        dsimp only
        generalize (!outcome.pause && outcome.retry.isSome && (row.failureCount + 1 ≤ maxFireRetries : Bool) && _) = retry
        have hDelay : 0 < fireRetryDelayMs := by decide
        -- a retry is after now, and any other end leaves the time and does not resume
        cases retry with
        | true =>
          rintro -
          rw [if_pos rfl]
          omega
        | false =>
          rw [if_neg Bool.false_ne_true]
          split
          · rintro ⟨⟩
          · exact hAway

theorem finishFire_paused {job : Job} {message : String} (hMsg : message ≠ "") {row : Row}
    (hRow : db.readRow job.scheduleId = some row) (hFire : row.activeFireId = some fireId) :
    (db.finishFire now job.scheduleId fireId ⟨some message, none, true, false⟩).dueAgain job = false := by
  unfold finishFire
  rw [hRow]
  dsimp only
  rw [if_neg (not_not.mpr hFire), Option.filter_some, if_pos (by simpa using hMsg)]
  refine dueAgain_write (by intro; rfl) hRow ?_
  rintro ⟨⟩

end Finish

end Stella.Schedules.Db
