import Stella.Schedules.Settles

/-! # Every active schedule has its one pending fire

While no pass runs, an active schedule has exactly its one job, at its next run, and no other
schedule has one.
-/

namespace Stella.Schedules

open Stella.Transition List

variable {cron : CronLib}

def Pending (db : Db) : Prop := ∀ scheduleId, db.Armed scheduleId

def notDueAgain (w : World) : Input → Bool
  | .snapshotFails _ => false
  | .start i answer _ =>
    match w.passes[i]? with
    | some ⟨_, job, .start _ _ pinned, _⟩ =>
      (match answer, pinned with
        | .refused _ _ true, true => true
        | _, _ => !w.db.dueAgain job)
    | some ⟨_, job, .restart _ _ _, _⟩ => !w.db.dueAgain job
    | _ => true
  | _ => true

namespace Db

variable {db : Db} {job : Job}

theorem armed_jobEnded {id : String} (hArmed : db.Armed id) (h : db.dueAgain job = false) : (db.jobEnded job).Armed id := by
  have hRead : (db.jobEnded job).readRow id = db.readRow id := rfl
  have hJobs : (db.jobEnded job).jobsOf id = (db.jobsOf id).filter fun j =>
      !(j.scheduleId = job.scheduleId && j.runAt = job.runAt && j.attempts = job.attempts) := by
    unfold jobsOf jobEnded
    rw [filter_filter, filter_filter]
    exact filter_congr fun j _ => Bool.and_comm ..
  cases hRow : db.readRow id with
  | none =>
    simp only [Armed, hRow] at hArmed
    simp only [Armed, hRead, hRow, hJobs, hArmed, filter_nil]
  | some row =>
    simp only [Armed, hRow] at hArmed
    simp only [Armed, hRead, hRow, hJobs]
    split
    · next hAct =>
      rw [if_pos hAct] at hArmed
      obtain ⟨own, hOwn, hAt⟩ := hArmed
      refine ⟨own, ?_, hAt⟩
      have hId : own.scheduleId = id := by
        have hMem : own ∈ db.jobsOf id := by rw [hOwn]; exact mem_singleton_self own
        simpa using (mem_filter.mp hMem).2
      rw [hOwn, filter_cons_of_pos, filter_nil]
      rw [Bool.not_eq_true', Bool.and_eq_false_iff, Bool.and_eq_false_iff, decide_eq_false_iff_not,
        decide_eq_false_iff_not]
      by_cases hEq : own.scheduleId = job.scheduleId
      · left
        right
        rw [hAt]
        exact (dueAgain_iff (by rw [← hEq, hId]; exact hRow)).mp h hAct
      · exact .inl (.inl hEq)
    · next hInactive =>
      rw [if_neg hInactive] at hArmed
      rw [hArmed, filter_nil]

theorem enforceOwnerRateLimit_rows {now count : Nat} {db' : Db} (h : db.enforceOwnerRateLimit now count = some db') :
    db'.rows = db.rows ∧ db'.jobs = db.jobs := by
  unfold enforceOwnerRateLimit at h
  split at h
  · obtain rfl := Option.some.inj h
    exact ⟨rfl, rfl⟩
  · split at h
    · split at h
      · cases h
      · obtain rfl := Option.some.inj h
        exact ⟨rfl, rfl⟩
    · obtain rfl := Option.some.inj h
      exact ⟨rfl, rfl⟩

theorem spend_cases {now : Nat} {row : Row} {fireId : String} {retrying : Bool} {s : Snapshot}
    (hId : row.scheduleId = job.scheduleId) (hDue : job.runAt ≤ now) (hClaimed : db.Claimed job.scheduleId fireId)
    (hAway : db.dueAgain job = false) :
    (∃ db', db.spend now row fireId retrying s = (db', none) ∧ db.Settles db' ∧ db'.Armed job.scheduleId ∧
      db'.dueAgain job = false) ∨
    (∃ db' stage, db.spend now row fireId retrying s = (db', some stage) ∧ stage.fireId = some fireId ∧
      db'.Claimed job.scheduleId fireId ∧ ∀ j ≠ job.scheduleId, db.Same db' j) := by
  have hFinish : ∀ outcome, db.Settles (db.finishFire now job.scheduleId fireId outcome) ∧
      (db.finishFire now job.scheduleId fireId outcome).Armed job.scheduleId ∧
      (db.finishFire now job.scheduleId fireId outcome).dueAgain job = false := fun outcome =>
    ⟨finishFire_settles now _ fireId outcome, finishFire_armed now _ fireId outcome hClaimed,
      finishFire_dueAgain now fireId outcome hDue hAway⟩
  unfold spend
  rw [hId]
  dsimp only
  split
  · exact .inl ⟨_, rfl, hFinish _⟩
  · split
    · exact .inl ⟨_, rfl, hFinish _⟩
    · next db' hSpent =>
      right
      have hRows : db'.rows = db.rows ∧ db'.jobs = db.jobs := by
        split at hSpent
        · obtain rfl := Option.some.inj hSpent
          exact ⟨rfl, rfl⟩
        · exact enforceOwnerRateLimit_rows hSpent
      have hEq : ∀ j, db.Same (db'.setRow job.scheduleId fun r =>
          { r with conversationId := some (row.conversationId.getD s.conversationId) }) j := by
        intro j
        have hFirst : db.Same db' j := by
          unfold Same jobsOf viewOf readRow
          rw [hRows.1, hRows.2]
          exact ⟨rfl, rfl⟩
        refine hFirst.trans (same_setRow ?_ ?_ j)
        · intro r
          rfl
        · intro r _
          rfl
      exact ⟨_, _, rfl, rfl, hClaimed.congr (hEq _).2, fun j _ => hEq j⟩

theorem fire_cases {now : Nat} {s : Snapshot} (hDue : job.runAt ≤ now) :
    (∃ db', db.fire cron now job s = (db', none) ∧ db.Settles db' ∧ db'.dueAgain job = false) ∨
    (∃ db' stage fireId, db.fire cron now job s = (db', some stage) ∧ stage.fireId = some fireId ∧
      db'.Claimed job.scheduleId fireId ∧ ∀ j ≠ job.scheduleId, db.Same db' j) := by
  unfold fire
  split
  · next hRow => exact .inl ⟨db, rfl, Settles.refl db, by rw [dueAgain, hRow]; rfl⟩
  · next row hRow =>
    have hId : row.scheduleId = job.scheduleId := Rows.lookup_key hRow
    split
    · next hInactive =>
      exact .inl ⟨db, rfl, Settles.refl db, (dueAgain_iff hRow).mpr (fun hAct => absurd hAct hInactive)⟩
    · split
      · next hLater =>
        left
        refine ⟨_, rfl, fun j => ?_, ?_⟩
        · by_cases hAt : j = job.scheduleId
          · rw [hAt]
            exact .inl (armed_arm hRow)
          · exact .inr (same_arm _ _ _ _ hAt)
        · refine (dueAgain_iff (by rw [readRow_arm]; exact hRow)).mpr (fun _ => ?_)
          omega
      · dsimp only
        generalize (if (job.fireId.isSome && job.fireId = row.activeFireId : Bool) then job.fireId.getD s.fireId
          else s.fireId) = fireId
        split
        · next message hNext =>
          -- the row is claimed only to be paused
          left
          have hSet : (db.setRow job.scheduleId fun r => { r with activeFireId := some fireId }).readRow job.scheduleId =
              some { row with activeFireId := some fireId } := readRow_setRow_self (by intro; rfl) hRow
          have hError : computeNextRunAt cron row.schedule (now + 1000) = .error message := by
            split at hNext
            · cases hNext
            · exact hNext
          refine ⟨_, rfl, fun j => ?_, finishFire_paused now fireId (computeNextRunAt_error hError) hSet rfl⟩
          by_cases hAt : j = job.scheduleId
          · rw [hAt]
            exact .inl (finishFire_armed now _ fireId _ ⟨_, hSet, rfl⟩)
          · exact (finishFire_settles now _ fireId _ j).imp_right
              (fun hEq => (same_setRow_other (by intro; rfl) hAt).trans hEq)
        · next nextRunAt hNext =>
          have hClaim : (db.claim now job.scheduleId fireId row.schedule.oneShot nextRunAt).readRow job.scheduleId =
              some { row with activeFireId := some fireId, lastRunAt := some now, nextRunAt,
                              status := if row.schedule.oneShot then .done else .active } :=
            readRow_setRow_self (by intro; rfl) hRow
          have hOthers : ∀ j ≠ job.scheduleId, db.Same (db.claim now job.scheduleId fireId row.schedule.oneShot nextRunAt) j :=
            fun j hAway => same_setRow_other (by intro; rfl) hAway
          have hAway : (db.claim now job.scheduleId fireId row.schedule.oneShot nextRunAt).dueAgain job = false := by
            refine (dueAgain_iff hClaim).mpr ?_
            dsimp only
            split at hNext
            · next hOnce =>
              rw [if_pos hOnce]
              rintro ⟨⟩
            · have hAfter := computeNextRunAt_ge hNext
              omega
          obtain ⟨db', hEnd, hSettles, hArmed, hQuiet⟩ | ⟨db', stage, hPark, hStage, hClaimed, hEq⟩ :=
            @spend_cases _ job now row fireId _ s hId hDue ⟨_, hClaim, rfl⟩ hAway
          · refine .inl ⟨db', hEnd, fun j => ?_, hQuiet⟩
            by_cases hAt : j = job.scheduleId
            · rw [hAt]
              exact .inl hArmed
            · exact (hSettles j).imp_right (hOthers j hAt).trans
          · exact .inr ⟨db', stage, fireId, hPark, hStage, hClaimed, fun j hAt => (hOthers j hAt).trans (hEq j hAt)⟩

theorem fireStarted_finish (now : Nat) (job : Job) (fireId : String) (oneShot : Bool) (answer : StartAnswer) :
    ∃ outcome, db.fireStarted now job fireId oneShot answer = db.finishFire now job.scheduleId fireId outcome := by
  cases answer with
  | started => exact ⟨⟨none, none, false, false⟩, rfl⟩
  | refused message retryable _ => exact ⟨⟨some message, if retryable then some false else none, false, oneShot⟩, rfl⟩
  | failed message => exact ⟨⟨some message, some true, false, oneShot⟩, rfl⟩

theorem same_pinRestarted (fireId conversationId : String) (j : String) :
    db.Same (db.pinRestarted job fireId conversationId) j := by
  unfold pinRestarted
  split
  · refine same_setRow ?_ ?_ j
    · intro r
      rfl
    · intro r _
      rfl
  · exact Same.refl db j

theorem dueAgain_congr {db' : Db} (h : db'.viewOf job.scheduleId = db.viewOf job.scheduleId) :
    db'.dueAgain job = db.dueAgain job := by
  have hView : ∀ db : Db, db.dueAgain job =
      (db.viewOf job.scheduleId).any fun view => view.1 = .active && view.2.1 = job.runAt := by
    intro db
    unfold viewOf dueAgain
    rw [Option.any_map]
    rfl
  rw [hView, hView, h]

end Db

def Pass.holds (pass : Pass) (scheduleId fireId : String) : Prop :=
  pass.job.scheduleId = scheduleId ∧ pass.stage.fireId = some fireId

namespace World

variable {w : World}

def Held (w : World) (scheduleId : String) : Prop :=
  ∃ fireId, w.db.Claimed scheduleId fireId ∧ ∃ pass ∈ w.passes, pass.holds scheduleId fireId

structure Kept (w : World) : Prop where
  due : ∀ pass ∈ w.passes, ∀ job ∈ pass.job :: pass.rest, job.runAt ≤ pass.now
  owed : ∀ scheduleId, w.db.Armed scheduleId ∨ w.Held scheduleId

theorem kept_emptyWorld : emptyWorld.Kept :=
  ⟨fun _ hPass => absurd hPass not_mem_nil, fun _ => .inl rfl⟩

theorem Kept.pending (h : w.Kept) (hIdle : w.passes = []) : Pending w.db := by
  intro id
  obtain hArmed | ⟨fireId, -, pass, hPass, -⟩ := h.owed id
  · exact hArmed
  · rw [hIdle] at hPass
    exact absurd hPass not_mem_nil

theorem kept_call (h : w.Kept) {written : Option Db} (hSettles : ∀ db, written = some db → w.db.Settles db) :
    (w.call written).Kept := by
  have hAll : w.db.Settles (w.call written).db := by
    cases written with
    | none => exact Db.Settles.refl w.db
    | some db => exact hSettles db rfl
  refine ⟨h.due, fun id => ?_⟩
  obtain hArmed | hEq := hAll id
  · exact .inl hArmed
  · refine (h.owed id).imp hEq.armed ?_
    rintro ⟨fireId, hClaimed, hPass⟩
    exact ⟨fireId, hClaimed.congr hEq.2, hPass⟩

theorem kept_runDueJobs (h : w.Kept) (now others : Nat) : (w.runDueJobs now others).Kept := by
  unfold runDueJobs
  split
  · exact h
  · next job rest hBatch =>
    refine ⟨fun pass hPass => ?_, fun id => ?_⟩
    · obtain hOld | hNew := mem_append.mp hPass
      · exact h.due pass hOld
      · rw [mem_singleton.mp hNew, ← hBatch]
        intro j hj
        have hDue := mem_of_mem_take hj
        rw [mem_insertionSort, mem_filter, decide_eq_true_eq] at hDue
        exact hDue.2
    · refine (h.owed id).imp_right ?_
      rintro ⟨fireId, hClaimed, pass, hPass, hHolds⟩
      exact ⟨fireId, hClaimed, pass, mem_append_left _ hPass, hHolds⟩

section Pass

variable {i : Nat} {pass : Pass}

theorem mem_of_ne {other replaced : Pass} (hAt : w.passes[i]? = some pass) (hOther : other ∈ w.passes) (hNe : other ≠ pass) :
    other ∈ w.passes.eraseIdx i ∧ other ∈ w.passes.set i replaced := by
  obtain ⟨k, hk⟩ := mem_iff_getElem?.mp hOther
  have hAway : k ≠ i := by
    rintro rfl
    exact hNe (Option.some.inj (hk.symm.trans hAt))
  refine ⟨mem_eraseIdx_iff_getElem?.mpr ⟨k, hAway, hk⟩, mem_iff_getElem?.mpr ⟨k, ?_⟩⟩
  rw [getElem?_set_ne (Ne.symm hAway)]
  exact hk

theorem due_next (h : w.Kept) (hAt : w.passes[i]? = some pass) (db : Db) :
    ∀ p ∈ (w.next i pass db).passes, ∀ job ∈ p.job :: p.rest, job.runAt ≤ p.now := by
  intro p hp
  have hPass := h.due pass (mem_of_getElem? hAt)
  unfold next at hp
  dsimp only at hp
  split at hp
  · exact h.due p (mem_of_mem_eraseIdx hp)
  · next job rest hRest =>
    obtain hOld | rfl := mem_or_eq_of_mem_set hp
    · exact h.due p hOld
    · intro j hj
      exact hPass j (mem_cons_of_mem _ (hRest ▸ hj))

theorem kept_next (h : w.Kept) (hAt : w.passes[i]? = some pass) {db : Db} (hSettles : w.db.Settles db)
    (hOwn : ∀ fireId, pass.stage.fireId = some fireId → w.db.Claimed pass.job.scheduleId fireId →
      db.Armed pass.job.scheduleId)
    (hAway : db.dueAgain pass.job = false) : (w.next i pass (db.jobEnded pass.job)).Kept := by
  refine ⟨due_next h hAt _, fun id => ?_⟩
  obtain hArmed | hEq := hSettles id
  · exact .inl (Db.armed_jobEnded hArmed hAway)
  · obtain hArmed | ⟨fireId, hClaimed, other, hOther, hHolds⟩ := h.owed id
    · exact .inl (Db.armed_jobEnded (hEq.armed hArmed) hAway)
    · by_cases hIs : other = pass
      · left
        subst hIs
        obtain ⟨hId, hFire⟩ := hHolds
        subst hId
        exact Db.armed_jobEnded (hOwn fireId hFire hClaimed) hAway
      · right
        have hStill : other ∈ (w.next i pass (db.jobEnded pass.job)).passes := by
          unfold next
          dsimp only
          split
          · exact (@mem_of_ne w i pass other pass hAt hOther hIs).1
          · exact (mem_of_ne hAt hOther hIs).2
        exact ⟨fireId, hClaimed.congr hEq.2, other, hStill, hHolds⟩

theorem kept_parkAt (h : w.Kept) (hAt : w.passes[i]? = some pass) {db : Db} {stage : Await}
    (hOthers : ∀ j, w.db.Same db j ∨ j = pass.job.scheduleId ∧ ∃ fireId, stage.fireId = some fireId ∧ db.Claimed j fireId)
    (hStage : ∀ fireId, pass.stage.fireId = some fireId → stage.fireId = some fireId) :
    (w.parkAt i pass db stage).Kept := by
  have hLt : i < w.passes.length := (List.getElem?_eq_some_iff.mp hAt).1
  have hParked : { pass with stage } ∈ w.passes.set i { pass with stage } := List.mem_set hLt _
  refine ⟨fun p hp => ?_, fun id => ?_⟩
  · obtain hOld | rfl := mem_or_eq_of_mem_set hp
    · exact h.due p hOld
    · exact h.due pass (mem_of_getElem? hAt)
  · obtain hEq | ⟨rfl, fireId, hFire, hClaimed⟩ := hOthers id
    · refine (h.owed id).imp hEq.armed ?_
      rintro ⟨fireId, hClaimed, other, hOther, hHolds⟩
      refine ⟨fireId, hClaimed.congr hEq.2, ?_⟩
      by_cases hIs : other = pass
      · subst hIs
        exact ⟨_, hParked, hHolds.1, hStage fireId hHolds.2⟩
      · exact ⟨other, (mem_of_ne hAt hOther hIs).2, hHolds⟩
    · exact .inr ⟨fireId, hClaimed, _, hParked, rfl, hFire⟩

theorem kept_snapshot (h : w.Kept) (i : Nat) (answer : Snapshot) : (w.snapshot cron i answer).Kept := by
  unfold snapshot
  split
  · next now job rest hAt =>
    have hDue : job.runAt ≤ now := h.due _ (mem_of_getElem? hAt) job mem_cons_self
    obtain ⟨db, hEnd, hSettles, hAway⟩ | ⟨db, stage, fireId, hPark, hFire, hClaimed, hEq⟩ :=
      @Db.fire_cases cron w.db job now answer hDue
    · rw [hEnd]
      exact kept_next h hAt hSettles (fun _ hNone => nomatch hNone) hAway
    · rw [hPark]
      refine kept_parkAt h hAt (fun j => ?_) (fun _ hNone => nomatch hNone)
      by_cases hId : j = job.scheduleId
      · exact .inr ⟨hId, fireId, hFire, hId ▸ hClaimed⟩
      · exact .inl (hEq j hId)
  · exact h

theorem kept_ends (h : w.Kept) (hAt : w.passes[i]? = some pass) {fireId : String} (hFire : pass.stage.fireId = some fireId)
    {db : Db} (hEq : ∀ j, w.db.Same db j) (oneShot : Bool) (answer : StartAnswer)
    (hAway : w.db.dueAgain pass.job = false) :
    (w.next i pass ((db.fireStarted pass.now pass.job fireId oneShot answer).jobEnded pass.job)).Kept := by
  have hDue : pass.job.runAt ≤ pass.now := h.due _ (mem_of_getElem? hAt) pass.job mem_cons_self
  obtain ⟨outcome, hFinish⟩ := @Db.fireStarted_finish db pass.now pass.job fireId oneShot answer
  rw [hFinish]
  have hSettles : w.db.Settles db := fun j => .inr (hEq j)
  apply kept_next h hAt
  · exact hSettles.trans (Db.finishFire_settles _ _ _ _)
  · intro fireId' hFire' hClaimed
    obtain rfl := Option.some.inj (hFire.symm.trans hFire')
    exact Db.finishFire_armed _ _ _ _ (hClaimed.congr (hEq _).2)
  · exact Db.finishFire_dueAgain _ _ _ hDue ((Db.dueAgain_congr (hEq _).2).trans hAway)

theorem kept_start (h : w.Kept) (i : Nat) (answer : StartAnswer) (conversationId : String)
    (hOk : notDueAgain w (.start i answer conversationId) = true) : (w.start i answer conversationId).Kept := by
  unfold start
  unfold notDueAgain at hOk
  dsimp only at hOk
  split
  · next now job fireId oneShot pinned rest hAt =>
    rw [hAt] at hOk
    dsimp only at hOk
    split
    · exact kept_parkAt h hAt (fun j => .inl (Db.Same.refl w.db j)) (fun _ hFire => hFire)
    · next hEnds =>
      have hAway : w.db.dueAgain job = false := by
        split at hOk
        · exact absurd rfl (hEnds _ _ rfl)
        · simpa using hOk
      exact kept_ends h hAt rfl (fun j => Db.Same.refl w.db j) oneShot answer hAway
  · next now job fireId oneShot conversationId rest hAt =>
    rw [hAt] at hOk
    have hAway : w.db.dueAgain job = false := by simpa using hOk
    dsimp only
    split
    · exact kept_ends h hAt rfl (fun j => Db.same_pinRestarted fireId conversationId j) oneShot answer hAway
    · exact kept_ends h hAt rfl (fun j => Db.Same.refl w.db j) oneShot answer hAway
  · exact h

end Pass

theorem kept_step (h : w.Kept) (input : Input) (hOk : notDueAgain w input = true) : (w.step cron input).Kept := by
  cases input with
  | create now input isAnonymous id => exact kept_call h (fun db hDb => Db.settles_create hDb)
  | update now input isAnonymous => exact kept_call h (fun db hDb => Db.settles_update hDb)
  | remove now requestId intent id => exact kept_call h (fun db hDb => Db.settles_remove hDb)
  | runNow now id => exact kept_call h (fun db hDb => Db.settles_runNow hDb)
  | purge =>
    refine kept_call h (fun db hDb => ?_)
    obtain rfl := Option.some.inj hDb
    exact Db.settles_purge
  | runDueJobs now others => exact kept_runDueJobs h now others
  | snapshot i answer => exact kept_snapshot h i answer
  | snapshotFails i => cases hOk
  | start i answer conversationId => exact kept_start h i answer conversationId hOk

end World

/-- While no pass is under way, every active schedule has its one pending fire and no other has any. -/
theorem pending_of_run (cron : CronLib) (inputs : List Input)
    (hRun : Along (World.step cron) (fun w input => notDueAgain w input = true) emptyWorld inputs)
    (hIdle : (run (World.step cron) emptyWorld inputs).passes = []) :
    Pending (run (World.step cron) emptyWorld inputs).db := by
  have hStep : ∀ (w : World) (input : Input), w.Kept → notDueAgain w input = true → (w.step cron input).Kept :=
    fun _ input h hOk => World.kept_step h input hOk
  have hKept := @run_invariant World Input (World.step cron) _ World.Kept hStep _ inputs World.kept_emptyWorld hRun
  exact hKept.pending hIdle

def hourly : CronLib := ⟨fun _ _ => true, fun _ _ now => some (now + 3600000), by
  rintro _ _ now _ ⟨⟩
  exact Nat.lt_add_of_pos_right (by decide)⟩

def firstFire : List Input :=
  [.create 500 ⟨"request-1", "intent-1", .every 900000 (some 1000), none⟩ false "sch-1", .runDueJobs 1000 0,
    .snapshot 0 ⟨true, .pro, false, "fire-1", "conv-1"⟩]

theorem firstFire_pending :
    Pending (run (World.step hourly) emptyWorld (firstFire ++ [.start 0 .started "conv-2"])).db :=
  pending_of_run hourly _ (by decide) (by decide)

/-- It is run now at the time of the job that is running: the pass deletes the job that this arms. -/
theorem runNow_lost :
    let w := run (World.step hourly) emptyWorld (firstFire ++ [.runNow 1000 "sch-1", .start 0 .started "conv-2"])
    w.passes = [] ∧ (w.db.readRow "sch-1").map Row.status = some .active ∧ w.db.jobs = [] ∧ ¬ Pending w.db := by
  intro w
  have hRow : (w.db.readRow "sch-1").map Row.status = some .active := by decide
  have hJobs : w.db.jobs = [] := by decide
  refine ⟨by decide, hRow, hJobs, fun hPending => ?_⟩
  have hArmed := hPending "sch-1"
  obtain ⟨row, hIs, hActive⟩ := Option.map_eq_some_iff.mp hRow
  simp only [Db.Armed, hIs, hActive, if_true, Db.jobsOf, hJobs, filter_nil] at hArmed
  obtain ⟨job, hJob, -⟩ := hArmed
  cases hJob

end Stella.Schedules
