import Stella.Schedules.Machine

/-! # What each operation leaves armed

An operation touches one schedule: it arms that schedule for the row it leaves, or moves neither
its job nor what the job depends on.
-/

namespace Stella.Schedules

def Row.view (row : Row) : Status × Nat × Option String := (row.status, row.nextRunAt, row.activeFireId)

namespace Db

def viewOf (db : Db) (scheduleId : String) : Option (Status × Nat × Option String) :=
  (db.readRow scheduleId).map Row.view

def Armed (db : Db) (scheduleId : String) : Prop :=
  match db.readRow scheduleId with
  | none => db.jobsOf scheduleId = []
  | some row =>
    if row.status = .active then ∃ job, db.jobsOf scheduleId = [job] ∧ job.runAt = row.nextRunAt
    else db.jobsOf scheduleId = []

def Claimed (db : Db) (scheduleId fireId : String) : Prop :=
  ∃ row, db.readRow scheduleId = some row ∧ row.activeFireId = some fireId

def dueAgain (db : Db) (job : Job) : Bool :=
  (db.readRow job.scheduleId).any fun row => row.status = .active && row.nextRunAt = job.runAt

def Same (db db' : Db) (scheduleId : String) : Prop :=
  db'.jobsOf scheduleId = db.jobsOf scheduleId ∧ db'.viewOf scheduleId = db.viewOf scheduleId

def Settles (db db' : Db) : Prop := ∀ scheduleId, db'.Armed scheduleId ∨ db.Same db' scheduleId

variable {db db' : Db}

theorem Same.refl (db : Db) (scheduleId : String) : db.Same db scheduleId := ⟨rfl, rfl⟩

variable {id : String}

variable {db'' : Db}

theorem Same.trans (h : db.Same db' id) (h' : db'.Same db'' id) : db.Same db'' id :=
  ⟨h'.1.trans h.1, h'.2.trans h.2⟩

theorem Settles.refl (db : Db) : db.Settles db := fun id => .inr (Same.refl db id)

variable {row : Row}

theorem viewOf_some (hView : db'.viewOf id = db.viewOf id) (hRow : db.readRow id = some row) :
    ∃ row', db'.readRow id = some row' ∧ row'.view = row.view := by
  rw [viewOf, viewOf, hRow, Option.map_some] at hView
  exact Option.map_eq_some_iff.mp hView

theorem Same.armed (h : db.Same db' id) (hArmed : db.Armed id) : db'.Armed id := by
  obtain ⟨hJobs, hView⟩ := h
  cases hRow : db.readRow id with
  | none =>
    have hNone : db'.readRow id = none := by
      rw [viewOf, viewOf, hRow, Option.map_none, Option.map_eq_none_iff] at hView
      exact hView
    simp only [Armed, hRow] at hArmed
    simp only [Armed, hNone]
    exact hJobs.trans hArmed
  | some row =>
    obtain ⟨row', hRow', hEq⟩ := viewOf_some hView hRow
    obtain ⟨hStat, hRest⟩ := Prod.ext_iff.mp hEq
    have hNext : row'.nextRunAt = row.nextRunAt := (Prod.ext_iff.mp hRest).1
    have hIs : row'.status = row.status := hStat
    simp only [Armed, hRow] at hArmed
    simp only [Armed, hRow', hIs, hNext, hJobs]
    exact hArmed

theorem Claimed.congr {fireId : String} (hView : db'.viewOf id = db.viewOf id) (h : db.Claimed id fireId) :
    db'.Claimed id fireId := by
  obtain ⟨row, hRow, hFire⟩ := h
  obtain ⟨row', hRow', hEq⟩ := viewOf_some hView hRow
  have hIs : row'.activeFireId = row.activeFireId := congrArg (fun v => v.2.2) hEq
  exact ⟨row', hRow', hIs.trans hFire⟩

theorem Settles.trans (h : db.Settles db') (h' : db'.Settles db'') : db.Settles db'' := by
  intro id
  obtain hArmed | hEq := h' id
  · exact .inl hArmed
  · exact (h id).imp hEq.armed (fun h => h.trans hEq)

/-! ## Jobs and rows -/

theorem jobsOf_cancel (id j : String) : (db.cancel id).jobsOf j = if j = id then [] else db.jobsOf j := by
  unfold jobsOf cancel
  rw [List.filter_filter]
  split
  · next hAt =>
    rw [List.filter_eq_nil_iff]
    intro job _
    simp [hAt]
  · next hAway =>
    refine List.filter_congr fun job _ => ?_
    by_cases hJob : job.scheduleId = j
    · simp [hJob, hAway]
    · simp [hJob]

theorem jobsOf_arm (id : String) (status : Status) (nextRunAt : Nat) (fireId : Option String) (j : String) :
    (db.arm id status nextRunAt fireId).jobsOf j =
      if j = id then (if status = .active then [⟨id, fireId, nextRunAt, 0⟩] else []) else db.jobsOf j := by
  unfold arm
  split
  · have hApp : ({ db.cancel id with jobs := (db.cancel id).jobs ++ [⟨id, fireId, nextRunAt, 0⟩] } : Db).jobsOf j =
        (db.cancel id).jobsOf j ++ [(⟨id, fireId, nextRunAt, 0⟩ : Job)].filter (fun job => job.scheduleId = j) :=
      List.filter_append ..
    rw [hApp, jobsOf_cancel]
    by_cases hAt : j = id
    · simp [hAt]
    · simp [hAt, Ne.symm hAt]
  · rw [jobsOf_cancel]

theorem rows_arm (id : String) (status : Status) (nextRunAt : Nat) (fireId : Option String) :
    (db.arm id status nextRunAt fireId).rows = db.rows := by
  unfold arm
  split <;> rfl

theorem readRow_arm (id : String) (status : Status) (nextRunAt : Nat) (fireId : Option String) (j : String) :
    (db.arm id status nextRunAt fireId).readRow j = db.readRow j := by
  unfold readRow
  rw [rows_arm]

variable {f : Row → Row}

section

variable (hKey : ∀ r, (f r).scheduleId = r.scheduleId)
include hKey

theorem readRow_setRow (id j : String) :
    (db.setRow id f).readRow j = (db.readRow j).map (fun r => if j = id then f r else r) :=
  Rows.lookup_modify hKey db.rows id j

theorem readRow_setRow_self
    (hRow : db.readRow id = some row) : (db.setRow id f).readRow id = some (f row) := by
  rw [readRow_setRow hKey, hRow, Option.map_some, if_pos rfl]

theorem same_setRow
    (hView : ∀ row, db.readRow id = some row → (f row).view = row.view) (j : String) : db.Same (db.setRow id f) j := by
  refine ⟨rfl, ?_⟩
  unfold viewOf
  rw [readRow_setRow hKey, Option.map_map]
  cases hRow : db.readRow j with
  | none => rfl
  | some row =>
    rw [Option.map_some, Option.map_some, Function.comp_apply]
    split
    · next hAt => rw [hView row (hAt ▸ hRow)]
    · rfl

end

variable {j : String}

theorem same_setRow_other (hKey : ∀ r, (f r).scheduleId = r.scheduleId) (h : j ≠ id) :
    db.Same (db.setRow id f) j := by
  refine ⟨rfl, ?_⟩
  unfold viewOf
  rw [readRow_setRow hKey, Option.map_map]
  refine congrArg (fun g => Option.map g (db.readRow j)) (funext fun r => ?_)
  rw [Function.comp_apply, if_neg h]

variable {fireId : Option String}

theorem armed_arm (hRow : db.readRow id = some row) :
    (db.arm id row.status row.nextRunAt fireId).Armed id := by
  simp only [Armed, readRow_arm, hRow, jobsOf_arm, if_true]
  split
  · exact ⟨_, rfl, rfl⟩
  · rfl

theorem same_arm (id : String) (status : Status) (nextRunAt : Nat) (fireId : Option String) (h : j ≠ id) :
    db.Same (db.arm id status nextRunAt fireId) j := by
  refine ⟨?_, ?_⟩
  · rw [jobsOf_arm, if_neg h]
  · unfold viewOf
    rw [readRow_arm]

section

variable (hKey : ∀ r, (f r).scheduleId = r.scheduleId)
include hKey

variable {status : Status} {nextRunAt : Nat}

theorem armed_write (hRow : db.readRow id = some row)
    (hStatus : (f row).status = status) (hNext : (f row).nextRunAt = nextRunAt) :
    ((db.setRow id f).arm id status nextRunAt fireId).Armed id := by
  subst hStatus hNext
  exact armed_arm (readRow_setRow_self hKey hRow)

theorem same_write (status : Status)
    (nextRunAt : Nat) (fireId : Option String) (h : j ≠ id) :
    db.Same ((db.setRow id f).arm id status nextRunAt fireId) j :=
  (same_setRow_other hKey h).trans (same_arm id status nextRunAt fireId h)

theorem settles_write (hRow : db.readRow id = some row)
    (hStatus : (f row).status = status) (hNext : (f row).nextRunAt = nextRunAt) :
    db.Settles ((db.setRow id f).arm id status nextRunAt fireId) := by
  intro j
  by_cases hAt : j = id
  · rw [hAt]
    exact Or.inl (armed_write hKey hRow hStatus hNext)
  · exact Or.inr (same_write hKey status nextRunAt fireId hAt)

end

end Db

end Stella.Schedules
