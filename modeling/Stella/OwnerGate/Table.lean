import Stella.OwnerGate.Machine

/-! # What the primitives of the gate change

Every handler is built from a few writes: an update of one row, a parked task, a note, a new
alarm.
-/

namespace Stella.OwnerGate.Gate

open List

variable (g : Gate)

section

variable (id : String)

@[simp] theorem update_tasks (patch) : (g.update id patch).tasks = g.tasks := rfl
@[simp] theorem update_expiring (patch) : (g.update id patch).expiring = g.expiring := rfl
@[simp] theorem update_clock (patch) : (g.update id patch).clock = g.clock := rfl
@[simp] theorem update_handoffs (patch) : (g.update id patch).handoffs = g.handoffs := rfl

end

@[simp] theorem patchDispatch_tasks (row patch now) : (g.patchDispatch row patch now).tasks = g.tasks := rfl
@[simp] theorem patchDispatch_expiring (row patch now) :
    (g.patchDispatch row patch now).expiring = g.expiring := rfl
@[simp] theorem patchDispatch_clock (row patch now) : (g.patchDispatch row patch now).clock = g.clock := rfl
@[simp] theorem patchDispatch_handoffs (row patch now) :
    (g.patchDispatch row patch now).handoffs = g.handoffs := rfl

@[simp] theorem releaseGate_tasks (row) : (g.releaseGate row).tasks = g.tasks := by
  unfold releaseGate; split <;> rfl
@[simp] theorem releaseGate_expiring (row) : (g.releaseGate row).expiring = g.expiring := by
  unfold releaseGate; split <;> rfl
@[simp] theorem releaseGate_clock (row) : (g.releaseGate row).clock = g.clock := by
  unfold releaseGate; split <;> rfl

theorem scheduleAlarm_eq (out now preserve) : ∃ alarm,
    g.scheduleAlarm out now preserve = { g with alarm := alarm } := by
  unfold scheduleAlarm
  split
  · exact ⟨g.alarm, rfl⟩
  · exact ⟨_, rfl⟩

@[simp] theorem scheduleAlarm_dispatches (out now preserve) :
    (g.scheduleAlarm out now preserve).dispatches = g.dispatches := by
  obtain ⟨alarm, hEq⟩ := g.scheduleAlarm_eq out now preserve
  rw [hEq]
@[simp] theorem scheduleAlarm_tasks (out now preserve) :
    (g.scheduleAlarm out now preserve).tasks = g.tasks := by
  obtain ⟨alarm, hEq⟩ := g.scheduleAlarm_eq out now preserve
  rw [hEq]
@[simp] theorem scheduleAlarm_expiring (out now preserve) :
    (g.scheduleAlarm out now preserve).expiring = g.expiring := by
  obtain ⟨alarm, hEq⟩ := g.scheduleAlarm_eq out now preserve
  rw [hEq]
@[simp] theorem scheduleAlarm_log (out now preserve) :
    (g.scheduleAlarm out now preserve).log = g.log := by
  obtain ⟨alarm, hEq⟩ := g.scheduleAlarm_eq out now preserve
  rw [hEq]
@[simp] theorem scheduleAlarm_clock (out now preserve) :
    (g.scheduleAlarm out now preserve).clock = g.clock := by
  obtain ⟨alarm, hEq⟩ := g.scheduleAlarm_eq out now preserve
  rw [hEq]

@[simp] theorem park_dispatches (task) : (g.park task).dispatches = g.dispatches := rfl
@[simp] theorem park_tasks (task) : (g.park task).tasks = g.tasks ++ [task] := rfl
@[simp] theorem park_expiring (task) : (g.park task).expiring = g.expiring := rfl
@[simp] theorem park_clock (task) : (g.park task).clock = g.clock := rfl
@[simp] theorem note_dispatches (n) : (g.note n).dispatches = g.dispatches := rfl
@[simp] theorem note_tasks (n) : (g.note n).tasks = g.tasks := rfl
@[simp] theorem note_expiring (n) : (g.note n).expiring = g.expiring := rfl
@[simp] theorem note_log (n) : (g.note n).log = g.log ++ [n] := rfl
@[simp] theorem note_clock (n) : (g.note n).clock = g.clock := rfl
@[simp] theorem putHandoff_dispatches (id h) : (g.putHandoff id h).dispatches = g.dispatches := rfl
@[simp] theorem putHandoff_tasks (id h) : (g.putHandoff id h).tasks = g.tasks := rfl
@[simp] theorem putHandoff_expiring (id h) : (g.putHandoff id h).expiring = g.expiring := rfl
@[simp] theorem putHandoff_clock (id h) : (g.putHandoff id h).clock = g.clock := rfl

@[simp] theorem goOn_dispatches (out after) : (g.goOn out after).dispatches = g.dispatches := by
  cases after <;> simp [goOn]
@[simp] theorem goOn_log (out after) : (g.goOn out after).log = g.log := by
  cases after <;> simp [goOn]
@[simp] theorem goOn_tasks (out after) : (g.goOn out after).tasks = g.tasks := by
  cases after <;> simp [goOn]
@[simp] theorem goOn_clock (out after) : (g.goOn out after).clock = g.clock := by
  cases after <;> simp [goOn]

/-! ## Reading a row -/

theorem dispatchRow_congr {g g' : Gate} (hEq : g'.dispatches = g.dispatches) (id : String) :
    g'.dispatchRow id = g.dispatchRow id := by
  rw [dispatchRow, dispatchRow, hEq]

variable {row : DispatchRow}

theorem dispatchRow_id {g : Gate} {id : String} (h : g.dispatchRow id = some row) :
    row.dispatchId = id := by
  simpa using find?_some h

variable {patch : DispatchRow → DispatchRow}

theorem dispatchRow_update
    (hPatch : ∀ row, (patch row).dispatchId = row.dispatchId) (id other : String) :
    (g.update id patch).dispatchRow other =
      if other = id then (g.dispatchRow id).map patch else g.dispatchRow other := by
  have hIds : ∀ row, (if row.dispatchId = id then patch row else row).dispatchId = row.dispatchId := by
    intro row
    split
    · exact hPatch row
    · rfl
  simp only [dispatchRow, update, find?_map]
  have hFind : g.dispatches.find? ((fun row => decide (row.dispatchId = other)) ∘
      fun row => if row.dispatchId = id then patch row else row) =
      g.dispatches.find? (fun row => row.dispatchId = other) := by
    congr 1
    funext row
    simp only [Function.comp_apply, hIds]
  rw [hFind]
  cases hRow : g.dispatches.find? (fun row => row.dispatchId = other) with
  | none =>
    split
    · next hEq => rw [← hEq, hRow]; rfl
    · rfl
  | some row =>
    have hId : row.dispatchId = other := by simpa using find?_some hRow
    split
    · next hEq => subst hEq; rw [hRow]; simp [hId]
    · next hNe => simp [hId, hNe]

def Keeps (patch : DispatchRow → DispatchRow) : Prop := ∀ row, (patch row).dispatchId = row.dispatchId

@[simp] theorem patched_id (patch now row) : (patched patch now row).dispatchId = (patch row).dispatchId := rfl
@[simp] theorem patched_state (patch now row) : (patched patch now row).state = (patch row).state := rfl
@[simp] theorem patched_revision (patch now row) :
    (patched patch now row).revision = (patch row).revision + 1 := rfl
@[simp] theorem patched_payloadJson (patch now row) :
    (patched patch now row).payloadJson = (patch row).payloadJson := rfl
@[simp] theorem patched_cloudRetryAt (patch now row) :
    (patched patch now row).cloudRetryAt = (patch row).cloudRetryAt := rfl

theorem dispatchRow_patchDispatch (hPatch : Keeps patch)
    (row : DispatchRow) (now : Nat) (other : String) :
    (g.patchDispatch row patch now).dispatchRow other =
      if other = row.dispatchId then (g.dispatchRow row.dispatchId).map (patched patch now)
      else g.dispatchRow other := by
  have hPatched : Keeps (patched patch now) := hPatch
  exact g.dispatchRow_update hPatched row.dispatchId other

theorem dispatchRow_append (rows : List DispatchRow) (id : String) :
    { g with dispatches := g.dispatches ++ rows }.dispatchRow id =
      (g.dispatchRow id).or (rows.find? (fun row => row.dispatchId = id)) := by
  simp [dispatchRow]

theorem current_of_some {g : Gate} {stored : DispatchRow} (h : g.dispatchRow row.dispatchId = some stored) :
    g.current row = stored := by
  simp [current, h]

theorem current_id (row : DispatchRow) : (g.current row).dispatchId = row.dispatchId := by
  unfold current
  cases h : g.dispatchRow row.dispatchId with
  | none => rfl
  | some stored => exact dispatchRow_id h

def ids (g : Gate) : List String := g.dispatches.map DispatchRow.dispatchId

theorem update_ids (hPatch : Keeps patch) (id : String) :
    (g.update id patch).ids = g.ids := by
  rw [ids, ids, update, map_map]
  refine map_congr_left fun row _ => ?_
  simp only [Function.comp_apply]
  split
  · exact hPatch row
  · rfl

theorem patchDispatch_ids (hPatch : Keeps patch) (row : DispatchRow)
    (now : Nat) : (g.patchDispatch row patch now).ids = g.ids := by
  have hPatched : Keeps (patched patch now) := hPatch
  exact g.update_ids hPatched row.dispatchId

theorem dispatchRow_of_mem {g : Gate} (hIds : g.ids.Nodup) (hRow : row ∈ g.dispatches) :
    g.dispatchRow row.dispatchId = some row := by
  unfold ids at hIds
  unfold dispatchRow
  generalize g.dispatches = rows at hIds hRow
  induction rows with
  | nil => exact absurd hRow not_mem_nil
  | cons first rest ih =>
    rw [map_cons, nodup_cons] at hIds
    obtain rfl | hRest := mem_cons.mp hRow
    · exact find?_cons_of_pos (by simp)
    · have hNe : first.dispatchId ≠ row.dispatchId := fun hEq =>
        hIds.1 (hEq ▸ mem_map_of_mem hRest)
      rw [find?_cons_of_neg (by simpa using hNe)]
      exact ih hIds.2 hRest

theorem dispatchRow_isSome_iff {g : Gate} {id : String} : (g.dispatchRow id).isSome ↔ id ∈ g.ids := by
  simp [dispatchRow, ids, find?_isSome]

theorem nodup_ids_append {g : Gate} (hIds : g.ids.Nodup)
    (hFresh : g.dispatchRow row.dispatchId = none) : { g with dispatches := g.dispatches ++ [row] }.ids.Nodup := by
  have hNotMem : row.dispatchId ∉ g.ids := by
    rw [← dispatchRow_isSome_iff, hFresh]
    exact Bool.false_ne_true
  show ((g.dispatches ++ [row]).map DispatchRow.dispatchId).Nodup
  rw [map_append, nodup_append]
  refine ⟨hIds, by simp, ?_⟩
  rintro id hId other hOther rfl
  rw [map_singleton, mem_singleton] at hOther
  exact hNotMem (hOther ▸ hId)

theorem update_update {first second : DispatchRow → DispatchRow} (hFirst : Keeps first) (id : String) :
    (g.update id first).update id second = g.update id (fun row => second (first row)) := by
  unfold update
  rw [map_map]
  congr 1
  refine map_congr_left fun row _ => ?_
  simp only [Function.comp_apply]
  by_cases hId : row.dispatchId = id
  · simp [hId, hFirst row]
  · simp [hId]

/-! ## The row of a submission -/

variable {submission : Submission} {out : Outside} {now : Nat}

theorem committed_id {fallback : Fallback} {reason : String} (hRow : submission.committed out now fallback reason = some row) :
    row.dispatchId = submission.dispatchId := by
  unfold Submission.committed at hRow
  split at hRow
  · cases hRow
  · cases hRow; rfl

theorem submission_row_id
    (hRow : submission.row out now = some row) : row.dispatchId = submission.dispatchId := by
  unfold Submission.row at hRow
  split at hRow
  · exact committed_id hRow
  · obtain ⟨deviceId, -, rfl⟩ := Option.map_eq_some_iff.mp hRow
    rfl
  · cases hRow; rfl
  · split at hRow
    · cases hRow
    · split at hRow
      · cases hRow; rfl
      · split at hRow
        · exact committed_id hRow
        · cases hRow; rfl

end Stella.OwnerGate.Gate
