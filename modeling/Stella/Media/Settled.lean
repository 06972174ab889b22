import Stella.Media.Model

/-! # A job ends once

What has ended keeps its status and has nothing armed; what has not has its deadline armed.
-/

namespace Stella.Media

open Stella.Rows Stella.Transition

def JobRow.named (row : JobRow) : String × Option String := (row.jobId, row.clientRequestKey)

namespace MediaDb

variable {db db' : MediaDb} {jobId : String}

structure Kept (db : MediaDb) : Prop where
  ids : (db.rows.map JobRow.jobId).Nodup
  keys : ∀ a ∈ db.rows.map JobRow.named, ∀ b ∈ db.rows.map JobRow.named, a.2.isSome = true → a.2 = b.2 → a = b
  polls : ∀ job ∈ db.polls, ∃ row, db.getRow job.jobId = some row ∧ row.ended = false
  expires : ∀ id ∈ db.expires, ∃ row, db.getRow id = some row ∧ row.ended = false
  armed : ∀ id row, db.getRow id = some row → row.ended = false → id ∈ db.expires
  charged : ∀ charge ∈ db.charges, ∃ row, db.getRow charge.jobId = some row ∧ row.status = .succeeded
  chargedOnce : (db.charges.map MediaCharge.jobId).Nodup

structure Onward (db db' : MediaDb) : Prop where
  names : ∀ name ∈ db.rows.map JobRow.named, name ∈ db'.rows.map JobRow.named
  known : ∀ id, (db.getRow id).isSome = true → (db'.getRow id).isSome = true
  stays : ∀ id row, db.getRow id = some row → row.ended = true → ∃ row', db'.getRow id = some row' ∧ row'.status = row.status

theorem Onward.refl (db : MediaDb) : db.Onward db := ⟨fun _ h => h, fun _ h => h, fun _ row h _ => ⟨row, h, rfl⟩⟩

theorem Onward.trans {db'' : MediaDb} (h : db.Onward db') (h' : db'.Onward db'') : db.Onward db'' where
  names name hName := h'.names name (h.names name hName)
  known id hKnown := h'.known id (h.known id hKnown)
  stays id row hRow hEnded := by
    obtain ⟨row', hRow', hEq⟩ := h.stays id row hRow hEnded
    have hEnded' : row'.ended = true := by
      unfold JobRow.ended at hEnded ⊢
      rw [hEq]
      exact hEnded
    obtain ⟨row'', hRow'', hEq'⟩ := h'.stays id row' hRow' hEnded'
    exact ⟨row'', hRow'', hEq'.trans hEq⟩

/-! ## Writing a row -/

variable {f : JobRow → JobRow}

section

variable (hName : ∀ row, (f row).named = row.named)
include hName

theorem jobId_kept (row : JobRow) :
    (f row).jobId = row.jobId := congrArg Prod.fst (hName row)

theorem getRow_update (id : String) :
    (db.update jobId f).getRow id = (db.getRow id).map fun row => if id = jobId then f row else row :=
  lookup_modify (jobId_kept hName) db.rows jobId id

theorem named_update :
    (db.update jobId f).rows.map JobRow.named = db.rows.map JobRow.named := by
  unfold update Rows.modify
  rw [List.map_map]
  refine List.map_congr_left fun row _ => ?_
  rw [Function.comp_apply]
  split
  · exact hName row
  · rfl

end

theorem ids_update (h : db.Kept) (hName : ∀ row, (f row).named = row.named) :
    ((db.update jobId f).rows.map JobRow.jobId).Nodup := by
  unfold update
  rw [map_key_modify (jobId_kept hName)]
  exact h.ids

theorem onward_update (hName : ∀ row, (f row).named = row.named)
    (hStat : ∀ row, db.getRow jobId = some row → row.ended = true → (f row).status = row.status) :
    db.Onward (db.update jobId f) where
  names name h := by
    rw [named_update hName]
    exact h
  known id h := by
    rw [getRow_update hName, Option.isSome_map]
    exact h
  stays id row hRow hEnded := by
    rw [getRow_update hName, hRow]
    refine ⟨_, rfl, ?_⟩
    split
    · next hAt => exact hStat row (hAt ▸ hRow) hEnded
    · rfl

theorem Kept.charged_onward (h : db.Kept) (hOnward : db.Onward db') {charge : MediaCharge} (hCharge : charge ∈ db.charges) :
    ∃ row, db'.getRow charge.jobId = some row ∧ row.status = .succeeded := by
  obtain ⟨row, hRow, hDone⟩ := h.charged charge hCharge
  have hIs : row.ended = true := by
    unfold JobRow.ended
    rw [hDone]
    rfl
  obtain ⟨row', hRow', hEq⟩ := hOnward.stays _ row hRow hIs
  exact ⟨row', hRow', hEq.trans hDone⟩

theorem Kept.update (h : db.Kept) (hName : ∀ row, (f row).named = row.named)
    (hEnded : ∀ row, db.getRow jobId = some row → (f row).ended = row.ended)
    (hStat : ∀ row, db.getRow jobId = some row → row.ended = true → (f row).status = row.status) :
    (db.update jobId f).Kept := by
  have hOpen : ∀ id, (∃ row, db.getRow id = some row ∧ row.ended = false) →
      ∃ row, (db.update jobId f).getRow id = some row ∧ row.ended = false := by
    rintro id ⟨row, hRow, hNot⟩
    rw [getRow_update hName, hRow]
    refine ⟨_, rfl, ?_⟩
    split
    · next hAt => exact (hEnded row (hAt ▸ hRow)).trans hNot
    · exact hNot
  refine ⟨ids_update h hName, ?_, fun job hJob => hOpen _ (h.polls job hJob), fun id hId => hOpen _ (h.expires id hId),
    fun id row hRow hNot => ?_, fun charge hCharge => ?_, h.chargedOnce⟩
  · rw [named_update hName]
    exact h.keys
  · rw [getRow_update hName] at hRow
    obtain ⟨old, hOld, rfl⟩ := Option.map_eq_some_iff.mp hRow
    refine h.armed id old hOld ?_
    split at hNot
    · next hAt => exact (hEnded old (hAt ▸ hOld)).symm.trans hNot
    · exact hNot
  · exact h.charged_onward (onward_update hName hStat) hCharge

theorem mem_clearJobs_polls {job : PollJob} : job ∈ (db.clearJobs jobId).polls ↔ job ∈ db.polls ∧ job.jobId ≠ jobId := by
  unfold clearJobs erase
  rw [List.mem_filter, decide_eq_true_iff]

theorem mem_clearJobs_expires {id : String} : id ∈ (db.clearJobs jobId).expires ↔ id ∈ db.expires ∧ id ≠ jobId := by
  unfold clearJobs erase
  rw [List.mem_filter, decide_eq_true_iff]
  rfl

theorem Kept.ends (h : db.Kept) (hName : ∀ row, (f row).named = row.named)
    (hEnds : ∀ row, db.getRow jobId = some row → (f row).ended = true)
    (hStat : ∀ row, db.getRow jobId = some row → row.ended = true → (f row).status = row.status) :
    ((db.update jobId f).clearJobs jobId).Kept := by
  have hOther : ∀ id, id ≠ jobId → (db.update jobId f).getRow id = db.getRow id := by
    intro id hAway
    rw [getRow_update hName]
    cases db.getRow id with
    | none => rfl
    | some row => rw [Option.map_some, if_neg hAway]
  refine ⟨ids_update h hName, ?_, fun job hJob => ?_, fun id hId => ?_, fun id row hRow hNot => ?_, fun charge hCharge => ?_,
    h.chargedOnce⟩
  · change ∀ a ∈ (db.update jobId f).rows.map JobRow.named, ∀ b ∈ (db.update jobId f).rows.map JobRow.named, _
    rw [named_update hName]
    exact h.keys
  · obtain ⟨hOld, hAway⟩ := mem_clearJobs_polls.mp hJob
    obtain ⟨row, hRow, hNot⟩ := h.polls job hOld
    exact ⟨row, (hOther _ hAway).trans hRow, hNot⟩
  · obtain ⟨hOld, hAway⟩ := mem_clearJobs_expires.mp hId
    obtain ⟨row, hRow, hNot⟩ := h.expires id hOld
    exact ⟨row, (hOther _ hAway).trans hRow, hNot⟩
  · have hNew : (db.update jobId f).getRow id = some row := hRow
    by_cases hAt : id = jobId
    · rw [getRow_update hName] at hNew
      obtain ⟨old, hOld, rfl⟩ := Option.map_eq_some_iff.mp hNew
      rw [if_pos hAt] at hNot
      rw [hEnds old (hAt ▸ hOld)] at hNot
      cases hNot
    · exact mem_clearJobs_expires.mpr ⟨h.armed id row ((hOther id hAt).symm.trans hNew) hNot, hAt⟩
  · exact h.charged_onward (onward_update hName hStat) hCharge

theorem onward_ends (hName : ∀ row, (f row).named = row.named)
    (hStat : ∀ row, db.getRow jobId = some row → row.ended = true → (f row).status = row.status) :
    db.Onward ((db.update jobId f).clearJobs jobId) :=
  ⟨(onward_update hName hStat).names, (onward_update hName hStat).known, (onward_update hName hStat).stays⟩

/-! ## The operations of a settlement -/

theorem named_fail (error : MediaJobError) (row : JobRow) : (row.fail error).named = row.named := by
  unfold JobRow.fail
  split <;> rfl

theorem Kept.failJob (h : db.Kept) (jobId : String) (error : MediaJobError) :
    (db.failJob jobId error).Kept ∧ db.Onward (db.failJob jobId error) := by
  have hStat : ∀ row, db.getRow jobId = some row → row.ended = true → (row.fail error).status = row.status := by
    intro row _ hEnded
    rw [JobRow.fail, if_pos hEnded]
  refine ⟨h.ends (named_fail error) (fun row _ => ?_) hStat, onward_ends (named_fail error) hStat⟩
  unfold JobRow.fail
  split
  · next hEnded => exact hEnded
  · rfl

theorem named_cancel (row : JobRow) : row.cancel.named = row.named := rfl

theorem Kept.cancelJob (h : db.Kept) (jobId : String) : (db.cancelJob jobId).Kept ∧ db.Onward (db.cancelJob jobId) := by
  unfold MediaDb.cancelJob
  cases hRow : db.getRow jobId with
  | none => exact ⟨h, Onward.refl db⟩
  | some row =>
    dsimp only
    split
    · exact ⟨h, Onward.refl db⟩
    · next hOpen =>
      have hStat : ∀ other, db.getRow jobId = some other → other.ended = true → other.cancel.status = other.status := by
        intro other hOther hEnded
        obtain rfl := Option.some.inj (hRow.symm.trans hOther)
        exact absurd hEnded hOpen
      exact ⟨h.ends named_cancel (fun _ _ => rfl) hStat, onward_ends named_cancel hStat⟩

variable {row : JobRow}

theorem Kept.recordUsage (h : db.Kept) (charge : MediaCharge) (hRow : db.getRow charge.jobId = some row)
    (hDone : row.status = .succeeded) (hNew : ∀ other ∈ db.charges, other.jobId ≠ charge.jobId) :
    (db.recordUsage charge).Kept := by
  refine ⟨h.ids, h.keys, h.polls, h.expires, h.armed, fun other hOther => ?_, ?_⟩
  · obtain hOld | hLast := List.mem_append.mp hOther
    · exact h.charged other hOld
    · rw [List.mem_singleton.mp hLast]
      exact ⟨row, hRow, hDone⟩
  · unfold MediaDb.recordUsage
    rw [List.map_append, List.nodup_append]
    refine ⟨h.chargedOnce, List.pairwise_singleton _ _, fun a hA b hB hEq => ?_⟩
    obtain ⟨other, hOther, rfl⟩ := List.mem_map.mp hA
    exact hNew other hOther (hEq.trans (List.mem_singleton.mp hB))

theorem named_succeed (output : String) (cost : Option Int) (row : JobRow) : (row.succeed output cost).named = row.named := rfl

theorem Kept.completeJob (h : db.Kept) (price : String → String → String → Option Int) (row : JobRow)
    (payload output : String) :
    (db.completeJob price row payload output).Kept ∧ db.Onward (db.completeJob price row payload output) := by
  unfold MediaDb.completeJob
  cases hRow : db.getRow row.jobId with
  | none => exact ⟨h, Onward.refl db⟩
  | some current =>
    dsimp only
    split
    · exact ⟨h, Onward.refl db⟩
    · next hOpen =>
      generalize price row.model row.input payload = cost
      have hStat : ∀ other, db.getRow row.jobId = some other → other.ended = true →
          (other.succeed output cost).status = other.status := by
        intro other hOther hEnded
        obtain rfl := Option.some.inj (hRow.symm.trans hOther)
        exact absurd hEnded hOpen
      have hKept := h.ends (named_succeed output cost) (fun _ _ => rfl) hStat
      have hOn := onward_ends (named_succeed output cost) hStat
      have hDone : ((db.update row.jobId (JobRow.succeed output cost)).clearJobs row.jobId).getRow row.jobId =
          some (current.succeed output cost) := by
        change (db.update row.jobId (JobRow.succeed output cost)).getRow row.jobId = _
        rw [getRow_update (named_succeed output cost), hRow, Option.map_some, if_pos rfl]
      cases cost with
      | none => exact ⟨hKept, hOn⟩
      | some amount =>
        dsimp only
        split
        · have hCharged := hKept.recordUsage ⟨row.jobId, amount⟩ hDone rfl fun other hOther hEq => by
            obtain ⟨done, hDoneRow, hIs⟩ := h.charged other hOther
            obtain rfl := Option.some.inj (hRow.symm.trans ((congrArg db.getRow hEq).symm.trans hDoneRow))
            exact hOpen (by rw [JobRow.ended, hIs]; rfl)
          exact ⟨hCharged, ⟨hOn.names, hOn.known, hOn.stays⟩⟩
        · exact ⟨hKept, hOn⟩

/-! ## Arming -/

theorem mem_upsert_poll {polls : List PollJob} {job new : PollJob} (h : job ∈ upsert PollJob.jobId polls new)
    (hAway : job.jobId ≠ new.jobId) : job ∈ polls := by
  unfold upsert at h
  split at h
  · obtain ⟨old, hOld, hEq⟩ := List.mem_map.mp h
    split at hEq
    · exact absurd (hEq ▸ rfl) hAway
    · exact hEq ▸ hOld
  · obtain hOld | hNew := List.mem_append.mp h
    · exact hOld
    · exact absurd (List.mem_singleton.mp hNew ▸ rfl) hAway

theorem Kept.schedulePoll (h : db.Kept) (hRow : db.getRow jobId = some row) (hOpen : row.ended = false)
    (payload : PollPayload) : (db.schedulePoll jobId payload).Kept := by
  refine ⟨h.ids, h.keys, fun job hJob => ?_, h.expires, h.armed, h.charged, h.chargedOnce⟩
  by_cases hAt : job.jobId = jobId
  · exact ⟨row, hAt ▸ hRow, hOpen⟩
  · exact h.polls job (mem_upsert_poll hJob hAt)

theorem Kept.dropPoll (h : db.Kept) (jobId : String) : { db with polls := erase PollJob.jobId db.polls jobId }.Kept :=
  ⟨h.ids, h.keys, fun job hJob => h.polls job (List.mem_of_mem_filter hJob), h.expires, h.armed, h.charged, h.chargedOnce⟩

theorem Kept.dropExpire (h : db.Kept) (hEnded : ∀ row, db.getRow jobId = some row → row.ended = true) :
    { db with expires := erase id db.expires jobId }.Kept := by
  refine ⟨h.ids, h.keys, h.polls, fun other hOther => h.expires other (List.mem_of_mem_filter hOther),
    fun other row hRow hOpen => ?_, h.charged, h.chargedOnce⟩
  refine List.mem_filter.mpr ⟨h.armed other row hRow hOpen, decide_eq_true fun hEq => ?_⟩
  obtain rfl : other = jobId := hEq
  rw [hEnded row hRow] at hOpen
  cases hOpen

theorem getRow_insertJob (row : JobRow) (id : String) :
    (db.insertJob row).getRow id = (db.getRow id).or (if row.jobId = id then some row else none) := by
  unfold insertJob getRow
  rw [lookup_append]
  refine congrArg _ ?_
  unfold lookup
  by_cases hAt : row.jobId = id
  · rw [List.find?_cons_of_pos (by simpa using hAt), if_pos hAt]
  · rw [List.find?_cons_of_neg (by simpa using hAt), if_neg hAt, List.find?_nil]

theorem onward_insertJob (row : JobRow) : db.Onward (db.insertJob row) where
  names name h := by
    unfold insertJob
    rw [List.map_append]
    exact List.mem_append_left _ h
  known id h := by
    rw [getRow_insertJob, Option.isSome_or, h]
    rfl
  stays id old hOld _ := by
    rw [getRow_insertJob, hOld]
    exact ⟨old, rfl, rfl⟩

theorem Kept.insertJob (h : db.Kept) (hNew : db.getRow row.jobId = none) (hOpen : row.ended = false)
    (hKey : ∀ other ∈ db.rows, row.clientRequestKey.isSome = true → other.clientRequestKey ≠ row.clientRequestKey) :
    (db.insertJob row).Kept := by
  have hOwn : (db.insertJob row).getRow row.jobId = some row := by
    rw [getRow_insertJob, hNew, if_pos rfl]
    rfl
  have hOld : ∀ id old, db.getRow id = some old → (db.insertJob row).getRow id = some old := by
    intro id old hRow
    rw [getRow_insertJob, hRow]
    rfl
  refine ⟨?_, ?_, fun job hJob => ?_, fun id hId => ?_, fun id other hRow hNot => ?_, fun charge hCharge => ?_, h.chargedOnce⟩
  · unfold MediaDb.insertJob
    rw [List.map_append, List.nodup_append]
    refine ⟨h.ids, List.pairwise_singleton _ _, fun a hA b hB hEq => ?_⟩
    obtain ⟨other, hOther, hId⟩ := List.mem_map.mp hA
    exact lookup_eq_none.mp hNew other hOther ((hId.trans hEq).trans (List.mem_singleton.mp hB))
  · unfold MediaDb.insertJob
    rw [List.map_append]
    intro a hA b hB hSome hEq
    obtain hA | hA := List.mem_append.mp hA
    · obtain hB | hB := List.mem_append.mp hB
      · exact h.keys a hA b hB hSome hEq
      · obtain rfl := List.mem_singleton.mp hB
        obtain ⟨other, hOther, rfl⟩ := List.mem_map.mp hA
        refine absurd hEq (hKey other hOther ?_)
        rw [hEq] at hSome
        exact hSome
    · obtain rfl := List.mem_singleton.mp hA
      obtain hB | hB := List.mem_append.mp hB
      · obtain ⟨other, hOther, rfl⟩ := List.mem_map.mp hB
        exact absurd hEq.symm (hKey other hOther hSome)
      · exact (List.mem_singleton.mp hB).symm
  · by_cases hAt : job.jobId = row.jobId
    · exact ⟨row, hAt ▸ hOwn, hOpen⟩
    · obtain ⟨other, hRow, hNot⟩ := h.polls job (mem_upsert_poll hJob hAt)
      exact ⟨other, hOld _ other hRow, hNot⟩
  · obtain hAt | hIn := List.mem_insert_iff.mp hId
    · exact ⟨row, hAt ▸ hOwn, hOpen⟩
    · obtain ⟨other, hRow, hNot⟩ := h.expires id hIn
      exact ⟨other, hOld _ other hRow, hNot⟩
  · refine List.mem_insert_iff.mpr ?_
    rw [getRow_insertJob] at hRow
    cases hBef : db.getRow id with
    | some old =>
      rw [hBef] at hRow
      obtain rfl := Option.some.inj hRow
      exact .inr (h.armed id old hBef hNot)
    | none =>
      rw [hBef, Option.none_or] at hRow
      split at hRow
      · next hAt => exact .inl hAt.symm
      · cases hRow
  · obtain ⟨other, hRow, hDone⟩ := h.charged charge hCharge
    exact ⟨other, hOld _ other hRow, hDone⟩

end MediaDb

end Stella.Media
