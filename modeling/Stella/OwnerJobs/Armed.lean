import Stella.OwnerJobs.Model

/-! # What a pass leaves of an arming

While a row is held its id stands as the calls have left it: as it was read, as it was armed
since, or not at all.
-/

namespace Stella.OwnerJobs

open Stella.Rows Stella.Transition List

/-! ## Settling a run -/

section

variable {rows : List JobRow} {limit : Nat} {now : Int} {job : JobRow} {threw : Bool}

theorem deferRun_ids : (deferRun rows now job).map JobRow.id = rows.map JobRow.id := by
  unfold deferRun
  rw [map_map]
  refine map_congr_left fun row _ => ?_
  rw [Function.comp_apply]
  split <;> rfl

theorem settleRun_ids (h : (rows.map JobRow.id).Nodup) : ((settleRun rows limit now job threw).map JobRow.id).Nodup := by
  unfold settleRun
  split
  · split
    · exact (filter_sublist.map _).nodup h
    · rw [deferRun_ids]
      exact h
  · exact (filter_sublist.map _).nodup h

theorem lookup_deferRun (id : String) : lookup JobRow.id (deferRun rows now job) id =
    (lookup JobRow.id rows id).map fun row =>
      if row.id = job.id ∧ row.runAt = job.runAt then
        { row with attempts := job.attempts + 1, runAt := now + backoff (job.attempts + 1) }
      else row := by
  unfold deferRun
  refine lookup_map fun row _ => ?_
  split <;> exact Iff.rfl

theorem settleRun_other {id : String} (h : id ≠ job.id) :
    lookup JobRow.id (settleRun rows limit now job threw) id = lookup JobRow.id rows id := by
  unfold settleRun
  split
  · split
    · rw [lookup_erase, if_neg h]
    · rw [lookup_deferRun]
      cases hRow : lookup JobRow.id rows id with
      | none => rfl
      | some row =>
        rw [Option.map_some, if_neg fun hEq => h ((lookup_key hRow).symm.trans hEq.1)]
  · refine lookup_filter_of_forall fun row _ hId => decide_eq_true fun hEq => h (hId.symm.trans hEq.1)

theorem settleRun_none (h : lookup JobRow.id rows job.id = none) :
    lookup JobRow.id (settleRun rows limit now job threw) job.id = none := by
  unfold settleRun
  split
  · split
    · rw [lookup_erase, if_pos rfl]
    · rw [lookup_deferRun, h, Option.map_none]
  · exact lookup_eq_none.mpr fun row hRow => lookup_eq_none.mp h row (mem_of_mem_filter hRow)

theorem settleRun_own (limit : Nat) (now : Int) (threw : Bool) (hIds : (rows.map JobRow.id).Nodup)
    (h : lookup JobRow.id rows job.id = some job) :
    lookup JobRow.id (settleRun rows limit now job threw) job.id = none ∨
    (job.attempts + 1 < limit ∧ lookup JobRow.id (settleRun rows limit now job threw) job.id =
      some { job with attempts := job.attempts + 1, runAt := now + backoff (job.attempts + 1) }) := by
  unfold settleRun
  split
  · split
    · exact .inl (by rw [lookup_erase, if_pos rfl])
    · next hLeft =>
      refine .inr ⟨Nat.not_le.mp hLeft, ?_⟩
      rw [lookup_deferRun, h, Option.map_some, if_pos ⟨rfl, rfl⟩]
  · refine .inl (lookup_eq_none.mpr fun row hRow hId => ?_)
    obtain ⟨hOld, hStays⟩ := mem_filter.mp hRow
    have hFound := lookup_of_mem hIds hOld
    rw [hId, h] at hFound
    obtain rfl := Option.some.inj hFound
    exact of_decide_eq_true hStays ⟨rfl, rfl, rfl⟩

theorem settleRun_rearmed {row : JobRow} (h : lookup JobRow.id rows job.id = some row) (hNew : row.attempts = 0)
    (hApart : if threw then job.attempts + 1 < limit ∧ row.runAt ≠ job.runAt
      else row.runAt ≠ job.runAt ∨ job.attempts ≠ 0) :
    lookup JobRow.id (settleRun rows limit now job threw) job.id = some row := by
  unfold settleRun
  split
  · next hThrew =>
    rw [if_pos hThrew] at hApart
    rw [if_neg (Nat.not_le.mpr hApart.1), lookup_deferRun, h, Option.map_some, if_neg fun hEq => hApart.2 hEq.2]
  · next hOk =>
    rw [if_neg hOk] at hApart
    refine lookup_filter_of_some h (decide_eq_true fun hEq => ?_)
    obtain hTime | hLater := hApart
    · exact hTime hEq.2.1
    · exact hLater (hEq.2.2.symm.trans hNew)

end

theorem mem_dueJobs {rows : List JobRow} {now : Int} {job : JobRow} (h : job ∈ dueJobs rows now) : job ∈ rows :=
  mem_of_mem_filter (mem_mergeSort.mp (mem_of_mem_take h))

theorem dueJobs_ids {rows : List JobRow} (h : (rows.map JobRow.id).Nodup) (now : Int) :
    ((dueJobs rows now).map JobRow.id).Nodup := by
  have hSort : (((rows.filter (fun row => row.runAt ≤ now)).mergeSort (fun a b => a.runAt ≤ b.runAt)).map
      JobRow.id).Nodup :=
    ((mergeSort_perm _ _).map JobRow.id).nodup_iff.mpr ((filter_sublist.map _).nodup h)
  exact ((take_sublist _ _).map _).nodup hSort

/-! ## Held rows -/

structure Held.Kept (registry : Registry) (w : JobWorld) (begun : Bool) (h : Held) : Prop where
  fresh : begun = false → h.canceled = false
  counted : h.runsBefore = h.job.attempts
  allowed : ∃ job, registry h.job.kind = some job ∧ h.job.attempts < job.limit
  armed : ∀ row ∈ h.rearmed, w.row h.id = some row ∧ row.attempts = 0 ∧ w.runs h.id = 0
  gone : h.rearmed = none → h.canceled = true → w.row h.id = none
  same : h.untouched = true → w.row h.id = some h.job ∧ w.runs h.id = h.job.attempts + begun.toNat

theorem Held.Kept.congr {registry : Registry} {w w' : JobWorld} {begun : Bool} {h : Held} (hKept : h.Kept registry w begun)
    (hRow : w'.row h.id = w.row h.id) (hRuns : w'.runs h.id = w.runs h.id) : h.Kept registry w' begun where
  fresh := hKept.fresh
  counted := hKept.counted
  allowed := hKept.allowed
  armed row hArmed := by
    rw [hRow, hRuns]
    exact hKept.armed row hArmed
  gone hNone hCanceled := by
    rw [hRow]
    exact hKept.gone hNone hCanceled
  same hEq := by
    rw [hRow, hRuns]
    exact hKept.same hEq

namespace JobWorld

variable {registry : Registry} {w : JobWorld}

structure Kept (registry : Registry) (w : JobWorld) : Prop where
  ids : (w.rows.map JobRow.id).Nodup
  once : (w.held.map Held.id).Nodup
  allowed : ∀ id row, w.row id = some row → ∃ job, registry row.kind = some job ∧ row.attempts < job.limit
  counted : ∀ id row, w.row id = some row → (∀ h ∈ w.held, h.id ≠ id) → w.runs id = row.attempts
  due : ∀ p ∈ w.passes, ∀ h ∈ p.due, h.Kept registry w false
  running : ∀ p ∈ w.passes, ∀ h ∈ p.running, h.Kept registry w true

theorem kept_empty : Kept registry {} where
  ids := nodup_nil
  once := nodup_nil
  allowed _ _ hRow := by cases hRow
  counted _ _ hRow := by cases hRow
  due _ hP := absurd hP not_mem_nil
  running _ hP := absurd hP not_mem_nil

/-! ## Calls -/

variable {f : Held → Held}

theorem held_map (passes : List Pass) :
    (passes.map (Pass.map f)).flatMap Pass.held = (passes.flatMap Pass.held).map f := by
  rw [map_flatMap, flatMap_map]
  refine flatMap_congr fun p _ => ?_
  unfold Pass.held Pass.map
  rw [map_append]
  cases p.running <;> rfl

theorem held_map_ids (hF : ∀ h, (f h).id = h.id) (passes : List Pass) :
    ((passes.map (Pass.map f)).flatMap Pass.held).map Held.id = (passes.flatMap Pass.held).map Held.id := by
  rw [held_map, map_map]
  exact map_congr_left fun h _ => hF h

theorem arm_id (row : JobRow) (h : Held) : (h.arm row).id = h.id := by
  unfold Held.arm
  split <;> rfl

theorem cancel_id (id : String) (h : Held) : (h.cancel id).id = h.id := by
  unfold Held.cancel
  split <;> rfl

theorem Kept.map_passes (h : w.Kept registry) (w' : JobWorld) (hPasses : w'.passes = w.passes.map (Pass.map f))
    (hDue : ∀ p ∈ w.passes, ∀ x ∈ p.due, x.Kept registry w false → (f x).Kept registry w' false)
    (hRuns : ∀ x, x.Kept registry w true → (f x).Kept registry w' true) :
    (∀ p ∈ w'.passes, ∀ x ∈ p.due, x.Kept registry w' false) ∧ ∀ p ∈ w'.passes, ∀ x ∈ p.running, x.Kept registry w' true := by
  rw [hPasses]
  constructor
  · intro p hP x hX
    obtain ⟨old, hOld, rfl⟩ := mem_map.mp hP
    obtain ⟨y, hY, rfl⟩ := mem_map.mp hX
    exact hDue old hOld y hY (h.due old hOld y hY)
  · intro p hP x hX
    obtain ⟨old, hOld, rfl⟩ := mem_map.mp hP
    obtain ⟨y, hY, rfl⟩ := Option.map_eq_some_iff.mp hX
    exact hRuns y (h.running old hOld y hY)

theorem row_schedule (rows : List JobRow) (row : JobRow) (id : String) :
    lookup JobRow.id (upsert JobRow.id rows row) id = if id = row.id then some row else lookup JobRow.id rows id :=
  lookup_upsert rows row id

theorem Kept.schedule (h : w.Kept registry) (id kind : String) (runAt : Int) (payload : String) :
    (w.step registry (.schedule id kind runAt payload)).Kept registry := by
  unfold step
  dsimp only
  cases hDef : registry kind with
  | none => exact h
  | some job =>
    dsimp only
    have hArm : ∀ begun (x : Held), x.Kept registry w begun →
        (x.arm ⟨id, kind, max 0 runAt, payload, 0⟩).Kept registry
          ⟨upsert JobRow.id w.rows ⟨id, kind, max 0 runAt, payload, 0⟩,
            w.passes.map (Pass.map (Held.arm ⟨id, kind, max 0 runAt, payload, 0⟩)), Function.update w.runs id 0⟩ begun := by
      intro begun x hX
      by_cases hId : x.id = id
      · rw [Held.arm, if_pos hId]
        refine ⟨hX.fresh, hX.counted, hX.allowed, fun row hRow => ?_, (fun hNone => nomatch hNone), fun hEq => ?_⟩
        · obtain rfl := Option.some.inj hRow
          refine ⟨(row_schedule _ _ _).trans (if_pos hId), rfl, ?_⟩
          change Function.update w.runs id 0 x.id = 0
          rw [hId, Function.update_self]
        · unfold Held.untouched at hEq
          simp at hEq
      · rw [Held.arm, if_neg hId]
        exact hX.congr ((row_schedule _ _ _).trans (if_neg hId)) (Function.update_of_ne hId _ _)
    obtain ⟨hDue, hRuns⟩ := h.map_passes _ rfl (fun _ _ x _ hX => hArm false x hX) (hArm true)
    refine ⟨upsert_keys_nodup h.ids _, ?_, fun k row hRow => ?_, fun k row hRow hUnheld => ?_, hDue, hRuns⟩
    · unfold held
      rw [held_map_ids (arm_id _)]
      exact h.once
    · unfold JobWorld.row at hRow
      rw [row_schedule] at hRow
      split at hRow
      · obtain rfl := Option.some.inj hRow
        exact ⟨job, hDef, job.limit_pos⟩
      · exact h.allowed k row hRow
    · unfold JobWorld.row at hRow
      rw [row_schedule] at hRow
      dsimp only
      split at hRow
      · next hAt =>
        obtain rfl := Option.some.inj hRow
        rw [hAt, Function.update_self]
      · next hAway =>
        rw [Function.update_of_ne hAway]
        refine h.counted k row hRow fun x hX hId => hUnheld (x.arm ⟨id, kind, max 0 runAt, payload, 0⟩) ?_ ((arm_id _ x).trans hId)
        unfold held
        rw [held_map]
        exact mem_map_of_mem hX

theorem Kept.cancel (h : w.Kept registry) {id : String} (hApart : w.Apart registry (.cancel id)) :
    (w.step registry (.cancel id)).Kept registry := by
  unfold step
  have hRows : ∀ k, lookup JobRow.id (erase JobRow.id w.rows id) k = if k = id then none else w.row k :=
    fun k => lookup_erase w.rows id k
  have hOther : ∀ begun (x : Held), x.id ≠ id → x.Kept registry w begun → (x.cancel id).Kept registry
      ⟨erase JobRow.id w.rows id, w.passes.map (Pass.map (Held.cancel id)), w.runs⟩ begun := by
    intro begun x hId hX
    rw [Held.cancel, if_neg hId]
    exact hX.congr ((hRows x.id).trans (if_neg hId)) rfl
  obtain ⟨hDue, hRuns⟩ := h.map_passes ⟨erase JobRow.id w.rows id, w.passes.map (Pass.map (Held.cancel id)), w.runs⟩
    rfl (fun p hP x hX => hOther false x (hApart p hP x hX)) fun x hX => by
      by_cases hId : x.id = id
      · rw [Held.cancel, if_pos hId]
        refine ⟨(fun hFalse => nomatch hFalse), hX.counted, hX.allowed, (fun row hRow => nomatch hRow),
          fun _ _ => (hRows x.id).trans (if_pos hId), fun hEq => ?_⟩
        unfold Held.untouched at hEq
        simp at hEq
      · exact hOther true x hId hX
  refine ⟨(filter_sublist.map _).nodup h.ids, ?_, fun k row hRow => ?_, fun k row hRow hUnheld => ?_, hDue, hRuns⟩
  · unfold held
    rw [held_map_ids (cancel_id _)]
    exact h.once
  · have hOld := (hRows k).symm.trans hRow
    split at hOld
    · cases hOld
    · exact h.allowed k row hOld
  · have hOld := (hRows k).symm.trans hRow
    split at hOld
    · cases hOld
    · refine h.counted k row hOld fun x hX hId => hUnheld (x.cancel id) ?_ ((cancel_id _ x).trans hId)
      unfold held
      rw [held_map]
      exact mem_map_of_mem hX

/-! ## A pass -/

theorem Kept.begin (h : w.Kept registry) {now : Int} (hApart : w.Apart registry (.begin now)) :
    (w.step registry (.begin now)).Kept registry := by
  unfold step
  have hHeld : (w.passes ++ [(⟨now, (dueJobs w.rows now).map fun job => ⟨job, w.runs job.id, false, none⟩, none⟩ : Pass)]).flatMap
      Pass.held = w.held ++ (dueJobs w.rows now).map fun job => ⟨job, w.runs job.id, false, none⟩ := by
    rw [flatMap_append, flatMap_singleton]
    rfl
  refine ⟨h.ids, ?_, h.allowed, fun k row hRow hUnheld => ?_, fun p hP x hX => ?_, fun p hP x hX => ?_⟩
  · unfold held
    dsimp only
    rw [hHeld, map_append, nodup_append, map_map]
    refine ⟨h.once, dueJobs_ids h.ids now, fun a hA b hB hEq => ?_⟩
    obtain ⟨x, hX, rfl⟩ := mem_map.mp hA
    obtain ⟨job, hJob, rfl⟩ := mem_map.mp hB
    exact hApart job hJob x hX hEq
  · refine h.counted k row hRow fun x hX => hUnheld x ?_
    unfold held
    dsimp only
    rw [hHeld]
    exact mem_append_left _ hX
  · obtain hOld | hNew := mem_append.mp hP
    · exact (h.due p hOld x hX).congr rfl rfl
    · obtain rfl := mem_singleton.mp hNew
      obtain ⟨job, hJob, rfl⟩ := mem_map.mp hX
      have hRow : w.row job.id = some job := lookup_of_mem h.ids (mem_dueJobs hJob)
      have hRuns := h.counted job.id job hRow (hApart job hJob)
      exact ⟨fun _ => rfl, hRuns, h.allowed job.id job hRow, (fun _ hRearmed => nomatch hRearmed),
        (fun _ hCanceled => nomatch hCanceled), fun _ => ⟨hRow, hRuns⟩⟩
  · obtain hOld | hNew := mem_append.mp hP
    · exact (h.running p hOld x hX).congr rfl rfl
    · obtain rfl := mem_singleton.mp hNew
      cases hX

variable {place : Nat} {p : Pass}

section

variable (hP : w.passes[place]? = some p)
include hP

theorem held_perm :
    w.held.Perm (p.held ++ (w.passes.eraseIdx place).flatMap Pass.held) :=
  (perm_cons_eraseIdx hP).flatMap_right _

theorem held_set_perm (p' : Pass) :
    ((w.passes.set place p').flatMap Pass.held).Perm (p'.held ++ (w.passes.eraseIdx place).flatMap Pass.held) :=
  (set_perm_cons_eraseIdx (List.getElem?_eq_some_iff.mp hP).1 p').flatMap_right _

theorem mem_set {p' q : Pass} (hQ : q ∈ w.passes.set place p') :
    q = p' ∨ q ∈ w.passes.eraseIdx place :=
  mem_cons.mp ((set_perm_cons_eraseIdx (List.getElem?_eq_some_iff.mp hP).1 p').mem_iff.mp hQ)

end

variable {x : Held}

theorem Kept.others (h : w.Kept registry) {rest : List Held}
    (hP : w.passes[place]? = some p) (hX : p.held = x :: rest) :
    (∀ y ∈ rest, y.id ≠ x.id) ∧ ∀ q ∈ w.passes.eraseIdx place, ∀ y ∈ q.held, y.id ≠ x.id := by
  have hOnce := ((held_perm hP).map Held.id).nodup_iff.mp h.once
  rw [hX, cons_append, map_cons, nodup_cons] at hOnce
  refine ⟨fun y hY hId => hOnce.1 ?_, fun q hQ y hY hId => hOnce.1 ?_⟩
  · exact hId ▸ mem_map_of_mem (mem_append_left _ hY)
  · exact hId ▸ mem_map_of_mem (mem_append_right _ (mem_flatMap.mpr ⟨q, hQ, hY⟩))

theorem mem_held_due (h : x ∈ p.due) : x ∈ p.held := mem_append_right _ h

theorem mem_held_running (h : x ∈ p.running) : x ∈ p.held :=
  mem_append_left _ (Option.mem_toList.mpr h)

variable {due : List Held}

theorem step_next {now : Int} {job : JobDef}
    (hP : w.passes[place]? = some ⟨now, x :: due, none⟩) (hDef : registry x.job.kind = some job) :
    w.step registry (.next place) = { w with
      passes := w.passes.set place ⟨now, due, some x⟩
      runs := if x.untouched then Function.update w.runs x.id (w.runs x.id + 1) else w.runs } := by
  unfold step
  dsimp only
  rw [hP]
  dsimp only
  rw [hDef]

theorem step_finish {now : Int} {job : JobDef}
    (hP : w.passes[place]? = some ⟨now, due, some x⟩) (hDef : registry x.job.kind = some job) (threw : Bool) :
    w.step registry (.finish place threw) = { w with
      rows := settleRun w.rows job.limit now x.job threw
      passes := w.passes.set place ⟨now, due, none⟩ } := by
  unfold step
  dsimp only
  rw [hP]
  dsimp only
  rw [hDef]

section

variable (h : w.Kept registry)
include h

theorem Kept.next_due {now : Int} {job : JobDef}
    (hP : w.passes[place]? = some ⟨now, x :: due, none⟩) (hDef : registry x.job.kind = some job) :
    (w.step registry (.next place)).Kept registry := by
  rw [step_next hP hDef]
  obtain ⟨hDue, hRest⟩ := h.others hP rfl
  have hPass := mem_of_getElem? hP
  have hX := h.due _ hPass x mem_cons_self
  have hPerm := held_set_perm hP ⟨now, due, some x⟩
  have hHeld : ((w.passes.set place ⟨now, due, some x⟩).flatMap Pass.held).Perm w.held := hPerm.trans (held_perm hP).symm
  have hRuns : ∀ k, k ≠ x.id →
      (if x.untouched then Function.update w.runs x.id (w.runs x.id + 1) else w.runs) k = w.runs k := by
    intro k hAway
    split
    · exact Function.update_of_ne hAway _ _
    · rfl
  refine ⟨h.ids, (hHeld.map Held.id).nodup_iff.mpr h.once, h.allowed, fun k row hRow hUnheld => ?_, fun q hQ y hY => ?_,
    fun q hQ y hY => ?_⟩
  · have hAway : ∀ y ∈ w.held, y.id ≠ k := fun y hY => hUnheld y (hHeld.mem_iff.mpr hY)
    have hMem : x ∈ w.held := mem_flatMap.mpr ⟨_, hPass, mem_cons_self⟩
    exact (hRuns k (hAway x hMem).symm).trans (h.counted k row hRow hAway)
  · obtain rfl | hOther := mem_set hP hQ
    · exact (h.due _ hPass y (mem_cons_of_mem _ hY)).congr rfl (hRuns y.id (hDue y hY))
    · exact (h.due q (mem_of_mem_eraseIdx hOther) y hY).congr rfl (hRuns y.id (hRest q hOther y (mem_held_due hY)))
  · obtain rfl | hOther := mem_set hP hQ
    · obtain rfl := Option.some.inj hY
      refine ⟨(fun hFalse => nomatch hFalse), hX.counted, hX.allowed, fun row hRow => ?_, hX.gone, fun hEq => ?_⟩
      · obtain ⟨hStands, hNew, hNone⟩ := hX.armed row hRow
        have hTouched : ¬ x.untouched = true := by
          unfold Held.untouched
          rw [Option.mem_def.mp hRow]
          simp
        refine ⟨hStands, hNew, ?_⟩
        dsimp only
        rw [if_neg hTouched]
        exact hNone
      · obtain ⟨hStands, hCnt⟩ := hX.same hEq
        refine ⟨hStands, ?_⟩
        dsimp only
        rw [if_pos hEq, Function.update_self, hCnt]
        rfl
    · exact (h.running q (mem_of_mem_eraseIdx hOther) y hY).congr rfl
        (hRuns y.id (hRest q hOther y (mem_held_running hY)))

theorem Kept.settled (hX : x.Kept registry w true) {job : JobDef}
    (hDef : registry x.job.kind = some job) (now : Int) {threw : Bool}
    (hApart : ∀ row ∈ x.rearmed, if threw then x.job.attempts + 1 < job.limit ∧ row.runAt ≠ x.job.runAt
      else row.runAt ≠ x.job.runAt ∨ x.job.attempts ≠ 0) :
    (∀ row ∈ x.rearmed, lookup JobRow.id (settleRun w.rows job.limit now x.job threw) x.id = some row) ∧
    ∀ row, lookup JobRow.id (settleRun w.rows job.limit now x.job threw) x.id = some row →
      w.runs x.id = row.attempts ∧ ∃ job, registry row.kind = some job ∧ row.attempts < job.limit := by
  cases hRearmed : x.rearmed with
  | some row =>
    obtain ⟨hStands, hNew, hNone⟩ := hX.armed row hRearmed
    have hKept : lookup JobRow.id (settleRun w.rows job.limit now x.job threw) x.id = some row :=
      settleRun_rearmed hStands hNew (hApart row hRearmed)
    refine ⟨fun other hOther => Option.some.inj hOther ▸ hKept, fun other hOther => ?_⟩
    obtain rfl := Option.some.inj (hKept.symm.trans hOther)
    exact ⟨hNone.trans hNew.symm, h.allowed x.id row hStands⟩
  | none =>
    refine ⟨(fun _ hRow => nomatch hRow), fun row hRow => ?_⟩
    cases hCanceled : x.canceled with
    | true =>
      have hGone : lookup JobRow.id (settleRun w.rows job.limit now x.job threw) x.job.id = none :=
        settleRun_none (hX.gone hRearmed hCanceled)
      exact nomatch hGone.symm.trans hRow
    | false =>
      have hEq : x.untouched = true := by
        unfold Held.untouched
        rw [hRearmed, hCanceled]
        rfl
      obtain ⟨hStands, hCnt⟩ := hX.same hEq
      obtain hGone | ⟨hLeft, hRetry⟩ := settleRun_own job.limit now threw h.ids hStands
      · exact nomatch hGone.symm.trans hRow
      · obtain rfl := Option.some.inj (hRetry.symm.trans hRow)
        exact ⟨hCnt, job, hDef, hLeft⟩

theorem Kept.finish_running {now : Int} {job : JobDef}
    (hP : w.passes[place]? = some ⟨now, due, some x⟩) (hDef : registry x.job.kind = some job) {threw : Bool}
    (hApart : w.Apart registry (.finish place threw)) : (w.step registry (.finish place threw)).Kept registry := by
  rw [step_finish hP hDef]
  obtain ⟨hDue, hRest⟩ := h.others hP rfl
  have hPass := mem_of_getElem? hP
  have hX := h.running _ hPass x rfl
  have hOwn := (h.settled hX hDef now fun row hRow => hApart _ hP x rfl row hRow job hDef).2
  have hBef := held_perm hP
  have hAfter := held_set_perm hP ⟨now, due, none⟩
  have hCons : w.held.Perm (x :: (w.passes.set place ⟨now, due, none⟩).flatMap Pass.held) :=
    hBef.trans (hAfter.symm.cons x)
  have hOther : ∀ k, k ≠ x.id → lookup JobRow.id (settleRun w.rows job.limit now x.job threw) k = w.row k :=
    fun k hAway => settleRun_other hAway
  refine ⟨settleRun_ids h.ids, ?_, fun k row hRow => ?_, fun k row hRow hUnheld => ?_, fun q hQ y hY => ?_, fun q hQ y hY => ?_⟩
  · exact (nodup_cons.mp ((hCons.map Held.id).nodup_iff.mp h.once)).2
  · by_cases hAt : k = x.id
    · subst hAt
      exact (hOwn row hRow).2
    · exact h.allowed k row ((hOther k hAt).symm.trans hRow)
  · by_cases hAt : k = x.id
    · subst hAt
      exact (hOwn row hRow).1
    · refine h.counted k row ((hOther k hAt).symm.trans hRow) fun y hY => ?_
      obtain rfl | hStill := mem_cons.mp (hCons.mem_iff.mp hY)
      · exact Ne.symm hAt
      · exact hUnheld y hStill
  · obtain rfl | hOld := mem_set hP hQ
    · exact (h.due _ hPass y hY).congr (hOther y.id (hDue y hY)) rfl
    · exact (h.due q (mem_of_mem_eraseIdx hOld) y hY).congr (hOther y.id (hRest q hOld y (mem_held_due hY))) rfl
  · obtain rfl | hOld := mem_set hP hQ
    · cases hY
    · exact (h.running q (mem_of_mem_eraseIdx hOld) y hY).congr (hOther y.id (hRest q hOld y (mem_held_running hY))) rfl

theorem Kept.step {input : JobInput} (hApart : w.Apart registry input) :
    (w.step registry input).Kept registry := by
  cases input with
  | schedule id kind runAt payload => exact h.schedule id kind runAt payload
  | cancel id => exact h.cancel hApart
  | begin now => exact h.begin hApart
  | next place =>
    cases hP : w.passes[place]? with
    | none =>
      unfold JobWorld.step
      dsimp only
      rw [hP]
      exact h
    | some p =>
      match p, hP with
      | ⟨now, x :: due, none⟩, hP =>
        obtain ⟨job, hDef, -⟩ := (h.due _ (mem_of_getElem? hP) x mem_cons_self).allowed
        exact h.next_due hP hDef
      | ⟨now, [], running⟩, hP | ⟨now, x :: due, some y⟩, hP =>
        unfold JobWorld.step
        dsimp only
        rw [hP]
        exact h
  | finish place threw =>
    cases hP : w.passes[place]? with
    | none =>
      unfold JobWorld.step
      dsimp only
      rw [hP]
      exact h
    | some p =>
      match p, hP with
      | ⟨now, due, some x⟩, hP =>
        obtain ⟨job, hDef, -⟩ := (h.running _ (mem_of_getElem? hP) x rfl).allowed
        exact h.finish_running hP hDef hApart
      | ⟨now, due, none⟩, hP =>
        unfold JobWorld.step
        dsimp only
        rw [hP]
        exact h

theorem Kept.sound {input : JobInput} (hApart : w.Apart registry input) : w.Sound registry input where
  rearmed place threw hInput p hP x hX row hRow := by
    subst hInput
    obtain ⟨now, due, running⟩ := p
    obtain rfl : running = some x := hX
    have hRuns := h.running _ (mem_of_getElem? hP) x rfl
    obtain ⟨job, hDef, -⟩ := hRuns.allowed
    rw [step_finish hP hDef]
    exact (h.settled hRuns hDef now fun row hRow => hApart _ hP x rfl row hRow job hDef).1 row hRow
  canceled place _ p hP _ x hX _ := (h.due p (mem_of_getElem? hP) x (mem_of_mem_head? hX)).fresh rfl
  attempts place _ p hP _ x hX job hJob := by
    have hWaits := h.due p (mem_of_getElem? hP) x (mem_of_mem_head? hX)
    obtain ⟨other, hDef, hLeft⟩ := hWaits.allowed
    obtain rfl := Option.some.inj (hDef.symm.trans hJob)
    rw [hWaits.counted]
    exact hLeft

end

/-- In a run whose steps keep apart what is armed and what is run, each next step of that kind is sound. -/
theorem armed_of_run {inputs : List JobInput} (hRun : Along (JobWorld.step registry) (Apart registry) {} inputs)
    {input : JobInput} (hApart : (run (JobWorld.step registry) {} inputs).Apart registry input) :
    (run (JobWorld.step registry) {} inputs).Sound registry input := by
  have hKept : (run (JobWorld.step registry) {} inputs).Kept registry :=
    run_invariant (fun _ _ hBefore hApart => hBefore.step hApart) kept_empty hRun
  exact hKept.sound hApart

def anyKind : Registry := fun _ => some ⟨none, nofun⟩

/-- A job that is read and begun, and armed again at `runAt` while it runs. -/
def rearmedRun (runAt : Int) : List JobInput :=
  [.schedule "a" "note" 5 "first", .begin 10, .next 0, .schedule "a" "note" runAt "second"]

theorem rearmedRun_running (runAt : Int) : ∃ runs, run (JobWorld.step anyKind) {} (rearmedRun runAt) =
    ⟨[⟨"a", "note", max 0 runAt, "second", 0⟩],
      [⟨10, [], some ⟨⟨"a", "note", 5, "first", 0⟩, 0, false, some ⟨"a", "note", max 0 runAt, "second", 0⟩⟩⟩], runs⟩ := by
  have hDue : dueJobs [⟨"a", "note", 5, "first", 0⟩] 10 = [⟨"a", "note", 5, "first", 0⟩] := by
    simp [dueJobs, jobBatch]
  have hBegun : run (JobWorld.step anyKind) {} [.schedule "a" "note" 5 "first", .begin 10] =
      ⟨[⟨"a", "note", 5, "first", 0⟩], [⟨10, [⟨⟨"a", "note", 5, "first", 0⟩, 0, false, none⟩], none⟩],
        Function.update (fun _ => 0) "a" 0⟩ := by
    change JobWorld.mk [⟨"a", "note", 5, "first", 0⟩] ([] ++ [⟨10, List.map _ (dueJobs [⟨"a", "note", 5, "first", 0⟩] 10), none⟩]) _ = _
    rw [hDue]
    rfl
  have hRun : run (JobWorld.step anyKind) {} (rearmedRun runAt) = run (JobWorld.step anyKind)
      (run (JobWorld.step anyKind) {} [.schedule "a" "note" 5 "first", .begin 10])
      [.next 0, .schedule "a" "note" runAt "second"] := rfl
  rw [hRun, hBegun]
  exact ⟨_, rfl⟩

theorem rearmedRun_apart : Along (JobWorld.step anyKind) (Apart anyKind) {} (rearmedRun 20) :=
  ⟨trivial, fun _ _ _ hHeld => absurd hHeld not_mem_nil, trivial, trivial, trivial⟩

theorem armed_of_rearmedRun : (run (JobWorld.step anyKind) {} (rearmedRun 20)).Sound anyKind (.finish 0 false) := by
  obtain ⟨runs, hWorld⟩ := rearmedRun_running 20
  refine armed_of_run rearmedRun_apart fun p hP h hH row hRow job _ => ?_
  rw [hWorld] at hP
  obtain rfl := Option.some.inj hP
  obtain rfl := Option.some.inj hH
  obtain rfl := Option.some.inj hRow
  exact Or.inl (by decide)

/-- Armed again for the time at which it stood, the job is gone when its run succeeds. -/
theorem rearmedRun_loses : ¬ (run (JobWorld.step anyKind) {} (rearmedRun 5)).Sound anyKind (.finish 0 false) := by
  obtain ⟨runs, hWorld⟩ := rearmedRun_running 5
  intro h
  have hStays := h.rearmed 0 false rfl
  rw [hWorld] at hStays
  cases hStays _ rfl _ rfl _ rfl

end JobWorld

end Stella.OwnerJobs
