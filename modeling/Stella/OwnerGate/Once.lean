import Stella.OwnerGate.Table

/-! # A dispatch runs once

What the notes say about a dispatch: a start is sent only while the row is committed to the cloud,
a row is committed only from an offer or a claim, and the one start under way blocks the next.
-/

namespace Stella.OwnerGate

open Stella.Transition List

def Waiting (state : DispatchState) : Prop := state = .offering ∨ state = .computerClaimed

instance (state : DispatchState) : Decidable (Waiting state) := inferInstanceAs (Decidable (_ ∨ _))

def Startable (state : DispatchState) : Prop := Waiting state ∨ state = .cloudCommitted

instance (state : DispatchState) : Decidable (Startable state) := inferInstanceAs (Decidable (_ ∨ _))

def Note.id : Note → String
  | .started id _ => id
  | .refused id _ => id
  | .acked id => id
  | .canceled id => id

def Task.cloudId : Task → Option String
  | .cloud _ row _ _ => some row.dispatchId
  | _ => none

def Task.start : Task → Option Nat
  | .cloud (.sent start _) _ _ _ => some start
  | .cloud (.accepted start _ _ _) _ _ _ => some start
  | _ => none

namespace Gate

def Busy (g : Gate) (id : String) : Prop := ∃ task ∈ g.tasks, task.cloudId = some id

/-- Every start of the dispatch but `start` was refused. -/
def RefusedBut (g : Gate) (id : String) (start : Option Nat) : Prop :=
  ∀ n, .started id n ∈ g.log → .refused id n ∈ g.log ∨ start = some n

def Clear (g : Gate) (id : String) : Prop := g.RefusedBut id none ∧ ¬ g.Busy id

/-- The claim: an acked dispatch has no start, at most one start is not
refused, and after a stop was answered nothing is started or acked. -/
structure ExecutesOnce (g : Gate) : Prop where
  acked : ∀ id n, .acked id ∈ g.log → .started id n ∉ g.log
  started : ∀ id n m, .started id n ∈ g.log → .started id m ∈ g.log → .refused id n ∉ g.log →
    .refused id m ∉ g.log → n = m
  canceled : ∀ id before after, g.log = before ++ .canceled id :: after →
    (∀ n, .started id n ∉ after) ∧ .acked id ∉ after

structure Single (g : Gate) : Prop where
  once : ExecutesOnce g
  one : (g.tasks.filterMap Task.cloudId).Nodup
  parked : ∀ task ∈ g.tasks, ∀ id, task.cloudId = some id → g.RefusedBut id task.start
  waiting : ∀ id row, g.dispatchRow id = some row → Waiting row.state →
    (∀ n, .started id n ∉ g.log) ∧ ¬ g.Busy id
  retry : ∀ id row, g.dispatchRow id = some row → row.state = .cloudCommitted → row.cloudRetryAt.isSome = true →
    g.Clear id
  taken : ∀ id, .acked id ∈ g.log ∨ .canceled id ∈ g.log → ∀ row, g.dispatchRow id = some row →
    ¬ Startable row.state
  known : ∀ id, (∃ n ∈ g.log, n.id = id) ∨ g.Busy id → (g.dispatchRow id).isSome = true

variable {g g' : Gate} {id : String}

theorem Busy.congr (hTasks : g'.tasks = g.tasks) : g'.Busy id ↔ g.Busy id := by
  rw [Busy, Busy, hTasks]

theorem Single.congr (h : Single g) (hRows : g'.dispatches = g.dispatches)
    (hTasks : g'.tasks = g.tasks) (hLog : g'.log = g.log) : Single g' := by
  obtain ⟨dispatches, offers, terminals, handoffs, alarm, clock, tasks, expiring, log⟩ := g
  obtain ⟨dispatches', offers', terminals', handoffs', alarm', clock', tasks', expiring', log'⟩ := g'
  obtain rfl : dispatches' = dispatches := hRows
  obtain rfl : tasks' = tasks := hTasks
  obtain rfl : log' = log := hLog
  exact ⟨⟨h.once.acked, h.once.started, h.once.canceled⟩, h.one, h.parked, h.waiting, h.retry, h.taken, h.known⟩

variable {patch : DispatchRow → DispatchRow}

theorem Single.update (h : Single g)
    (hKeeps : Keeps patch)
    (hWait : ∀ row, g.dispatchRow id = some row → Waiting (patch row).state → Waiting row.state)
    (hStartable : ∀ row, g.dispatchRow id = some row → Startable (patch row).state → Startable row.state)
    (hRetry : ∀ row, g.dispatchRow id = some row → (patch row).state = .cloudCommitted →
      (patch row).cloudRetryAt.isSome = true → g.Clear id) : Single (g.update id patch) where
  once := ⟨h.once.acked, h.once.started, h.once.canceled⟩
  one := h.one
  parked := h.parked
  waiting other row' hRow' hSt := by
    rw [g.dispatchRow_update hKeeps] at hRow'
    split at hRow'
    · next hEq =>
      subst hEq
      obtain ⟨row, hRow, rfl⟩ := Option.map_eq_some_iff.mp hRow'
      exact h.waiting other row hRow (hWait row hRow hSt)
    · exact h.waiting other row' hRow' hSt
  retry other row' hRow' hSt hSome := by
    rw [g.dispatchRow_update hKeeps] at hRow'
    split at hRow'
    · next hEq =>
      subst hEq
      obtain ⟨row, hRow, rfl⟩ := Option.map_eq_some_iff.mp hRow'
      exact hRetry row hRow hSt hSome
    · exact h.retry other row' hRow' hSt hSome
  taken other hTaken row' hRow' hSt := by
    rw [g.dispatchRow_update hKeeps] at hRow'
    split at hRow'
    · next hEq =>
      subst hEq
      obtain ⟨row, hRow, rfl⟩ := Option.map_eq_some_iff.mp hRow'
      exact h.taken other hTaken row hRow (hStartable row hRow hSt)
    · exact h.taken other hTaken row' hRow' hSt
  known other hKnown := by
    rw [g.dispatchRow_update hKeeps]
    split
    · next hEq =>
      subst hEq
      rw [Option.isSome_map]
      exact h.known other hKnown
    · exact h.known other hKnown

structure Closes (patch : DispatchRow → DispatchRow) : Prop where
  id : Keeps patch
  state : ∀ row, ¬ Startable (patch row).state

theorem Closes.single (hCloses : Closes patch) (h : Single g)
    (id : String) : Single (g.update id patch) :=
  h.update hCloses.id (fun row _ hSt => absurd (.inl hSt) (hCloses.state row))
    (fun row _ hSt => absurd hSt (hCloses.state row))
    (fun row _ hSt => absurd (.inr hSt) (hCloses.state row))

theorem Closes.single_patch (hCloses : Closes patch)
    (h : Single g) (row : DispatchRow) (now : Nat) : Single (g.patchDispatch row patch now) := by
  have hPatched : Closes (patched patch now) := ⟨hCloses.id, hCloses.state⟩
  exact hPatched.single h row.dispatchId

structure Spares (patch : DispatchRow → DispatchRow) : Prop where
  id : Keeps patch
  state : ∀ row, (patch row).state = row.state
  retry : ∀ row, (patch row).cloudRetryAt.isSome = true → row.cloudRetryAt.isSome = true

theorem Spares.single (hSpares : Spares patch) (h : Single g)
    (id : String) : Single (g.update id patch) :=
  h.update hSpares.id (fun row _ hSt => hSpares.state row ▸ hSt)
    (fun row _ hSt => hSpares.state row ▸ hSt)
    (fun row hRow hSt hSome => h.retry id row hRow (hSpares.state row ▸ hSt) (hSpares.retry row hSome))

theorem spares_gatePatch (held : Bool) : Spares (gatePatch held) := ⟨fun _ => rfl, fun _ => rfl, fun _ h => h⟩

theorem spares_turnPatch (turnId : String) : Spares (turnPatch turnId) := ⟨fun _ => rfl, fun _ => rfl, fun _ h => h⟩

theorem spares_attemptPatch : Spares attemptPatch :=
  ⟨fun _ => rfl, fun _ => rfl, fun _ h => absurd h Bool.false_ne_true⟩

theorem spares_dropPayloadPatch : Spares dropPayloadPatch := ⟨fun _ => rfl, fun _ => rfl, fun _ h => h⟩

theorem Single.releaseGate (h : Single g) (row : DispatchRow) : Single (g.releaseGate row) := by
  unfold Gate.releaseGate
  split
  · exact (spares_gatePatch false).single h row.dispatchId
  · exact h

/-! ## Notes and parked branches -/

theorem snoc_canceled {log before after : List Note} {n : Note}
    (hEq : log ++ [n] = before ++ .canceled id :: after) :
    after = [] ∨ ∃ rest, after = rest ++ [n] ∧ log = before ++ .canceled id :: rest := by
  obtain rfl | ⟨rest, last, rfl⟩ := eq_nil_or_concat after
  · exact .inl rfl
  · right
    rw [concat_eq_append, ← cons_append, ← append_assoc] at hEq
    obtain ⟨hLog, hLast⟩ := append_inj' hEq rfl
    obtain rfl := singleton_inj.mp hLast
    exact ⟨rest, concat_eq_append, hLog⟩

theorem Single.note (h : Single g) {n : Note} (hStored : (g.dispatchRow n.id).isSome = true)
    (hStarted : ∀ id k, n = .started id k → (.acked id ∉ g.log ∧ .canceled id ∉ g.log ∧ g.Clear id) ∧
      ∀ row, g.dispatchRow id = some row → ¬ Waiting row.state ∧ (row.state = .cloudCommitted → row.cloudRetryAt = none))
    (hAcked : ∀ id, n = .acked id → (∀ k, .started id k ∉ g.log) ∧ .canceled id ∉ g.log)
    (hTaken : ∀ id, n = .acked id ∨ n = .canceled id → ∀ row, g.dispatchRow id = some row → ¬ Startable row.state) :
    Single (g.note n) := by
  have hMem : ∀ {m : Note}, m ∈ (g.note n).log ↔ m ∈ g.log ∨ m = n := by
    intro m
    rw [note_log, mem_append, mem_singleton]
  have hFresh : ∀ {id k}, .started id k ∈ (g.note n).log → .started id k ∈ g.log ∨ n = .started id k := fun hS =>
    (hMem.mp hS).imp_right Eq.symm
  have hBut : ∀ {id start}, g.RefusedBut id start → (∀ k, n ≠ .started id k) → (g.note n).RefusedBut id start := by
    intro id start hRef hNot k hK
    obtain hOld | hNew := hFresh hK
    · exact (hRef k hOld).imp_left fun hR => hMem.mpr (.inl hR)
    · exact absurd hNew (hNot k)
  refine ⟨⟨?_, ?_, ?_⟩, h.one, ?_, ?_, ?_, ?_, ?_⟩
  · intro id k hA hS
    obtain hAOld | hANew := hMem.mp hA
    · obtain hSOld | hSNew := hFresh hS
      · exact h.once.acked id k hAOld hSOld
      · exact (hStarted id k hSNew).1.1 hAOld
    · obtain hSOld | hSNew := hFresh hS
      · exact (hAcked id hANew.symm).1 k hSOld
      · exact Note.noConfusion (hANew.trans hSNew)
  · intro id k m hK hM hNotK hNotM
    have hNotK' : .refused id k ∉ g.log := fun hR => hNotK (hMem.mpr (.inl hR))
    have hNotM' : .refused id m ∉ g.log := fun hR => hNotM (hMem.mpr (.inl hR))
    obtain hKOld | hKNew := hFresh hK
    · obtain hMOld | hMNew := hFresh hM
      · exact h.once.started id k m hKOld hMOld hNotK' hNotM'
      · exact absurd ((hStarted id m hMNew).1.2.2.1 k hKOld) (by simpa using hNotK')
    · obtain hMOld | hMNew := hFresh hM
      · exact absurd ((hStarted id k hKNew).1.2.2.1 m hMOld) (by simpa using hNotM')
      · cases hKNew.symm.trans hMNew; rfl
  · intro id before after hEq
    rw [note_log] at hEq
    obtain rfl | ⟨rest, rfl, hLog⟩ := snoc_canceled hEq
    · exact ⟨fun _ => not_mem_nil, not_mem_nil⟩
    · obtain ⟨hNoStart, hNoAck⟩ := h.once.canceled id before rest hLog
      have hCanceled : .canceled id ∈ g.log := by rw [hLog]; simp
      constructor
      · intro k hK
        obtain hOld | hNew := mem_append.mp hK
        · exact hNoStart k hOld
        · exact (hStarted id k (mem_singleton.mp hNew).symm).1.2.1 hCanceled
      · intro hA
        obtain hOld | hNew := mem_append.mp hA
        · exact hNoAck hOld
        · exact (hAcked id (mem_singleton.mp hNew).symm).2 hCanceled
  · intro task hTask id hId
    refine hBut (h.parked task hTask id hId) fun k hK => ?_
    exact (hStarted id k hK).1.2.2.2 ⟨task, hTask, hId⟩
  · intro id row hRow hSt
    obtain ⟨hNone, hIdle⟩ := h.waiting id row hRow hSt
    refine ⟨fun k hK => ?_, hIdle⟩
    obtain hOld | hNew := hFresh hK
    · exact hNone k hOld
    · exact ((hStarted id k hNew).2 row hRow).1 hSt
  · intro id row hRow hSt hSome
    obtain ⟨hRef, hIdle⟩ := h.retry id row hRow hSt hSome
    refine ⟨hBut hRef fun k hK => ?_, hIdle⟩
    rw [((hStarted id k hK).2 row hRow).2 hSt] at hSome
    exact Bool.noConfusion hSome
  · intro id hT row hRow
    obtain hA | hC := hT
    · obtain hOld | hNew := hMem.mp hA
      · exact h.taken id (.inl hOld) row hRow
      · exact hTaken id (.inl hNew.symm) row hRow
    · obtain hOld | hNew := hMem.mp hC
      · exact h.taken id (.inr hOld) row hRow
      · exact hTaken id (.inr hNew.symm) row hRow
  · intro id hKnown
    obtain ⟨m, hM, rfl⟩ | hBusy := hKnown
    · obtain hOld | rfl := hMem.mp hM
      · exact h.known m.id (.inl ⟨m, hOld, rfl⟩)
      · exact hStored
    · exact h.known id (.inr hBusy)

theorem Single.refused (h : Single g) {k : Nat} (hStored : (g.dispatchRow id).isSome = true) :
    Single (g.note (.refused id k)) :=
  h.note hStored nofun nofun (fun _ hN => hN.elim nofun nofun)

variable {task : Task}

theorem Single.park (h : Single g) (hCloud : task.cloudId = none) : Single (g.park task) := by
  have hBusy : ∀ {id}, (g.park task).Busy id ↔ g.Busy id := by
    intro id
    constructor
    · rintro ⟨other, hOther, hId⟩
      obtain hOld | hNew := mem_append.mp hOther
      · exact ⟨other, hOld, hId⟩
      · rw [mem_singleton.mp hNew, hCloud] at hId
        cases hId
    · rintro ⟨other, hOther, hId⟩
      exact ⟨other, mem_append_left _ hOther, hId⟩
  refine ⟨⟨h.once.acked, h.once.started, h.once.canceled⟩, ?_, ?_, ?_, ?_, h.taken, ?_⟩
  · rw [park_tasks, filterMap_append]
    simpa [hCloud] using h.one
  · intro other hOther id hId
    obtain hOld | hNew := mem_append.mp hOther
    · exact h.parked other hOld id hId
    · rw [mem_singleton.mp hNew, hCloud] at hId
      cases hId
  · intro id row hRow hSt
    obtain ⟨hNone, hIdle⟩ := h.waiting id row hRow hSt
    exact ⟨hNone, fun hB => hIdle (hBusy.mp hB)⟩
  · intro id row hRow hSt hSome
    obtain ⟨hRef, hIdle⟩ := h.retry id row hRow hSt hSome
    exact ⟨hRef, fun hB => hIdle (hBusy.mp hB)⟩
  · intro id hKnown
    exact h.known id (hKnown.imp_right hBusy.mp)

/-- What a cloud branch of `id` may park on: the row is taken by the cloud
or further on, no retry is due, and no other branch is parked. -/
structure Free (g : Gate) (id : String) (start : Option Nat) : Prop where
  stored : (g.dispatchRow id).isSome = true
  refused : g.RefusedBut id start
  idle : ¬ g.Busy id
  row : ∀ row, g.dispatchRow id = some row → ¬ Waiting row.state ∧ (row.state = .cloudCommitted → row.cloudRetryAt = none)

variable {row : DispatchRow} {now : Nat} {after : After}

theorem Single.parkCloud (h : Single g) {stage : Stage}
    (hFree : Free g row.dispatchId (Task.start (.cloud stage row now after))) :
    Single (g.park (.cloud stage row now after)) := by
  have hBusy : ∀ {id}, (g.park (.cloud stage row now after)).Busy id → g.Busy id ∨ id = row.dispatchId := by
    rintro id ⟨other, hOther, hId⟩
    obtain hOld | hNew := mem_append.mp hOther
    · exact .inl ⟨other, hOld, hId⟩
    · rw [mem_singleton.mp hNew] at hId
      exact .inr (Option.some.inj hId).symm
  refine ⟨⟨h.once.acked, h.once.started, h.once.canceled⟩, ?_, ?_, ?_, ?_, h.taken, ?_⟩
  · rw [park_tasks, filterMap_append]
    refine nodup_append.mpr ⟨h.one, by simp [Task.cloudId], ?_⟩
    rintro id hId other hOther rfl
    obtain ⟨task, hTask, hTaskId⟩ := mem_filterMap.mp hId
    simp only [Task.cloudId, filterMap_cons, filterMap_nil, mem_singleton] at hOther
    exact hFree.idle ⟨task, hTask, hOther ▸ hTaskId⟩
  · intro other hOther id hId
    obtain hOld | hNew := mem_append.mp hOther
    · exact h.parked other hOld id hId
    · rw [mem_singleton.mp hNew] at hId ⊢
      obtain rfl := Option.some.inj hId
      exact hFree.refused
  · intro id stored hStored hSt
    obtain ⟨hNone, hIdle⟩ := h.waiting id stored hStored hSt
    refine ⟨hNone, fun hB => ?_⟩
    obtain hOld | rfl := hBusy hB
    · exact hIdle hOld
    · exact (hFree.row stored hStored).1 hSt
  · intro id stored hStored hSt hSome
    obtain ⟨hRef, hIdle⟩ := h.retry id stored hStored hSt hSome
    refine ⟨hRef, fun hB => ?_⟩
    obtain hOld | rfl := hBusy hB
    · exact hIdle hOld
    · rw [(hFree.row stored hStored).2 hSt] at hSome
      exact Bool.noConfusion hSome
  · intro id hKnown
    obtain hNote | hB := hKnown
    · exact h.known id (.inl hNote)
    · obtain hOld | rfl := hBusy hB
      · exact h.known id (.inr hOld)
      · exact hFree.stored

/-! ## The cloud branch -/

theorem Single.scheduleAlarm (h : Single g) (out : Outside) (now : Nat) (preserve : Bool) :
    Single (g.scheduleAlarm out now preserve) :=
  h.congr (by simp) (by simp) (by simp)

theorem Single.goOn (h : Single g) (out : Outside) (after : After) : Single (g.goOn out after) :=
  h.congr (by simp) (by simp) (by simp)

theorem Single.settle (h : Single g) (out : Outside) (before next : DispatchRow) (after : After) :
    Single (g.settle out before next after) := by
  unfold Gate.settle
  split
  · exact h.park rfl
  · exact (h.releaseGate next).goOn out after

theorem Closes.patchAndSettle (hCloses : Closes patch)
    (h : Single g) (out : Outside) (row : DispatchRow) (now : Nat) (after : After) :
    Single (g.patchAndSettle out row patch now after) :=
  (hCloses.single_patch h row now).settle out row _ after

variable {state : DispatchState}

theorem not_startable_terminal (h : isTerminalDispatchState state = true) :
    ¬ Startable state := by
  cases state <;> simp_all [isTerminalDispatchState, Startable, Waiting]

theorem closes_refusalPatch (code message : String) : Closes (refusalPatch code message) :=
  ⟨fun _ => rfl, fun _ => not_startable_terminal rfl⟩

theorem Single.cloudRefusal (h : Single g) (hClear : g.Clear row.dispatchId)
    (out : Outside) (status : Nat) (code message : String) (now : Nat) (after : After) :
    Single (g.cloudRefusal out row status code message now after) := by
  unfold Gate.cloudRefusal
  split
  · have hKeeps : Keeps (patched (retryPatch code message now) now) := fun _ => rfl
    have hPatched : Single (g.patchDispatch row (retryPatch code message now) now) :=
      h.update hKeeps (fun _ _ hSt => hSt) (fun _ _ hSt => hSt) (fun _ _ _ _ => hClear)
    exact (hPatched.scheduleAlarm out now true).goOn out after
  · exact (closes_refusalPatch code message).patchAndSettle h out row now after

def Committed (g : Gate) (id : String) : Prop :=
  ∃ row, g.dispatchRow id = some row ∧ row.state = .cloudCommitted ∧ row.cloudRetryAt = none

theorem Committed.free (h : g.Committed id) (hClear : g.Clear id) : Free g id none := by
  obtain ⟨row, hRow, hSt, hRetry⟩ := h
  refine ⟨by rw [hRow]; rfl, hClear.1, hClear.2, fun stored hStored => ?_⟩
  obtain rfl := Option.some.inj (hRow.symm.trans hStored)
  refine ⟨?_, fun _ => hRetry⟩
  rw [hSt]
  exact fun hWait => hWait.elim nofun nofun

theorem Single.send (h : Single g) (hComm : g.Committed row.dispatchId)
    (hClear : g.Clear row.dispatchId) (via : Via) (now : Nat) (after : After) :
    Single (g.send via row now after) := by
  have hFree := hComm.free hClear
  obtain ⟨stored, hStored, hSt, hRetry⟩ := hComm
  have hStartable : Startable stored.state := .inr hSt
  have hNotAcked : .acked row.dispatchId ∉ g.log := fun hA => h.taken _ (.inl hA) stored hStored hStartable
  have hNotCanceled : .canceled row.dispatchId ∉ g.log := fun hC => h.taken _ (.inr hC) stored hStored hStartable
  have hNoted : Single (g.note (.started row.dispatchId g.log.length)) := by
    refine h.note hFree.stored ?_ nofun (fun _ hN => hN.elim nofun nofun)
    rintro id k hEq
    obtain ⟨rfl, rfl⟩ := Note.started.inj hEq
    exact ⟨⟨hNotAcked, hNotCanceled, hClear⟩, hFree.row⟩
  refine hNoted.parkCloud ⟨hFree.stored, fun k hK => ?_, hFree.idle, hFree.row⟩
  rw [note_log, mem_append, mem_singleton] at hK
  obtain hOld | hNew := hK
  · left
    exact mem_append_left _ ((hClear.1 k hOld).resolve_right nofun)
  · right
    rw [(Note.started.inj hNew).2]
    rfl

theorem Free.congr {start : Option Nat} (h : Free g id start)
    (hRows : g'.dispatches = g.dispatches) (hTasks : g'.tasks = g.tasks) (hLog : g'.log = g.log) :
    Free g' id start where
  stored := by rw [dispatchRow_congr hRows]; exact h.stored
  refused k hK := by rw [hLog] at hK ⊢; exact h.refused k hK
  idle hB := h.idle ((Busy.congr hTasks).mp hB)
  row row hRow := h.row row (by rw [← dispatchRow_congr hRows]; exact hRow)

theorem Free.clear (h : Free g id none) : g.Clear id := ⟨h.refused, h.idle⟩

theorem Spares.free (hSpares : Spares patch)
    {start : Option Nat} (h : Free g id start) : Free (g.update id patch) id start where
  stored := by rw [g.dispatchRow_update hSpares.id, if_pos rfl, Option.isSome_map]; exact h.stored
  refused := h.refused
  idle := h.idle
  row row' hRow' := by
    rw [g.dispatchRow_update hSpares.id, if_pos rfl] at hRow'
    obtain ⟨row, hRow, rfl⟩ := Option.map_eq_some_iff.mp hRow'
    obtain ⟨hWait, hRetry⟩ := h.row row hRow
    rw [hSpares.state]
    refine ⟨hWait, fun hSt => ?_⟩
    by_contra hSome
    have hStored := hSpares.retry row (Option.isSome_iff_ne_none.mpr hSome)
    rw [hRetry hSt] at hStored
    exact Bool.noConfusion hStored

section

variable (h : Single g)
include h

theorem Single.putHandoff (id : String) (handoff : CloudChatHandoff) :
    Single (g.putHandoff id handoff) := h.congr rfl rfl rfl

theorem Single.sendChat (hFree : Free g row.dispatchId none)
    (out : Outside) (turnId : String) (now : Nat) (after : After) :
    Single (g.sendChat out row turnId now after) := by
  unfold Gate.sendChat
  split
  · next hRead =>
    obtain ⟨stored, hStored, hSt⟩ := (Option.any_eq_true _ _).mp hRead
    have hComm : (g.update row.dispatchId (turnPatch turnId)).Committed row.dispatchId := by
      refine ⟨turnPatch turnId stored, ?_, of_decide_eq_true hSt,
        (hFree.row stored hStored).2 (of_decide_eq_true hSt)⟩
      rw [g.dispatchRow_update (spares_turnPatch turnId).id, if_pos rfl, hStored, Option.map_some]
    exact ((spares_turnPatch turnId).single h row.dispatchId).send hComm hFree.clear _ now after
  · split
    · exact ((h.putHandoff row.dispatchId _).releaseGate _).goOn out after
    · exact h.goOn out after

theorem Single.startCloudChat (hComm : g.Committed row.dispatchId)
    (hClear : g.Clear row.dispatchId) (out : Outside) (now : Nat) (after : After) :
    Single (g.startCloudChat out row now after) := by
  have hFree := hComm.free hClear
  unfold Gate.startCloudChat
  split
  · split
    · exact (h.putHandoff row.dispatchId _).parkCloud (hFree.congr rfl rfl rfl)
    · exact h.send hComm hClear _ now after
  · exact h.parkCloud hFree
  · exact h.sendChat hFree out _ now after
  · exact h.cloudRefusal hClear out _ _ _ now after

theorem Single.startCloudAgent
    (hComm : g.Committed row.dispatchId) (hClear : g.Clear row.dispatchId) (out : Outside)
    (payload : DispatchPayload) (now : Nat) (after : After) :
    Single (g.startCloudAgent out row payload now after) := by
  unfold Gate.startCloudAgent
  split
  · exact h.goOn out after
  · split
    · exact h.send hComm hClear _ now after
    · exact h.send hComm hClear _ now after

theorem Single.runCloudBranch
    (hReady : row.state = .cloudCommitted → g.Clear row.dispatchId ∧
      ∃ stored, g.dispatchRow row.dispatchId = some stored ∧ stored.state = .cloudCommitted)
    (out : Outside) (now : Nat) (after : After) : Single (g.runCloudBranch out row now after) := by
  unfold Gate.runCloudBranch
  split
  · exact h.goOn out after
  · next hSt =>
    obtain ⟨hClear, stored, hStored, hComm⟩ := hReady (by simpa using hSt)
    split
    · have hCloses : Closes (unsupportedPatch (cloudUnsupportedCapabilities row.request.requiredCapabilities)) :=
        ⟨fun _ => rfl, fun _ => not_startable_terminal rfl⟩
      exact hCloses.patchAndSettle h out row now after
    · split
      · have hCloses : Closes payloadUnavailablePatch := ⟨fun _ => rfl, fun _ => not_startable_terminal rfl⟩
        exact hCloses.patchAndSettle h out row now after
      · have hAtt := spares_attemptPatch.single h row.dispatchId
        have hId := (g.update row.dispatchId attemptPatch).current_id row
        have hReady' : (g.update row.dispatchId attemptPatch).Committed
            ((g.update row.dispatchId attemptPatch).current row).dispatchId := by
          rw [hId]
          refine ⟨attemptPatch stored, ?_, hComm, rfl⟩
          rw [g.dispatchRow_update spares_attemptPatch.id, if_pos rfl, hStored, Option.map_some]
        have hClear : (g.update row.dispatchId attemptPatch).Clear
            ((g.update row.dispatchId attemptPatch).current row).dispatchId := by
          rw [hId]
          exact hClear
        unfold Gate.attempt
        split
        · exact hAtt.startCloudChat hReady' hClear out now after
        · exact hAtt.startCloudAgent hReady' hClear out _ now after

end

theorem closes_blockedPatch (refusal : Refusal) : Closes (blockedPatch refusal) :=
  ⟨fun _ => rfl, fun _ => not_startable_terminal rfl⟩

theorem Single.resolveUnaccepted (h : Single g)
    (hStored : Waiting row.state → row.onNoEligibleComputer = .cloud →
      ∃ stored, g.dispatchRow row.dispatchId = some stored ∧ Waiting stored.state)
    (out : Outside) (now : Nat) (reason : String) (after : After) :
    Single (g.resolveUnaccepted out row now reason after) := by
  have hWithdrawn : Single (g.withdrawOffers row.dispatchId none) := h.congr rfl rfl rfl
  unfold Gate.resolveUnaccepted
  split
  · exact h.goOn out after
  · next hSt =>
    have hRow : Waiting row.state := by
      by_contra hNot
      exact hSt (not_or.mp hNot)
    split
    · next hFallback =>
      split
      · exact (closes_blockedPatch _).patchAndSettle hWithdrawn out row now after
      · obtain ⟨stored, hRead, hWait⟩ := hStored hRow hFallback
        obtain ⟨hNone, hIdle⟩ := h.waiting _ stored hRead hWait
        have hClear : g.Clear row.dispatchId := ⟨fun k hK => absurd hK (hNone k), hIdle⟩
        have hKeeps : Keeps (committedPatch reason now) := fun _ => rfl
        have hPatches : Keeps (patched (committedPatch reason now) now) := fun _ => rfl
        have hPatched : Single ((g.withdrawOffers row.dispatchId none).patchDispatch row
            (committedPatch reason now) now) := by
          refine hWithdrawn.update hPatches ?_ ?_ ?_
          · exact fun _ _ hSt => hSt.elim nofun nofun
          · intro other hOther _
            obtain rfl := Option.some.inj (hRead.symm.trans hOther)
            exact .inl hWait
          · exact fun _ _ _ _ => hClear
        unfold commitToCloud
        refine hPatched.runCloudBranch (fun _ => ?_) out now after
        rw [current_id]
        refine ⟨hClear, patched (committedPatch reason now) now stored, ?_, rfl⟩
        rw [dispatchRow_patchDispatch _ hKeeps, if_pos rfl]
        show (g.dispatchRow row.dispatchId).map _ = _
        rw [hRead, Option.map_some]
    · exact (closes_blockedPatch _).patchAndSettle hWithdrawn out row now after

/-! ## Frames, stops and receipts -/

theorem Single.untouched (h : Single g)
    (hRow : g.dispatchRow id = some row) (hSt : Waiting row.state) :
    (∀ n, .started id n ∉ g.log) ∧ .acked id ∉ g.log ∧ .canceled id ∉ g.log :=
  ⟨(h.waiting id row hRow hSt).1, fun hA => h.taken id (.inl hA) row hRow (.inl hSt),
    fun hC => h.taken id (.inr hC) row hRow (.inl hSt)⟩

theorem Single.patch_waiting (h : Single g)
    (hRow : g.dispatchRow row.dispatchId = some row) (hSt : Waiting row.state)
    (hKeeps : Keeps patch) (hPatch : ∀ stored, Waiting (patch stored).state) (now : Nat) :
    Single (g.patchDispatch row patch now) := by
  have hPatched : Keeps (patched patch now) := hKeeps
  have hRead : ∀ stored, g.dispatchRow row.dispatchId = some stored → Waiting stored.state := by
    intro stored hStored
    obtain rfl := Option.some.inj (hRow.symm.trans hStored)
    exact hSt
  refine h.update hPatched (fun stored hStored _ => hRead stored hStored)
    (fun stored hStored _ => .inl (hRead stored hStored)) fun stored _ hComm => ?_
  have hWait : Waiting (patched patch now stored).state := hPatch stored
  rw [hComm] at hWait
  exact hWait.elim nofun nofun

theorem Single.handleClaim (h : Single g) (out : Outside) (attachment : Attachment)
    (hRow : g.dispatchRow row.dispatchId = some row) (claimRequestId : String) (now : Nat) :
    Single (g.handleClaim out attachment row claimRequestId now) := by
  unfold Gate.handleClaim
  split
  · exact h
  · split
    · exact h
    · next hOffering =>
      split
      · exact h
      · have hSt : row.state = .offering := by
          by_contra hNot
          exact hOffering (.inl hNot)
        have hOffers : Single ((g.setOffer row.dispatchId attachment.deviceId .claimed).withdrawOffers row.dispatchId
            (some attachment.deviceId)) := h.congr rfl rfl rfl
        have hKeeps : Keeps (claimedPatch attachment now) := fun _ => rfl
        exact (hOffers.patch_waiting hRow (.inl hSt) hKeeps (fun _ => .inr rfl) now).scheduleAlarm out now true

theorem Single.handleRelease (h : Single g) (out : Outside) (attachment : Attachment)
    (hRow : g.dispatchRow row.dispatchId = some row) (hSt : row.state = .computerClaimed) (reason : String)
    (now : Nat) : Single (g.handleRelease out attachment row reason now) := by
  have hKeeps : Keeps releasedPatch := fun _ => rfl
  have hReleased := h.patch_waiting hRow (.inr hSt) hKeeps (fun _ => .inl rfl) now
  have hOffers : Single ((g.patchDispatch row releasedPatch now).setOffer row.dispatchId attachment.deviceId
      .withdrawn) := hReleased.congr rfl rfl rfl
  unfold Gate.handleRelease
  refine hOffers.resolveUnaccepted (fun _ _ => ?_) out now _ .returns
  rw [current_id]
  refine ⟨patched releasedPatch now row, ?_, .inl rfl⟩
  show (g.patchDispatch row releasedPatch now).dispatchRow row.dispatchId = _
  rw [dispatchRow_patchDispatch _ hKeeps, if_pos rfl, hRow, Option.map_some]

theorem not_startable_owned (h : owned state = true) : ¬ Startable state := by
  cases state <;> simp_all [owned, Startable, Waiting]

theorem closes_leasePatch (hSt : ¬ Startable state) (startedAt : Option Nat) (now : Nat) :
    Closes (leasePatch state startedAt now) := ⟨fun _ => rfl, fun _ => hSt⟩

theorem closes_completedPatch (outcome : Outcome) (resultJson errorCode errorMessage : Option String) :
    Closes (completedPatch outcome resultJson errorCode errorMessage) :=
  ⟨fun _ => rfl, fun _ => by cases outcome <;> exact not_startable_terminal rfl⟩

theorem closes_ackPatch (now : Nat) : Closes (ackPatch now) := ⟨fun _ => rfl, fun _ => not_startable_owned rfl⟩

theorem not_startable_renewed (h : owned row.state = true ∨ row.state = .cancelPending) :
    ¬ Startable (renewedState row) := by
  unfold renewedState
  split
  · split
    · exact not_startable_owned rfl
    · exact not_startable_owned rfl
  · obtain hOwned | hPend := h
    · exact not_startable_owned hOwned
    · rw [hPend]
      exact fun hStart => hStart.elim (fun hWait => hWait.elim nofun nofun) nofun

theorem Single.ack (h : Single g) (hRow : g.dispatchRow row.dispatchId = some row)
    (hSt : row.state = .computerClaimed) (now : Nat) :
    Single ((g.patchDispatch row (ackPatch now) now).note (.acked row.dispatchId)) := by
  obtain ⟨hNone, -, hNotCanceled⟩ := h.untouched hRow (.inr hSt)
  have hCloses := closes_ackPatch now
  have hStored := dispatchRow_patchDispatch g hCloses.id row now row.dispatchId
  rw [if_pos rfl, hRow, Option.map_some] at hStored
  refine (hCloses.single_patch h row now).note ?_ nofun ?_ ?_
  · show ((g.patchDispatch row (ackPatch now) now).dispatchRow row.dispatchId).isSome = true
    rw [hStored]
    rfl
  · rintro id hEq
    obtain rfl := Note.acked.inj hEq
    exact ⟨hNone, hNotCanceled⟩
  · rintro id hEq stored hRead
    obtain rfl : row.dispatchId = id := hEq.elim Note.acked.inj nofun
    obtain rfl := Option.some.inj (hStored.symm.trans hRead)
    exact hCloses.state row

theorem Single.handleOwnedFrame (h : Single g) (out : Outside) (attachment : Attachment)
    (hRow : g.dispatchRow row.dispatchId = some row) (frame : Frame) (now : Nat) :
    Single (g.handleOwnedFrame out attachment row frame now) := by
  unfold Gate.handleOwnedFrame
  split
  · exact h
  · split
    · exact h
    · next hState => exact h.handleRelease out attachment hRow (by simpa using hState) _ now
  · split
    · exact h
    · next hState => exact h.ack hRow (by simpa using (not_or.mp hState).1) now
  · split
    · exact h
    · exact (closes_leasePatch (not_startable_owned rfl) _ now).single_patch h row now
  · split
    · exact h
    · next hState => exact (closes_leasePatch (not_startable_renewed (not_not.mp hState)) _ now).single_patch h row now
  · split
    · exact h
    · exact (closes_completedPatch _ _ _ _).patchAndSettle h out row now _

section

variable (h : Single g)
include h

theorem Single.handleExecutorFrame (out : Outside) (attachment : Attachment)
    (dispatchId : String) (frame : Frame) (now : Nat) :
    Single (g.handleExecutorFrame out attachment dispatchId frame now) := by
  unfold Gate.handleExecutorFrame
  split
  · exact h
  · next row hRow =>
    have hRead : g.dispatchRow row.dispatchId = some row := by rw [dispatchRow_id hRow]; exact hRow
    split
    · exact h.handleClaim out attachment hRead _ now
    · split
      · exact h.handleOwnedFrame out attachment hRead _ now
      · exact h

theorem Single.dispatchStatus (out : Outside) (dispatchId : String) (now : Nat) :
    Single (g.dispatchStatus out dispatchId now) := by
  unfold Gate.dispatchStatus
  split
  · exact h
  · split
    · exact h
    · next receipt _ =>
      split
      · exact h
      · have hCloses : Closes (receiptPatch receipt) :=
          ⟨fun _ => rfl, fun _ => by
            show ¬ Startable receipt.outcome.state
            cases receipt.outcome <;> exact not_startable_terminal rfl⟩
        exact hCloses.patchAndSettle h out _ now _

theorem Single.keepReceipt (receipt : CloudDispatchTerminal) :
    Single (g.keepReceipt receipt) := by
  unfold Gate.keepReceipt
  split
  · exact h
  · exact h.congr rfl rfl rfl

theorem Single.recordCloudDispatchTerminal (out : Outside)
    (receipt : CloudDispatchTerminal) (now : Nat) : Single (g.recordCloudDispatchTerminal out receipt now) := by
  unfold Gate.recordCloudDispatchTerminal
  split
  · exact h.keepReceipt receipt
  · exact (h.keepReceipt receipt).dispatchStatus out _ now

theorem Single.stopped (hRow : g.dispatchRow id = some row)
    (hSt : ¬ Startable row.state) : Single (g.note (.canceled id)) := by
  refine h.note (by rw [Note.id, hRow]; rfl) nofun nofun ?_
  rintro other hEq stored hStored
  obtain rfl : id = other := hEq.elim nofun Note.canceled.inj
  obtain rfl := Option.some.inj (hRow.symm.trans hStored)
  exact hSt

end

theorem closes_cancelPendingPatch (cancelRequestId reason : String) :
    Closes (cancelPendingPatch cancelRequestId reason) :=
  ⟨fun _ => rfl, fun _ hStart => hStart.elim (fun hWait => hWait.elim nofun nofun) nofun⟩

theorem closes_canceledPatch (cancelRequestId reason : String) : Closes (canceledPatch cancelRequestId reason) :=
  ⟨fun _ => rfl, fun _ => not_startable_terminal rfl⟩

theorem Single.cancelDispatch (h : Single g) (out : Outside) (dispatchId cancelRequestId reason : String)
    (now : Nat) : Single (g.cancelDispatch out dispatchId cancelRequestId reason now) := by
  have hWithdrawn : Single (g.withdrawOffers dispatchId none) := h.congr rfl rfl rfl
  unfold Gate.cancelDispatch
  split
  · exact h
  · next row hRow =>
    obtain rfl := dispatchRow_id hRow
    split
    · exact h
    · split
      · next hTerm =>
        split
        · exact h.stopped hRow (not_startable_terminal hTerm)
        · exact h
      · split
        · -- the row is patched and the answer noted in one segment, so their order does not matter
          have hCloses := closes_canceledPatch cancelRequestId reason
          have hStored := dispatchRow_patchDispatch (g.withdrawOffers row.dispatchId none) hCloses.id row now
            row.dispatchId
          have hRead : (g.withdrawOffers row.dispatchId none).dispatchRow row.dispatchId = some row := hRow
          rw [if_pos rfl, hRead, Option.map_some] at hStored
          exact ((hCloses.single_patch hWithdrawn row now).stopped hStored (hCloses.state row)).settle out row _ _
        · unfold Gate.stopRunning
          have hPatched := (closes_cancelPendingPatch cancelRequestId reason).single_patch hWithdrawn row now
          split
          · exact hPatched.park rfl
          · exact hPatched.scheduleAlarm out now true

theorem Single.unregister (h : Single g) (turnId : String) : Single (g.unregister turnId) := by
  unfold Gate.unregister
  split
  · exact h
  · exact (spares_gatePatch false).single (h.putHandoff _ _) _

/-! ## A new dispatch -/

theorem Single.insert (h : Single g) (row : DispatchRow) :
    Single { g with dispatches := g.dispatches ++ [row] } := by
  have hUnknown : ∀ {id}, g.dispatchRow id = none → (∀ n ∈ g.log, n.id ≠ id) ∧ ¬ g.Busy id := by
    intro id hNone
    constructor
    · intro n hN hId
      have hStored := h.known id (.inl ⟨n, hN, hId⟩)
      rw [hNone] at hStored
      exact Bool.noConfusion hStored
    · intro hBusy
      have hStored := h.known id (.inr hBusy)
      rw [hNone] at hStored
      exact Bool.noConfusion hStored
  have hCases : ∀ {id stored}, { g with dispatches := g.dispatches ++ [row] }.dispatchRow id = some stored →
      g.dispatchRow id = some stored ∨ g.dispatchRow id = none := by
    intro id stored hStored
    rw [g.dispatchRow_append] at hStored
    cases hOld : g.dispatchRow id with
    | none => exact .inr rfl
    | some old =>
      rw [hOld, Option.some_or] at hStored
      exact .inl hStored
  refine ⟨⟨h.once.acked, h.once.started, h.once.canceled⟩, h.one, h.parked, ?_, ?_, ?_, ?_⟩
  · intro id stored hStored hSt
    obtain hOld | hNew := hCases hStored
    · exact h.waiting id stored hOld hSt
    · obtain ⟨hNotes, hIdle⟩ := hUnknown hNew
      exact ⟨fun n hN => hNotes _ hN rfl, hIdle⟩
  · intro id stored hStored hSt hSome
    obtain hOld | hNew := hCases hStored
    · exact h.retry id stored hOld hSt hSome
    · obtain ⟨hNotes, hIdle⟩ := hUnknown hNew
      exact ⟨fun n hN => absurd rfl (hNotes _ hN), hIdle⟩
  · intro id hTaken stored hStored
    obtain hOld | hNew := hCases hStored
    · exact h.taken id hTaken stored hOld
    · obtain ⟨hNotes, -⟩ := hUnknown hNew
      obtain hA | hC := hTaken
      · exact absurd rfl (hNotes _ hA)
      · exact absurd rfl (hNotes _ hC)
  · intro id hKnown
    rw [g.dispatchRow_append, Option.isSome_or, h.known id hKnown, Bool.true_or]

theorem Single.route (h : Single g) (out : Outside)
    (hRow : g.dispatchRow row.dispatchId = some row) (hClear : g.Clear row.dispatchId) (candidates : List Attachment)
    (now : Nat) : Single (g.route out row candidates now) := by
  unfold Gate.route
  split
  · have hOffers : Single (g.openOffers row candidates) := h.congr rfl rfl rfl
    exact hOffers.scheduleAlarm out now true
  · split
    · next hSt => exact h.runCloudBranch (fun _ => ⟨hClear, row, hRow, hSt⟩) out now _
    · exact h.scheduleAlarm out now true

theorem Single.submit (h : Single g) (out : Outside) (submission : Submission) (now : Nat)
    (hFresh : g.dispatchRow submission.dispatchId = none) : Single (g.submit out submission now) := by
  unfold Gate.submit
  split
  · exact h
  · split
    · exact h
    · next row hRow =>
      rw [← submission_row_id hRow] at hFresh
      have hNotes : ∀ n ∈ g.log, n.id ≠ row.dispatchId := by
        intro n hN hId
        have hStored := h.known row.dispatchId (.inl ⟨n, hN, hId⟩)
        rw [hFresh] at hStored
        exact Bool.noConfusion hStored
      have hIdle : ¬ g.Busy row.dispatchId := by
        intro hBusy
        have hStored := h.known row.dispatchId (.inr hBusy)
        rw [hFresh] at hStored
        exact Bool.noConfusion hStored
      have hInserted : { g with dispatches := g.dispatches ++ [row] }.dispatchRow row.dispatchId = some row := by
        rw [g.dispatchRow_append, hFresh, Option.none_or]
        exact find?_cons_of_pos (by simp)
      exact (h.insert row).route out hInserted ⟨fun n hN => absurd rfl (hNotes _ hN), hIdle⟩ _ now

/-! ## A parked branch goes on -/

theorem busy_taken {i : Nat}
    (hBusy : Busy { g with tasks := g.tasks.eraseIdx i } id) : g.Busy id := by
  obtain ⟨task, hTask, hId⟩ := hBusy
  exact ⟨task, mem_of_mem_eraseIdx hTask, hId⟩

theorem Single.take (h : Single g) (i : Nat) : Single { g with tasks := g.tasks.eraseIdx i } where
  once := ⟨h.once.acked, h.once.started, h.once.canceled⟩
  one := h.one.sublist ((eraseIdx_sublist g.tasks i).filterMap _)
  parked task hTask := h.parked task (mem_of_mem_eraseIdx hTask)
  waiting id row hRow hSt :=
    ⟨(h.waiting id row hRow hSt).1, fun hBusy => (h.waiting id row hRow hSt).2 (busy_taken hBusy)⟩
  retry id row hRow hSt hSome :=
    ⟨(h.retry id row hRow hSt hSome).1, fun hBusy => (h.retry id row hRow hSt hSome).2 (busy_taken hBusy)⟩
  taken := h.taken
  known id hKnown := h.known id (hKnown.imp_right busy_taken)

theorem Single.free (h : Single g) {i : Nat} (hTask : g.tasks[i]? = some task)
    (hId : task.cloudId = some id) : Free { g with tasks := g.tasks.eraseIdx i } id task.start := by
  obtain ⟨hLt, hGet⟩ := List.getElem?_eq_some_iff.mp hTask
  have hMem : task ∈ g.tasks := mem_of_getElem? hTask
  have hBusy : g.Busy id := ⟨task, hMem, hId⟩
  refine ⟨h.known id (.inr hBusy), h.parked task hMem id hId, ?_, fun row hRow => ⟨?_, fun hSt => ?_⟩⟩
  · rintro ⟨other, hOther, hOtherId⟩
    have hSplit : g.tasks = g.tasks.take i ++ task :: g.tasks.drop (i + 1) := by
      rw [← hGet, getElem_cons_drop, take_append_drop]
    have hOne := h.one
    rw [hSplit, filterMap_append, filterMap_cons_some hId, nodup_middle, nodup_cons,
      ← filterMap_append, ← eraseIdx_eq_take_drop_succ] at hOne
    exact hOne.1 (mem_filterMap.mpr ⟨other, hOther, hOtherId⟩)
  · exact fun hSt => (h.waiting id row hRow hSt).2 hBusy
  · by_contra hSome
    exact (h.retry id row hRow hSt (Option.isSome_iff_ne_none.mpr hSome)).2 hBusy

variable {out : Outside} {answer : Answer}

theorem Single.admitted (h : Single g) (hFree : Free g row.dispatchId none) {turnId : String}
    (hResult : g.admitted out turnId row now after answer = some g') : Single g' := by
  have hGate := (spares_gatePatch true).single h row.dispatchId
  have hFree' := (spares_gatePatch true).free hFree
  unfold Gate.admitted at hResult
  split at hResult
  · cases hResult; exact h.goOn out after
  · cases hResult; exact h.cloudRefusal hFree.clear out _ _ _ now after
  · cases hResult
    have hClear : (g.update row.dispatchId (gatePatch true)).Clear (gatePatch true row).dispatchId := hFree'.clear
    exact hGate.cloudRefusal hClear out _ _ _ now after
  · split at hResult
    · cases hResult
      have hClear : (g.update row.dispatchId (gatePatch true)).Clear (gatePatch true row).dispatchId := hFree'.clear
      exact hGate.cloudRefusal hClear out _ _ _ now after
    · cases hResult
      have hRegistered : Free ((g.update row.dispatchId (gatePatch true)).putHandoff row.dispatchId
          (.registered turnId)) (gatePatch true row).dispatchId none := hFree'.congr rfl rfl rfl
      exact (hGate.putHandoff row.dispatchId (.registered turnId)).sendChat hRegistered out turnId now after
  · cases hResult

variable {start : Nat}

theorem Free.refusal (hFree : Free g id (some start)) :
    Free (g.note (.refused id start)) id none where
  stored := hFree.stored
  refused n hN := by
    rw [note_log, mem_append, mem_singleton] at hN
    obtain hOld | hNew := hN
    · left
      rw [note_log, mem_append, mem_singleton]
      obtain hRef | hStart := hFree.refused n hOld
      · exact .inl hRef
      · exact .inr (by rw [Option.some.inj hStart])
    · cases hNew
  idle := hFree.idle
  row := hFree.row

theorem Single.startRefused (h : Single g)
    (hFree : Free g row.dispatchId (some start)) (out : Outside) (via : Via) (now : Nat) (after : After)
    (status : Nat) (code message : String) :
    Single (g.startRefused out start via row now after status code message) := by
  have hNoted : Single (g.note (.refused row.dispatchId start)) := h.refused hFree.stored
  unfold Gate.startRefused
  split
  · exact hNoted.parkCloud hFree.refusal
  · split
    · exact (hNoted.putHandoff row.dispatchId _).parkCloud (hFree.refusal.congr rfl rfl rfl)
    · exact hNoted.goOn out after

theorem closes_runningPatch (turnId threadId : Option String) (now : Nat) : Closes (runningPatch turnId threadId now) :=
  ⟨fun _ => rfl, fun _ hStart => hStart.elim (fun hWait => hWait.elim nofun nofun) nofun⟩

theorem Single.answered (h : Single g)
    (hFree : Free g row.dispatchId (some start)) {via : Via} (hResult : g.answered out start via row now after answer = some g') :
    Single g' := by
  unfold Gate.answered at hResult
  split at hResult
  · cases hResult; exact h.goOn out after
  · split at hResult
    · cases hResult
      exact ((closes_runningPatch _ _ now).single_patch (h.releaseGate row) row now).goOn out after
    · cases hResult; exact h.parkCloud hFree
  · split at hResult
    · cases hResult
    · cases hResult; exact h.startRefused hFree out via now after _ _ _
  · cases hResult

theorem Single.bodyRead (h : Single g) {via : Via} {turnId threadId : Option String}
    (hRes : g.bodyRead out via turnId threadId row now after answer = some g') : Single g' := by
  have hRuns : ∀ turnId threadId, Single ((g.patchDispatch row (runningPatch turnId threadId now) now).goOn out
      after) := fun turnId threadId =>
    ((closes_runningPatch turnId threadId now).single_patch h row now).goOn out after
  unfold Gate.bodyRead at hRes
  split at hRes
  · cases hRes; exact h.goOn out after
  · split at hRes
    · split at hRes
      · cases hRes; exact h.goOn out after
      · split at hRes
        · cases hRes; exact h.goOn out after
        · cases hRes; exact hRuns _ _
    · cases hRes; exact hRuns _ _
    · cases hRes; exact hRuns _ _
  · cases hRes

theorem Single.resume (h : Single g)
    (hFree : ∀ id, task.cloudId = some id → Free g id task.start)
    (hRes : g.resume out task answer = some g') : Single g' := by
  unfold Gate.resume at hRes
  split at hRes
  · exact h.admitted (hFree _ rfl) hRes
  · exact h.answered (hFree _ rfl) hRes
  · exact h.bodyRead hRes
  · cases hRes; exact h.cloudRefusal (hFree _ rfl).clear out _ _ _ _ _
  · cases hRes; exact (h.releaseGate _).goOn out _
  · cases hRes; exact h.scheduleAlarm out _ true
  · split at hRes
    · cases hRes; exact (h.scheduleAlarm out _ true).congr rfl rfl rfl
    · cases hRes; exact h.congr rfl rfl rfl
  · cases hRes; exact h.scheduleAlarm out _ false
  · cases hRes; exact h.scheduleAlarm out _ false
  · cases hRes

/-! ## The rows the alarm selected -/

def resolves (row : DispatchRow) (now : Nat) : Bool :=
  row.onNoEligibleComputer = .cloud &&
    (row.offerLapsed now || (row.state = .computerClaimed && row.leaseLapsed now))

def asSelected (g : Gate) (row : DispatchRow) (now : Nat) : Bool :=
  (!resolves row now || (g.dispatchRow row.dispatchId).any (fun stored => Waiting stored.state)) &&
    (!row.retryDue now || (g.dispatchRow row.dispatchId).any (fun stored =>
      stored.state = .cloudCommitted && stored.cloudRetryAt.isSome))

def SelectedStill (g : Gate) : Event → Prop
  | .turn _ => ∀ selected ∈ g.expiring, ∀ row ∈ selected.2.head?, g.asSelected row selected.1 = true
  | _ => True

instance (g : Gate) : ∀ event, Decidable (SelectedStill g event)
  | .turn _ => by unfold SelectedStill; infer_instance
  | .submit .. | .frame .. | .cancel .. | .status .. | .terminal .. | .unregister .. | .other .. | .fire .. | .resume .. =>
    .isTrue trivial

theorem waiting_of_asSelected (h : g.asSelected row now = true)
    (hResolves : resolves row now = true) :
    ∃ stored, g.dispatchRow row.dispatchId = some stored ∧ Waiting stored.state := by
  have hAny := (Bool.and_eq_true _ _ ▸ h).1
  rw [hResolves, Bool.not_true, Bool.false_or] at hAny
  obtain ⟨stored, hStored, hSt⟩ := (Option.any_eq_true _ _).mp hAny
  exact ⟨stored, hStored, of_decide_eq_true hSt⟩

theorem retry_of_asSelected (h : g.asSelected row now = true)
    (hDue : row.retryDue now = true) : ∃ stored, g.dispatchRow row.dispatchId = some stored ∧
      stored.state = .cloudCommitted ∧ stored.cloudRetryAt.isSome = true := by
  have hAny := (Bool.and_eq_true _ _ ▸ h).2
  rw [hDue, Bool.not_true, Bool.false_or] at hAny
  obtain ⟨stored, hStored, hRetry⟩ := (Option.any_eq_true _ _).mp hAny
  rw [Bool.and_eq_true] at hRetry
  exact ⟨stored, hStored, of_decide_eq_true hRetry.1, hRetry.2⟩

theorem Single.expireRow (h : Single g)
    (hSelected : g.asSelected row now = true) (out : Outside) (after : After) :
    Single (g.expireRow out row now after) := by
  unfold Gate.expireRow
  split
  · next hOffer =>
    refine h.resolveUnaccepted (fun _ hFallback => waiting_of_asSelected hSelected ?_) out now _ after
    rw [resolves, hOffer, Bool.true_or, Bool.and_true]
    exact decide_eq_true hFallback
  · split
    · next hDue =>
      obtain ⟨stored, hStored, hSt, hRetry⟩ := retry_of_asSelected hSelected hDue
      exact h.runCloudBranch (fun _ => ⟨h.retry _ stored hStored hSt hRetry, stored, hStored, hSt⟩) out now after
    · split
      · next hClaim =>
        refine h.resolveUnaccepted (fun _ hFallback => waiting_of_asSelected hSelected ?_) out now _ after
        rw [resolves, decide_eq_true hFallback, decide_eq_true hClaim.1, hClaim.2, Bool.and_true, Bool.or_true,
          Bool.and_true]
      · split
        · have hCloses : Closes (reconcilePatch row.state) := ⟨fun _ => rfl, fun _ => not_startable_owned rfl⟩
          exact (hCloses.single_patch h row now).goOn out after
        · split
          · exact (spares_dropPayloadPatch.single h row.dispatchId).goOn out after
          · exact h.goOn out after

/-! ## Runs -/

theorem Single.step (h : Single g) {event : Event} (hSelected : g.SelectedStill event) :
    Single (g.step event) := by
  unfold Gate.step segment
  split
  · next out =>
    split
    · exact h
    · have hDone : Single { g with expiring := none } := h.congr rfl rfl rfl
      exact hDone.park rfl
    · next now row rest hExpiring =>
      have hTaken : Single { g with expiring := none } := h.congr rfl rfl rfl
      exact hTaken.expireRow (hSelected (now, row :: rest) hExpiring row rfl) out _
  · next hNotTurn =>
    have hTick : ∀ now, Single (g.tick now) := fun now => h.congr rfl rfl rfl
    split
    · exact h
    · split
      · split
        · exact h
        · next out submission now hFresh =>
          rw [Bool.not_eq_true, Option.isSome_eq_false_iff, Option.isNone_iff_eq_none] at hFresh
          exact (hTick now).submit out submission now hFresh
      · exact (hTick _).handleExecutorFrame _ _ _ _ _
      · exact (hTick _).cancelDispatch _ _ _ _ _
      · exact (hTick _).dispatchStatus _ _ _
      · exact (hTick _).recordCloudDispatchTerminal _ _ _
      · exact h.unregister _
      · exact (hTick _).scheduleAlarm _ _ true
      · split
        · next now _ =>
          have hFired : Single { g.tick now with alarm := none } := h.congr rfl rfl rfl
          exact hFired.park rfl
        · exact h
      · next out task answer =>
        split
        · exact h
        · next parked hParked =>
          cases hRes : ({ g with tasks := g.tasks.eraseIdx task } : Gate).resume out parked answer with
          | none => exact h
          | some g' => exact (h.take task).resume (fun id hId => h.free hParked hId) hRes
      · next out => exact absurd rfl (hNotTurn out)

theorem single_empty : Single empty := by
  refine ⟨⟨?_, ?_, ?_⟩, nodup_nil, ?_, ?_, ?_, ?_, ?_⟩ <;> simp [empty, dispatchRow, Busy]

/-- In a run in which the alarm resolves and retries only rows still stored as
it selected them, every dispatch is executed at most once. -/
theorem executesOnce_of_run {events : List Event} (hRun : Along step SelectedStill empty events) :
    ExecutesOnce (run step empty events) := by
  have hStep : ∀ (g : Gate) (event : Event), Single g → SelectedStill g event → Single (g.step event) :=
    fun _ _ h hSelected => h.step hSelected
  exact (run_invariant hStep single_empty hRun).once

/-! ## A stale selection -/

def agentOutside : Outside := ⟨[], some true, .other, "thread-1", true, true, none, true, false⟩

def phoneAgent (key : String) : DispatchSubmitRequest :=
  ⟨key, .agent, .mobile, .portable, .automatic, none, some "phone-1", some "phone-1", "conversation", none, none,
    [.agent], ⟨"prompt", none⟩⟩

def computer : Attachment := ⟨"desktop-1", "session-1"⟩

def twoLapsed : List Event :=
  [.submit agentOutside ⟨"dsp:1", phoneAgent "key-0001", "generation", false, [computer], none⟩ 0,
    .submit agentOutside ⟨"dsp:2", phoneAgent "key-0002", "generation", false, [computer], none⟩ 1,
    .frame agentOutside computer "dsp:1" (.claim "claim-1") 10,
    .frame agentOutside computer "dsp:2" (.claim "claim-2") 10,
    .fire 4000, .resume agentOutside 0 .read, .turn agentOutside, .resume agentOutside 0 .read,
    .fire 30010, .resume agentOutside 0 .read]

/-- The alarm starts the first in the cloud. While that start is under way the
computer releases the second, which starts it; then the alarm goes on to the
second, as it was selected. -/
def releasedMeanwhile : List Event :=
  [.turn agentOutside, .frame agentOutside computer "dsp:2" (.release "busy") 30020,
    .resume agentOutside 0 (.ok none none), .resume agentOutside 1 .read, .turn agentOutside]

/-- The released dispatch is started twice, and neither start was refused. -/
theorem released_then_started_twice : ¬ ExecutesOnce (run step empty (twoLapsed ++ releasedMeanwhile)) := by
  have hLog : (run step empty (twoLapsed ++ releasedMeanwhile)).log =
      [.started "dsp:1" 0, .started "dsp:2" 1, .started "dsp:2" 2] := by decide
  intro h
  have hSame := h.started "dsp:2" 1 2
  rw [hLog] at hSame
  exact absurd (hSame (by decide) (by decide) (by decide) (by decide)) (by decide)

def goesOn : List Event :=
  [.turn agentOutside, .resume agentOutside 0 (.ok none none), .resume agentOutside 0 .read, .turn agentOutside]

theorem executesOnce_of_lapses : Along step SelectedStill empty (twoLapsed ++ goesOn) ∧
    ExecutesOnce (run step empty (twoLapsed ++ goesOn)) :=
  ⟨by decide, executesOnce_of_run (by decide)⟩

end Gate

end Stella.OwnerGate
