import Stella.Library.Transition
import Stella.Journal.Resident
import Stella.Archive.Passes

/-! # The purge fence

Once `quiesce` returns nothing is in flight and the manifest names every object
there is, as long as no abandoned put lands under a name the manifest does not
have and no cut takes the name of an object out of the table.
-/

namespace Stella.Conversation

open Transition List

namespace Journal

theorem mem_upsertSegment (row : SegmentRow) {segment : SegmentRow} {segments : List SegmentRow} (h : segment ∈ segments) :
    segment ∈ upsertSegment row segments ∨ segment.firstSeq = row.firstSeq := by
  induction segments with
  | nil => cases h
  | cons x rest ih =>
    unfold upsertSegment
    split
    · exact .inl (mem_cons_of_mem _ h)
    · split
      · rename_i hEq
        rcases mem_cons.mp h with rfl | hRest
        · exact .inr hEq.symm
        · exact .inl (mem_cons_of_mem _ hRest)
      · rcases mem_cons.mp h with rfl | hRest
        · exact .inl mem_cons_self
        · exact (ih hRest).imp (mem_cons_of_mem _) id

theorem key_mem_upsertSegment (row : SegmentRow) (segments : List SegmentRow) :
    row.r2Key ∈ (upsertSegment row segments).map SegmentRow.r2Key := by
  induction segments with
  | nil => exact mem_singleton_self _
  | cons x rest ih =>
    unfold upsertSegment
    split
    · exact mem_cons_self
    · split
      · exact mem_cons_self
      · exact mem_cons_of_mem _ ih

theorem allSegmentKeys_commitSegment (journal : Journal) (firstSeq lastSeq : Nat) :
    (journal.commitSegment firstSeq lastSeq).allSegmentKeys = journal.allSegmentKeys := by
  unfold allSegmentKeys commitSegment
  rw [map_map]
  refine map_congr_left (fun segment _ => ?_)
  simp only [Function.comp_apply]
  split <;> rfl

theorem mem_recordSpill {journal : Journal} {key other : ObjectKey} :
    other ∈ (journal.recordSpill key).allSpillKeys ↔ other = key ∨ other ∈ journal.allSpillKeys := by
  unfold recordSpill allSpillKeys
  dsimp only
  split
  · constructor
    · exact Or.inr
    · rintro (rfl | h) <;> assumption
  · rw [mem_append, mem_singleton, or_comm]

end Journal

namespace ConversationArchive

variable {s : ConversationArchive}

variable {i : Nat}

theorem mem_inFlight : i ∈ s.inFlight ↔ ∃ w, s.writes[i]? = some w ∧ w.running = true := by
  unfold inFlight
  rw [mem_filter, mem_range, Option.any_eq_true]
  constructor
  · exact fun h => h.2
  · rintro ⟨w, hWrite, hRuns⟩
    exact ⟨(List.getElem?_eq_some_iff.mp hWrite).1, w, hWrite, hRuns⟩

variable {w : Write} {j : Nat}

theorem inFlight_setWrite
    (hRuns : w.running = true → ∃ w', s.writes[i]? = some w' ∧ w'.running = true)
    (hj : j ∈ (s.setWrite i w).inFlight) : j ∈ s.inFlight := by
  obtain ⟨w', hWrite, hRun⟩ := mem_inFlight.mp hj
  change (s.writes.set i w)[j]? = some w' at hWrite
  by_cases hij : i = j
  · subst hij
    rw [getElem?_set_self'] at hWrite
    obtain ⟨_, _, rfl⟩ := Option.map_eq_some_iff.mp hWrite
    exact mem_inFlight.mpr (hRuns hRun)
  · rw [getElem?_set_ne hij] at hWrite
    exact mem_inFlight.mpr ⟨w', hWrite, hRun⟩

variable {put : Put}

theorem running_of_putOf (h : putOf w = some put) : w.running = true := by
  cases w <;> simp_all [putOf, Write.running]

theorem running_of_segmentPut {range : Nat × Nat × Put} (h : segmentPut w = some range) :
    w.running = true := by
  cases w <;> simp_all [segmentPut, Write.running]

theorem mem_inFlight_of_putOf (hWrite : s.writes[i]? = some w)
    (hPut : putOf w = some put) : i ∈ s.inFlight :=
  mem_inFlight.mpr ⟨w, hWrite, running_of_putOf hPut⟩

variable (sha256Hex : String → String)

theorem inFlight_passStep (hSealed : s.sealed = true) (input : PassInput)
    (hj : j ∈ (s.passStep sha256Hex input).inFlight) : j ∈ s.inFlight := by
  have hOutc := passStep_outcome sha256Hex s input
  generalize s.passStep sha256Hex input = later at hOutc hj
  cases hOutc with
  | same => exact hj
  | begins now hOpen => exact absurd hSealed (by rw [hOpen]; exact Bool.false_ne_true)
  | recovers now pending hOpen => exact absurd hSealed (by rw [hOpen]; exact Bool.false_ne_true)
  | ends _ i => exact inFlight_setWrite (w := .settled) (fun h => absurd h Bool.false_ne_true) hj
  | cuts i dbBytes now cutSeq hWrite => exact inFlight_setWrite (fun _ => ⟨_, hWrite, rfl⟩) hj
  | uploads i now root firstSeq cutSeq lastSeq count bytes hWrite =>
    exact inFlight_setWrite (s := s.withJournal _) (fun _ => ⟨_, hWrite, rfl⟩) hj
  | spills i writerKey payload root digest hWrite => exact inFlight_setWrite (fun _ => ⟨_, hWrite, rfl⟩) hj
  | commits i w firstSeq lastSeq put w' hWrite hPut =>
    exact inFlight_setWrite (s := (s.store put).withJournal _)
      (fun _ => ⟨w, hWrite, running_of_segmentPut hPut⟩) hj
  | records i put hWrite =>
    exact inFlight_setWrite (s := (s.store put).withJournal _) (w := .settled)
      (fun h => absurd h Bool.false_ne_true) hj
  | abandons i w put =>
    exact inFlight_setWrite (w := .settled) (fun h => absurd h Bool.false_ne_true) hj
  | lands k put => exact hj

theorem passStep_purge (s : ConversationArchive) (input : PassInput) :
    (s.passStep sha256Hex input).sealed = s.sealed ∧ (s.passStep sha256Hex input).quiesce = s.quiesce ∧
      (s.passStep sha256Hex input).enqueued = s.enqueued ∧
      (s.passStep sha256Hex input).purgeQueue = s.purgeQueue := by
  have hOutc := passStep_outcome sha256Hex s input
  generalize s.passStep sha256Hex input = later at hOutc ⊢
  cases hOutc <;> exact ⟨rfl, rfl, rfl, rfl⟩

structure Fenced (s : ConversationArchive) : Prop where
  fence : s.quiesce ≠ .idle → s.sealed = true
  waits : ∀ pass snapshot, s.quiesce = .waiting pass snapshot → ∀ i ∈ s.inFlight, i ∈ snapshot
  quiet : s.quiesce = .returned → s.inFlight = []
  offered : s.enqueued.isSome = true → s.quiesce = .returned

namespace Fenced

theorem of_inFlight (h : s.Fenced) {later : ConversationArchive} (hSealed : later.sealed = s.sealed)
    (hQuiesce : later.quiesce = s.quiesce) (hEnqueued : later.enqueued = s.enqueued)
    (hFlight : s.sealed = true → ∀ i ∈ later.inFlight, i ∈ s.inFlight) : later.Fenced where
  fence hIdle := hSealed.trans (h.fence (hQuiesce ▸ hIdle))
  waits pass snapshot hWait i hi := by
    rw [hQuiesce] at hWait
    have hFence := h.fence (by rw [hWait]; exact Quiesce.noConfusion)
    exact h.waits pass snapshot hWait i (hFlight hFence i hi)
  quiet hReturned := by
    rw [hQuiesce] at hReturned
    have hFence := h.fence (by rw [hReturned]; exact Quiesce.noConfusion)
    refine eq_nil_iff_forall_not_mem.mpr (fun i hi => ?_)
    have hMem := hFlight hFence i hi
    rw [h.quiet hReturned] at hMem
    cases hMem
  offered hOffered := hQuiesce.trans (h.offered (hEnqueued ▸ hOffered))

theorem quiescePass (hSealed : s.sealed = true) (hEnqueued : s.enqueued = none) {pass : Nat}
    (hPass : pass < 4 ∨ s.inFlight = []) : (s.quiescePass pass).Fenced := by
  have hEq : (s.quiescePass pass).inFlight = s.inFlight := rfl
  refine ⟨fun _ => hSealed, fun p snapshot hWait i hi => ?_, fun hReturned => ?_, fun hOffered => ?_⟩
  · change (if pass < 4 ∧ s.inFlight ≠ [] then Quiesce.waiting pass s.inFlight else .returned) =
      .waiting p snapshot at hWait
    split at hWait
    · cases hWait
      exact hi
    · cases hWait
  · change (if pass < 4 ∧ s.inFlight ≠ [] then Quiesce.waiting pass s.inFlight else .returned) =
      .returned at hReturned
    split at hReturned
    · cases hReturned
    · rename_i hStop
      by_contra hFlight
      exact hPass.elim (fun hRoom => hStop ⟨hRoom, hFlight⟩) hFlight
  · change s.enqueued.isSome = true at hOffered
    rw [hEnqueued] at hOffered
    cases hOffered

end Fenced

def KeepsNames (sha256Hex : String → String) (s : ConversationArchive) : PurgeInput → Prop
  | .pass (.landed k) => ∀ put, s.late[k]? = some put →
      put.key ∈ s.manifest ∧ (s.enqueued.isSome = true → put.key ∈ s.purgeQueue)
  | .pass (.prefixed i) => ∀ now firstSeq cutSeq, s.writes[i]? = some (.cutting now firstSeq cutSeq) →
      ∀ root lastSeq count bytes, s.journal.root sha256Hex = some root →
        s.journal.cutRange firstSeq cutSeq = some (lastSeq, count, bytes) →
        ∀ segment ∈ s.journal.segments, segment.firstSeq = firstSeq →
          segment.r2Key = .segment root firstSeq lastSeq ∨
            ((∀ p ∈ s.bucket, p.key ≠ segment.r2Key) ∧
              ∀ w ∈ s.writes, ∀ first last put, segmentPut w = some (first, last, put) → put.key ≠ segment.r2Key)
  | _ => True

/-- The manifest names every object, the queue those of a purge that has read the manifest; a segment in
flight is named before its put. -/
structure Named (s : ConversationArchive) : Prop where
  objects : ∀ p ∈ s.bucket, p.key ∈ s.manifest
  queued : s.enqueued.isSome = true → ∀ p ∈ s.bucket, p.key ∈ s.purgeQueue
  intents : ∀ w ∈ s.writes, ∀ first last put, segmentPut w = some (first, last, put) →
    put.key ∈ s.journal.allSegmentKeys

namespace Named

theorem mem_manifest {key : ObjectKey} :
    key ∈ s.manifest ↔ key ∈ s.journal.allSegmentKeys ∨ key ∈ s.journal.allSpillKeys := mem_append

section

variable (h : s.Named)
include h

theorem setWrite {w : Write}
    (hIntent : ∀ first last put, segmentPut w = some (first, last, put) → put.key ∈ s.journal.allSegmentKeys)
    (i : Nat) : (s.setWrite i w).Named :=
  { h with
    intents := fun w' hw' => by
      rcases mem_setWrite hw' with rfl | hw'
      · exact hIntent
      · exact h.intents w' hw' }

theorem track {w : Write}
    (hIntent : ∀ first last put, segmentPut w = some (first, last, put) → put.key ∈ s.journal.allSegmentKeys) :
    (s.track w).Named :=
  { h with
    intents := fun w' hw' => by
      rcases mem_track hw' with rfl | hw'
      · exact hIntent
      · exact h.intents w' hw' }

variable {journal : Journal}

theorem withJournal
    (hObjects : ∀ p ∈ s.bucket, p.key ∈ journal.allSegmentKeys ∨ p.key ∈ journal.allSpillKeys)
    (hIntents : ∀ w ∈ s.writes, ∀ first last put, segmentPut w = some (first, last, put) →
      put.key ∈ journal.allSegmentKeys) : (s.withJournal journal).Named where
  objects p hp := mem_manifest.mpr (hObjects p hp)
  queued := h.queued
  intents := hIntents

theorem withJournal_same (hSegs : journal.allSegmentKeys = s.journal.allSegmentKeys)
    (hSpills : journal.allSpillKeys = s.journal.allSpillKeys) : (s.withJournal journal).Named := by
  refine h.withJournal (fun p hp => ?_) ?_
  · rw [hSegs, hSpills]
    exact mem_manifest.mp (h.objects p hp)
  · rw [hSegs]
    exact h.intents

theorem store {put : Put} (hName : put.key ∈ s.manifest)
    (hQueue : s.enqueued.isSome = true → put.key ∈ s.purgeQueue) : (s.store put).Named :=
  { h with
    objects := fun p hp => by
      rcases mem_store.mp hp with rfl | hp
      · exact hName
      · exact h.objects p hp.1
    queued := fun hOffered p hp => by
      rcases mem_store.mp hp with rfl | hp
      · exact hQueue hOffered
      · exact h.queued hOffered p hp.1 }

theorem passStep (hFenced : s.Fenced) (input : PassInput)
    (hKeeps : KeepsNames sha256Hex s (.pass input)) : (s.passStep sha256Hex input).Named := by
  -- a put that resolves was in flight, so the purge has not read the manifest yet
  have hEarly : ∀ {i : Nat} {w : Write} {put : Put}, s.writes[i]? = some w → putOf w = some put → s.enqueued.isSome = true →
      False := by
    intro i w put hWrite hPut hOffered
    have hMem := mem_inFlight_of_putOf hWrite hPut
    rw [hFenced.quiet (hFenced.offered hOffered)] at hMem
    cases hMem
  have hOutc := passStep_outcome sha256Hex s input
  generalize s.passStep sha256Hex input = later at hOutc ⊢
  cases hOutc with
  | same => exact h
  | begins now => exact h.track (by rintro _ _ _ ⟨⟩)
  | recovers now pending hOpen hPend =>
    refine h.track ?_
    rintro _ _ _ ⟨⟩
    exact mem_map_of_mem (mem_of_find?_eq_some hPend)
  | ends _ i => exact h.setWrite (w := .settled) (by rintro _ _ _ ⟨⟩) i
  | cuts i dbBytes now cutSeq => exact h.setWrite (by rintro _ _ _ ⟨⟩) i
  | uploads i now root firstSeq cutSeq lastSeq count bytes hWrite hRoot hRng =>
    have hReplaced := hKeeps now firstSeq cutSeq hWrite root lastSeq count bytes hRoot hRng
    have hNew := Journal.key_mem_upsertSegment
      ⟨firstSeq, lastSeq, count, bytes, .segment root firstSeq lastSeq, .uploading, now⟩ s.journal.segments
    have hKept : ∀ key ∈ s.journal.allSegmentKeys, ((∃ p ∈ s.bucket, p.key = key) ∨
        ∃ w ∈ s.writes, ∃ first last put, segmentPut w = some (first, last, put) ∧ put.key = key) →
        key ∈ (s.journal.insertSegment
          ⟨firstSeq, lastSeq, count, bytes, .segment root firstSeq lastSeq, .uploading, now⟩).allSegmentKeys := by
      intro key hKey hUsed
      obtain ⟨segment, hSeg, rfl⟩ := mem_map.mp hKey
      rcases Journal.mem_upsertSegment
        ⟨firstSeq, lastSeq, count, bytes, .segment root firstSeq lastSeq, .uploading, now⟩ hSeg
        with hStays | hEq
      · exact mem_map_of_mem hStays
      · rcases hReplaced segment hSeg hEq with hName | ⟨hNoObject, hNoPut⟩
        · rw [hName]
          exact hNew
        · rcases hUsed with ⟨p, hp, hpKey⟩ | ⟨w, hw, first, last, put, hPut, hPutKey⟩
          · exact absurd hpKey (hNoObject p hp)
          · exact absurd hPutKey (hNoPut w hw first last put hPut)
    have hRecorded : (s.withJournal (s.journal.insertSegment
        ⟨firstSeq, lastSeq, count, bytes, .segment root firstSeq lastSeq, .uploading, now⟩)).Named := by
      refine h.withJournal (fun p hp => ?_) (fun w hw first last put hPut => ?_)
      · exact (mem_manifest.mp (h.objects p hp)).imp (fun hSeg => hKept _ hSeg (.inl ⟨p, hp, rfl⟩)) id
      · exact hKept _ (h.intents w hw first last put hPut) (.inr ⟨w, hw, first, last, put, hPut, rfl⟩)
    refine hRecorded.setWrite ?_ i
    rintro _ _ _ ⟨⟩
    exact hNew
  | spills i writerKey payload root digest => exact h.setWrite (by rintro _ _ _ ⟨⟩) i
  | commits i w firstSeq lastSeq put w' hWrite hPut hAfter =>
    have hName := h.intents w (mem_of_getElem? hWrite) firstSeq lastSeq put hPut
    have hStored := h.store (mem_manifest.mpr (.inl hName))
      (fun hOffered => (hEarly hWrite (putOf_of_segmentPut hPut) hOffered).elim)
    have hComm : ((s.store put).withJournal (s.journal.commitSegment firstSeq lastSeq)).Named :=
      hStored.withJournal_same (s.journal.allSegmentKeys_commitSegment firstSeq lastSeq) rfl
    refine hComm.setWrite (fun first last put' hPut' => ?_) i
    rw [putOf_of_segmentPut hPut'] at hAfter
    cases hAfter
  | records i put hWrite =>
    have hRecorded : ((s.store put).withJournal (s.journal.recordSpill put.key)).Named := by
      refine ⟨fun p hp => mem_manifest.mpr ?_, fun hOffered => (hEarly hWrite rfl hOffered).elim, h.intents⟩
      rcases mem_store.mp hp with rfl | hp
      · exact .inr (Journal.mem_recordSpill.mpr (.inl rfl))
      · exact (mem_manifest.mp (h.objects p hp.1)).imp id (fun hSpill => Journal.mem_recordSpill.mpr (.inr hSpill))
    exact hRecorded.setWrite (w := .settled) (by rintro _ _ _ ⟨⟩) i
  | abandons i w put =>
    have hEnded : (s.setWrite i .settled).Named := h.setWrite (by rintro _ _ _ ⟨⟩) i
    exact ⟨hEnded.objects, hEnded.queued, hEnded.intents⟩
  | lands k put hLate =>
    obtain ⟨hName, hQueue⟩ := hKeeps put hLate
    have hStored := h.store hName hQueue
    exact ⟨hStored.objects, hStored.queued, hStored.intents⟩

end

end Named

theorem Fenced.purgeStep (h : s.Fenced) (input : PurgeInput) : (s.purgeStep sha256Hex input).Fenced := by
  cases input with
  | append rows =>
    change (s.append rows).Fenced
    unfold append
    split
    · exact h.of_inFlight rfl rfl rfl (fun _ _ hi => hi)
    · exact h
  | turn row => exact h.of_inFlight rfl rfl rfl (fun _ _ hi => hi)
  | pass input =>
    obtain ⟨hSealed, hQuiesce, hEnqueued, -⟩ := passStep_purge sha256Hex s input
    exact h.of_inFlight hSealed hQuiesce hEnqueued (fun hFence _ hi => inFlight_passStep sha256Hex hFence input hi)
  | writeSpill writerKey payload =>
    change (s.writeSpill writerKey payload).Fenced
    unfold writeSpill
    split
    · exact h
    · rename_i hOpen
      exact h.of_inFlight rfl rfl rfl (fun hFence => absurd (.inl hFence) hOpen)
  | purge =>
    refine ⟨fun hIdle => absurd rfl hIdle, ?_, ?_, ?_⟩ <;> intros <;> contradiction
  | quiesce =>
    change (if s.sealed ∧ s.quiesce = .idle then s.quiescePass 0 else s).Fenced
    split
    · rename_i hReady
      refine Fenced.quiescePass hReady.1 ?_ (.inl (by decide))
      cases hOffered : s.enqueued with
      | none => rfl
      | some keys =>
        have hReturned := h.offered (by rw [hOffered]; rfl)
        rw [hReady.2] at hReturned
        cases hReturned
    · exact h
  | settled =>
    change s.settle.Fenced
    unfold settle
    split
    · rename_i pass snapshot hWait
      split
      · rename_i hSettled
        have hFlight : s.inFlight = [] := by
          refine eq_nil_iff_forall_not_mem.mpr (fun i hi => ?_)
          have hOut := all_eq_true.mp hSettled i (h.waits pass snapshot hWait i hi)
          exact of_decide_eq_true hOut hi
        refine Fenced.quiescePass (h.fence (by rw [hWait]; exact Quiesce.noConfusion)) ?_ (.inr hFlight)
        cases hOffered : s.enqueued with
        | none => rfl
        | some keys =>
          have hReturned := h.offered (by rw [hOffered]; rfl)
          rw [hWait] at hReturned
          cases hReturned
      · exact h
    · exact h
  | enqueue =>
    change (if s.quiesce = .returned then s.enqueueNewKeys else s).Fenced
    split
    · rename_i hReturned
      exact ⟨h.fence, h.waits, h.quiet, fun _ => hReturned⟩
    · exact h
  | deleted keys =>
    change (if s.enqueued.isSome then s.purgeDone keys else s).Fenced
    split
    · exact h.of_inFlight rfl rfl rfl (fun _ _ hi => hi)
    · exact h
  | deleteFailed keys =>
    change (if s.enqueued.isSome then s.purgeFailed keys else s).Fenced
    split
    · exact h.of_inFlight rfl rfl rfl (fun _ _ hi => hi)
    · exact h

theorem Named.purgeStep (h : s.Named) (hFenced : s.Fenced) (input : PurgeInput)
    (hKeeps : KeepsNames sha256Hex s input) : (s.purgeStep sha256Hex input).Named := by
  cases input with
  | append rows =>
    change (s.append rows).Named
    unfold append
    split
    · rename_i later hApp
      obtain ⟨hSegs, -, hSpills⟩ := Journal.append_tables hApp
      exact h.withJournal_same (congrArg (List.map SegmentRow.r2Key) hSegs) hSpills
    · exact h
  | turn row => exact h.withJournal_same rfl rfl
  | pass input => exact h.passStep sha256Hex hFenced input hKeeps
  | writeSpill writerKey payload =>
    change (s.writeSpill writerKey payload).Named
    unfold writeSpill
    split
    · exact h
    · exact h.track (by rintro _ _ _ ⟨⟩)
  | purge => exact ⟨h.objects, fun hOffered => absurd hOffered Bool.false_ne_true, h.intents⟩
  | quiesce =>
    change (if s.sealed ∧ s.quiesce = .idle then s.quiescePass 0 else s).Named
    split
    · exact ⟨h.objects, h.queued, h.intents⟩
    · exact h
  | settled =>
    change s.settle.Named
    unfold settle
    split
    · split
      · exact ⟨h.objects, h.queued, h.intents⟩
      · exact h
    · exact h
  | enqueue =>
    change (if s.quiesce = .returned then s.enqueueNewKeys else s).Named
    split
    · refine ⟨h.objects, fun _ p hp => ?_, h.intents⟩
      change p.key ∈ s.purgeQueue ++ _
      rw [mem_append]
      cases hOffered : s.enqueued with
      | some keys => exact .inl (h.queued (by rw [hOffered]; rfl) p hp)
      | none =>
        by_cases hQueue : p.key ∈ s.purgeQueue
        · exact .inl hQueue
        · have hName := h.objects p hp
          exact .inr (by simp [hName, hQueue])
    · exact h
  | deleted keys =>
    change (if s.enqueued.isSome then s.purgeDone keys else s).Named
    split
    · have hKept : ∀ p ∈ (s.purgeDone keys).bucket, p ∈ s.bucket ∧ p.key ∉ s.purgeQueue.filter (fun key => key ∈ keys) :=
        fun p hp => ⟨(mem_filter.mp hp).1, of_decide_eq_true (mem_filter.mp hp).2⟩
      refine ⟨fun p hp => ?_, fun hOffered p hp => ?_, h.intents⟩
      · obtain ⟨hBucket, hBatch⟩ := hKept p hp
        refine mem_manifest.mpr ((mem_manifest.mp (h.objects p hBucket)).imp id (fun hSpill => ?_))
        exact mem_filter.mpr ⟨hSpill, decide_eq_true hBatch⟩
      · obtain ⟨hBucket, hBatch⟩ := hKept p hp
        exact mem_filter.mpr ⟨h.queued hOffered p hBucket, decide_eq_true hBatch⟩
    · exact h
  | deleteFailed keys =>
    change (if s.enqueued.isSome then s.purgeFailed keys else s).Named
    split
    · exact ⟨fun p hp => h.objects p (mem_filter.mp hp).1,
        fun hOffered p hp => h.queued hOffered p (mem_filter.mp hp).1, h.intents⟩
    · exact h

def spillInputs : List PurgeInput :=
  [.writeSpill "row" "payload", .pass (.prefixed 0), .purge, .quiesce, .pass (.stored 0), .settled, .enqueue,
    .deleted [.spill "conversations/owner/conversation" "row"]]

def spillRun : ConversationArchive := run (purgeStep id) (create "owner" "conversation") spillInputs

def lateSpillRun : ConversationArchive :=
  run (purgeStep id) (create "owner" "conversation")
    [.writeSpill "row" "payload", .pass (.prefixed 0), .pass (.timedOut 0), .purge, .quiesce, .enqueue,
      .pass (.landed 0)]

end ConversationArchive

end Stella.Conversation
