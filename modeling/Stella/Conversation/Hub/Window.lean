import Stella.Conversation.Hub.Model

/-! # What a connect and a backfill deliver

Over a whole archive the window of a resuming connect is one run from the seq after its cursor,
unless the cursor was at the head the connect read on entry; then the window is empty, whatever
was committed since.
-/

namespace Stella.Conversation

open Gapless Archive List

namespace Hub

variable {journal later : Journal} {objects : SegmentRow → Option SegmentObject}

theorem topUp_spec (newest : List JournalRecord) (last : Int) (records : List JournalRecord) :
    ∃ more, topUp newest last records = records ++ more ∧ RunFrom JournalRecord.position (last + 1) more ∧
      more ⊆ newest := by
  induction newest generalizing last records with
  | nil => exact ⟨[], (append_nil _).symm, trivial, List.Subset.refl _⟩
  | cons record rest ih =>
    unfold topUp
    split
    · obtain ⟨more, hMore, hRun, hFrom⟩ := ih last records
      exact ⟨more, hMore, hRun, subset_cons_of_subset record hFrom⟩
    · split
      · exact ⟨[], (append_nil _).symm, trivial, nil_subset _⟩
      · next hNext =>
        have hPosition : record.position = last + 1 := not_not.mp hNext
        obtain ⟨more, hMore, hRun, hFrom⟩ := ih record.position (records ++ [record])
        refine ⟨record :: more, by rw [hMore, append_assoc]; rfl, ⟨hPosition, hPosition ▸ hRun⟩, ?_⟩
        exact cons_subset_cons record hFrom

variable {first : Int} {records : List JournalRecord}

theorem delivered_of_run
    (hRun : RunFrom JournalRecord.position first records) (hNe : records ≠ []) :
    delivered records = first + records.length - 1 := by
  rw [delivered, getLast?_eq_some_getLast hNe, Option.map_some, Option.getD_some, hRun.key_getLast hNe]

theorem newest_le (hResid : journal.Resident) (limit : Nat) {record : JournalRecord}
    (hRec : record ∈ journal.newest limit) : record.position ≤ journal.head.headSeq := by
  obtain ⟨row, hRow, rfl⟩ := mem_map.mp hRec
  have hMem : row ∈ journal.rows := mem_reverse.mp (mem_of_mem_take (mem_reverse.mp hRow))
  have hBounds := hResid.run.bounds hMem
  have hNext := hResid.next
  have hHead := head_headSeq journal
  change row.position ≤ _
  omega

structure Window (first : Int) (head : Int) (records : List JournalRecord) : Prop where
  run : RunFrom JournalRecord.position first records
  some : records ≠ []
  le : ∀ r ∈ records, r.position ≤ head

theorem Window.reaches {head : Int} (h : Window first head records) :
    first ≤ first + records.length - 1 ∧ first + records.length - 1 ≤ head := by
  have hLast := h.le _ (getLast_mem h.some)
  rw [h.run.key_getLast h.some] at hLast
  have hLen := length_pos_iff.mpr h.some
  omega

theorem Window.toppedUp {head : Int} (h : Window first head records)
    {fresh : Journal} (hResid : fresh.Resident) (hHead : head ≤ fresh.head.headSeq) :
    Window first fresh.head.headSeq (toppedUp fresh records) := by
  have hOld : Window first fresh.head.headSeq records := ⟨h.run, h.some, fun r hr => (h.le r hr).trans hHead⟩
  unfold Hub.toppedUp
  split
  · obtain ⟨more, hMore, hRun, hFrom⟩ :=
      topUp_spec (fresh.newest initialWindowRecords) (delivered records) records
    rw [delivered_of_run h.run h.some] at hRun
    rw [hMore]
    refine ⟨(runFrom_append _ _ _).mpr ⟨h.run, ?_⟩, ?_, fun r hr => ?_⟩
    · rwa [show first + records.length - 1 + 1 = first + (records.length : Int) by omega] at hRun
    · exact fun hNone => h.some (append_eq_nil_iff.mp hNone).1
    · obtain hr | hr := mem_append.mp hr
      · exact hOld.le r hr
      · exact newest_le hResid _ (hFrom hr)
  · exact hOld

/-- A cursor that can be resumed from a head: neither below the floor, nor above the head, nor too
far behind it. -/
structure Resumable (journal : Journal) (since : Int) : Prop where
  floor : journal.head.floorSeq - 1 ≤ since
  head : since ≤ journal.head.headSeq
  near : journal.head.headSeq - since ≤ maxCatchupResumeRecords

theorem bindOwner_keeps {record : OwnerRecord} {conversationId : String} {bound : Journal}
    (h : journal.bindOwner record conversationId = some bound) :
    (Whole journal objects → Whole bound objects) ∧ bound.head.headSeq = journal.head.headSeq ∧
      bound.head.floorSeq = journal.head.floorSeq ∧ bound.head.epoch = journal.head.epoch := by
  unfold Journal.bindOwner at h
  split at h
  · cases h
  · obtain rfl := Option.some.inj h
    exact ⟨fun hWhole => ⟨⟨hWhole.resident.run, hWhole.resident.next⟩, hWhole.tiles, hWhole.objects⟩, rfl, rfl, rfl⟩

theorem gapBelow_none {fromSeq : Int} {range : Journal.JournalRange} (h : range.missingBelowSeq = none) :
    gapBelow fromSeq range = none := by
  unfold gapBelow
  rw [h]
  rfl

theorem openingWindow_resumable {entered : Journal} {since : Int} (h : Resumable entered since)
    (hWhole : Whole entered objects) (hOpening : entered.Commits journal) (hLater : journal.Commits later)
    {epoch : Option Int} (hEpoch : ∀ told ∈ epoch, told = entered.head.epoch) :
    ∃ records, openingWindow entered.head journal later objects (some since) epoch = ⟨records, none, none⟩ ∧
      (entered.head.headSeq = since → records = []) ∧
      (since < entered.head.headSeq → Window (since + 1) entered.head.headSeq records) := by
  have hFloor := h.floor
  have hHead := h.head
  have hNear := h.near
  have hKnown : epoch.any (fun told => told ≠ entered.head.epoch) = false := by
    cases epoch with
    | none => rfl
    | some told => simpa using hEpoch told rfl
  have hFar : ¬ ((maxCatchupResumeRecords : Int) < entered.head.headSeq - since) := by omega
  unfold openingWindow
  dsimp only
  rw [if_neg (by omega), hKnown, if_neg Bool.false_ne_true, if_neg (by omega), if_neg (by omega), if_neg hFar]
  split
  · next hAt =>
    exact ⟨[], rfl, fun _ => rfl, fun hBelow => absurd hAt (not_le.mpr hBelow)⟩
  · next hBelow =>
    have hGrown := hOpening.headSeq_le hWhole.resident
    have hLimit : 0 < min maxResumeRecords backfillBatchRecords := by decide
    have hFrom : (journal.head.floorSeq : Int) ≤ since + 1 := by
      rw [floorSeq_commits hOpening]
      omega
    have hRng : since + 1 ≤ min entered.head.headSeq journal.head.headSeq := by omega
    obtain ⟨hRun, hNe, hLe, hMissing⟩ := (hWhole.commits hOpening).readRange hLater hLimit hFrom hRng
    refine ⟨_, by rw [gapBelow_none hMissing], fun hEq => absurd hEq.le hBelow, fun _ => ⟨hRun, hNe, fun r hr => ?_⟩⟩
    exact (hLe r hr).trans (min_le_left _ _)

theorem capBatch_spec (size : JournalRecord → Nat) (records taken : List JournalRecord) (bytes : Nat) :
    ∃ k, (capBatch size records taken bytes).1 = taken ++ records.take k ∧
      (taken = [] → records ≠ [] → 0 < k) := by
  induction records generalizing taken bytes with
  | nil => exact ⟨0, by simp [capBatch], fun _ h => absurd rfl h⟩
  | cons record rest ih =>
    unfold capBatch
    split
    · next hFull => exact ⟨0, by simp, fun hNone => absurd hNone hFull.1⟩
    · obtain ⟨k, hTaken, -⟩ := ih (taken ++ [record]) (bytes + size record)
      refine ⟨k + 1, ?_, fun _ _ => Nat.succ_pos k⟩
      rw [hTaken, take_succ_cons, append_assoc]
      rfl

theorem handleBackfill_spec (hWhole : Whole journal objects) (hLater : journal.Commits later)
    (size : JournalRecord → Nat) (requestId : RequestId) {fromSeq toSeq : Int}
    (hFloor : journal.head.floorSeq ≤ fromSeq) (hRng : fromSeq ≤ toSeq) (hHead : toSeq ≤ journal.head.headSeq) :
    ∃ records complete, handleBackfill journal later objects size requestId fromSeq toSeq =
        [.backfill ⟨requestId, fromSeq, fromSeq + records.length - 1, complete, records⟩] ∧
      Window fromSeq toSeq records := by
  have hFrom : max 0 fromSeq = fromSeq := max_eq_right (by omega)
  have hTo : min toSeq journal.head.headSeq = toSeq := min_eq_left hHead
  have hStart : max fromSeq (journal.head.floorSeq : Int) = fromSeq := max_eq_left hFloor
  have hLimit : 0 < backfillBatchRecords := by decide
  have hIn : fromSeq ≤ min toSeq journal.head.headSeq := hTo.symm ▸ hRng
  obtain ⟨hRun, hNe, hLe, hMissing⟩ := hWhole.readRange hLater hLimit hFloor hIn
  obtain ⟨k, hTaken, hSome⟩ :=
    capBatch_spec size (readRange journal later objects fromSeq toSeq backfillBatchRecords).records [] 0
  rw [nil_append] at hTaken
  have hBatch : Window fromSeq toSeq
      (capBatch size (readRange journal later objects fromSeq toSeq backfillBatchRecords).records [] 0).1 := by
    rw [hTaken]
    refine ⟨hRun.take k, ?_, fun r hr => ?_⟩
    · have hPos := hSome rfl hNe
      rw [Ne, take_eq_nil_iff]
      exact not_or.mpr ⟨hPos.ne', hNe⟩
    · exact (hLe r (mem_of_mem_take hr)).trans (min_le_left _ _)
  have hLast : ((capBatch size (readRange journal later objects fromSeq toSeq backfillBatchRecords).records [] 0).1
      |>.getLast?.map JournalRecord.position).getD toSeq = fromSeq +
      (capBatch size (readRange journal later objects fromSeq toSeq backfillBatchRecords).records [] 0).1.length - 1 := by
    rw [getLast?_eq_some_getLast hBatch.some, Option.map_some, Option.getD_some,
      hBatch.run.key_getLast hBatch.some]
  refine ⟨_, (readRange journal later objects fromSeq toSeq backfillBatchRecords).complete &&
    !(capBatch size (readRange journal later objects fromSeq toSeq backfillBatchRecords).records [] 0).2, ?_, hBatch⟩
  unfold handleBackfill
  simp only [hFrom, hTo, hStart]
  rw [if_neg (by omega), if_neg (by omega), if_neg (by omega), gapBelow_none hMissing, hLast]
  rfl

end Hub

end Stella.Conversation
