import Stella.Archive.Cuts
import Stella.Archive.Rollover

/-! # What a segment accounts for

An intent carries the rows and the bytes of its batch. They are those of its range as long as
no batch is walked back, and then the commit moves the bytes from the rows to the segments.
-/

namespace Stella.Conversation

open Gapless Tiling Transition List

namespace Journal

/-- `storedBytes`, over the bytes that the rows of `spills` carry. -/
def storedBytes (journal : Journal) (spilled : ObjectKey → Nat) : Nat :=
  journal.hotStats.2 + ((journal.segments.filter (fun s => s.state = .committed)).map SegmentRow.bytes).sum +
    (journal.spills.map spilled).sum

def deletedIn (journal later : Journal) : List JournalRow :=
  journal.rows.filter (fun row => row.seq ∉ later.rows.map JournalRow.seq)

def BatchEnds (journal : Journal) (firstSeq cutSeq : Nat) : Prop :=
  ∀ taken last rest, journal.rowsBetween firstSeq cutSeq = taken ++ last :: rest → FitsSegment (taken ++ [last]) →
    (∀ next ∈ rest.head?, ¬ FitsSegment (taken ++ [last] ++ [next])) → journal.isCutBoundary last.seq = true

end Journal

namespace ConversationArchive

structure Conserves (s : ConversationArchive) (i : Nat) : Prop where
  counted : ∀ segment ∈ s.journal.segments, segment.state = .uploading →
    ∀ after ∈ (s.stored i).journal.segments, after.firstSeq = segment.firstSeq → after.state = .committed →
      after.rows = (s.journal.deletedIn (s.stored i).journal).length ∧
        after.bytes = Journal.sizeOf (s.journal.deletedIn (s.stored i).journal)
  stored : ∀ write ∈ s.writes[i]?, (segmentPut write).isSome → ∀ spilled,
    (s.stored i).journal.storedBytes spilled = s.journal.storedBytes spilled

def KeepsAccounts (sha256Hex : String → String) (s : ConversationArchive) (input : RolloverInput) : Prop :=
  KeepsIntents sha256Hex s input ∧
    match input with
    | .pass (.prefixed i) => ∀ now firstSeq cutSeq, s.writes[i]? = some (.cutting now firstSeq cutSeq) →
        s.journal.cutRange firstSeq cutSeq ≠ none → s.journal.BatchEnds firstSeq cutSeq
    | _ => True

def Accounted (journal : Journal) : Prop :=
  ∀ segment ∈ journal.segments, segment.state = .uploading →
    segment.rows = (journal.rowsBetween segment.firstSeq segment.lastSeq).length ∧
      segment.bytes = Journal.sizeOf (journal.rowsBetween segment.firstSeq segment.lastSeq)

end ConversationArchive

/-! ## The rows of a range -/

namespace Journal

variable {journal : Journal}

theorem Resident.ordered (h : journal.Resident) : journal.Ordered :=
  h.run.pairwise_lt.imp fun hLess => Int.ofNat_lt.mp hLess

variable {firstSeq lastSeq : Nat}

theorem rowsBetween_append {later : Journal} (h : journal.Resident) {batch : List NewRow}
    (hApp : journal.append batch = some later) (hLast : lastSeq < journal.nextSeq) :
    later.rowsBetween firstSeq lastSeq = journal.rowsBetween firstSeq lastSeq := by
  obtain ⟨-, added, hRows⟩ := append_rows hApp
  obtain ⟨-, hFloor, -⟩ := append_tables hApp
  have hRun := (h.append hApp).resident.run
  have hNext := h.next
  rw [hRows, hFloor] at hRun
  have hAdded : added.filter (fun row => firstSeq ≤ row.seq ∧ row.seq ≤ lastSeq) = [] :=
    filter_eq_nil_iff.mpr fun row hRow => by
      have hBounds := ((runFrom_append _ _ _).mp hRun).2.bounds hRow
      unfold JournalRow.position at hBounds
      simp only [decide_eq_true_eq]
      omega
  unfold rowsBetween
  rw [hRows, filter_append, hAdded, append_nil]

theorem Batch.rows_to_last {cutSeq count bytes : Nat} {taken rest : List JournalRow} {last : JournalRow}
    (h : journal.Batch firstSeq cutSeq lastSeq count bytes taken last rest) (hOrder : journal.Ordered) :
    journal.rowsBetween firstSeq last.seq = taken ++ [last] := by
  have hPairs : (taken ++ last :: rest).Pairwise (fun a b => a.seq < b.seq) := h.rows ▸ hOrder.sublist filter_sublist
  obtain ⟨-, hRight, hAcross⟩ := pairwise_append.mp hPairs
  have hLast : last ∈ journal.rowsBetween firstSeq cutSeq := by
    rw [h.rows]
    exact mem_append_right _ mem_cons_self
  have hWish := (of_decide_eq_true (mem_filter.mp hLast).2).2
  have hNarrow : journal.rowsBetween firstSeq last.seq =
      (journal.rowsBetween firstSeq cutSeq).filter (fun row => row.seq ≤ last.seq) := by
    unfold rowsBetween
    rw [filter_filter]
    refine filter_congr fun row _ => ?_
    rw [← Bool.decide_and, decide_eq_decide]
    omega
  have hTaken : taken.filter (fun row => row.seq ≤ last.seq) = taken := filter_eq_self.mpr fun row hRow => by
    have hLess := hAcross row hRow last mem_cons_self
    simp only [decide_eq_true_eq]
    omega
  have hRest : rest.filter (fun row => row.seq ≤ last.seq) = [] := filter_eq_nil_iff.mpr fun row hRow => by
    have hLess := (pairwise_cons.mp hRight).1 row hRow
    simp only [decide_eq_true_eq]
    omega
  rw [hNarrow, h.rows, filter_append, filter_cons, if_pos (by simp), hTaken, hRest]

theorem cutRange_counts (hOrder : journal.Ordered) {cutSeq count bytes : Nat}
    (h : journal.cutRange firstSeq cutSeq = some (lastSeq, count, bytes)) (hEnds : journal.BatchEnds firstSeq cutSeq) :
    count = (journal.rowsBetween firstSeq lastSeq).length ∧ bytes = sizeOf (journal.rowsBetween firstSeq lastSeq) := by
  obtain ⟨taken, last, rest, hBatch⟩ := cutRange_batch h
  have hLast : lastSeq = last.seq :=
    hBatch.walked.trans (walkBack_of_boundary (hEnds taken last rest hBatch.rows hBatch.fits hBatch.full))
  rw [hLast, hBatch.rows_to_last hOrder]
  exact ⟨hBatch.count, hBatch.bytes⟩

theorem mem_upsertSegment_counts {row x : SegmentRow} {segments : List SegmentRow} (h : x ∈ upsertSegment row segments) :
    x ∈ segments ∨ x.firstSeq = row.firstSeq ∧ x.lastSeq = row.lastSeq ∧ x.rows = row.rows ∧ x.bytes = row.bytes := by
  induction segments with
  | nil =>
    rw [mem_singleton.mp h]
    exact .inr ⟨rfl, rfl, rfl, rfl⟩
  | cons s rest ih =>
    unfold upsertSegment at h
    split at h
    · rcases mem_cons.mp h with rfl | hRest
      · exact .inr ⟨rfl, rfl, rfl, rfl⟩
      · exact .inl hRest
    · split at h
      · rename_i hEq
        rcases mem_cons.mp h with rfl | hRest
        · exact .inr ⟨hEq.symm, rfl, rfl, rfl⟩
        · exact .inl (mem_cons_of_mem _ hRest)
      · rcases mem_cons.mp h with rfl | hRest
        · exact .inl mem_cons_self
        · exact (ih hRest).imp_left (mem_cons_of_mem _)

/-! ## A commit -/

theorem Segmented.commit_done {done : List SegmentRow} {pending : Option SegmentRow} (h : journal.Segmented done pending)
    (hResid : journal.Resident) {segment : SegmentRow} (hSeg : segment ∈ done) :
    (journal.commitSegment segment.firstSeq segment.lastSeq).segments = journal.segments ∧
      (journal.commitSegment segment.firstSeq segment.lastSeq).rows = journal.rows := by
  have hBounds := h.tiles.bounds hSeg
  constructor
  · refine (map_congr_left (fun s hs => ?_)).trans (map_id _)
    split
    · rename_i hEq
      rw [h.first_inj hs ((h.mem _).mpr (.inl hSeg)) hEq, ← h.committed segment hSeg]
      rfl
    · rfl
  · refine filter_eq_self.mpr fun row hRow => ?_
    have hFloor := (hResid.mem_iff row.seq).mp ⟨row, hRow, rfl⟩
    simp only [decide_eq_true_eq]
    omega

theorem Segmented.commit_pending {done : List SegmentRow} {segment : SegmentRow} (h : journal.Segmented done (some segment)) :
    (journal.commitSegment segment.firstSeq segment.lastSeq).segments = done ++ [{ segment with state := .committed }] := by
  change journal.segments.map _ = _
  rw [h.split, map_append, Option.toList_some, map_singleton, if_pos rfl]
  congr 1
  refine (map_congr_left (fun s hs => ?_)).trans (map_id _)
  have hBounds := h.tiles.bounds hs
  have hStart := h.starts segment rfl
  rw [if_neg (by omega)]
  rfl

theorem deletedIn_commit (journal : Journal) (firstSeq lastSeq : Nat) :
    journal.deletedIn (journal.commitSegment firstSeq lastSeq) = journal.rowsBetween firstSeq lastSeq := by
  refine filter_congr fun row hRow => ?_
  rw [decide_eq_decide]
  constructor
  · intro hGone
    by_contra hOutside
    exact hGone (mem_map_of_mem (mem_filter.mpr ⟨hRow, decide_eq_true hOutside⟩))
  · intro hInside hKept
    obtain ⟨other, hOther, hSeq⟩ := mem_map.mp hKept
    have hOutside := of_decide_eq_true (mem_filter.mp hOther).2
    rw [hSeq] at hOutside
    exact hOutside hInside

theorem sizeOf_filter_not (p : JournalRow → Bool) (rows : List JournalRow) :
    sizeOf (rows.filter (fun row => !p row)) + sizeOf (rows.filter p) = sizeOf rows := by
  induction rows with
  | nil => rfl
  | cons row rest ih =>
    rw [sizeOf_cons, filter_cons, filter_cons]
    cases p row <;> simp only [Bool.not_true, Bool.not_false, if_true, Bool.false_eq_true, if_false, sizeOf_cons] <;> omega

theorem sizeOf_commit (journal : Journal) (firstSeq lastSeq : Nat) :
    sizeOf (journal.commitSegment firstSeq lastSeq).rows + sizeOf (journal.rowsBetween firstSeq lastSeq) = sizeOf journal.rows := by
  rw [← sizeOf_filter_not (fun row => decide (firstSeq ≤ row.seq ∧ row.seq ≤ lastSeq)) journal.rows]
  congr 2
  exact filter_congr fun row _ => decide_not

end Journal

/-! ## The invariant -/

namespace ConversationArchive

variable {s : ConversationArchive}

theorem Accounted.congr {journal later : Journal} (h : Accounted journal) (hSegs : later.segments = journal.segments)
    (hRows : ∀ segment ∈ journal.segments, later.rowsBetween segment.firstSeq segment.lastSeq =
      journal.rowsBetween segment.firstSeq segment.lastSeq) : Accounted later := by
  intro segment hSeg hSt
  rw [hSegs] at hSeg
  rw [hRows segment hSeg]
  exact h segment hSeg hSt

theorem Accounted.insertSegment {journal : Journal} (h : Accounted journal) {row : SegmentRow}
    (hRows : row.rows = (journal.rowsBetween row.firstSeq row.lastSeq).length)
    (hBytes : row.bytes = Journal.sizeOf (journal.rowsBetween row.firstSeq row.lastSeq)) :
    Accounted (journal.insertSegment row) := by
  intro segment hSeg hSt
  rcases Journal.mem_upsertSegment_counts hSeg with hOld | ⟨hFirst, hLast, hCnt, hSize⟩
  · exact h segment hOld hSt
  · rw [hFirst, hLast, hCnt, hSize]
    exact ⟨hRows, hBytes⟩

variable {done : List SegmentRow} {pending : Option SegmentRow} {segment : SegmentRow}

theorem Accounted.commitSegment {journal : Journal} (h : Accounted journal)
    (hSegmented : journal.Segmented done pending) (hResid : journal.Resident)
    (hSeg : segment ∈ journal.segments) : Accounted (journal.commitSegment segment.firstSeq segment.lastSeq) := by
  rcases (hSegmented.mem _).mp hSeg with hDone | hPend
  · obtain ⟨hSegs, hRows⟩ := hSegmented.commit_done hResid hDone
    refine h.congr hSegs fun other _ => ?_
    unfold Journal.rowsBetween
    rw [hRows]
  · obtain rfl := hPend
    intro other hOther hSt
    rw [hSegmented.commit_pending] at hOther
    rcases mem_append.mp hOther with hOld | hNew
    · rw [hSegmented.committed other hOld] at hSt
      cases hSt
    · rw [mem_singleton.mp hNew] at hSt
      cases hSt

theorem Accounted.rolloverStep (sha256Hex : String → String) (h : Accounted s.journal) (hSafe : s.Safe) (input : RolloverInput)
    (hKeeps : KeepsAccounts sha256Hex s input) : Accounted (s.rolloverStep sha256Hex input).journal := by
  obtain ⟨done, pending, hSegmented⟩ := hSafe.segmented
  cases input with
  | append rows =>
    change Accounted (s.append rows).journal
    unfold append
    cases hApp : s.journal.append rows with
    | none => exact h
    | some later =>
      refine h.congr (Journal.append_tables hApp).1 fun segment hSeg => ?_
      exact Journal.rowsBetween_append hSafe.resident hApp (hSegmented.bounds hSafe.floor_le hSeg).2
  | turn row => exact h
  | pass input =>
    have hOutc := passStep_outcome sha256Hex s input
    change Accounted (s.passStep sha256Hex input).journal
    generalize s.passStep sha256Hex input = later at hOutc ⊢
    cases hOutc with
    | same => exact h
    | begins => exact h
    | recovers => exact h
    | ends => exact h
    | cuts => exact h
    | spills => exact h
    | records => exact h
    | abandons => exact h
    | lands => exact h
    | uploads i now root firstSeq cutSeq lastSeq count bytes hWrite hRoot hRng =>
      have hEnds := hKeeps.2 now firstSeq cutSeq hWrite (by rw [hRng]; exact Option.some_ne_none _)
      obtain ⟨hRows, hBytes⟩ := Journal.cutRange_counts hSafe.resident.ordered hRng hEnds
      exact h.insertSegment hRows hBytes
    | commits i w firstSeq lastSeq put w' hWrite hPut hAfter =>
      obtain ⟨segment, hSeg, rfl, rfl, -⟩ := hSafe.intents w (mem_of_getElem? hWrite) firstSeq lastSeq put hPut
      exact h.commitSegment hSegmented hSafe.resident hSeg
  | writeSpill writerKey payload =>
    change Accounted (s.writeSpill writerKey payload).journal
    unfold writeSpill
    split <;> exact h
  | crash => exact h

theorem not_committed (hSegmented : s.journal.Segmented done pending)
    {after : SegmentRow} (hSeg : segment ∈ s.journal.segments) (hSt : segment.state = .uploading)
    (hAfter : after ∈ s.journal.segments) (hFirst : after.firstSeq = segment.firstSeq) : after.state ≠ .committed := by
  rw [hSegmented.first_inj hAfter hSeg hFirst, hSt]
  exact fun hEq => by cases hEq

theorem Accounted.conserves_commit {journal : Journal} (h : Accounted journal)
    (hSegmented : journal.Segmented done pending) (hResid : journal.Resident)
    (hSeg : segment ∈ journal.segments) (spilled : ObjectKey → Nat) :
    (journal.commitSegment segment.firstSeq segment.lastSeq).storedBytes spilled = journal.storedBytes spilled ∧
      ∀ intent ∈ journal.segments, intent.state = .uploading →
        ∀ after ∈ (journal.commitSegment segment.firstSeq segment.lastSeq).segments, after.firstSeq = intent.firstSeq →
          after.state = .committed →
            after.rows = (journal.deletedIn (journal.commitSegment segment.firstSeq segment.lastSeq)).length ∧
              after.bytes = Journal.sizeOf (journal.deletedIn (journal.commitSegment segment.firstSeq segment.lastSeq)) := by
  rcases (hSegmented.mem _).mp hSeg with hDone | hPend
  · obtain ⟨hSegs, hRows⟩ := hSegmented.commit_done hResid hDone
    constructor
    · unfold Journal.storedBytes Journal.hotStats
      rw [hSegs, hRows]
      rfl
    · intro intent hIntent hSt after hAfter hFirst hComm
      rw [hSegs] at hAfter
      rw [hSegmented.first_inj hAfter hIntent hFirst, hSt] at hComm
      cases hComm
  · obtain rfl := hPend
    obtain ⟨hCnt, hBytes⟩ := h segment hSeg (hSegmented.uploading segment rfl)
    have hSegs := hSegmented.commit_pending
    constructor
    · have hSum := Journal.sizeOf_commit journal segment.firstSeq segment.lastSeq
      have hBef := hSegmented.filter_committed
      have hAfter : (journal.commitSegment segment.firstSeq segment.lastSeq).segments.filter (fun s => s.state = .committed) =
          done ++ [{ segment with state := .committed }] := by
        rw [hSegs]
        refine filter_eq_self.mpr fun s hs => ?_
        rcases mem_append.mp hs with hOld | hNew
        · simpa using hSegmented.committed s hOld
        · rw [mem_singleton.mp hNew]
          rfl
      unfold Journal.storedBytes Journal.hotStats
      rw [hAfter, hBef, map_append, sum_append, map_singleton, sum_singleton]
      unfold Journal.sizeOf at hSum hBytes
      change _ + _ + (journal.spills.map spilled).sum = _
      dsimp only
      omega
    · intro intent hIntent hSt after hAfter hFirst hComm
      rw [Journal.deletedIn_commit]
      rw [hSegs] at hAfter
      rcases mem_append.mp hAfter with hOld | hNew
      · have hEq := hSegmented.first_inj ((hSegmented.mem _).mpr (.inl hOld)) hIntent hFirst
        rw [← hEq, hSegmented.committed after hOld] at hSt
        cases hSt
      · rw [mem_singleton.mp hNew]
        exact ⟨hCnt, hBytes⟩

theorem Accounted.conserves (h : Accounted s.journal) (hSafe : s.Safe) (i : Nat) : s.Conserves i := by
  obtain ⟨done, pending, hSegmented⟩ := hSafe.segmented
  have hOutc := passStep_outcome id s (.stored i)
  change PassOutcome id s (.stored i) (s.stored i) at hOutc
  have hEq : ∀ later : Journal, later.segments = s.journal.segments → ∀ segment ∈ s.journal.segments,
      segment.state = .uploading → ∀ after ∈ later.segments, after.firstSeq = segment.firstSeq → after.state ≠ .committed :=
    fun later hSegs segment hSeg hSt after hAfter hFirst =>
      not_committed hSegmented hSeg hSt (hSegs ▸ hAfter) hFirst
  constructor
  · generalize s.stored i = later at hOutc ⊢
    intro segment hSeg hSt after hAfter hFirst hComm
    cases hOutc with
    | same => exact absurd hComm (hEq _ rfl segment hSeg hSt after hAfter hFirst)
    | ends => exact absurd hComm (hEq _ rfl segment hSeg hSt after hAfter hFirst)
    | records => exact absurd hComm (hEq _ rfl segment hSeg hSt after hAfter hFirst)
    | commits i w firstSeq lastSeq put w' hWrite hPut _ =>
      obtain ⟨range, hRng, rfl, rfl, -⟩ := hSafe.intents w (mem_of_getElem? hWrite) firstSeq lastSeq put hPut
      exact (h.conserves_commit hSegmented hSafe.resident hRng fun _ => 0).2 segment hSeg hSt after hAfter hFirst hComm
  · generalize s.stored i = later at hOutc ⊢
    intro write hWrite hPut spilled
    cases hOutc with
    | same => rfl
    | ends => rfl
    | records i put hSpill =>
      rw [Option.mem_def.mp hWrite] at hSpill
      rw [Option.some.inj hSpill] at hPut
      cases hPut
    | commits i w firstSeq lastSeq put w' hWrite' hPut' _ =>
      obtain ⟨range, hRng, rfl, rfl, -⟩ := hSafe.intents w (mem_of_getElem? hWrite') firstSeq lastSeq put hPut'
      exact (h.conserves_commit hSegmented hSafe.resident hRng spilled).1

/-- In every run whose batches end before a user message, the commits conserve rows and bytes. -/
theorem conserves_of_run (sha256Hex : String → String) (ownerId conversationId : String) (inputs : List RolloverInput)
    (hRun : Along (rolloverStep sha256Hex) (KeepsAccounts sha256Hex) (create ownerId conversationId) inputs) (i : Nat) :
    (run (rolloverStep sha256Hex) (create ownerId conversationId) inputs).Conserves i := by
  have hStep : ∀ (s : ConversationArchive) input, s.Safe ∧ Accounted s.journal → KeepsAccounts sha256Hex s input →
      (s.rolloverStep sha256Hex input).Safe ∧ Accounted (s.rolloverStep sha256Hex input).journal := fun s input h hKeeps =>
    ⟨h.1.rolloverStep sha256Hex input hKeeps.1, h.2.rolloverStep sha256Hex h.1 input hKeeps⟩
  have hInv : (run (rolloverStep sha256Hex) (create ownerId conversationId) inputs).Safe ∧
      Accounted (run (rolloverStep sha256Hex) (create ownerId conversationId) inputs).journal :=
    run_invariant hStep ⟨create_safe ownerId conversationId, fun _ h => absurd h not_mem_nil⟩ hRun
  exact hInv.2.conserves hInv.1 i

theorem batchEnds_of_all {journal : Journal} {firstSeq cutSeq : Nat}
    (h : (journal.rowsBetween firstSeq cutSeq).all (fun row => journal.isCutBoundary row.seq) = true) :
    journal.BatchEnds firstSeq cutSeq := by
  intro taken last rest hRows _ _
  refine all_eq_true.mp h last ?_
  rw [hRows]
  exact mem_append_right _ mem_cons_self

def cutsBetween (floor cut : Nat) : Write → Bool
  | .cutting _ firstSeq cutSeq => firstSeq = floor ∧ cutSeq = cut
  | w => (segmentPut w).isNone

/-- The six user messages that the pass decided on. -/
theorem conserves_of_decidedRun :
    (run (rolloverStep id) (create "owner" "conversation") (decidedInputs ++ [.pass (.prefixed 0)])).Conserves 0 := by
  refine conserves_of_run id "owner" "conversation" _ ?_ 0
  rw [along_append]
  refine ⟨along_of_forall (fun input hInput s => ?_) _, ?_⟩
  · rcases mem_append.mp hInput with hInput | hInput
    · obtain ⟨_, _, rfl⟩ := mem_map.mp hInput
      exact ⟨trivial, trivial⟩
    · simp only [mem_cons, not_mem_nil, or_false] at hInput
      rcases hInput with rfl | rfl | rfl | rfl | rfl <;> exact ⟨trivial, trivial⟩
  · have hDecided : ((run (rolloverStep id) (create "owner" "conversation") decidedInputs).writes.all (cutsBetween 0 5)) = true ∧
        (run (rolloverStep id) (create "owner" "conversation") decidedInputs).journal.hotMinSeq = 0 ∧
        ((run (rolloverStep id) (create "owner" "conversation") decidedInputs).journal.rowsBetween 0 5).all
          (fun row => (run (rolloverStep id) (create "owner" "conversation") decidedInputs).journal.isCutBoundary row.seq) = true := by
      decide +kernel
    refine ⟨⟨keepsIntents_of_cutsFrom id ?_ 0, fun now firstSeq cutSeq hWrite _ => ?_⟩, trivial⟩
    · rw [hDecided.2.1]
      refine all_eq_true.mpr fun write hWrite => ?_
      have hHere := all_eq_true.mp hDecided.1 write hWrite
      cases write <;> simp_all [cutsBetween, cutsFrom]
    · have hHere := all_eq_true.mp hDecided.1 _ (mem_of_getElem? hWrite)
      obtain ⟨rfl, rfl⟩ := of_decide_eq_true hHere
      exact batchEnds_of_all hDecided.2.2

def answeredRow (seq : Nat) : JournalRow :=
  { bulkyRow seq with role := if seq = 0 ∨ seq = 5 ∨ seq = 13 then some .user else some .assistant }

/-- The cut at 12 takes the rows `0..7`, the batch walks back to 4. -/
def walkedInputs : List RolloverInput :=
  (List.range 25).map (fun _ => .append [answeredRow]) ++
    [.turn (terminalTurn 12 none), .pass (.maybeRollover 0), .pass (.decided 0 0), .pass (.prefixed 0)]

/-- The segment counts the eight rows of the batch, the commit deletes five. -/
theorem walkedRun_not_conserves : ¬ (run (rolloverStep id) (create "owner" "conversation") walkedInputs).Conserves 0 := by
  intro h
  have hRun : ∃ segment ∈ (run (rolloverStep id) (create "owner" "conversation") walkedInputs).journal.segments,
      segment.state = .uploading ∧
      ∃ after ∈ ((run (rolloverStep id) (create "owner" "conversation") walkedInputs).stored 0).journal.segments,
        after.firstSeq = segment.firstSeq ∧ after.state = .committed ∧ after.rows = 8 ∧
          ((run (rolloverStep id) (create "owner" "conversation") walkedInputs).journal.deletedIn
            ((run (rolloverStep id) (create "owner" "conversation") walkedInputs).stored 0).journal).length = 5 := by
    decide +kernel
  obtain ⟨segment, hSegment, hState, after, hAfter, hFirst, hCommitted, hRows, hDeleted⟩ := hRun
  have hCounted := (h.counted segment hSegment hState after hAfter hFirst hCommitted).1
  omega

end ConversationArchive

end Stella.Conversation
