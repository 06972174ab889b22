import Stella.Journal.Resident

/-! # Reading a range

`ConversationArchive.readRange` stitches a page from the segment objects below the resident floor
and from the resident rows above it.
-/

namespace Stella.Conversation

open Gapless List

def backfillBatchBytes : Nat := 512 * 1024
def maxSegmentsPerRead : Nat := 4

/-- A segment object: the lines after its header, none where a line does not decode. -/
abbrev SegmentObject := List (Option JournalRow)

namespace Archive

open Journal

/-- `readSegment`: an absent object has no rows, an undecodable line is skipped. -/
def readSegment : Option SegmentObject → List JournalRow
  | none => []
  | some lines => lines.filterMap id

def takeRows (coldEnd : Int) (maxRecords : Nat) : List JournalRow → List JournalRecord → Int → List JournalRecord × Int
  | [], records, cursor => (records, cursor)
  | row :: rest, records, cursor =>
    if row.position < cursor ∨ coldEnd < row.position then takeRows coldEnd maxRecords rest records cursor
    else if maxRecords ≤ records.length then (records, cursor)
    else takeRows coldEnd maxRecords rest (records ++ [rowToRecord row]) (row.position + 1)

def takeSegments (objects : SegmentRow → Option SegmentObject) (coldEnd : Int) (maxRecords : Nat) :
    List SegmentRow → List JournalRecord → Int → List JournalRecord × Int
  | [], records, cursor => (records, cursor)
  | segment :: rest, records, cursor =>
    if maxRecords ≤ records.length then (records, cursor)
    else
      let (records, cursor) := takeRows coldEnd maxRecords (readSegment (objects segment)) records cursor
      takeSegments objects coldEnd maxRecords rest records cursor

def missingBelow (segments : List SegmentRow) (cursor : Int) (windowStartSeq : Nat) : Option Nat :=
  match segments.head? with
  | none => some windowStartSeq
  | some lowest => if cursor < lowest.firstSeq then some lowest.firstSeq else none

def readAbove (journal : Journal) (windowStartSeq : Nat) (maxRecords : Nat) (cursor endSeq : Int)
    (records : List JournalRecord) (missingBelowSeq : Option Nat) : JournalRange :=
  if records.length < maxRecords ∧ cursor ≤ endSeq then
    let resident := journal.readResident (max cursor windowStartSeq) endSeq (maxRecords - records.length)
      backfillBatchBytes
    { records := records ++ resident.records, complete := resident.complete, missingBelowSeq }
  else { records, complete := decide (endSeq < cursor), missingBelowSeq }

/-- `readRange`. `objects` is what each `bucket.get` answers; `later` is the journal after the
awaits for them. Where no segment is read nothing is awaited. -/
def readRange (journal later : Journal) (objects : SegmentRow → Option SegmentObject) (fromSeq toSeq : Int)
    (limit : Nat) : JournalRange :=
  let head := journal.head
  let start := max 0 fromSeq
  let endSeq := min toSeq head.headSeq
  if endSeq < start then { records := [], complete := true }
  else
    let maxRecords := min limit backfillBatchRecords
    if start < head.windowStartSeq then
      let coldEnd := min endSeq ((head.windowStartSeq : Int) - 1)
      let segments := journal.segmentsCovering start coldEnd maxSegmentsPerRead
      let missing := missingBelow segments start head.windowStartSeq
      let (records, cursor) := takeSegments objects coldEnd maxRecords segments [] ((missing.map Int.ofNat).getD start)
      if cursor ≤ coldEnd then { records, complete := false, missingBelowSeq := missing }
      else
        readAbove (if segments.isEmpty then journal else later) head.windowStartSeq maxRecords cursor endSeq records
          missing
    else readAbove journal head.windowStartSeq maxRecords start endSeq [] none

/-- What is asked of an answer: one run of seqs from the start of the range, or from the seq below
which nothing can be served, inside the range and the page, and complete only at its end. -/
structure GaplessAnswer (journal : Journal) (fromSeq toSeq : Int) (limit : Nat) (answer : JournalRange) : Prop where
  run : RunFrom JournalRecord.position ((answer.missingBelowSeq.map Int.ofNat).getD (max 0 fromSeq)) answer.records
  range : ∀ r ∈ answer.records, fromSeq ≤ r.position ∧ r.position ≤ toSeq
  page : answer.records.length ≤ min limit backfillBatchRecords
  complete : answer.complete = true → min toSeq journal.head.headSeq ≤
    (answer.records.getLast?.map JournalRecord.position).getD
      ((answer.missingBelowSeq.map Int.ofNat).getD (max 0 fromSeq) - 1)

def NoJump (coldEnd : Int) (maxRecords : Nat) : List JournalRow → Nat → Int → Prop
  | [], _, _ => True
  | row :: rest, count, cursor =>
    if row.position < cursor ∨ coldEnd < row.position then NoJump coldEnd maxRecords rest count cursor
    else if maxRecords ≤ count then True
    else row.position = cursor ∧ NoJump coldEnd maxRecords rest (count + 1) (cursor + 1)

section Condition

variable (journal later : Journal) (objects : SegmentRow → Option SegmentObject) (fromSeq toSeq : Int) (limit : Nat)

def coldEndOf : Int := min (min toSeq journal.head.headSeq) ((journal.hotMinSeq : Int) - 1)

def segmentsRead : List SegmentRow :=
  journal.segmentsCovering (max 0 fromSeq) (coldEndOf journal toSeq) maxSegmentsPerRead

def readableRows : List JournalRow :=
  (segmentsRead journal fromSeq toSeq).flatMap (fun s => readSegment (objects s))

def coldStart : Int :=
  ((missingBelow (segmentsRead journal fromSeq toSeq) (max 0 fromSeq) journal.hotMinSeq).map Int.ofNat).getD
    (max 0 fromSeq)

def ServesWhole : Prop :=
  max 0 fromSeq ≤ min toSeq journal.head.headSeq → max 0 fromSeq < journal.hotMinSeq →
    NoJump (coldEndOf journal toSeq) (min limit backfillBatchRecords) (readableRows journal objects fromSeq toSeq) 0
        (coldStart journal fromSeq toSeq) ∧
      (segmentsRead journal fromSeq toSeq ≠ [] → (journal.hotMinSeq : Int) ≤ min toSeq journal.head.headSeq →
        (journal.hotMinSeq : Int) - coldStart journal fromSeq toSeq < (min limit backfillBatchRecords : Nat) →
        (∃ row ∈ readableRows journal objects fromSeq toSeq, row.position = (journal.hotMinSeq : Int) - 1) →
        later.hotMinSeq = journal.hotMinSeq)

end Condition

section Cold

variable (coldEnd : Int) (maxRecords : Nat)

theorem takeRows_full {records : List JournalRecord} (hFull : maxRecords ≤ records.length) (rows : List JournalRow)
    (cursor : Int) : takeRows coldEnd maxRecords rows records cursor = (records, cursor) := by
  induction rows with
  | nil => rfl
  | cons row rest ih =>
    unfold takeRows
    split
    · exact ih
    · rfl

theorem takeRows_append (rows more : List JournalRow) (records : List JournalRecord) (cursor : Int) :
    takeRows coldEnd maxRecords (rows ++ more) records cursor =
      takeRows coldEnd maxRecords more (takeRows coldEnd maxRecords rows records cursor).1
        (takeRows coldEnd maxRecords rows records cursor).2 := by
  induction rows generalizing records cursor with
  | nil => rfl
  | cons row rest ih =>
    rw [cons_append, takeRows, takeRows]
    split
    · exact ih records cursor
    · split
      · rename_i hFull
        exact (takeRows_full coldEnd maxRecords hFull more cursor).symm
      · exact ih _ _

theorem takeSegments_eq (objects : SegmentRow → Option SegmentObject) (segments : List SegmentRow)
    (records : List JournalRecord) (cursor : Int) :
    takeSegments objects coldEnd maxRecords segments records cursor =
      takeRows coldEnd maxRecords (segments.flatMap (fun s => readSegment (objects s))) records cursor := by
  induction segments generalizing records cursor with
  | nil => rfl
  | cons segment rest ih =>
    rw [takeSegments, flatMap_cons, takeRows_append]
    split
    · rename_i hFull
      rw [takeRows_full coldEnd maxRecords hFull, takeRows_full coldEnd maxRecords hFull]
    · exact ih _ _

theorem takeRows_extends (rows : List JournalRow) (records : List JournalRecord) (cursor : Int) :
    ∃ more, (takeRows coldEnd maxRecords rows records cursor).1 = records ++ more ∧
      (∀ r ∈ more, r.position ≤ coldEnd) ∧ (∀ r ∈ more, ∃ row ∈ rows, row.position = r.position) := by
  induction rows generalizing records cursor with
  | nil => exact ⟨[], by simp [takeRows], by simp, by simp⟩
  | cons row rest ih =>
    rw [takeRows]
    split
    · obtain ⟨more, hMore, hBound, hFrom⟩ := ih records cursor
      exact ⟨more, hMore, hBound, fun r hr => (hFrom r hr).imp fun _ h => ⟨mem_cons_of_mem _ h.1, h.2⟩⟩
    · rename_i hIn
      split
      · exact ⟨[], by simp, by simp, by simp⟩
      · obtain ⟨more, hMore, hBound, hFrom⟩ := ih (records ++ [rowToRecord row]) (row.position + 1)
        refine ⟨rowToRecord row :: more, by rw [hMore, append_assoc]; rfl, ?_, ?_⟩
        · intro r hr
          rcases mem_cons.mp hr with rfl | hr
          · rw [position_rowToRecord]
            omega
          · exact hBound r hr
        · intro r hr
          rcases mem_cons.mp hr with rfl | hr
          · exact ⟨row, mem_cons_self, rfl⟩
          · exact (hFrom r hr).imp fun _ h => ⟨mem_cons_of_mem _ h.1, h.2⟩

variable {rows : List JournalRow}

theorem takeRows_run {records : List JournalRecord} {first cursor : Int}
    (hRun : RunFrom JournalRecord.position first records) (hCursor : cursor = first + records.length)
    (hJump : NoJump coldEnd maxRecords rows records.length cursor) :
    RunFrom JournalRecord.position first (takeRows coldEnd maxRecords rows records cursor).1 ∧
      (takeRows coldEnd maxRecords rows records cursor).2 =
        first + (takeRows coldEnd maxRecords rows records cursor).1.length := by
  induction rows generalizing records cursor with
  | nil => exact ⟨hRun, hCursor⟩
  | cons row rest ih =>
    rw [takeRows]
    rw [NoJump] at hJump
    split
    · rename_i hOut
      rw [if_pos hOut] at hJump
      exact ih hRun hCursor hJump
    · rename_i hIn
      rw [if_neg hIn] at hJump
      split
      · exact ⟨hRun, hCursor⟩
      · rename_i hRoom
        rw [if_neg hRoom] at hJump
        obtain ⟨hNext, hRest⟩ := hJump
        have hLen : (records ++ [rowToRecord row]).length = records.length + 1 := by simp
        refine ih (hRun.snoc ?_) ?_ ?_
        · rw [position_rowToRecord]
          omega
        · rw [hLen]
          omega
        · rw [hLen, hNext]
          exact hRest

theorem noJump_of_run {records : List JournalRecord} {first cursor : Int}
    (hCursor : cursor = first + records.length)
    (hRun : RunFrom JournalRecord.position first (takeRows coldEnd maxRecords rows records cursor).1) :
    NoJump coldEnd maxRecords rows records.length cursor := by
  induction rows generalizing records cursor with
  | nil => trivial
  | cons row rest ih =>
    rw [takeRows] at hRun
    rw [NoJump]
    split
    · rename_i hOut
      rw [if_pos hOut] at hRun
      exact ih hCursor hRun
    · rename_i hIn
      rw [if_neg hIn] at hRun
      split
      · trivial
      · rename_i hRoom
        rw [if_neg hRoom] at hRun
        obtain ⟨more, hMore, -⟩ :=
          takeRows_extends coldEnd maxRecords rest (records ++ [rowToRecord row]) (row.position + 1)
        have hPlaced : row.position = first + records.length := by
          rw [hMore, append_assoc, runFrom_append] at hRun
          exact hRun.2.1
        have hNext : row.position = cursor := by omega
        have hLen : (records ++ [rowToRecord row]).length = records.length + 1 := by simp
        refine ⟨hNext, ?_⟩
        have hRest := @ih (records ++ [rowToRecord row]) (row.position + 1) (by rw [hLen]; omega) hRun
        rwa [hLen, hNext] at hRest

theorem takeRows_length (rows : List JournalRow) (records : List JournalRecord) (cursor : Int)
    (hPage : records.length ≤ maxRecords) :
    (takeRows coldEnd maxRecords rows records cursor).1.length ≤ maxRecords := by
  induction rows generalizing records cursor with
  | nil => exact hPage
  | cons row rest ih =>
    rw [takeRows]
    split
    · exact ih records cursor hPage
    · split
      · exact hPage
      · rename_i hRoom
        exact ih _ _ (by simp; omega)

theorem takeRows_cursor_le (rows : List JournalRow) (records : List JournalRecord) (cursor : Int) :
    (takeRows coldEnd maxRecords rows records cursor).2 ≤ max cursor (coldEnd + 1) := by
  induction rows generalizing records cursor with
  | nil => exact le_max_left _ _
  | cons row rest ih =>
    rw [takeRows]
    split
    · exact ih records cursor
    · rename_i hIn
      split
      · exact le_max_left _ _
      · have := ih (records ++ [rowToRecord row]) (row.position + 1)
        omega

theorem takeRows_passes (records : List JournalRecord) (cursor : Int) {row : JournalRow}
    (hRow : row ∈ rows) (hRng : row.position ≤ coldEnd)
    (hRoom : (takeRows coldEnd maxRecords rows records cursor).1.length < maxRecords) :
    row.position < (takeRows coldEnd maxRecords rows records cursor).2 := by
  have hGrows : ∀ (l : List JournalRow) (r : List JournalRecord) (c : Int),
      c ≤ (takeRows coldEnd maxRecords l r c).2 := by
    intro l
    induction l with
    | nil => exact fun r c => le_rfl
    | cons x l ihl =>
      intro r c
      rw [takeRows]
      split
      · exact ihl r c
      · split
        · exact le_rfl
        · exact le_trans (by omega) (ihl _ (x.position + 1))
  induction rows generalizing records cursor with
  | nil => cases hRow
  | cons x rest ih =>
    rw [takeRows] at hRoom ⊢
    rcases mem_cons.mp hRow with rfl | hRow
    · split
      · rename_i hOut
        have := hGrows rest records cursor
        omega
      · rename_i hIn
        rw [if_neg hIn] at hRoom
        split
        · rename_i hFull
          rw [if_pos hFull] at hRoom
          exact absurd hFull (Nat.not_le.mpr hRoom)
        · have := hGrows rest (records ++ [rowToRecord row]) (row.position + 1)
          omega
    · split
      · rename_i hOut
        rw [if_pos hOut] at hRoom
        exact ih _ _ hRow hRoom
      · rename_i hIn
        rw [if_neg hIn] at hRoom
        split
        · rename_i hFull
          rw [if_pos hFull] at hRoom
          exact absurd hFull (Nat.not_le.mpr hRoom)
        · rename_i hSpace
          rw [if_neg hSpace] at hRoom
          exact ih _ _ hRow hRoom

end Cold

section Answer

variable {journal later : Journal} {fromSeq toSeq : Int} {limit : Nat}

theorem reached_of_run {first : Int} {records : List JournalRecord} (h : RunFrom JournalRecord.position first records) :
    (records.getLast?.map JournalRecord.position).getD (first - 1) = first + records.length - 1 := by
  cases hLast : records.getLast? with
  | none =>
    obtain rfl := getLast?_eq_none_iff.mp hLast
    simp
  | some last =>
    obtain ⟨front, rfl⟩ := getLast?_eq_some_iff.mp hLast
    have hKey : last.position = first + front.length := ((runFrom_append _ _ _).mp h).2.1
    simp only [Option.map_some, Option.getD_some, length_append, length_singleton, hKey]
    omega

theorem gaplessAnswer_of_run {answer : JournalRange} {first : Int}
    (hFirst : (answer.missingBelowSeq.map Int.ofNat).getD (max 0 fromSeq) = first) (hFrom : fromSeq ≤ first)
    (hRun : RunFrom JournalRecord.position first answer.records) (hTo : ∀ r ∈ answer.records, r.position ≤ toSeq)
    (hPage : answer.records.length ≤ min limit backfillBatchRecords)
    (hCompl : answer.complete = true → min toSeq journal.head.headSeq < first + answer.records.length) :
    GaplessAnswer journal fromSeq toSeq limit answer := by
  refine ⟨hFirst ▸ hRun, fun r hr => ⟨?_, hTo r hr⟩, hPage, fun hDone => ?_⟩
  · have := (hRun.bounds hr).1
    omega
  · have := hCompl hDone
    rw [hFirst, reached_of_run hRun]
    omega

section Above

variable {first cursor : Int} {records : List JournalRecord} {missing : Option Nat} {w : Nat}
  (hFirst : (missing.map Int.ofNat).getD (max 0 fromSeq) = first) (hCursor : cursor = first + records.length)
  (hFloorRead : cursor ≤ min toSeq journal.head.headSeq → (w : Int) ≤ cursor)
include hFirst hCursor hFloorRead

theorem readAbove_gapless (hFrom : fromSeq ≤ first) (hRun : RunFrom JournalRecord.position first records)
    (hTo : ∀ r ∈ records, r.position ≤ toSeq) (hPage : records.length ≤ min limit backfillBatchRecords)
    (hResid : later.Resident) (hNext : min toSeq journal.head.headSeq < later.nextSeq)
    (hFloor : records.length < min limit backfillBatchRecords → cursor ≤ min toSeq journal.head.headSeq →
      later.hotMinSeq ≤ cursor) :
    GaplessAnswer journal fromSeq toSeq limit
      (readAbove later w (min limit backfillBatchRecords) cursor (min toSeq journal.head.headSeq) records missing) := by
  unfold readAbove
  split
  · rename_i hRoom
    obtain ⟨hPiece, hUpper, hLen, hWhole⟩ := hResid.readResident (hFloor hRoom.1 hRoom.2) hNext
      (min limit backfillBatchRecords - records.length) backfillBatchBytes
    rw [max_eq_left (hFloorRead hRoom.2)]
    refine gaplessAnswer_of_run hFirst hFrom ((runFrom_append _ _ _).mpr ⟨hRun, hCursor ▸ hPiece⟩) ?_ ?_ ?_
    · intro r hr
      rcases mem_append.mp hr with hr | hr
      · exact hTo r hr
      · exact (hUpper r hr).trans (min_le_left _ _)
    · rw [length_append]
      omega
    · intro hDone
      have := hWhole hDone
      rw [length_append]
      omega
  · rename_i hFull
    refine gaplessAnswer_of_run hFirst hFrom hRun hTo hPage (fun hDone => ?_)
    have hPast : min toSeq journal.head.headSeq < cursor := by simpa using hDone
    change min toSeq journal.head.headSeq < first + records.length
    omega

theorem floor_of_gapless (hRun : RunFrom JournalRecord.position first records) (hResid : later.Resident)
    (hAns : GaplessAnswer journal fromSeq toSeq limit
      (readAbove later w (min limit backfillBatchRecords) cursor (min toSeq journal.head.headSeq) records missing))
    (hRoom : records.length < min limit backfillBatchRecords) (hRng : cursor ≤ min toSeq journal.head.headSeq) :
    later.hotMinSeq ≤ cursor := by
  by_contra hPassed
  unfold readAbove at hAns
  rw [if_pos ⟨hRoom, hRng⟩, max_eq_left (hFloorRead hRng)] at hAns
  have hWhole : RunFrom JournalRecord.position first (records ++
      (later.readResident cursor (min toSeq journal.head.headSeq)
        (min limit backfillBatchRecords - records.length) backfillBatchBytes).records) := hFirst ▸ hAns.run
  have hPiece := ((runFrom_append _ _ _).mp hWhole).2
  rw [← hCursor] at hPiece
  obtain ⟨hNone, hCompl⟩ := hResid.readResident_below (not_le.mp hPassed) (Nat.sub_pos_of_lt hRoom)
    backfillBatchBytes hPiece
  have hReached := hAns.complete hCompl
  dsimp only at hReached
  rw [hNone, append_nil, hFirst, reached_of_run hRun] at hReached
  omega

end Above

theorem coldStart_bounds (hRng : max 0 fromSeq ≤ min toSeq journal.head.headSeq)
    (hCold : max 0 fromSeq < journal.hotMinSeq) :
    max 0 fromSeq ≤ coldStart journal fromSeq toSeq ∧ coldStart journal fromSeq toSeq ≤ journal.hotMinSeq ∧
      (segmentsRead journal fromSeq toSeq ≠ [] → coldStart journal fromSeq toSeq ≤ coldEndOf journal toSeq) := by
  have hEnd : max 0 fromSeq ≤ coldEndOf journal toSeq := by unfold coldEndOf; omega
  have hBelow : coldEndOf journal toSeq < journal.hotMinSeq := by unfold coldEndOf; omega
  unfold coldStart missingBelow
  cases hHead : (segmentsRead journal fromSeq toSeq).head? with
  | none => exact ⟨hCold.le, le_rfl, fun hSome => absurd (head?_eq_none_iff.mp hHead) hSome⟩
  | some lowest =>
    have hRead := (mem_filter.mp (mem_of_mem_take (mem_of_mem_head? hHead))).2
    have hLowest : (lowest.firstSeq : Int) ≤ coldEndOf journal toSeq := by
      simp only [decide_eq_true_eq] at hRead
      exact hRead.2.2
    dsimp only
    split
    · rename_i hAbove
      change max 0 fromSeq ≤ (lowest.firstSeq : Int) ∧ (lowest.firstSeq : Int) ≤ _ ∧ (_ → (lowest.firstSeq : Int) ≤ _)
      exact ⟨hAbove.le, by omega, fun _ => hLowest⟩
    · exact ⟨le_rfl, hCold.le, fun _ => hEnd⟩

theorem readRange_cold (later : Journal) (objects : SegmentRow → Option SegmentObject) (limit : Nat)
    (hRng : max 0 fromSeq ≤ min toSeq journal.head.headSeq) (hCold : max 0 fromSeq < journal.hotMinSeq) :
    ∃ records cursor missing, takeRows (coldEndOf journal toSeq) (min limit backfillBatchRecords)
        (readableRows journal objects fromSeq toSeq) [] (coldStart journal fromSeq toSeq) = (records, cursor) ∧
      (missing.map Int.ofNat).getD (max 0 fromSeq) = coldStart journal fromSeq toSeq ∧
      readRange journal later objects fromSeq toSeq limit =
        if cursor ≤ coldEndOf journal toSeq then { records, complete := false, missingBelowSeq := missing }
        else readAbove (if (segmentsRead journal fromSeq toSeq).isEmpty then journal else later) journal.hotMinSeq
          (min limit backfillBatchRecords) cursor (min toSeq journal.head.headSeq) records missing := by
  refine ⟨_, _, missingBelow (segmentsRead journal fromSeq toSeq) (max 0 fromSeq) journal.hotMinSeq, rfl, rfl, ?_⟩
  unfold readRange
  dsimp only
  rw [if_neg (not_lt.mpr hRng), if_pos (show max 0 fromSeq < (journal.head.windowStartSeq : Int) from hCold),
    takeSegments_eq]
  rfl

theorem coldStart_eq (journal : Journal) (fromSeq toSeq : Int) :
    coldStart journal fromSeq toSeq = coldStart journal fromSeq toSeq + (([] : List JournalRecord).length : Int) := by
  simp

theorem noJump_of_gapless {objects : SegmentRow → Option SegmentObject} {records : List JournalRecord} {cursor : Int}
    {missing : Option Nat} {table : Journal} (hTaken : takeRows (coldEndOf journal toSeq) (min limit backfillBatchRecords)
      (readableRows journal objects fromSeq toSeq) [] (coldStart journal fromSeq toSeq) = (records, cursor))
    (hFirst : (missing.map Int.ofNat).getD (max 0 fromSeq) = coldStart journal fromSeq toSeq)
    (hAns : GaplessAnswer journal fromSeq toSeq limit
      (if cursor ≤ coldEndOf journal toSeq then { records, complete := false, missingBelowSeq := missing }
        else readAbove table journal.hotMinSeq (min limit backfillBatchRecords) cursor
          (min toSeq journal.head.headSeq) records missing)) :
    NoJump (coldEndOf journal toSeq) (min limit backfillBatchRecords) (readableRows journal objects fromSeq toSeq) 0
      (coldStart journal fromSeq toSeq) := by
  have hRun : RunFrom JournalRecord.position (coldStart journal fromSeq toSeq) records := by
    have hWhole := hAns.run
    split at hWhole
    · exact hFirst ▸ hWhole
    · unfold readAbove at hWhole
      split at hWhole
      · exact ((runFrom_append _ _ _).mp (hFirst ▸ hWhole)).1
      · exact hFirst ▸ hWhole
  refine noJump_of_run _ _ (coldStart_eq journal fromSeq toSeq) ?_
  rw [hTaken]
  exact hRun

theorem coldAnswer_iff (hJournal : journal.Resident) (hLater : journal.Advances later)
    (objects : SegmentRow → Option SegmentObject) (hRng : max 0 fromSeq ≤ min toSeq journal.head.headSeq)
    (hCold : max 0 fromSeq < journal.hotMinSeq) :
    GaplessAnswer journal fromSeq toSeq limit (readRange journal later objects fromSeq toSeq limit) ↔
      ServesWhole journal later objects fromSeq toSeq limit := by
  have hHead : min toSeq journal.head.headSeq < journal.nextSeq := by
    have : journal.head.headSeq = (journal.nextSeq : Int) - 1 := rfl
    omega
  obtain ⟨records, cursor, missing, hTaken, hFirst, hAns⟩ :=
    readRange_cold later objects limit hRng hCold
  obtain ⟨hStart, hFloor, hBelow⟩ := coldStart_bounds hRng hCold
  have hColdEnd : coldEndOf journal toSeq = min (min toSeq journal.head.headSeq) ((journal.hotMinSeq : Int) - 1) := rfl
  have hCursorLe := takeRows_cursor_le (coldEndOf journal toSeq) (min limit backfillBatchRecords)
    (readableRows journal objects fromSeq toSeq) [] (coldStart journal fromSeq toSeq)
  rw [hTaken] at hCursorLe
  have hFrom : fromSeq ≤ coldStart journal fromSeq toSeq := by omega
  rw [hAns]
  by_cases hJump : NoJump (coldEndOf journal toSeq) (min limit backfillBatchRecords)
      (readableRows journal objects fromSeq toSeq) 0 (coldStart journal fromSeq toSeq)
  · obtain ⟨hRun, hCursor⟩ := takeRows_run _ _ (runFrom_nil _) (coldStart_eq journal fromSeq toSeq) hJump
    obtain ⟨more, hMore, hUpper, hRows⟩ := takeRows_extends (coldEndOf journal toSeq)
      (min limit backfillBatchRecords) (readableRows journal objects fromSeq toSeq) [] (coldStart journal fromSeq toSeq)
    have hPage := takeRows_length (coldEndOf journal toSeq) (min limit backfillBatchRecords)
      (readableRows journal objects fromSeq toSeq) [] (coldStart journal fromSeq toSeq) (Nat.zero_le _)
    have hPasses : ∀ row ∈ readableRows journal objects fromSeq toSeq, row.position ≤ coldEndOf journal toSeq →
        records.length < min limit backfillBatchRecords → row.position < cursor := by
      intro row hRow hEnd hRoom
      have hPassed := takeRows_passes (coldEndOf journal toSeq) (min limit backfillBatchRecords) []
        (coldStart journal fromSeq toSeq) hRow hEnd
      rw [hTaken] at hPassed
      exact hPassed hRoom
    rw [hTaken] at hRun hCursor hPage hMore
    rw [nil_append] at hMore
    obtain rfl : records = more := hMore
    dsimp only at hRun hCursor hPage hCursorLe
    have hTo : ∀ r ∈ records, r.position ≤ toSeq := fun r hr => by
      have := hUpper r hr
      omega
    split
    · rename_i hShort
      have hGapless : GaplessAnswer journal fromSeq toSeq limit
          { records, complete := false, missingBelowSeq := missing } :=
        gaplessAnswer_of_run hFirst hFrom hRun hTo hPage (fun hDone => by cases hDone)
      refine iff_of_true hGapless fun _ _ => ⟨hJump, fun _ hEnd hRoom hLast => ?_⟩
      obtain ⟨row, hRow, hPosition⟩ := hLast
      have hPassed := hPasses row hRow (by omega) (by omega)
      omega
    · rename_i hThrough
      have hFloorRead : cursor ≤ min toSeq journal.head.headSeq → (journal.hotMinSeq : Int) ≤ cursor := by
        intro hMore
        omega
      by_cases hNone : segmentsRead journal fromSeq toSeq = []
      · have hEmpty : (segmentsRead journal fromSeq toSeq).isEmpty = true := List.isEmpty_iff.mpr hNone
        rw [if_pos hEmpty]
        refine iff_of_true ?_ fun _ _ => ⟨hJump, fun hSome => absurd hNone hSome⟩
        exact readAbove_gapless hFirst hCursor hFloorRead hFrom hRun hTo hPage hJournal hHead
          (fun _ hMore => hFloorRead hMore)
      · have hSome : ¬ (segmentsRead journal fromSeq toSeq).isEmpty = true := fun hEmpty =>
          hNone (List.isEmpty_iff.mp hEmpty)
        have hStartBelow := hBelow hNone
        rw [if_neg hSome]
        constructor
        · refine fun hGapless _ _ => ⟨hJump, fun _ hEnd hRoom _ => ?_⟩
          have hKept := floor_of_gapless hFirst hCursor hFloorRead hRun hLater.resident hGapless (by omega) (by omega)
          have := hLater.floor
          omega
        · intro hServes
          obtain ⟨-, hStill⟩ := hServes hRng hCold
          refine readAbove_gapless hFirst hCursor hFloorRead hFrom hRun hTo hPage hLater.resident
            (by have := hLater.next; omega) (fun hRoom hMore => ?_)
          have hAtFloor := hFloorRead hMore
          -- the archived part is not empty: it starts below the floor and the cursor is at the floor
          have hNe : records ≠ [] := by
            rintro rfl
            simp only [length_nil] at hCursor
            omega
          obtain ⟨row, hRow, hPosition⟩ := hRows (records.getLast hNe) (getLast_mem hNe)
          have hLast := hRun.key_getLast hNe
          have hEq := hStill hNone (by omega) (by omega) ⟨row, hRow, by omega⟩
          omega
  · exact iff_of_false (fun hGapless => hJump (noJump_of_gapless hTaken hFirst hGapless))
      (fun hServes => hJump (hServes hRng hCold).1)

/-- The answer has no gap exactly when the objects and the floor let it be served whole. -/
theorem readRange_gapless_iff (hJournal : journal.Resident) (hLater : journal.Advances later)
    (objects : SegmentRow → Option SegmentObject) (fromSeq toSeq : Int) (limit : Nat) :
    GaplessAnswer journal fromSeq toSeq limit (readRange journal later objects fromSeq toSeq limit) ↔
      ServesWhole journal later objects fromSeq toSeq limit := by
  by_cases hRange : max 0 fromSeq ≤ min toSeq journal.head.headSeq
  · by_cases hCold : max 0 fromSeq < journal.hotMinSeq
    · exact coldAnswer_iff hJournal hLater objects hRange hCold
    · refine iff_of_true ?_ fun _ hBelow => absurd hBelow hCold
      have hHead : journal.head.headSeq = (journal.nextSeq : Int) - 1 := rfl
      unfold readRange
      dsimp only
      rw [if_neg (not_lt.mpr hRange), if_neg (show ¬ max 0 fromSeq < (journal.head.windowStartSeq : Int) from hCold)]
      exact readAbove_gapless rfl (by simp) (fun _ => not_lt.mp hCold) (le_max_right _ _) trivial (by simp)
        (Nat.zero_le _) hJournal (by omega) (fun _ _ => not_lt.mp hCold)
  · refine iff_of_true ?_ fun hIn => absurd hIn hRange
    unfold readRange
    dsimp only
    rw [if_pos (not_le.mp hRange)]
    exact gaplessAnswer_of_run rfl (le_max_right _ _) trivial (by simp) (Nat.zero_le _) (fun _ => by
      have := not_le.mp hRange
      simpa using this)

end Answer

def wholeObject (segment : SegmentRow) : Option SegmentObject :=
  some ((List.range' segment.firstSeq (segment.lastSeq + 1 - segment.firstSeq)).map (fun seq => some (userRow seq)))

theorem cutJournal_resident (ranges : List (Nat × Nat)) (hotMinSeq : Nat) : (cutJournal ranges hotMinSeq).Resident :=
  ⟨⟨rfl, by simp [cutJournal, userRow, JournalRow.position], trivial⟩, rfl⟩

/-- Two whole segments and the resident rows come out as one page. -/
theorem readRange_gapless_iff_cut :
    GaplessAnswer (cutJournal [(0, 1), (2, 3)] 4) 0 5 200
      (readRange (cutJournal [(0, 1), (2, 3)] 4) (cutJournal [(0, 1), (2, 3)] 4) wholeObject 0 5 200) := by
  refine (readRange_gapless_iff (cutJournal_resident _ _) (cutJournal_resident _ _).advances wholeObject 0 5 200).mpr ?_
  exact fun _ _ => ⟨⟨rfl, rfl, rfl, rfl, trivial⟩, fun _ _ _ _ => rfl⟩

/-- A page with the object of its middle segment absent, and a page whose floor is raised while it
waits for its segment, both have a gap. -/
theorem readRange_gaps :
    ¬ GaplessAnswer (cutJournal [(0, 1), (2, 3), (4, 5)] 6) 0 7 200
        (readRange (cutJournal [(0, 1), (2, 3), (4, 5)] 6) (cutJournal [(0, 1), (2, 3), (4, 5)] 6)
          (fun segment => if segment.firstSeq = 2 then none else wholeObject segment) 0 7 200) ∧
      ¬ GaplessAnswer (cutJournal [(0, 1)] 2) 0 3 200
        (readRange (cutJournal [(0, 1)] 2) ((cutJournal [(0, 1)] 2).commitSegment 2 2) wholeObject 0 3 200) := by
  constructor
  · intro h
    exact absurd h.run (by decide)
  · intro h
    exact absurd h.run (by decide)

end Archive

end Stella.Conversation
