import Stella.Archive.Read
import Stella.Archive.Segments

/-! # Reading a whole archive

When every committed segment has its object with all its rows, and only rows
are committed during a read, each range is answered by a run from its start that
is not empty, and nothing is named as missing.
-/

open List

namespace Stella.Tiling

open Gapless

variable {α β : Type*} {first last : α → Nat} {key : β → Int} {rows : α → List β}

variable {a b : Nat} {l : List α}

theorem Tiles.runFrom_below (h : Tiles first last a l b)
    (hRows : ∀ x ∈ l, RunFrom key (first x) (rows x) ∧ (rows x).length = last x + 1 - first x) (hi : Int) :
    RunFrom key a ((l.filter (fun x => (first x : Int) ≤ hi)).flatMap rows) := by
  induction l generalizing a with
  | nil => trivial
  | cons x l ih =>
    obtain ⟨hFirst, hLast, hRest⟩ := h
    by_cases hKept : (first x : Int) ≤ hi
    · rw [filter_cons_of_pos (by simpa using hKept), flatMap_cons, runFrom_append]
      obtain ⟨hRun, hLen⟩ := hRows x mem_cons_self
      have hEnd : (a : Int) + (rows x).length = ((last x + 1 : Nat) : Int) := by omega
      rw [hEnd]
      exact ⟨hFirst ▸ hRun, ih hRest fun y hy => hRows y (mem_cons_of_mem _ hy)⟩
    · have hNone : l.filter (fun x => (first x : Int) ≤ hi) = [] := by
        refine filter_eq_nil_iff.mpr fun y hy => ?_
        have hBounds := hRest.bounds hy
        rw [decide_eq_true_eq]
        omega
      rw [filter_cons_of_neg (by simpa using hKept), hNone]
      trivial

theorem Tiles.runFrom_between (h : Tiles first last a l b)
    (hRows : ∀ x ∈ l, RunFrom key (first x) (rows x) ∧ (rows x).length = last x + 1 - first x) {lo hi : Int}
    (hFrom : a ≤ lo) (hTo : lo < b) (hRng : lo ≤ hi) :
    ∃ x ∈ l, ∃ rest, l.filter (fun x => lo ≤ last x ∧ (first x : Int) ≤ hi) = x :: rest ∧
      (first x : Int) ≤ lo ∧ lo ≤ last x ∧ RunFrom key (first x) ((x :: rest).flatMap rows) := by
  induction l generalizing a with
  | nil =>
    have hEq : a = b := h
    omega
  | cons x l ih =>
    obtain ⟨hFirst, hLast, hRest⟩ := h
    by_cases hBelow : (last x : Int) < lo
    · obtain ⟨y, hy, rest, hFilter, hKept⟩ :=
        ih hRest (fun y hy => hRows y (mem_cons_of_mem _ hy)) (by omega)
      refine ⟨y, mem_cons_of_mem _ hy, rest, ?_, hKept⟩
      rw [filter_cons_of_neg (by simp only [decide_eq_true_eq]; omega)]
      exact hFilter
    · refine ⟨x, mem_cons_self, l.filter (fun x => (first x : Int) ≤ hi), ?_, by omega, by omega, ?_⟩
      · rw [filter_cons_of_pos (by simp only [decide_eq_true_eq]; omega)]
        congr 1
        refine filter_congr fun y hy => ?_
        have hBounds := hRest.bounds hy
        rw [decide_eq_decide]
        omega
      · obtain ⟨hRun, hLen⟩ := hRows x mem_cons_self
        have hEnd : (first x : Int) + (rows x).length = ((last x + 1 : Nat) : Int) := by omega
        rw [flatMap_cons, runFrom_append, hEnd]
        exact ⟨hRun, hRest.runFrom_below (fun y hy => hRows y (mem_cons_of_mem _ hy)) hi⟩

end Stella.Tiling

namespace Stella.Conversation

open Gapless Tiling

namespace Journal

def Commits (journal later : Journal) : Prop := ∃ batch, journal.append batch = some later

namespace Commits

variable {journal later : Journal}

theorem refl (journal : Journal) : journal.Commits journal := ⟨[], rfl⟩

section

variable (h : journal.Commits later)
include h

theorem trans {last : Journal} (hLast : later.Commits last) : journal.Commits last := by
  obtain ⟨batch, hBatch⟩ := h
  obtain ⟨more, hMore⟩ := hLast
  refine ⟨batch ++ more, ?_⟩
  induction batch generalizing journal with
  | nil =>
    obtain rfl := Option.some.inj hBatch
    exact hMore
  | cons columns rest ih =>
    rw [cons_append]
    unfold append at hBatch ⊢
    split at hBatch
    · cases hBatch
    · next hOpen =>
      obtain ⟨result, hIns, hRest⟩ := Option.bind_eq_some_iff.mp hBatch
      rw [if_neg hOpen, hIns, Option.bind_some]
      exact ih hRest

theorem resident (hResid : journal.Resident) : later.Resident :=
  (hResid.append h.choose_spec).resident

theorem floor : later.hotMinSeq = journal.hotMinSeq := (append_tables h.choose_spec).2.1

theorem segments : later.segments = journal.segments := (append_tables h.choose_spec).1

theorem epoch : later.epoch = journal.epoch := (append_rows h.choose_spec).1

theorem headSeq_le (hResid : journal.Resident) :
    journal.head.headSeq ≤ later.head.headSeq := by
  have hNext := (hResid.append h.choose_spec).next
  change (journal.nextSeq : Int) - 1 ≤ (later.nextSeq : Int) - 1
  omega

end

end Commits

end Journal

namespace Archive

open Journal

def committed (journal : Journal) : List SegmentRow := journal.segments.filter (fun s => s.state = .committed)

/-- The journal holds its resident rows, its committed segments tile the seqs from the floor up to
them, and each segment's object holds the rows of its range. -/
structure Whole (journal : Journal) (objects : SegmentRow → Option SegmentObject) : Prop where
  resident : journal.Resident
  tiles : Tiles SegmentRow.firstSeq SegmentRow.lastSeq journal.head.floorSeq (committed journal) journal.hotMinSeq
  objects : ∀ segment ∈ committed journal,
    RunFrom JournalRow.position segment.firstSeq (readSegment (objects segment)) ∧
      (readSegment (objects segment)).length = segment.lastSeq + 1 - segment.firstSeq

variable {journal later : Journal} {objects : SegmentRow → Option SegmentObject}

theorem whole_of_segmented (hResid : journal.Resident) {done : List SegmentRow} {pending : Option SegmentRow}
    (hSegmented : journal.Segmented done pending) (hObjects : ∀ segment ∈ done,
      RunFrom JournalRow.position segment.firstSeq (readSegment (objects segment)) ∧
        (readSegment (objects segment)).length = segment.lastSeq + 1 - segment.firstSeq) :
    Whole journal objects := by
  have hDone : committed journal = done := hSegmented.filter_committed
  have hFloor : journal.head.floorSeq = 0 := by
    change ((journal.segments.find? (fun s => s.state = .committed)).map SegmentRow.firstSeq).getD
      journal.hotMinSeq = 0
    rw [← head?_filter, show journal.segments.filter (fun s => decide (s.state = .committed)) = done from hDone]
    have hTiles := hSegmented.tiles
    cases done with
    | nil => exact (show 0 = journal.hotMinSeq from hTiles).symm
    | cons segment rest => exact hTiles.1
  refine ⟨hResid, ?_, ?_⟩
  · rw [hDone, hFloor]
    exact hSegmented.tiles
  · rw [hDone]
    exact hObjects

theorem floorSeq_commits (hLater : journal.Commits later) : later.head.floorSeq = journal.head.floorSeq := by
  change ((later.segments.find? (fun s => s.state = .committed)).map SegmentRow.firstSeq).getD later.hotMinSeq =
    ((journal.segments.find? (fun s => s.state = .committed)).map SegmentRow.firstSeq).getD journal.hotMinSeq
  rw [hLater.segments, hLater.floor]

theorem Whole.commits (h : Whole journal objects) (hLater : journal.Commits later) : Whole later objects := by
  have hEq : committed later = committed journal := by
    unfold committed
    rw [hLater.segments]
  refine ⟨hLater.resident h.resident, ?_, ?_⟩
  · rw [hEq, floorSeq_commits hLater, hLater.floor]
    exact h.tiles
  · rw [hEq]
    exact h.objects

variable {fromSeq toSeq : Int}

theorem Whole.readable (h : Whole journal objects) (hFrom : journal.head.floorSeq ≤ fromSeq)
    (hCold : fromSeq < journal.hotMinSeq) (hRng : fromSeq ≤ coldEndOf journal toSeq) :
    ∃ lowest rest, segmentsRead journal fromSeq toSeq = lowest :: rest ∧ (lowest.firstSeq : Int) ≤ fromSeq ∧
      RunFrom JournalRow.position lowest.firstSeq (readableRows journal objects fromSeq toSeq) ∧
      ∃ row ∈ readableRows journal objects fromSeq toSeq, row.position = fromSeq := by
  obtain ⟨lowest, hLowest, rest, hFilter, hBelow, hAbove, hRun⟩ :=
    h.tiles.runFrom_between h.objects hFrom hCold hRng
  have hCovering : segmentsRead journal fromSeq toSeq = lowest :: rest.take 3 := by
    unfold Archive.segmentsRead segmentsCovering
    have hEq : journal.segments.filter (fun s => s.state = .committed ∧ max 0 fromSeq ≤ s.lastSeq ∧
        (s.firstSeq : Int) ≤ coldEndOf journal toSeq) = lowest :: rest := by
      rw [← hFilter, committed, filter_filter]
      refine filter_congr fun segment _ => ?_
      rw [← Bool.decide_and, decide_eq_decide, max_eq_right (by omega)]
      tauto
    rw [hEq]
    rfl
  have hRows : (lowest :: rest).flatMap (fun s => readSegment (objects s)) =
      readableRows journal objects fromSeq toSeq ++ (rest.drop 3).flatMap (fun s => readSegment (objects s)) := by
    unfold readableRows
    rw [hCovering, ← flatMap_append, cons_append, take_append_drop]
  rw [hRows, runFrom_append] at hRun
  refine ⟨lowest, rest.take 3, hCovering, hBelow, hRun.1, ?_⟩
  obtain ⟨hOwn, hLen⟩ := h.objects lowest hLowest
  obtain ⟨row, hRow, hPosition⟩ := hOwn.exists_key (t := fromSeq) hBelow (by omega)
  refine ⟨row, ?_, hPosition⟩
  unfold readableRows
  rw [hCovering, flatMap_cons]
  exact mem_append_left _ hRow

variable {count : Nat} {cursor : Int}

theorem noJump_of_above (coldEnd : Int) (maxRecords : Nat) {rows : List JournalRow} {first : Int}
    (hRun : RunFrom JournalRow.position first rows) (hAbove : coldEnd < first) :
    NoJump coldEnd maxRecords rows count cursor := by
  induction rows generalizing first with
  | nil => trivial
  | cons row rest ih =>
    rw [NoJump, if_pos (.inr (by rw [hRun.1]; exact hAbove))]
    exact ih hRun.2 (by omega)

theorem noJump_of_rows (coldEnd : Int) (maxRecords : Nat) {rows : List JournalRow} {first : Int}
    (hRun : RunFrom JournalRow.position first rows) (hFirst : first ≤ cursor) :
    NoJump coldEnd maxRecords rows count cursor := by
  induction rows generalizing first count cursor with
  | nil => trivial
  | cons row rest ih =>
    have hPosition : row.position = first := hRun.1
    rw [NoJump]
    split
    · next hOut =>
      obtain hBef | hPast := hOut
      · exact ih hRun.2 (by omega)
      · exact noJump_of_above coldEnd maxRecords hRun.2 (by omega)
    · next hIn =>
      split
      · trivial
      · exact ⟨by omega, ih hRun.2 (by omega)⟩

theorem head_headSeq (journal : Journal) : journal.head.headSeq = (journal.nextSeq : Int) - 1 := rfl

variable {maxRecords : Nat}

theorem readResident_ne_nil (hResid : journal.Resident) (hFrom : journal.hotMinSeq ≤ fromSeq)
    (hRng : fromSeq ≤ toSeq) (hTo : toSeq < journal.nextSeq) (hRoom : 0 < maxRecords)
    (maxBytes : Nat) : (journal.readResident fromSeq toSeq maxRecords maxBytes).records ≠ [] := by
  obtain ⟨-, hCnt⟩ := hResid.rows_between hFrom hTo
  obtain ⟨n, rfl⟩ := Nat.exists_eq_succ_of_ne_zero hRoom.ne'
  unfold Journal.readResident
  dsimp only
  cases hRows : journal.rows.filter (fun r => fromSeq ≤ r.position ∧ r.position ≤ toSeq) with
  | nil =>
    rw [hRows, length_nil] at hCnt
    omega
  | cons row rest =>
    rw [take_succ_cons, takeResident, if_neg (by simp)]
    obtain ⟨k, -, hTaken, -⟩ := takeResident_spec (n + 1) maxBytes (rest.take (n + 1)) ([] ++ [rowToRecord row])
      (0 + row.bytes) (by simp)
    rw [hTaken]
    simp

theorem readAbove_whole (hResid : later.Resident) {first endSeq : Int} {records : List JournalRecord}
    {windowStartSeq : Nat} (hRun : RunFrom JournalRecord.position first records)
    (hCursor : cursor = first + records.length) (hBelow : ∀ r ∈ records, r.position ≤ endSeq)
    (hFloor : cursor ≤ endSeq → later.hotMinSeq ≤ cursor ∧ (windowStartSeq : Int) ≤ cursor)
    (hEnd : endSeq < later.nextSeq) (hSome : records ≠ [] ∨ cursor ≤ endSeq) (hRoom : 0 < maxRecords) :
    RunFrom JournalRecord.position first (readAbove later windowStartSeq maxRecords cursor endSeq records none).records ∧
      (readAbove later windowStartSeq maxRecords cursor endSeq records none).records ≠ [] ∧
      (∀ r ∈ (readAbove later windowStartSeq maxRecords cursor endSeq records none).records, r.position ≤ endSeq) ∧
      (readAbove later windowStartSeq maxRecords cursor endSeq records none).missingBelowSeq = none := by
  unfold readAbove
  split
  · next hMore =>
    obtain ⟨hAtFloor, hWin⟩ := hFloor hMore.2
    obtain ⟨hPiece, hUpper, -, -⟩ := hResid.readResident hAtFloor hEnd (maxRecords - records.length)
      backfillBatchBytes
    have hLeft : 0 < maxRecords - records.length := Nat.sub_pos_of_lt hMore.1
    have hNe := readResident_ne_nil hResid hAtFloor hMore.2 hEnd hLeft backfillBatchBytes
    rw [max_eq_left hWin]
    refine ⟨(runFrom_append _ _ _).mpr ⟨hRun, hCursor ▸ hPiece⟩, ?_, ?_, rfl⟩
    · exact fun hNone => hNe (append_eq_nil_iff.mp hNone).2
    · intro r hr
      obtain hr | hr := mem_append.mp hr
      · exact hBelow r hr
      · exact hUpper r hr
  · next hFull =>
    refine ⟨hRun, ?_, hBelow, rfl⟩
    rintro rfl
    obtain hNe | hIn := hSome
    · exact hNe rfl
    · exact hFull ⟨by simpa using hRoom, hIn⟩

theorem readRange_taken (later : Journal) (objects : SegmentRow → Option SegmentObject)
    (limit : Nat) (hRng : max 0 fromSeq ≤ min toSeq journal.head.headSeq)
    (hCold : max 0 fromSeq < journal.hotMinSeq) :
    readRange journal later objects fromSeq toSeq limit =
      let missing := missingBelow (segmentsRead journal fromSeq toSeq) (max 0 fromSeq) journal.hotMinSeq
      let taken := takeRows (coldEndOf journal toSeq) (min limit backfillBatchRecords)
        (readableRows journal objects fromSeq toSeq) [] ((missing.map Int.ofNat).getD (max 0 fromSeq))
      if taken.2 ≤ coldEndOf journal toSeq then { records := taken.1, complete := false, missingBelowSeq := missing }
      else readAbove (if (segmentsRead journal fromSeq toSeq).isEmpty then journal else later) journal.hotMinSeq
        (min limit backfillBatchRecords) taken.2 (min toSeq journal.head.headSeq) taken.1 missing := by
  unfold readRange
  dsimp only
  rw [if_neg (not_lt.mpr hRng), if_pos (show max 0 fromSeq < (journal.head.windowStartSeq : Int) from hCold),
    takeSegments_eq]
  rfl

theorem Whole.readRange (h : Whole journal objects) (hLater : journal.Commits later)
    {limit : Nat} (hLimit : 0 < limit) (hFrom : journal.head.floorSeq ≤ fromSeq)
    (hRng : fromSeq ≤ min toSeq journal.head.headSeq) :
    RunFrom JournalRecord.position fromSeq (readRange journal later objects fromSeq toSeq limit).records ∧
      (readRange journal later objects fromSeq toSeq limit).records ≠ [] ∧
      (∀ r ∈ (readRange journal later objects fromSeq toSeq limit).records,
        r.position ≤ min toSeq journal.head.headSeq) ∧
      (readRange journal later objects fromSeq toSeq limit).missingBelowSeq = none := by
  have hRoom : 0 < min limit backfillBatchRecords := by
    rw [Nat.lt_min]
    exact ⟨hLimit, by decide⟩
  have hHead := head_headSeq journal
  have hNext : journal.nextSeq ≤ later.nextSeq := (h.resident.append hLater.choose_spec).next
  have hStart : max 0 fromSeq = fromSeq := max_eq_right (by omega)
  have hStill := hLater.floor
  by_cases hCold : fromSeq < journal.hotMinSeq
  · have hEnd : fromSeq ≤ coldEndOf journal toSeq := by unfold coldEndOf; omega
    have hColdEnd : coldEndOf journal toSeq ≤ min toSeq journal.head.headSeq := min_le_left _ _
    obtain ⟨lowest, rest, hRead, hLowest, hRows, row, hRow, hPosition⟩ := h.readable hFrom hCold hEnd
    have hMissing : missingBelow (segmentsRead journal fromSeq toSeq) fromSeq journal.hotMinSeq = none := by
      rw [hRead]
      unfold missingBelow
      dsimp only [head?_cons]
      rw [if_neg (not_lt.mpr hLowest)]
    obtain ⟨records, cursor, hTaken⟩ : ∃ records cursor, takeRows (coldEndOf journal toSeq)
        (min limit backfillBatchRecords) (readableRows journal objects fromSeq toSeq) [] fromSeq = (records, cursor) :=
      ⟨_, _, rfl⟩
    have hAns : Archive.readRange journal later objects fromSeq toSeq limit =
        if cursor ≤ coldEndOf journal toSeq then { records, complete := false, missingBelowSeq := none }
        else readAbove later journal.hotMinSeq (min limit backfillBatchRecords) cursor
          (min toSeq journal.head.headSeq) records none := by
      have hTable : (segmentsRead journal fromSeq toSeq).isEmpty = false := by rw [hRead]; rfl
      rw [readRange_taken later objects limit (hStart.symm ▸ hRng) (hStart.symm ▸ hCold)]
      simp only [hMissing, hTable, hStart, Option.map_none, Option.getD_none, hTaken, Bool.false_eq_true, if_false]
    have hJump : NoJump (coldEndOf journal toSeq) (min limit backfillBatchRecords)
        (readableRows journal objects fromSeq toSeq) ([] : List JournalRecord).length fromSeq :=
      noJump_of_rows _ _ hRows hLowest
    obtain ⟨hRun, hCursor⟩ := takeRows_run _ _ (runFrom_nil fromSeq)
      (show fromSeq = fromSeq + (([] : List JournalRecord).length : Int) by simp) hJump
    obtain ⟨more, hMore, hUpper, -⟩ := takeRows_extends (coldEndOf journal toSeq) (min limit backfillBatchRecords)
      (readableRows journal objects fromSeq toSeq) [] fromSeq
    have hPasses := takeRows_passes (coldEndOf journal toSeq) (min limit backfillBatchRecords) [] fromSeq hRow
      (hPosition ▸ hEnd)
    rw [hTaken] at hRun hCursor hMore hPasses
    dsimp only at hRun hCursor hMore hPasses
    rw [nil_append] at hMore
    obtain rfl := hMore
    have hNe : records ≠ [] := by
      rintro rfl
      have hPassed := hPasses hRoom
      rw [length_nil] at hCursor
      omega
    have hBelow : ∀ r ∈ records, r.position ≤ min toSeq journal.head.headSeq := fun r hr =>
      (hUpper r hr).trans hColdEnd
    rw [hAns]
    split
    · exact ⟨hRun, hNe, hBelow, rfl⟩
    · next hThrough =>
      refine readAbove_whole (hLater.resident h.resident) hRun hCursor hBelow (fun hMore => ?_) (by omega)
        (.inl hNe) hRoom
      unfold coldEndOf at hThrough
      omega
  · have hAns : Archive.readRange journal later objects fromSeq toSeq limit =
        readAbove journal journal.hotMinSeq (min limit backfillBatchRecords) fromSeq
          (min toSeq journal.head.headSeq) [] none := by
      unfold Archive.readRange
      dsimp only
      rw [if_neg (not_lt.mpr (hStart.symm ▸ hRng)),
        if_neg (show ¬ max 0 fromSeq < (journal.head.windowStartSeq : Int) from hStart.symm ▸ hCold), hStart]
      rfl
    rw [hAns]
    exact readAbove_whole h.resident (runFrom_nil fromSeq) (by simp) (by simp)
      (fun _ => ⟨not_lt.mp hCold, not_lt.mp hCold⟩) (by omega) (.inr hRng) hRoom

end Archive

end Stella.Conversation
