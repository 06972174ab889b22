import Stella.Library.Tiling
import Stella.Journal.Resident
import Stella.Archive.Model

/-! # The segment table and the objects of its segments

The committed segments tile the seqs below the resident floor, and at most one intent stands
above them.
-/

namespace Stella.Conversation

open Gapless Tiling List

namespace Journal

/-- The table is the committed segments, which tile `[0, hotMinSeq)`, and the intent of the next one. -/
structure Segmented (journal : Journal) (done : List SegmentRow) (pending : Option SegmentRow) : Prop where
  split : journal.segments = done ++ pending.toList
  tiles : Tiles SegmentRow.firstSeq SegmentRow.lastSeq 0 done journal.hotMinSeq
  committed : ∀ segment ∈ done, segment.state = .committed
  uploading : ∀ segment ∈ pending, segment.state = .uploading
  starts : ∀ segment ∈ pending, segment.firstSeq = journal.hotMinSeq
  ends : ∀ segment ∈ pending, journal.hotMinSeq ≤ segment.lastSeq ∧ segment.lastSeq < journal.nextSeq

namespace Segmented

variable {journal : Journal} {done : List SegmentRow} {pending : Option SegmentRow}

section

variable (h : journal.Segmented done pending)
include h

theorem mem (segment : SegmentRow) :
    segment ∈ journal.segments ↔ segment ∈ done ∨ segment ∈ pending := by
  rw [h.split, mem_append, Option.mem_toList, Option.mem_def]

theorem congr {later : Journal} (hSegs : later.segments = journal.segments)
    (hFloor : later.hotMinSeq = journal.hotMinSeq) (hNext : journal.nextSeq ≤ later.nextSeq) :
    later.Segmented done pending where
  split := hSegs.trans h.split
  tiles := hFloor.symm ▸ h.tiles
  committed := h.committed
  uploading := h.uploading
  starts segment hSeg := (h.starts segment hSeg).trans hFloor.symm
  ends segment hSeg := by
    have hEnds := h.ends segment hSeg
    omega

theorem filter_committed :
    journal.segments.filter (fun segment => segment.state = .committed) = done := by
  rw [h.split, filter_append, filter_eq_self.mpr (by simpa using h.committed),
    filter_eq_nil_iff.mpr, append_nil]
  intro segment hSeg
  rw [h.uploading segment (Option.mem_toList.mp hSeg)]
  decide

variable {segment : SegmentRow}

theorem pendingSegment
    (hPend : journal.pendingSegment = some segment) : segment ∈ pending := by
  have hSt : segment.state = .uploading := by simpa using find?_some hPend
  rcases (h.mem _).mp (mem_of_find?_eq_some hPend) with hDone | hPend
  · rw [h.committed segment hDone] at hSt
    cases hSt
  · exact hPend

theorem bounds (hNext : journal.hotMinSeq ≤ journal.nextSeq) (hSegment : segment ∈ journal.segments) :
    segment.firstSeq ≤ journal.hotMinSeq ∧ segment.lastSeq < journal.nextSeq := by
  rcases (h.mem _).mp hSegment with hDone | hPending
  · have hBounds := h.tiles.bounds hDone
    omega
  · have hStart := h.starts segment hPending
    have hEnds := h.ends segment hPending
    omega

theorem first_inj {x y : SegmentRow} (hx : x ∈ journal.segments)
    (hy : y ∈ journal.segments) (hFirst : x.firstSeq = y.firstSeq) : x = y := by
  rcases (h.mem _).mp hx with hx | hx <;> rcases (h.mem _).mp hy with hy | hy
  · exact h.tiles.first_inj hx hy hFirst
  · have hBounds := h.tiles.bounds hx
    have hStart := h.starts y hy
    omega
  · have hBounds := h.tiles.bounds hy
    have hStart := h.starts x hx
    omega
  · exact Option.mem_unique hx hy

end

theorem upsertSegment_append {row : SegmentRow} {below : List SegmentRow}
    (hBelow : ∀ segment ∈ below, segment.firstSeq < row.firstSeq) (rest : List SegmentRow) :
    upsertSegment row (below ++ rest) = below ++ upsertSegment row rest := by
  induction below with
  | nil => rfl
  | cons segment below ih =>
    have hFirst := hBelow segment mem_cons_self
    rw [cons_append, upsertSegment, if_neg (by omega), if_neg (by omega),
      ih (fun s hs => hBelow s (mem_cons_of_mem _ hs))]
    rfl

theorem insertSegment (h : journal.Segmented done pending) (row : SegmentRow) (hSt : row.state = .uploading)
    (hStart : row.firstSeq = journal.hotMinSeq) (hFirst : journal.hotMinSeq ≤ row.lastSeq)
    (hLast : row.lastSeq < journal.nextSeq) :
    ∃ intent : SegmentRow, intent.firstSeq = row.firstSeq ∧ intent.lastSeq = row.lastSeq ∧
      intent.r2Key = row.r2Key ∧ (journal.insertSegment row).Segmented done (some intent) := by
  have hBelow : ∀ segment ∈ done, segment.firstSeq < row.firstSeq := fun segment hSeg => by
    have hBounds := h.tiles.bounds hSeg
    omega
  have hUpsert : ∃ intent : SegmentRow, upsertSegment row pending.toList = [intent] ∧
      intent.firstSeq = row.firstSeq ∧ intent.lastSeq = row.lastSeq ∧ intent.r2Key = row.r2Key ∧
      intent.state = .uploading := by
    cases pending with
    | none => exact ⟨row, rfl, rfl, rfl, rfl, hSt⟩
    | some segment =>
      have hEq : row.firstSeq = segment.firstSeq := hStart.trans (h.starts segment rfl).symm
      refine ⟨{ segment with lastSeq := row.lastSeq, rows := row.rows, bytes := row.bytes, r2Key := row.r2Key },
        ?_, hEq.symm, rfl, rfl, h.uploading segment rfl⟩
      rw [Option.toList_some, upsertSegment, if_neg (by omega), if_pos hEq]
  obtain ⟨intent, hIntent, hIntentFirst, hIntentLast, hKey, hUploading⟩ := hUpsert
  refine ⟨intent, hIntentFirst, hIntentLast, hKey, ?_, h.tiles, h.committed, ?_, ?_, ?_⟩
  · change upsertSegment row journal.segments = _
    rw [h.split, upsertSegment_append hBelow, hIntent]
    rfl
  · rintro segment ⟨⟩
    exact hUploading
  · rintro segment ⟨⟩
    exact hIntentFirst.trans hStart
  · rintro segment ⟨⟩
    rw [hIntentLast]
    exact ⟨hFirst, hLast⟩

theorem commitSegment (h : journal.Segmented done pending) {segment : SegmentRow}
    (hSeg : segment ∈ journal.segments) :
    ∃ done' pending', (journal.commitSegment segment.firstSeq segment.lastSeq).Segmented done' pending' := by
  have hDone : done.map (fun s => if s.firstSeq = segment.firstSeq then { s with state := .committed } else s) =
      done := by
    refine (map_congr_left (fun s hs => ?_)).trans (map_id _)
    split
    · rw [← h.committed s hs]
      rfl
    · rfl
  rcases (h.mem _).mp hSeg with hMem | hMem
  · have hBounds := h.tiles.bounds hMem
    have hFloor : (journal.commitSegment segment.firstSeq segment.lastSeq).hotMinSeq = journal.hotMinSeq :=
      if_neg (by omega)
    refine ⟨done, pending, h.congr ?_ hFloor le_rfl⟩
    change journal.segments.map _ = _
    rw [h.split, map_append, hDone]
    cases pending with
    | none => rfl
    | some intent =>
      have hStart := h.starts intent rfl
      rw [Option.toList_some, map_singleton, if_neg (by omega)]
  · have hStart := h.starts segment hMem
    have hEnds := h.ends segment hMem
    have hFloor : (journal.commitSegment segment.firstSeq segment.lastSeq).hotMinSeq = segment.lastSeq + 1 :=
      if_pos (by omega)
    obtain rfl := hMem
    refine ⟨done ++ [{ segment with state := .committed }], none, ?_, ?_, ?_, by simp, by simp, by simp⟩
    · change journal.segments.map _ = _
      rw [h.split, map_append, hDone, Option.toList_some, map_singleton, if_pos rfl]
      simp
    · rw [hFloor]
      exact h.tiles.snoc hStart hEnds.1
    · intro s hs
      rcases mem_append.mp hs with hs | hs
      · exact h.committed s hs
      · rw [mem_singleton.mp hs]

end Segmented

variable {journal : Journal}

theorem Resident.rowsForArchive (h : journal.Resident) {fromSeq toSeq : Nat} (hFrom : journal.hotMinSeq ≤ fromSeq)
    (hTo : toSeq < journal.nextSeq) (limit : Nat) :
    RunFrom JournalRow.position fromSeq (journal.rowsForArchive fromSeq toSeq limit) ∧
      (journal.rowsForArchive fromSeq toSeq limit).length = min limit (toSeq + 1 - fromSeq) := by
  have hFilter : journal.rows.filter (fun r => fromSeq ≤ r.seq ∧ r.seq ≤ toSeq) =
      journal.rows.filter (fun r => (fromSeq : Int) ≤ r.position ∧ r.position ≤ (toSeq : Int)) := by
    refine filter_congr (fun r _ => ?_)
    unfold JournalRow.position
    rw [decide_eq_decide]
    omega
  obtain ⟨hRun, hCnt⟩ := h.rows_between (Int.ofNat_le.mpr hFrom) (Int.ofNat_lt.mpr hTo)
  rw [← hFilter] at hRun hCnt
  unfold Journal.rowsForArchive
  refine ⟨hRun.take limit, ?_⟩
  rw [length_take, hCnt]
  omega

theorem Resident.archiveRows (h : journal.Resident) {fuel cursor lastSeq : Nat} (hFrom : journal.hotMinSeq ≤ cursor)
    (hTo : lastSeq < journal.nextSeq) (hCursor : cursor ≤ lastSeq + 1) (hFuel : lastSeq + 1 - cursor < fuel) :
    RunFrom JournalRow.position cursor (journal.archiveRows fuel cursor lastSeq) ∧
      cursor + (journal.archiveRows fuel cursor lastSeq).length = lastSeq + 1 := by
  induction fuel generalizing cursor with
  | zero => omega
  | succ fuel ih =>
    obtain ⟨hRun, hCnt⟩ := h.rowsForArchive hFrom hTo archiveReadRows
    have hLimit : 0 < archiveReadRows := by decide
    unfold Journal.archiveRows
    dsimp only
    generalize journal.rowsForArchive cursor lastSeq archiveReadRows = batch at hRun hCnt ⊢
    cases hLast : batch.getLast? with
    | none =>
      obtain rfl := getLast?_eq_none_iff.mp hLast
      rw [length_nil] at hCnt
      exact ⟨trivial, by rw [length_nil]; omega⟩
    | some last =>
      have hBatch : batch ≠ [] := by
        rintro rfl
        cases hLast
      have hKey := hRun.key_getLast hBatch
      rw [getLast?_eq_some_getLast hBatch] at hLast
      rw [Option.some.inj hLast] at hKey
      have hSeq : last.seq + 1 = cursor + batch.length := by
        unfold JournalRow.position at hKey
        omega
      dsimp only
      rw [hSeq]
      split
      · rw [append_nil]
        exact ⟨hRun, by omega⟩
      · have hPos := length_pos_of_ne_nil hBatch
        obtain ⟨hRest, hEnd⟩ := @ih (cursor + batch.length) (by omega) (by omega) (by omega)
        refine ⟨(runFrom_append _ _ _).mpr ⟨hRun, ?_⟩, ?_⟩
        · rw [← Int.natCast_add]
          exact hRest
        · rw [length_append]
          omega

theorem cutBatch_mem (rows : List JournalRow) (lastSeq count bytes : Nat) :
    (cutBatch rows lastSeq count bytes).1 = lastSeq ∨
      ∃ row ∈ rows, row.seq = (cutBatch rows lastSeq count bytes).1 := by
  induction rows generalizing lastSeq count bytes with
  | nil => exact .inl rfl
  | cons row rest ih =>
    unfold cutBatch
    split
    · exact .inl rfl
    · right
      rcases ih row.seq (count + 1) (bytes + row.bytes) with hEq | ⟨row', hRow, hSeq⟩
      · exact ⟨row, mem_cons_self, hEq.symm⟩
      · exact ⟨row', mem_cons_of_mem _ hRow, hSeq⟩

theorem walkBack_le (firstSeq seq : Nat) : journal.walkBack firstSeq seq ≤ seq := by
  induction seq with
  | zero => exact le_rfl
  | succ seq ih =>
    unfold walkBack
    split
    · exact ih.trans (Nat.le_succ _)
    · exact le_rfl

theorem cutRange_bounds {firstSeq cutSeq lastSeq count bytes : Nat}
    (h : journal.cutRange firstSeq cutSeq = some (lastSeq, count, bytes)) :
    firstSeq ≤ lastSeq ∧ ∃ row ∈ journal.rows, lastSeq ≤ row.seq := by
  unfold cutRange at h
  split at h
  · cases h
  · split at h
    · cases h
    · rename_i row rest hRows
      dsimp only at h
      split at h
      · cases h
      · rename_i hLegal
        obtain ⟨rfl, -⟩ := Prod.mk.inj (Option.some.inj h)
        refine ⟨Nat.not_lt.mp fun hLt => hLegal (.inl hLt), ?_⟩
        have hMem : ∃ row' ∈ row :: rest, row'.seq = (cutBatch (row :: rest) row.seq 0 0).1 := by
          rcases cutBatch_mem (row :: rest) row.seq 0 0 with hEq | hRow
          · exact ⟨row, mem_cons_self, hEq.symm⟩
          · exact hRow
        obtain ⟨row', hRow, hSeq⟩ := hMem
        rw [← hRows] at hRow
        refine ⟨row', (mem_filter.mp (mem_of_mem_take hRow)).1, ?_⟩
        rw [hSeq]
        exact walkBack_le firstSeq _

end Journal

def Put.Whole (put : Put) : Prop :=
  match put.key with
  | .segment _ firstSeq lastSeq => ∃ header rows, put.object = .segment header rows ∧
      RunFrom JournalRow.position firstSeq rows ∧ firstSeq + rows.length = lastSeq + 1
  | .spill _ _ => True

def Put.Holds (put : Put) (seq : Nat) : Prop :=
  ∃ header rows, put.object = .segment header rows ∧ ∃ row ∈ rows, row.seq = seq

variable {root : String} {firstSeq lastSeq : Nat}

theorem Put.Whole.holds {put : Put} (h : put.Whole) {seq : Nat}
    (hKey : put.key = .segment root firstSeq lastSeq) (hFirst : firstSeq ≤ seq) (hLast : seq ≤ lastSeq) :
    put.Holds seq := by
  unfold Put.Whole at h
  rw [hKey] at h
  obtain ⟨header, rows, hObj, hRun, hLen⟩ := h
  obtain ⟨row, hRow, hSeq⟩ := hRun.exists_key (t := seq) (by omega) (by omega)
  exact ⟨header, rows, hObj, row, hRow, Int.ofNat_inj.mp hSeq⟩

theorem ConversationArchive.uploadOf_whole {s : ConversationArchive} (h : s.journal.Resident)
    (hStart : firstSeq = s.journal.hotMinSeq) (hFirst : firstSeq ≤ lastSeq)
    (hLast : lastSeq < s.journal.nextSeq) (rows : Nat) (createdAt : Int) :
    (s.uploadOf (.segment root firstSeq lastSeq) firstSeq lastSeq rows createdAt).Whole := by
  have hNext := h.next
  obtain ⟨hRun, hLength⟩ := h.archiveRows hStart.ge hLast (by omega)
    (show lastSeq + 1 - firstSeq < s.journal.rows.length + 1 by omega)
  exact ⟨_, _, rfl, hRun, hLength⟩

end Stella.Conversation
