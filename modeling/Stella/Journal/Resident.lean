import Stella.Library.Gapless
import Stella.Journal.Model

/-! # The resident rows

The `journal` table holds exactly the seqs from the resident floor up to the next one.
-/

namespace Stella.Conversation

open Gapless List

namespace Journal

/-- The rows are exactly the seqs in `[hotMinSeq, nextSeq)`, in order. -/
structure Resident (journal : Journal) : Prop where
  run : RunFrom JournalRow.position journal.hotMinSeq journal.rows
  next : journal.nextSeq = journal.hotMinSeq + journal.rows.length

structure Advances (journal later : Journal) : Prop where
  resident : later.Resident
  floor : journal.hotMinSeq ≤ later.hotMinSeq
  next : journal.nextSeq ≤ later.nextSeq

namespace Resident

variable {journal : Journal}

section

variable (h : journal.Resident)
include h

theorem advances : journal.Advances journal := ⟨h, le_rfl, le_rfl⟩

theorem mem_iff (seq : Nat) :
    (∃ row ∈ journal.rows, row.seq = seq) ↔ journal.hotMinSeq ≤ seq ∧ seq < journal.nextSeq := by
  constructor
  · rintro ⟨row, hRow, rfl⟩
    have hBounds := h.run.bounds hRow
    have hNext := h.next
    unfold JournalRow.position at hBounds
    omega
  · rintro ⟨hFloor, hBelow⟩
    have hNext := h.next
    obtain ⟨row, hRow, hKey⟩ := h.run.exists_key (t := seq) (by omega) (by omega)
    exact ⟨row, hRow, by unfold JournalRow.position at hKey; omega⟩

theorem insert {columns : NewRow} {result : Journal × Nat × Bool}
    (hIns : journal.insert columns = some result) : journal.Advances result.1 := by
  unfold Journal.insert at hIns
  dsimp only at hIns
  split at hIns
  · obtain rfl := (Option.some.inj hIns).symm
    exact h.advances
  · split at hIns
    · cases hIns
    · split at hIns
      · cases hIns
      · obtain rfl := (Option.some.inj hIns).symm
        have hNext := h.next
        refine ⟨⟨h.run.snoc ?_, ?_⟩, le_rfl, Nat.le_succ _⟩
        · change (journal.nextSeq : Int) = journal.hotMinSeq + journal.rows.length
          omega
        · simp only [length_append, length_singleton]
          omega

theorem append {batch : List NewRow} {later : Journal}
    (hApp : journal.append batch = some later) : journal.Advances later := by
  induction batch generalizing journal with
  | nil =>
    obtain rfl := Option.some.inj hApp
    exact h.advances
  | cons columns rest ih =>
    unfold Journal.append at hApp
    split at hApp
    · cases hApp
    · obtain ⟨result, hIns, hRest⟩ := Option.bind_eq_some_iff.mp hApp
      have hFirst := h.insert hIns
      have hLater := ih hFirst.resident hRest
      exact ⟨hLater.resident, hFirst.floor.trans hLater.floor, hFirst.next.trans hLater.next⟩

theorem commitSegment {firstSeq lastSeq : Nat} (hFirst : firstSeq ≤ journal.hotMinSeq)
    (hLast : lastSeq < journal.nextSeq) : journal.Advances (journal.commitSegment firstSeq lastSeq) := by
  have hFilter : journal.rows.filter (fun r => ¬ (firstSeq ≤ r.seq ∧ r.seq ≤ lastSeq)) =
      journal.rows.filter (fun r => (lastSeq : Int) < r.position) := by
    refine filter_congr (fun r hr => ?_)
    have hBounds := h.run.bounds hr
    unfold JournalRow.position at hBounds ⊢
    rw [decide_eq_decide]
    omega
  have hNext := h.next
  have hRows : (journal.commitSegment firstSeq lastSeq).rows =
      journal.rows.drop ((lastSeq : Int) + 1 - journal.hotMinSeq).toNat := by
    rw [← h.run.filter_gt, ← hFilter]
    rfl
  have hFloor : (journal.commitSegment firstSeq lastSeq).hotMinSeq = max journal.hotMinSeq (lastSeq + 1) := by
    unfold Journal.commitSegment
    dsimp only
    split <;> omega
  have hEq : (journal.commitSegment firstSeq lastSeq).nextSeq = journal.nextSeq := rfl
  refine ⟨⟨?_, ?_⟩, by omega, le_rfl⟩
  · rw [hRows, hFloor]
    have hTail := h.run.drop ((lastSeq : Int) + 1 - journal.hotMinSeq).toNat
    rwa [show (journal.hotMinSeq : Int) + ((lastSeq : Int) + 1 - journal.hotMinSeq).toNat =
      ((max journal.hotMinSeq (lastSeq + 1) : Nat) : Int) by omega] at hTail
  · rw [hRows, hFloor, hEq, length_drop]
    omega

theorem rows_between {fromSeq toSeq : Int} (hFrom : journal.hotMinSeq ≤ fromSeq)
    (hTo : toSeq < journal.nextSeq) :
    RunFrom JournalRow.position fromSeq (journal.rows.filter (fun r => fromSeq ≤ r.position ∧ r.position ≤ toSeq)) ∧
      (journal.rows.filter (fun r => fromSeq ≤ r.position ∧ r.position ≤ toSeq)).length =
        (toSeq + 1 - fromSeq).toNat := by
  have hNext := h.next
  rw [h.run.filter_between]
  constructor
  · have hPiece := (h.run.take (toSeq + 1 - journal.hotMinSeq).toNat).drop (fromSeq - journal.hotMinSeq).toNat
    rwa [show (journal.hotMinSeq : Int) + (fromSeq - journal.hotMinSeq).toNat = fromSeq by omega] at hPiece
  · rw [length_drop, length_take]
    omega

end

end Resident

theorem insert_tables {journal : Journal} {columns : NewRow} {result : Journal × Nat × Bool}
    (h : journal.insert columns = some result) : result.1.segments = journal.segments ∧
      result.1.hotMinSeq = journal.hotMinSeq ∧ result.1.spills = journal.spills := by
  unfold Journal.insert at h
  dsimp only at h
  split at h
  · obtain rfl := (Option.some.inj h).symm
    exact ⟨rfl, rfl, rfl⟩
  · split at h
    · cases h
    · split at h
      · cases h
      · obtain rfl := (Option.some.inj h).symm
        exact ⟨rfl, rfl, rfl⟩

theorem append_tables {journal later : Journal} {batch : List NewRow} (h : journal.append batch = some later) :
    later.segments = journal.segments ∧ later.hotMinSeq = journal.hotMinSeq ∧ later.spills = journal.spills := by
  induction batch generalizing journal with
  | nil =>
    obtain rfl := Option.some.inj h
    exact ⟨rfl, rfl, rfl⟩
  | cons columns rest ih =>
    unfold Journal.append at h
    split at h
    · cases h
    · obtain ⟨result, hIns, hRest⟩ := Option.bind_eq_some_iff.mp h
      obtain ⟨hSegs, hFloor, hSpills⟩ := insert_tables hIns
      obtain ⟨hSegs', hFloor', hSpills'⟩ := ih hRest
      exact ⟨hSegs'.trans hSegs, hFloor'.trans hFloor, hSpills'.trans hSpills⟩

theorem append_rows {journal later : Journal} {batch : List NewRow} (h : journal.append batch = some later) :
    later.epoch = journal.epoch ∧ ∃ added, later.rows = journal.rows ++ added := by
  induction batch generalizing journal with
  | nil =>
    obtain rfl := Option.some.inj h
    exact ⟨rfl, [], (append_nil _).symm⟩
  | cons columns rest ih =>
    unfold Journal.append at h
    split at h
    · cases h
    · obtain ⟨result, hIns, hRest⟩ := Option.bind_eq_some_iff.mp h
      obtain ⟨hEpoch, added, hRows⟩ := ih hRest
      unfold Journal.insert at hIns
      dsimp only at hIns
      split at hIns
      · obtain rfl := (Option.some.inj hIns).symm
        exact ⟨hEpoch, added, hRows⟩
      · split at hIns
        · cases hIns
        · split at hIns
          · cases hIns
          · obtain rfl := (Option.some.inj hIns).symm
            exact ⟨hEpoch, _, by rw [hRows, append_assoc]⟩

theorem position_rowToRecord (row : JournalRow) : (rowToRecord row).position = row.position := rfl

theorem runFrom_rowToRecord (s : Int) (rows : List JournalRow) :
    RunFrom JournalRecord.position s (rows.map rowToRecord) ↔ RunFrom JournalRow.position s rows := by
  induction rows generalizing s with
  | nil => exact Iff.rfl
  | cons row rest ih => exact and_congr Iff.rfl (ih (s + 1))

theorem takeResident_spec (maxRecords maxBytes : Nat) (rows : List JournalRow) (records : List JournalRecord)
    (bytes : Nat) (hPage : records.length ≤ maxRecords) :
    ∃ k ≤ rows.length, (takeResident maxRecords maxBytes rows records bytes).1 =
        records ++ (rows.take k).map rowToRecord ∧
      ((takeResident maxRecords maxBytes rows records bytes).2 = true → k = rows.length) ∧
      (takeResident maxRecords maxBytes rows records bytes).1.length ≤ maxRecords := by
  induction rows generalizing records bytes with
  | nil => exact ⟨0, le_rfl, by simp [takeResident], fun _ => rfl, hPage⟩
  | cons row rest ih =>
    rw [takeResident]
    split
    · exact ⟨0, Nat.zero_le _, by simp, by simp, hPage⟩
    · rename_i hRoom
      obtain ⟨k, hK, hTaken, hAll, hLen⟩ := ih (records ++ [rowToRecord row]) (bytes + row.bytes)
        (by simp only [length_append, length_singleton]; omega)
      refine ⟨k + 1, Nat.succ_le_succ hK, ?_, fun hCompl => congrArg (· + 1) (hAll hCompl), hLen⟩
      rw [hTaken, take_succ_cons, map_cons, append_assoc]
      rfl

theorem Resident.readResident {journal : Journal} (h : journal.Resident) {fromSeq toSeq : Int}
    (hFrom : journal.hotMinSeq ≤ fromSeq) (hTo : toSeq < journal.nextSeq) (maxRecords maxBytes : Nat) :
    RunFrom JournalRecord.position fromSeq (journal.readResident fromSeq toSeq maxRecords maxBytes).records ∧
      (∀ r ∈ (journal.readResident fromSeq toSeq maxRecords maxBytes).records, r.position ≤ toSeq) ∧
      (journal.readResident fromSeq toSeq maxRecords maxBytes).records.length ≤ maxRecords ∧
      ((journal.readResident fromSeq toSeq maxRecords maxBytes).complete = true →
        toSeq < fromSeq + (journal.readResident fromSeq toSeq maxRecords maxBytes).records.length) := by
  obtain ⟨hRun, hCnt⟩ := h.rows_between hFrom hTo
  unfold Journal.readResident
  dsimp only
  have hBound : ∀ row ∈ journal.rows.filter (fun r => fromSeq ≤ r.position ∧ r.position ≤ toSeq),
      row.position ≤ toSeq := fun row hRow => (by simpa using (mem_filter.mp hRow).2 : _ ∧ _).2
  generalize journal.rows.filter (fun r => fromSeq ≤ r.position ∧ r.position ≤ toSeq) = between at hRun hCnt hBound ⊢
  obtain ⟨k, hK, hTaken, hAll, hLen⟩ :=
    takeResident_spec maxRecords maxBytes (between.take (maxRecords + 1)) [] 0 (Nat.zero_le _)
  have hPiece : (takeResident maxRecords maxBytes (between.take (maxRecords + 1)) [] 0).1 =
      ((between.take (maxRecords + 1)).take k).map rowToRecord := by rw [hTaken, nil_append]
  refine ⟨?_, ?_, hLen, fun hCompl => ?_⟩
  · rw [hPiece, runFrom_rowToRecord]
    exact (hRun.take _).take _
  · rw [hPiece]
    intro r hr
    obtain ⟨row, hRow, rfl⟩ := mem_map.mp hr
    exact hBound row (mem_of_mem_take (mem_of_mem_take hRow))
  · rw [Bool.and_eq_true, decide_eq_true_eq] at hCompl
    obtain ⟨hWhole, hFits⟩ := hCompl
    have hKEq := hAll hWhole
    rw [hPiece, length_map, length_take, hKEq, Nat.min_self]
    rw [length_take] at hFits ⊢
    omega

theorem Resident.readResident_below {journal : Journal} (h : journal.Resident) {fromSeq toSeq : Int}
    (hFrom : fromSeq < journal.hotMinSeq) {maxRecords : Nat} (hRoom : 0 < maxRecords)
    (maxBytes : Nat)
    (hRun : RunFrom JournalRecord.position fromSeq (journal.readResident fromSeq toSeq maxRecords maxBytes).records) :
    (journal.readResident fromSeq toSeq maxRecords maxBytes).records = [] ∧
      (journal.readResident fromSeq toSeq maxRecords maxBytes).complete = true := by
  unfold Journal.readResident at hRun ⊢
  dsimp only at hRun ⊢
  cases hRows : journal.rows.filter (fun r => fromSeq ≤ r.position ∧ r.position ≤ toSeq) with
  | nil => simp [takeResident]
  | cons row rest =>
    have hMem : row ∈ journal.rows.filter (fun r => fromSeq ≤ r.position ∧ r.position ≤ toSeq) :=
      hRows ▸ mem_cons_self
    have hAbove := (h.run.bounds (mem_filter.mp hMem).1).1
    obtain ⟨n, rfl⟩ := Nat.exists_eq_succ_of_ne_zero hRoom.ne'
    rw [hRows, take_succ_cons, takeResident, if_neg (by simp)] at hRun
    obtain ⟨k, -, hTaken, -⟩ := takeResident_spec (n + 1) maxBytes (rest.take (n + 1)) ([] ++ [rowToRecord row])
      (0 + row.bytes) (by simp)
    rw [hTaken] at hRun
    have hHead : row.position = fromSeq := hRun.1
    omega

end Journal

end Stella.Conversation
