import Stella.Archive.Segments

/-! # Where a cut may end

`desiredCutSeq` wishes, `resolveCut` takes the last legal end below the wish, and the batch
that fits one segment walks back to the last row before a user message.
-/

namespace Stella.Conversation.Journal

open List

def sizeOf (rows : List JournalRow) : Nat := (rows.map JournalRow.bytes).sum

@[simp] theorem sizeOf_nil : sizeOf [] = 0 := rfl

@[simp] theorem sizeOf_cons (row : JournalRow) (rows : List JournalRow) : sizeOf (row :: rows) = row.bytes + sizeOf rows := rfl

@[simp] theorem sizeOf_append (xs ys : List JournalRow) : sizeOf (xs ++ ys) = sizeOf xs + sizeOf ys := by
  unfold sizeOf
  rw [map_append, sum_append]

theorem sizeOf_reverse (rows : List JournalRow) : sizeOf rows.reverse = sizeOf rows := by
  unfold sizeOf
  rw [map_reverse, sum_reverse]

def rowsAbove (journal : Journal) (seq : Nat) : List JournalRow := journal.rows.filter (fun row => seq < row.seq)

def rowsBetween (journal : Journal) (firstSeq lastSeq : Nat) : List JournalRow :=
  journal.rows.filter (fun row => firstSeq ≤ row.seq ∧ row.seq ≤ lastSeq)

def Meets (targetRows targetBytes : Nat) (rows : List JournalRow) : Prop :=
  rows.length ≤ targetRows ∧ (0 < targetBytes → sizeOf rows ≤ targetBytes ∨ rows.length = 1)

def FitsSegment (rows : List JournalRow) : Prop :=
  rows.length ≤ segmentMaxRows ∧ (rows.length ≤ 1 ∨ sizeOf rows ≤ segmentMaxBytes)

def Ordered (journal : Journal) : Prop := journal.rows.Pairwise (fun a b => a.seq < b.seq)

/-! ## The wish -/

variable {targetRows targetBytes seq : Nat} {rows : List JournalRow}

theorem scanKept_some {kept keptBytes : Nat}
    (hKept : kept ≤ targetRows) (hBytes : 0 < targetBytes → keptBytes ≤ targetBytes ∨ kept ≤ 1)
    (h : scanKept targetRows targetBytes rows kept keptBytes = some seq) :
    ∃ above row below, rows = above ++ row :: below ∧ row.seq = seq ∧ kept + above.length ≤ targetRows ∧
      (0 < targetBytes → keptBytes + sizeOf above ≤ targetBytes ∨ kept + above.length ≤ 1) := by
  induction rows generalizing kept keptBytes with
  | nil => cases h
  | cons row older ih =>
    unfold scanKept at h
    split at h
    · exact ⟨[], row, older, rfl, Option.some.inj h, hKept, hBytes⟩
    · split at h
      · exact ⟨[], row, older, rfl, Option.some.inj h, hKept, hBytes⟩
      · obtain ⟨above, last, below, rfl, hSeq, hRows, hSize⟩ := ih (by omega) (by omega) h
        refine ⟨row :: above, last, below, rfl, hSeq, ?_, ?_⟩
        · rw [length_cons]
          omega
        · rw [length_cons, sizeOf_cons]
          omega

theorem scanKept_none {kept keptBytes : Nat}
    (hKept : kept ≤ targetRows) (hBytes : 0 < targetBytes → keptBytes ≤ targetBytes ∨ kept ≤ 1)
    (h : scanKept targetRows targetBytes rows kept keptBytes = none) :
    kept + rows.length ≤ targetRows ∧
      (0 < targetBytes → keptBytes + sizeOf rows ≤ targetBytes ∨ kept + rows.length ≤ 1) := by
  induction rows generalizing kept keptBytes with
  | nil => exact ⟨hKept, hBytes⟩
  | cons row older ih =>
    unfold scanKept at h
    split at h
    · cases h
    · split at h
      · cases h
      · obtain ⟨hRows, hSize⟩ := ih (by omega) (by omega) h
        rw [length_cons, sizeOf_cons]
        omega

theorem filter_above {below above : List JournalRow} {row : JournalRow}
    (h : (below ++ row :: above).Pairwise (fun a b => a.seq < b.seq)) (hRows : rows = below ++ row :: above) :
    rows.filter (fun r => row.seq < r.seq) = above := by
  obtain ⟨-, hRight, hAcross⟩ := pairwise_append.mp h
  have hBelow : below.filter (fun r => row.seq < r.seq) = [] := filter_eq_nil_iff.mpr fun r hr => by
    have hLess := hAcross r hr row mem_cons_self
    simp only [decide_eq_true_eq]
    omega
  have hAbove : above.filter (fun r => row.seq < r.seq) = above := filter_eq_self.mpr fun r hr => by
    simpa using (pairwise_cons.mp hRight).1 r hr
  rw [hRows, filter_append, hBelow, nil_append, filter_cons, if_neg (by simp), hAbove]

variable {journal : Journal}

theorem desiredCutSeq_some (hOrder : journal.Ordered)
    (h : journal.desiredCutSeq targetRows targetBytes = some seq) : Meets targetRows targetBytes (journal.rowsAbove seq) := by
  unfold desiredCutSeq at h
  split at h
  · cases h
  · obtain ⟨above, row, below, hTake, rfl, hRows, hBytes⟩ :=
      scanKept_some (Nat.zero_le _) (fun _ => .inr (Nat.zero_le _)) h
    have hReverse := take_append_drop (max targetRows 1 + 1) journal.rows.reverse
    rw [hTake] at hReverse
    generalize journal.rows.reverse.drop (max targetRows 1 + 1) = older at hReverse
    have hAll : journal.rows = (below ++ older).reverse ++ row :: above.reverse := by
      rw [← reverse_reverse journal.rows, ← hReverse]
      simp
    have hAbove : journal.rowsAbove row.seq = above.reverse := filter_above (hAll ▸ hOrder) hAll
    rw [hAbove]
    unfold Meets
    rw [length_reverse, sizeOf_reverse]
    refine ⟨by omega, fun hSet => ?_⟩
    rcases hBytes hSet with hFits | hOne
    · exact .inl (by omega)
    · cases above with
      | nil => exact .inl (Nat.zero_le _)
      | cons first rest =>
        rw [length_cons] at hOne ⊢
        exact .inr (by omega)

theorem desiredCutSeq_none (h : journal.desiredCutSeq targetRows targetBytes = none) :
    Meets targetRows targetBytes journal.rows := by
  unfold desiredCutSeq at h
  split at h
  · rename_i hMet
    exact ⟨hMet.1, fun _ => .inl hMet.2⟩
  · obtain ⟨hRows, hBytes⟩ := scanKept_none (Nat.zero_le _) (fun _ => .inr (Nat.zero_le _)) h
    have hLen : (journal.rows.reverse.take (max targetRows 1 + 1)).length = min (max targetRows 1 + 1) journal.rows.length := by
      rw [length_take, length_reverse]
    have hAll : journal.rows.reverse.take (max targetRows 1 + 1) = journal.rows.reverse := by
      refine take_of_length_le ?_
      rw [length_reverse]
      omega
    rw [hAll, length_reverse, sizeOf_reverse] at hBytes
    refine ⟨by omega, fun hSet => ?_⟩
    rcases hBytes hSet with hFits | hOne
    · exact .inl (by omega)
    · cases hEmpty : journal.rows with
      | nil => exact .inl (Nat.zero_le _)
      | cons first rest =>
        rw [hEmpty, length_cons] at hOne
        rw [length_cons]
        exact .inr (by omega)

/-! ## The legal end -/

/-- A turn that is over ends there, the next row is a user message, and it lies below the context of the latest turn. -/
structure LegalEnd (journal : Journal) (seq : Nat) : Prop where
  terminal : ∃ turn ∈ journal.turns, turn.state = .terminal ∧ turn.lastSeq = some seq
  boundary : journal.isCutBoundary seq = true
  below : ∀ latest ∈ journal.latestTerminalTurn, ∀ ctxStartSeq ∈ latest.ctxStartSeq, seq < ctxStartSeq

theorem terminalTurnBoundaries_sound {limit : Nat} (h : seq ∈ journal.terminalTurnBoundaries limit) :
    ∃ turn ∈ journal.turns, turn.state = .terminal ∧ turn.lastSeq = some seq := by
  obtain ⟨turn, hTurn, hSeq⟩ := mem_filterMap.mp ((mem_insertionSort _).mp (mem_of_mem_take h))
  obtain ⟨hMem, hSt⟩ := mem_filter.mp hTurn
  exact ⟨turn, hMem, of_decide_eq_true hSt, hSeq⟩

theorem of_mem_takeWhile {p : Nat → Bool} {x : Nat} {xs : List Nat} (h : x ∈ xs.takeWhile p) : p x = true ∧ x ∈ xs :=
  ⟨all_eq_true.mp all_takeWhile x h, (List.takeWhile_prefix p).subset h⟩

variable {cutSeq : Nat}

theorem lastBoundary_some {ceiling : Int} {limit : Nat}
    (h : (((journal.terminalTurnBoundaries limit).takeWhile (fun (seq : Nat) => decide ((seq : Int) ≤ ceiling))).filter
      journal.isCutBoundary).getLast? = some cutSeq) :
    cutSeq ∈ journal.terminalTurnBoundaries limit ∧ journal.isCutBoundary cutSeq = true ∧ (cutSeq : Int) ≤ ceiling := by
  obtain ⟨hMem, hBoundary⟩ := mem_filter.mp (mem_of_getLast? h)
  obtain ⟨hCeiling, hTerm⟩ := of_mem_takeWhile hMem
  exact ⟨hTerm, hBoundary, of_decide_eq_true hCeiling⟩

theorem resolveCut_some (h : journal.resolveCut targetRows targetBytes = some cutSeq) :
    journal.LegalEnd cutSeq ∧ ∃ desired, journal.desiredCutSeq targetRows targetBytes = some desired ∧ cutSeq ≤ desired := by
  unfold resolveCut at h
  cases hDesired : journal.desiredCutSeq targetRows targetBytes with
  | none =>
    rw [hDesired] at h
    cases h
  | some desired =>
    rw [hDesired] at h
    dsimp only at h
    cases hLatest : journal.latestTerminalTurn.bind TurnRow.ctxStartSeq with
    | none =>
      rw [hLatest] at h
      dsimp only at h
      rw [if_neg (by omega)] at h
      obtain ⟨hTerm, hBoundary, hCeiling⟩ := lastBoundary_some h
      refine ⟨⟨terminalTurnBoundaries_sound hTerm, hBoundary, fun latest hMem ctxStartSeq hStart => ?_⟩, desired, rfl, by omega⟩
      rw [Option.mem_def.mp hMem, Option.bind_some, Option.mem_def.mp hStart] at hLatest
      cases hLatest
    | some start =>
      rw [hLatest] at h
      dsimp only at h
      split at h
      · cases h
      · obtain ⟨hTerm, hBoundary, hCeiling⟩ := lastBoundary_some h
        refine ⟨⟨terminalTurnBoundaries_sound hTerm, hBoundary, fun latest hMem ctxStartSeq hStart => ?_⟩, desired, rfl, by omega⟩
        rw [Option.mem_def.mp hMem, Option.bind_some, Option.mem_def.mp hStart] at hLatest
        obtain rfl := Option.some.inj hLatest
        omega

/-! ## The batch -/

theorem cutBatch_prefix (rows : List JournalRow) (lastSeq count bytes : Nat) :
    ∃ taken rest, rows = taken ++ rest ∧
      cutBatch rows lastSeq count bytes =
        ((taken.getLast?.map JournalRow.seq).getD lastSeq, count + taken.length, bytes + sizeOf taken) ∧
      (taken = [] ∨ count + taken.length ≤ 1 ∨ bytes + sizeOf taken ≤ segmentMaxBytes) ∧
      ∀ next ∈ rest.head?, 0 < count + taken.length ∧ segmentMaxBytes < bytes + sizeOf taken + next.bytes := by
  induction rows generalizing lastSeq count bytes with
  | nil => exact ⟨[], [], rfl, rfl, .inl rfl, fun _ h => absurd h (Option.not_mem_none _)⟩
  | cons row rest ih =>
    unfold cutBatch
    split
    · rename_i hFull
      refine ⟨[], row :: rest, rfl, rfl, .inl rfl, fun next hNext => ?_⟩
      obtain rfl := Option.some.inj hNext
      exact hFull
    · rename_i hRoom
      obtain ⟨taken, after, rfl, hBatch, hFits, hStops⟩ := ih row.seq (count + 1) (bytes + row.bytes)
      refine ⟨row :: taken, after, rfl, ?_, ?_, ?_⟩
      · rw [hBatch, length_cons, sizeOf_cons]
        refine Prod.ext ?_ (Prod.ext ?_ ?_)
        · cases taken with
          | nil => rfl
          | cons first others => simp [getLast?_cons]
        · dsimp only
          omega
        · dsimp only
          omega
      · rw [length_cons, sizeOf_cons]
        rcases hFits with rfl | hFits
        · rw [sizeOf_nil, length_nil]
          omega
        · omega
      · intro next hNext
        have hStop := hStops next hNext
        rw [length_cons, sizeOf_cons]
        omega

variable {firstSeq : Nat}

theorem walkBack_of_boundary (h : journal.isCutBoundary seq = true) : journal.walkBack firstSeq seq = seq := by
  cases seq with
  | zero => rfl
  | succ seq =>
    unfold walkBack
    rw [if_neg]
    simp [h]

structure Batch (journal : Journal) (firstSeq cutSeq lastSeq count bytes : Nat) (taken : List JournalRow) (last : JournalRow)
    (rest : List JournalRow) : Prop where
  rows : journal.rowsBetween firstSeq cutSeq = taken ++ last :: rest
  fits : FitsSegment (taken ++ [last])
  full : ∀ next ∈ rest.head?, ¬ FitsSegment (taken ++ [last] ++ [next])
  count : count = (taken ++ [last]).length
  bytes : bytes = sizeOf (taken ++ [last])
  walked : lastSeq = journal.walkBack firstSeq last.seq
  boundary : journal.isCutBoundary lastSeq = true
  first : firstSeq ≤ lastSeq

variable {lastSeq count bytes : Nat}

theorem cutRange_batch
    (h : journal.cutRange firstSeq cutSeq = some (lastSeq, count, bytes)) :
    ∃ taken last rest, journal.Batch firstSeq cutSeq lastSeq count bytes taken last rest := by
  unfold cutRange at h
  split at h
  · cases h
  · split at h
    · cases h
    · rename_i row rows hRows
      obtain ⟨taken, rest, hSplit, hBatch, hFits, hStops⟩ := cutBatch_prefix (row :: rows) row.seq 0 0
      rw [hBatch] at h
      dsimp only at h
      split at h
      · cases h
      · rename_i hLegal
        obtain ⟨hLast, hCounts⟩ := Prod.mk.inj (Option.some.inj h)
        obtain ⟨hCnt, hBytes⟩ := Prod.mk.inj hCounts
        -- The first row always fits.
        have hSome : taken ≠ [] := by
          rintro rfl
          rw [nil_append] at hSplit
          have hStop := hStops row (by rw [← hSplit]; rfl)
          exact absurd hStop.1 (Nat.lt_irrefl 0)
        obtain ⟨front, last, rfl⟩ : ∃ front last, taken = front ++ [last] :=
          ⟨taken.dropLast, taken.getLast hSome, (dropLast_append_getLast hSome).symm⟩
        have hAll : journal.rowsBetween firstSeq cutSeq = (front ++ [last]) ++ (rest ++ (journal.rowsBetween firstSeq cutSeq).drop segmentMaxRows) := by
          rw [← append_assoc, ← hSplit, ← hRows]
          exact (take_append_drop _ _).symm
        have hTaken : (front ++ [last]).length + rest.length ≤ segmentMaxRows := by
          rw [← length_append, ← hSplit, ← hRows]
          exact length_take_le _ _
        rw [getLast?_append, getLast?_singleton, Option.some_or, Option.map_some, Option.getD_some] at hLast hLegal
        have hRng : firstSeq ≤ lastSeq ∧ journal.isCutBoundary lastSeq = true := by
          rw [hLast] at hLegal
          simpa only [not_or, Nat.not_lt, Bool.not_eq_true', Bool.not_eq_false] using hLegal
        refine ⟨front, last, rest ++ (journal.rowsBetween firstSeq cutSeq).drop segmentMaxRows, ?_, ?_, ?_, ?_, ?_, hLast.symm,
          hRng.2, hRng.1⟩
        · refine hAll.trans ?_
          simp
        · refine ⟨by omega, ?_⟩
          rw [Nat.zero_add, Nat.zero_add] at hFits
          exact hFits.resolve_left hSome
        · intro next hNext hMore
          cases rest with
          | nil =>
            -- The limit of the query is reached.
            rw [append_nil] at hSplit
            rw [nil_append] at hNext
            have hDrop : (journal.rowsBetween firstSeq cutSeq).drop segmentMaxRows ≠ [] := by
              intro hNone
              rw [hNone] at hNext
              cases hNext
            have hLimit := length_pos_of_ne_nil hDrop
            have hRead : (row :: rows).length = segmentMaxRows := by
              rw [← hRows]
              unfold rowsForArchive
              rw [length_take]
              rw [length_drop] at hLimit
              unfold rowsBetween at hLimit
              omega
            have hRowsCap := hMore.1
            rw [length_append, ← hSplit, hRead, length_singleton] at hRowsCap
            omega
          | cons other others =>
            obtain rfl := Option.some.inj hNext
            have hStop := hStops other rfl
            rcases hMore.2 with hOne | hSize
            · rw [length_append, length_singleton] at hOne
              omega
            · rw [sizeOf_append, sizeOf_cons, sizeOf_nil] at hSize
              omega
        · omega
        · omega

variable {taken rest : List JournalRow} {last : JournalRow}

section

variable (h : journal.Batch firstSeq cutSeq lastSeq count bytes taken last rest)
include h

theorem Batch.last_le
    : lastSeq ≤ cutSeq := by
  have hMem : last ∈ journal.rowsBetween firstSeq cutSeq := by
    rw [h.rows]
    exact mem_append_right _ mem_cons_self
  have hLast := (of_decide_eq_true (mem_filter.mp hMem).2).2
  rw [h.walked]
  exact (walkBack_le firstSeq last.seq).trans hLast

theorem Batch.rest_eq_nil
    (hFits : FitsSegment (journal.rowsBetween firstSeq cutSeq)) :
    rest = [] := by
  cases rest with
  | nil => rfl
  | cons next others =>
    refine absurd ?_ (h.full next rfl)
    rw [h.rows] at hFits
    unfold FitsSegment at hFits ⊢
    simp only [length_append, length_cons, length_nil, sizeOf_append, sizeOf_cons, sizeOf_nil] at hFits ⊢
    omega

theorem Batch.last_eq
    (hOrder : journal.Ordered)
    (hFits : FitsSegment (journal.rowsBetween firstSeq cutSeq)) (hRow : ∃ row ∈ journal.rows, row.seq = cutSeq)
    (hBoundary : journal.isCutBoundary cutSeq = true) : lastSeq = cutSeq := by
  obtain ⟨row, hMem, rfl⟩ := hRow
  have hRows := h.rows
  rw [h.rest_eq_nil hFits] at hRows
  have hFirst := h.first.trans h.last_le
  have hIn : row ∈ taken ++ [last] := by
    rw [← hRows]
    exact mem_filter.mpr ⟨hMem, decide_eq_true ⟨hFirst, Nat.le_refl _⟩⟩
  have hLast : last.seq ≤ row.seq := by
    have hOf : last ∈ journal.rowsBetween firstSeq row.seq := by
      rw [hRows]
      exact mem_append_right _ mem_cons_self
    exact (of_decide_eq_true (mem_filter.mp hOf).2).2
  have hEq : last.seq = row.seq := by
    rcases mem_append.mp hIn with hFront | hEnd
    · have hPairs : (taken ++ [last]).Pairwise (fun a b => a.seq < b.seq) := hRows ▸ hOrder.sublist filter_sublist
      have hLess := (pairwise_append.mp hPairs).2.2 row hFront last mem_cons_self
      omega
    · rw [mem_singleton.mp hEnd]
  rw [h.walked, hEq]
  exact walkBack_of_boundary hBoundary

end

/-! ## The cuts of a rollover -/

structure LegalCuts (journal : Journal) (targetRows targetBytes : Nat) : Prop where
  wish : ∀ seq, journal.desiredCutSeq targetRows targetBytes = some seq → Meets targetRows targetBytes (journal.rowsAbove seq)
  met : journal.desiredCutSeq targetRows targetBytes = none → Meets targetRows targetBytes journal.rows
  resolved : ∀ cutSeq, journal.resolveCut targetRows targetBytes = some cutSeq → journal.LegalEnd cutSeq ∧
    ∃ desired, journal.desiredCutSeq targetRows targetBytes = some desired ∧ cutSeq ≤ desired
  /-- At or below what was resolved, so below that context start too. -/
  ends : ∀ cutSeq, journal.resolveCut targetRows targetBytes = some cutSeq → ∀ (later : Journal) (firstSeq lastSeq count bytes : Nat),
    later.Ordered → later.cutRange firstSeq cutSeq = some (lastSeq, count, bytes) →
      lastSeq ≤ cutSeq ∧ later.isCutBoundary lastSeq = true ∧
        (FitsSegment (later.rowsBetween firstSeq cutSeq) → (∃ row ∈ later.rows, row.seq = cutSeq) →
          later.isCutBoundary cutSeq = true → lastSeq = cutSeq)

def endedJournal : Journal :=
  { cutJournal [] 0 with
    nextSeq := 3
    rows := [userRow 0, userRow 1, userRow 2]
    turns := [⟨"turn", .terminal, 0, some 0, some 1⟩] }

end Stella.Conversation.Journal
