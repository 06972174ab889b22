import Mathlib.Algebra.GroupWithZero.Nat
import Stella.Journal.Context

/-! # The context window

It is the longest end of the newest rows that starts with a user message and fits the
budget, and no result in it has lost its call.
-/

namespace Stella.Conversation

open List

namespace ContextJournal

def tokensOf (rows : List ContextRow) : Nat := (rows.map ContextRow.tokens).sum

@[simp] theorem tokensOf_nil : tokensOf [] = 0 := rfl

@[simp] theorem tokensOf_cons (row : ContextRow) (rows : List ContextRow) :
    tokensOf (row :: rows) = row.tokens + tokensOf rows := rfl

theorem tokensOf_append (xs ys : List ContextRow) : tokensOf (xs ++ ys) = tokensOf xs + tokensOf ys := by
  unfold tokensOf
  rw [map_append, sum_append]

theorem tokensOf_reverse (rows : List ContextRow) : tokensOf rows.reverse = tokensOf rows := by
  unfold tokensOf
  rw [map_reverse, sum_reverse]

def OpensOnUser (rows : List ContextRow) : Prop := ∀ row ∈ rows.head?, row.role = some .user

def calls (row : ContextRow) : List String :=
  if row.role = some .assistant then (row.payload.map toolCallIds).getD [] else []

def Answers (result call : ContextRow) : Prop := ∃ id ∈ calls call, result.toolCallId = some id

def FollowsCalls (rows : List ContextRow) : Prop :=
  ∀ before result after, rows = before ++ result :: after → result.role = some .toolResult →
    ∃ older call between, before = older ++ call :: between ∧ Answers result call ∧ ∀ row ∈ between, row.role ≠ some .user

def Paired (rows : List ContextRow) : Prop :=
  ∀ before result after, rows = before ++ result :: after → result.role = some .toolResult → ∃ call ∈ before, Answers result call

/-- The window of these rows: an end of them that opens on a user message, the longest one that fits the budget
and that the scan reaches. -/
structure WholeWindow (budgetTokens : Int) (rows window : List ContextRow) : Prop where
  suffix : ∃ before, rows = before ++ window
  opens : OpensOnUser window
  fits : window ≠ [] → tokensOf window ≤ budgetTokens
  longest : ∀ before other, rows = before ++ other → OpensOnUser other → tokensOf other ≤ budgetTokens →
    other.length ≤ contextScanRowCap → other.length ≤ window.length
  paired : FollowsCalls rows → Paired window

/-! ## The scan -/

theorem fitting_spec (budgetTokens : Int) (rows : List ContextRow) (used : Int) :
    fitting budgetTokens rows used ≤ rows.length ∧
      (fitting budgetTokens rows used ≠ 0 → used + tokensOf (rows.take (fitting budgetTokens rows used)) ≤ budgetTokens) ∧
      ∀ n ≤ rows.length, used + tokensOf (rows.take n) ≤ budgetTokens → n ≤ fitting budgetTokens rows used := by
  induction rows generalizing used with
  | nil => exact ⟨Nat.le_refl _, fun h => absurd rfl h, fun _ hLen _ => hLen⟩
  | cons row older ih =>
    unfold fitting
    split
    · rename_i hFull
      refine ⟨Nat.zero_le _, fun h => absurd rfl h, fun n hLen hFits => ?_⟩
      cases n with
      | zero => exact Nat.le_refl _
      | succ n =>
        rw [take_succ_cons, tokensOf_cons] at hFits
        omega
    · obtain ⟨hLen, hFits, hLongest⟩ := ih (used + row.tokens)
      refine ⟨Nat.succ_le_succ hLen, fun _ => ?_, fun n hRows hUsed => ?_⟩
      · rw [take_succ_cons, tokensOf_cons]
        by_cases hNone : fitting budgetTokens older (used + row.tokens) = 0
        · rw [hNone, take_zero, tokensOf_nil]
          omega
        · have hRest := hFits hNone
          omega
      · cases n with
        | zero => exact Nat.zero_le _
        | succ n =>
          rw [take_succ_cons, tokensOf_cons] at hUsed
          exact Nat.succ_le_succ (hLongest n (Nat.le_of_succ_le_succ hRows) (by omega))

variable {budgetTokens : Int} {rows : List ContextRow}

theorem dropWhile_user (rows : List ContextRow) : OpensOnUser (rows.dropWhile fun row => row.role ≠ some .user) := by
  intro row hRow
  have hHead := head?_dropWhile_not (fun row : ContextRow => decide (row.role ≠ some .user)) rows
  rw [Option.mem_def.mp hRow] at hHead
  simpa using hHead

variable {before other : List ContextRow}

theorem length_le_dropWhile (h : OpensOnUser other) :
    other.length ≤ ((before ++ other).dropWhile fun row => row.role ≠ some .user).length := by
  induction before with
  | nil =>
    cases other with
    | nil => exact Nat.zero_le _
    | cons row rest =>
      have hUser := h row rfl
      rw [nil_append, dropWhile_cons, if_neg (by simpa using hUser)]
  | cons row rest ih =>
    rw [cons_append, dropWhile_cons]
    split
    · exact ih
    · rw [length_cons, length_append]
      omega

def kept (budgetTokens : Int) (rows : List ContextRow) : List ContextRow :=
  ((rows.reverse.take contextScanRowCap).take (fitting budgetTokens (rows.reverse.take contextScanRowCap) 0)).reverse

section

variable (budgetTokens : Int)

theorem openWindow_eq (rows : List ContextRow) :
    openWindow budgetTokens rows = (kept budgetTokens rows).dropWhile fun row => row.role ≠ some .user := by
  unfold openWindow kept
  dsimp only
  generalize rows.reverse.take contextScanRowCap = newest
  rw [reverse_reverse, reverse_take, length_reverse]

theorem kept_suffix (rows : List ContextRow) : ∃ before, rows = before ++ kept budgetTokens rows := by
  have hScan := take_append_drop contextScanRowCap rows.reverse
  generalize hNewest : rows.reverse.take contextScanRowCap = newest at hScan
  have hKept := take_append_drop (fitting budgetTokens newest 0) newest
  refine ⟨(newest.drop (fitting budgetTokens newest 0) ++ rows.reverse.drop contextScanRowCap).reverse, ?_⟩
  unfold kept
  rw [hNewest, ← reverse_append, ← append_assoc, hKept, hScan, reverse_reverse]

theorem openWindow_suffix (rows : List ContextRow) :
    ∃ dropped, kept budgetTokens rows = dropped ++ openWindow budgetTokens rows := by
  rw [openWindow_eq]
  exact ⟨_, (takeWhile_append_dropWhile).symm⟩

end

theorem tokensOf_kept (h : kept budgetTokens rows ≠ []) : tokensOf (kept budgetTokens rows) ≤ budgetTokens := by
  unfold kept at h ⊢
  generalize rows.reverse.take contextScanRowCap = newest at h ⊢
  obtain ⟨-, hFits, -⟩ := fitting_spec budgetTokens newest 0
  have hSome : fitting budgetTokens newest 0 ≠ 0 := by
    intro hNone
    rw [hNone] at h
    exact h rfl
  rw [tokensOf_reverse, ← Int.zero_add (tokensOf _ : Int)]
  exact hFits hSome

theorem suffix_kept (hRows : rows = before ++ other) (hFits : tokensOf other ≤ budgetTokens)
    (hCap : other.length ≤ contextScanRowCap) : ∃ dropped, kept budgetTokens rows = dropped ++ other := by
  unfold kept
  have hNewest : (rows.reverse.take contextScanRowCap).take other.length = other.reverse := by
    rw [take_take, Nat.min_eq_left hCap, hRows, reverse_append, take_append_of_le_length (by simp)]
    exact take_of_length_le (by simp)
  have hLen : other.length ≤ (rows.reverse.take contextScanRowCap).length := by
    rw [length_take, length_reverse, hRows, length_append]
    omega
  generalize rows.reverse.take contextScanRowCap = newest at hNewest hLen ⊢
  obtain ⟨-, -, hLongest⟩ := fitting_spec budgetTokens newest 0
  have hCnt := hLongest other.length hLen (by rw [hNewest, tokensOf_reverse]; omega)
  have hSplit := take_append_drop other.length (newest.take (fitting budgetTokens newest 0))
  rw [take_take, Nat.min_eq_left hCnt, hNewest] at hSplit
  refine ⟨((newest.take (fitting budgetTokens newest 0)).drop other.length).reverse, ?_⟩
  rw [← reverse_reverse other, ← reverse_append, reverse_reverse, hSplit]

variable {window : List ContextRow}

theorem paired_of_suffix (hRows : rows = before ++ window) (hOpens : OpensOnUser window)
    (h : FollowsCalls rows) : Paired window := by
  intro front result after hWin hRes
  obtain ⟨older, call, between, hBef, hAnswers, hBetween⟩ :=
    h (before ++ front) result after (by rw [hRows, hWin, append_assoc]) hRes
  rcases append_eq_append_iff.mp hBef with ⟨rest, hOlder, hFront⟩ | ⟨rest, hOlder, hFront⟩
  · exact ⟨call, by rw [hFront]; exact mem_append_right _ mem_cons_self, hAnswers⟩
  · -- The call stands before the window, so its first row stands between the two.
    exfalso
    cases front with
    | nil =>
      rw [nil_append] at hWin
      have hUser := hOpens result (by rw [hWin]; rfl)
      rw [hRes] at hUser
      cases hUser
    | cons first others =>
      have hUser := hOpens first (by rw [hWin]; rfl)
      cases rest with
      | nil =>
        rw [nil_append] at hFront
        obtain ⟨hCall, -⟩ := List.cons.inj hFront
        obtain ⟨id, hId, -⟩ := hAnswers
        rw [hCall] at hId
        unfold calls at hId
        rw [if_neg (by rw [hUser]; decide)] at hId
        cases hId
      | cons other rest =>
        obtain ⟨-, hTail⟩ := List.cons.inj hFront
        refine hBetween first ?_ hUser
        rw [hTail]
        exact mem_append_right _ mem_cons_self

theorem openWindow_whole (budgetTokens : Int) (rows : List ContextRow) :
    WholeWindow budgetTokens rows (openWindow budgetTokens rows) := by
  obtain ⟨before, hBef⟩ := kept_suffix budgetTokens rows
  obtain ⟨dropped, hDrop⟩ := openWindow_suffix budgetTokens rows
  have hSuf : rows = (before ++ dropped) ++ openWindow budgetTokens rows := by
    rw [append_assoc, ← hDrop, ← hBef]
  have hOpens : OpensOnUser (openWindow budgetTokens rows) := by
    rw [openWindow_eq]
    exact dropWhile_user _
  refine ⟨⟨_, hSuf⟩, hOpens, fun hSome => ?_, fun front other hRows hUser hFits hCap => ?_, paired_of_suffix hSuf hOpens⟩
  · have hKept : kept budgetTokens rows ≠ [] := by
      intro hNone
      rw [hNone] at hDrop
      exact hSome (append_eq_nil_iff.mp hDrop.symm).2
    have hTokens := tokensOf_kept hKept
    rw [hDrop, tokensOf_append] at hTokens
    omega
  · obtain ⟨rest, hRest⟩ := suffix_kept hRows hFits hCap
    rw [openWindow_eq, hRest]
    exact length_le_dropWhile hUser

/-! ## The selection -/

variable {journal : ContextJournal}

structure Ordered (journal : ContextJournal) : Prop where
  rows : journal.rows.Pairwise fun a b => a.seq < b.seq
  next : ∀ row ∈ journal.rows, row.seq < journal.nextSeq

theorem selected_rows (h : journal.Ordered) {excludeTurnId : String} {afterSeq : Int} {first : ContextRow}
    (hRows : journal.contextRows excludeTurnId afterSeq = before ++ first :: window) :
    (journal.rows.filter fun row => decide (first.seq ≤ row.seq) && readable excludeTurnId row) = first :: window := by
  have hFirst : first ∈ journal.contextRows excludeTurnId afterSeq := by
    rw [hRows]
    exact mem_append_right _ mem_cons_self
  have hAfter : afterSeq < first.seq := by
    have hRead := (mem_filter.mp hFirst).2
    simp only [Bool.and_eq_true, decide_eq_true_eq] at hRead
    exact hRead.2
  have hPairs : (before ++ first :: window).Pairwise fun a b => a.seq < b.seq := hRows ▸ h.rows.sublist filter_sublist
  obtain ⟨-, hRight, hAcross⟩ := pairwise_append.mp hPairs
  have hNarrow : (journal.rows.filter fun row => decide (first.seq ≤ row.seq) && readable excludeTurnId row) =
      (journal.contextRows excludeTurnId afterSeq).filter fun row => first.seq ≤ row.seq := by
    unfold contextRows
    rw [filter_filter]
    refine filter_congr fun row _ => ?_
    by_cases hSeq : first.seq ≤ row.seq
    · have hRow : afterSeq < row.seq := by omega
      simp [hSeq, hRow]
    · simp [hSeq]
  have hBef : before.filter (fun row => first.seq ≤ row.seq) = [] := filter_eq_nil_iff.mpr fun row hRow => by
    have hLess := hAcross row hRow first mem_cons_self
    simp only [decide_eq_true_eq]
    omega
  have hWin : window.filter (fun row => first.seq ≤ row.seq) = window := filter_eq_self.mpr fun row hRow => by
    have hLess := (pairwise_cons.mp hRight).1 row hRow
    simp only [decide_eq_true_eq]
    omega
  rw [hNarrow, hRows, filter_append, hBef, nil_append, filter_cons, if_pos (by simp), hWin]

/-- The window starts where `contextStartSeq` says, and `selectWindow` reads exactly its rows. -/
theorem selectWindow_whole (h : journal.Ordered) (excludeTurnId : String) (budgetTokens afterSeq : Int) :
    ∃ window, WholeWindow budgetTokens (journal.contextRows excludeTurnId afterSeq) window ∧
      journal.contextStartSeq excludeTurnId budgetTokens afterSeq = (window.head?.map ContextRow.seq).getD journal.nextSeq ∧
      journal.selectWindow excludeTurnId budgetTokens afterSeq =
        if window = [] then .ok ⟨[], [], journal.nextSeq, (journal.nextSeq : Int) - 1, []⟩
        else windowFromRows window (journal.contextStartSeq excludeTurnId budgetTokens afterSeq) := by
  have hWhole := openWindow_whole budgetTokens (journal.contextRows excludeTurnId afterSeq)
  obtain ⟨before, hSuffix⟩ := hWhole.suffix
  refine ⟨_, hWhole, ?_, ?_⟩
  · unfold contextStartSeq
    split <;> rename_i hWindow <;> rw [hWindow] <;> rfl
  · unfold selectWindow
    dsimp only
    cases hWindow : openWindow budgetTokens (journal.contextRows excludeTurnId afterSeq) with
    | nil =>
      have hStart : journal.contextStartSeq excludeTurnId budgetTokens afterSeq = journal.nextSeq := by
        unfold contextStartSeq
        rw [hWindow]
      rw [hStart, if_pos (Nat.le_refl _), if_pos rfl]
    | cons first window =>
      have hStart : journal.contextStartSeq excludeTurnId budgetTokens afterSeq = first.seq := by
        unfold contextStartSeq
        rw [hWindow]
      rw [hWindow] at hSuffix
      have hFirst : first ∈ journal.rows := by
        have hMem : first ∈ journal.contextRows excludeTurnId afterSeq := by
          rw [hSuffix]
          exact mem_append_right _ mem_cons_self
        exact (mem_filter.mp hMem).1
      have hNext := h.next first hFirst
      rw [hStart, if_neg (by omega), if_neg (cons_ne_nil _ _), selected_rows h hSuffix]

def calledRows : List ContextRow :=
  [⟨0, true, "turn", "user", some .user, false, false, none, 0, 3, some .null, none⟩,
    ⟨1, true, "turn", "call", some .assistant, false, false, none, 1, 4,
      some (.object [("content", .array [.object [("type", .string "toolCall"), ("id", .string "a")]])]), none⟩,
    ⟨2, true, "turn", "result", some .toolResult, false, false, some "a", 0, 5, some .null, none⟩]

theorem selectWindow_whole_called : ∃ window,
    WholeWindow 20 ((⟨calledRows, 3, false, [], []⟩ : ContextJournal).contextRows "other" (-1)) window ∧
      (⟨calledRows, 3, false, [], []⟩ : ContextJournal).contextStartSeq "other" 20 (-1) = (window.head?.map ContextRow.seq).getD 3 ∧
      (⟨calledRows, 3, false, [], []⟩ : ContextJournal).selectWindow "other" 20 (-1) =
        if window = [] then .ok ⟨[], [], 3, 2, []⟩
        else windowFromRows window ((⟨calledRows, 3, false, [], []⟩ : ContextJournal).contextStartSeq "other" 20 (-1)) :=
  selectWindow_whole ⟨by decide, by decide⟩ "other" 20 (-1)

def manyRows (count : Nat) : List ContextRow :=
  (List.range count).map fun seq => { seq, turnId := "turn", writerKey := s!"row:{seq}", role := some .user, tokens := 1, payload := some .null }

variable {count : Nat}

theorem mem_manyRows {row : ContextRow} (h : row ∈ manyRows count) : row.role = some .user ∧ readable "other" row = true := by
  obtain ⟨seq, _, rfl⟩ := mem_map.mp h
  exact ⟨rfl, rfl⟩

theorem tokensOf_manyRows (count : Nat) : tokensOf (manyRows count) = count := by
  unfold tokensOf manyRows
  rw [map_map]
  simp [Function.comp_def]

theorem manyRows_pairwise (count : Nat) : (manyRows count).Pairwise fun a b => a.seq < b.seq :=
  pairwise_map.mpr pairwise_lt_range

theorem contextRows_manyRows (count : Nat) : (⟨manyRows count, count, false, [], []⟩ : ContextJournal).contextRows "other" (-1) = manyRows count := by
  refine filter_eq_self.mpr fun row hRow => ?_
  have hSeq : (-1 : Int) < row.seq := by omega
  rw [(mem_manyRows hRow).2, decide_eq_true hSeq]
  rfl

theorem contextStartSeq_manyRows (hCnt : contextScanRowCap < count) (budgetTokens : Int) :
    (⟨manyRows count, count, false, [], []⟩ : ContextJournal).contextStartSeq "other" budgetTokens (-1) ≠ 0 := by
  obtain ⟨dropped, hDrop⟩ := openWindow_suffix budgetTokens (manyRows count)
  obtain ⟨before, hBef⟩ := kept_suffix budgetTokens (manyRows count)
  have hKept : (kept budgetTokens (manyRows count)).length ≤ contextScanRowCap := by
    unfold kept
    rw [length_reverse]
    exact (length_take_le' _ _).trans (length_take_le _ _)
  have hLen : before.length + (kept budgetTokens (manyRows count)).length = count := by
    rw [← length_append, ← hBef]
    simp [manyRows]
  have hPairs := manyRows_pairwise count
  rw [hBef, hDrop] at hPairs
  have hLater : ∀ row ∈ openWindow budgetTokens (manyRows count), row.seq ≠ 0 := fun row hRow => by
    cases before with
    | nil =>
      rw [length_nil] at hLen
      omega
    | cons first rest =>
      have hLess := (pairwise_cons.mp hPairs).1 row (mem_append_right _ (mem_append_right _ hRow))
      omega
  unfold contextStartSeq
  rw [contextRows_manyRows]
  split
  · dsimp only
    omega
  · rename_i row window hWin
    exact hLater row (by rw [hWin]; exact mem_cons_self)

/-- All of them fit the budget, and the window starts after the first. -/
theorem contextStartSeq_scans : OpensOnUser (manyRows 4001) ∧ (tokensOf (manyRows 4001) : Int) ≤ 5000 ∧
    (⟨manyRows 4001, 4001, false, [], []⟩ : ContextJournal).contextStartSeq "other" 5000 (-1) ≠ 0 := by
  refine ⟨fun row hRow => (mem_manyRows (mem_of_mem_head? hRow)).1, by rw [tokensOf_manyRows]; omega, ?_⟩
  exact contextStartSeq_manyRows (by decide) 5000

end ContextJournal

end Stella.Conversation
