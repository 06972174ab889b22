import Mathlib.Data.List.Perm.Basic
import Stella.Edit.Located

/-! # A list of edits is one substitution

Every edit is located in the content as it was. If no two of their ranges overlap, all of them
are replaced at once.
-/

namespace Stella.Edit

open List

open Blocks (Apart Ordered byStart byStart_eq_of_perm byStart_perm byStart_sorted foldl_splice rewritten)
open World (Text)

variable {unicode : Unicode} {content : Text} {edits : List EditSpec} {placed : List Placed} {offset index : Nat}

def Locates (unicode : Unicode) (content : Text) (edits : List EditSpec) (placed : List Placed) : Prop :=
  List.Forall₂ (fun edit p => planEdit unicode content edit = .ok p) edits placed

def inOrder (placed : List Placed) : List Placed :=
  placed.insertionSort fun left right => left.start < right.start ∨ left.start = right.start ∧ left.stop ≤ right.stop

def substituted (content : Text) (placed : List Placed) : Text :=
  rewritten Placed.start Placed.stop Placed.text content 0 (inOrder placed)

def lineAt (content : Text) (offset : Nat) : Nat := (content.take offset).count '\n' + 1

/-! ## The line of an offset -/

variable {start : Nat}

theorem lt_of_mem_lineStartsFrom (h : start ∈ lineStartsFrom index content) : index < start := by
  induction content generalizing index with
  | nil => cases h
  | cons c text ih =>
    unfold lineStartsFrom at h
    split at h
    · rcases mem_cons.mp h with rfl | hLater
      · exact Nat.lt_succ_self index
      · exact (Nat.lt_succ_self index).trans (ih hLater)
    · exact (Nat.lt_succ_self index).trans (ih h)

theorem pairwise_lineStartsFrom (index : Nat) (content : Text) : (lineStartsFrom index content).Pairwise (· < ·) := by
  induction content generalizing index with
  | nil => exact List.Pairwise.nil
  | cons c text ih =>
    unfold lineStartsFrom
    split
    · exact pairwise_cons.mpr ⟨fun start hStart => lt_of_mem_lineStartsFrom hStart, ih (index + 1)⟩
    · exact ih (index + 1)

theorem pairwise_lineStarts (content : Text) : (lineStarts content).Pairwise (· < ·) :=
  pairwise_cons.mpr ⟨fun _ hStart => lt_of_mem_lineStartsFrom hStart, pairwise_lineStartsFrom 0 content⟩

theorem countP_le_cons (h : start ≤ offset) (starts : List Nat) :
    (start :: starts).countP (· ≤ offset) = starts.countP (· ≤ offset) + 1 := countP_cons_of_pos (by simpa using h)

theorem countP_lineStartsFrom (offset index : Nat) (content : Text) :
    (lineStartsFrom index content).countP (· ≤ offset) = (content.take (offset - index)).count '\n' := by
  induction content generalizing index with
  | nil => simp [lineStartsFrom]
  | cons c text ih =>
    by_cases hLt : index < offset
    · obtain ⟨rest, rfl⟩ := Nat.exists_eq_add_of_lt hLt
      have hRest := ih (index + 1)
      have hOne : index + rest + 1 - index = rest + 1 := by omega
      have hTwo : index + rest + 1 - (index + 1) = rest := by omega
      rw [hTwo] at hRest
      rw [hOne, take_succ_cons, count_cons, ← hRest, lineStartsFrom]
      split
      · next hNewline =>
        rw [countP_le_cons (by omega), hNewline]
        rfl
      · next hOther => simp [hOther]
    · have hNone : offset - index = 0 := by omega
      rw [hNone, take_zero, count_nil, countP_eq_zero]
      intro start hStart
      have := lt_of_mem_lineStartsFrom hStart
      simp only [decide_eq_true_eq]
      omega

variable {starts : List Nat} {last : Nat}

theorem countP_of_last (hSort : starts.Pairwise (· < ·)) (hLast : last < starts.length)
    (hLe : starts.getD last 0 ≤ offset) (hBehind : ∀ k, last < k → k < starts.length → offset < starts.getD k 0) :
    starts.countP (· ≤ offset) = last + 1 := by
  induction starts generalizing last with
  | nil => cases hLast
  | cons start starts ih =>
    obtain ⟨hFirst, hRest⟩ := pairwise_cons.mp hSort
    rw [length_cons] at hLast hBehind
    cases last with
    | zero =>
      rw [getD_cons_zero] at hLe
      rw [countP_le_cons hLe, countP_eq_zero.mpr]
      intro later hLater
      obtain ⟨k, hK, rfl⟩ := getElem_of_mem hLater
      have := hBehind (k + 1) (Nat.succ_pos k) (by omega)
      rw [getD_cons_succ, getD_eq_getElem?_getD, getElem?_eq_getElem hK, Option.getD_some] at this
      simpa using this
    | succ last =>
      have hLen : last < starts.length := by omega
      rw [getD_cons_succ] at hLe
      have hStart : start ≤ offset := by
        rw [getD_eq_getElem?_getD, getElem?_eq_getElem hLen, Option.getD_some] at hLe
        exact (hFirst _ (getElem_mem hLen)).le.trans hLe
      rw [countP_le_cons hStart, ih hRest hLen hLe]
      intro k hK hBound
      exact hBehind (k + 1) (by omega) (by omega)

theorem getD_mono (hSort : starts.Pairwise (· < ·)) {first : Nat} (hLe : first ≤ last)
    (hLast : last < starts.length) : starts.getD first 0 ≤ starts.getD last 0 := by
  rcases hLe.eq_or_lt with rfl | hLt
  · exact le_rfl
  · rw [getD_eq_getElem?_getD, getD_eq_getElem?_getD, getElem?_eq_getElem hLast,
      getElem?_eq_getElem (hLt.trans hLast)]
    exact (pairwise_iff_getElem.mp hSort first last _ hLast hLt).le

theorem lineIndex_spec (hSort : starts.Pairwise (· < ·)) {low high : Nat} (hHigh : high < starts.length)
    (hLow : starts.getD low 0 ≤ offset) (hLe : low ≤ high)
    (hBehind : ∀ k, high < k → k < starts.length → offset < starts.getD k 0) :
    lineIndex starts offset low high < starts.length ∧ starts.getD (lineIndex starts offset low high) 0 ≤ offset ∧
      ∀ k, lineIndex starts offset low high < k → k < starts.length → offset < starts.getD k 0 := by
  fun_induction lineIndex starts offset low high with
  | case1 low high hLt mid hMid ih => exact ih hHigh hMid (by omega) hBehind
  | case2 low high hLt mid hMid ih =>
    refine ih (by omega) hLow (by omega) fun k hK hLen => ?_
    exact (not_le.mp hMid).trans_le (getD_mono hSort (by omega) hLen)
  | case3 low high hDone =>
    obtain rfl : low = high := by omega
    exact ⟨hHigh, hLow, hBehind⟩

theorem lineOf_eq_lineAt (content : Text) (offset : Nat) : lineOf (lineStarts content) offset = lineAt content offset := by
  have hSort := pairwise_lineStarts content
  have hSome : 0 < (lineStarts content).length := Nat.succ_pos _
  obtain ⟨hLen, hLe, hBehind⟩ := lineIndex_spec hSort (Nat.sub_lt hSome Nat.one_pos) (Nat.zero_le offset) (Nat.zero_le _)
    (fun k hK hBound => absurd hBound (by omega))
  have hCnt := countP_of_last hSort hLen hLe hBehind
  unfold lineOf lineAt
  rw [← hCnt, lineStarts, countP_le_cons (Nat.zero_le offset), countP_lineStartsFrom, Nat.sub_zero]

/-! ## The plan -/

def numbered : Nat → List Placed → List PlannedReplacement
  | _, [] => []
  | index, p :: placed => ⟨p, index⟩ :: numbered (index + 1) placed

theorem numbered_map (index : Nat) (placed : List Placed) : (numbered index placed).map PlannedReplacement.toPlaced = placed := by
  induction placed generalizing index with
  | nil => rfl
  | cons p placed ih => exact congrArg (p :: ·) (ih (index + 1))

variable {replacement : PlannedReplacement}

theorem le_of_mem_numbered (h : replacement ∈ numbered index placed) : index ≤ replacement.editIndex := by
  induction placed generalizing index with
  | nil => cases h
  | cons p placed ih =>
    rcases mem_cons.mp h with rfl | hLater
    · exact le_rfl
    · exact (Nat.le_succ index).trans (ih hLater)

theorem planEdits_eq_ok_iff {planned : List PlannedReplacement} : planEdits unicode content index edits = .ok planned ↔
    ∃ placed, Locates unicode content edits placed ∧ planned = numbered index placed := by
  induction edits generalizing index planned with
  | nil =>
    constructor
    · intro h
      cases h
      exact ⟨[], List.Forall₂.nil, rfl⟩
    · rintro ⟨placed, hPlaced, rfl⟩
      cases hPlaced
      rfl
  | cons edit edits ih =>
    unfold planEdits
    constructor
    · intro h
      split at h
      · cases h
      · next p hP =>
        cases hRest : planEdits unicode content (index + 1) edits with
        | error error =>
          rw [hRest] at h
          cases h
        | ok later =>
          rw [hRest] at h
          cases h
          obtain ⟨placed, hPlaced, rfl⟩ := ih.mp hRest
          exact ⟨p :: placed, List.Forall₂.cons hP hPlaced, rfl⟩
    · rintro ⟨placed, hPlaced, rfl⟩
      cases hPlaced with
      | cons hP hRest =>
        rw [hP]
        dsimp only
        rw [ih.mpr ⟨_, hRest, rfl⟩]
        rfl

theorem orderedInsert_map {others : List PlannedReplacement}
    (h : ∀ other ∈ others, replacement.editIndex < other.editIndex) :
    (others.orderedInsert PlannedReplacement.before replacement).map PlannedReplacement.toPlaced =
      (others.map PlannedReplacement.toPlaced).orderedInsert
        (fun left right => left.start < right.start ∨ left.start = right.start ∧ left.stop ≤ right.stop) replacement.toPlaced := by
  induction others with
  | nil => rfl
  | cons other others ih =>
    rw [forall_mem_cons] at h
    have hEq : replacement.before other ↔
        replacement.start < other.start ∨ replacement.start = other.start ∧ replacement.stop ≤ other.stop := by
      have := h.1
      unfold PlannedReplacement.before
      omega
    rw [map_cons, orderedInsert_cons, orderedInsert_cons]
    by_cases hBef : replacement.before other
    · rw [if_pos hBef, if_pos (hEq.mp hBef)]
      rfl
    · rw [if_neg hBef, if_neg (mt hEq.mpr hBef), map_cons, ih h.2]

theorem insertionSort_numbered (index : Nat) (placed : List Placed) :
    ((numbered index placed).insertionSort PlannedReplacement.before).map PlannedReplacement.toPlaced = inOrder placed := by
  induction placed generalizing index with
  | nil => rfl
  | cons p placed ih =>
    have hFirst : ∀ other ∈ (numbered (index + 1) placed).insertionSort PlannedReplacement.before, index < other.editIndex :=
      fun other hOther => le_of_mem_numbered ((mem_insertionSort _).mp hOther)
    unfold inOrder at ih ⊢
    rw [numbered, insertionSort_cons, insertionSort_cons, orderedInsert_map hFirst, ih]

/-! ## Ranges in order -/

theorem inOrder_perm (placed : List Placed) : (inOrder placed).Perm placed := perm_insertionSort _ placed

theorem inOrder_sorted (placed : List Placed) :
    (inOrder placed).Pairwise fun left right => left.start < right.start ∨ left.start = right.start ∧ left.stop ≤ right.stop := by
  have : Std.Total (fun left right : Placed => left.start < right.start ∨ left.start = right.start ∧ left.stop ≤ right.stop) :=
    ⟨fun left right => by omega⟩
  have : IsTrans Placed (fun left right => left.start < right.start ∨ left.start = right.start ∧ left.stop ≤ right.stop) :=
    ⟨fun a b c hAB hBC => by omega⟩
  exact pairwise_insertionSort _ placed

theorem firstOverlap_eq_none_iff {ordered : List PlannedReplacement}
    (hProper : ∀ replacement ∈ ordered, replacement.start ≤ replacement.stop) :
    firstOverlap ordered = none ↔ ordered.Pairwise fun left right => left.stop ≤ right.start := by
  induction ordered with
  | nil => simp [firstOverlap]
  | cons previous ordered ih =>
    rw [forall_mem_cons] at hProper
    cases ordered with
    | nil => simp [firstOverlap]
    | cons current rest =>
      have hCur := hProper.2 current mem_cons_self
      rw [pairwise_cons, ← ih hProper.2, firstOverlap]
      constructor
      · intro h
        split at h
        · cases h
        · next hLe =>
          refine ⟨fun later hLater => ?_, h⟩
          rcases mem_cons.mp hLater with rfl | hRest
          · omega
          · have := rel_of_pairwise_cons ((ih hProper.2).mp h) hRest
            omega
      · rintro ⟨hFirst, hRest⟩
        rw [if_neg (not_lt.mpr (hFirst current mem_cons_self)), hRest]

theorem pairwise_inOrder_iff (hProper : ∀ p ∈ placed, p.start ≤ p.stop) :
    (inOrder placed).Pairwise (fun left right => left.stop ≤ right.start) ↔ placed.Pairwise (Apart Placed.start Placed.stop) := by
  have hSymm : ∀ {left right : Placed}, Apart Placed.start Placed.stop left right →
      Apart Placed.start Placed.stop right left := Or.symm
  rw [← (inOrder_perm placed).pairwise_iff hSymm]
  constructor
  · exact fun hOrder => hOrder.imp Or.inl
  · intro hApart
    refine (hApart.and (inOrder_sorted placed)).imp_of_mem ?_
    rintro left right hLeft hRight ⟨hHere, hSort⟩
    have hLeftProper := hProper left ((inOrder_perm placed).mem_iff.mp hLeft)
    have hRightProper := hProper right ((inOrder_perm placed).mem_iff.mp hRight)
    -- Where the right one ends before the left one starts, both are empty and at one place.
    unfold Apart at hHere
    omega

theorem Locates.within (h : Locates unicode content edits placed) : ∀ p ∈ placed, p.start ≤ p.stop ∧ p.stop ≤ content.length := by
  induction h with
  | nil => exact forall_mem_nil _
  | cons hEdit _ ih => exact forall_mem_cons.mpr ⟨planEdit_within hEdit, ih⟩

theorem ordered_inOrder (h : Locates unicode content edits placed) (hApart : placed.Pairwise (Apart Placed.start Placed.stop)) :
    Ordered Placed.start Placed.stop content.length (inOrder placed) where
  proper p hP := (h.within p ((inOrder_perm placed).mem_iff.mp hP)).1
  within p hP := (h.within p ((inOrder_perm placed).mem_iff.mp hP)).2
  order := (pairwise_inOrder_iff fun p hP => (h.within p hP).1).mpr hApart

theorem inOrder_eq_of_perm {others : List Placed} (hPerm : placed.Perm others) (hNd : (placed.map Placed.start).Nodup) :
    inOrder placed = inOrder others := by
  have hByStart : ∀ {ranges : List Placed}, ranges.Perm placed → inOrder ranges = byStart Placed.start ranges := by
    intro ranges hRanges
    have hInj : ∀ a ∈ ranges, ∀ b ∈ ranges, a.start = b.start → a = b := fun a hA b hB =>
      inj_on_of_nodup_map hNd (hRanges.mem_iff.mp hA) (hRanges.mem_iff.mp hB)
    refine List.Perm.eq_of_pairwise (fun a b hA hB hAB hBA => ?_) ((inOrder_sorted ranges).imp fun {a b} hLe => ?_) (byStart_sorted ranges)
      ((inOrder_perm ranges).trans (byStart_perm ranges).symm)
    · exact hInj a ((inOrder_perm ranges).mem_iff.mp hA) b ((byStart_perm ranges).mem_iff.mp hB) (le_antisymm hAB hBA)
    · omega
  rw [hByStart (List.Perm.refl placed), hByStart hPerm.symm, byStart_eq_of_perm hPerm hNd]

/-! ## One substitution -/

theorem splices_eq_substituted (h : Locates unicode content edits placed)
    (hApart : placed.Pairwise (Apart Placed.start Placed.stop)) :
    ((numbered 0 placed).insertionSort PlannedReplacement.before).reverse.foldl
      (Blocks.splice (fun replacement => replacement.start) (fun replacement => replacement.stop) (fun replacement => replacement.text))
      content = substituted content placed := by
  unfold substituted
  rw [← foldl_splice (ordered_inOrder h hApart), ← insertionSort_numbered 0, ← map_reverse, foldl_map]
  rfl

theorem firstOverlap_numbered (h : Locates unicode content edits placed) :
    firstOverlap ((numbered 0 placed).insertionSort PlannedReplacement.before) = none ↔
      placed.Pairwise (Apart Placed.start Placed.stop) := by
  have hMem : ∀ replacement ∈ (numbered 0 placed).insertionSort PlannedReplacement.before, replacement.toPlaced ∈ placed := by
    intro replacement hMem
    rw [← numbered_map 0 placed]
    exact mem_map_of_mem ((mem_insertionSort _).mp hMem)
  rw [firstOverlap_eq_none_iff fun replacement hIn => (h.within _ (hMem replacement hIn)).1,
    ← pairwise_inOrder_iff fun p hP => (h.within p hP).1, ← insertionSort_numbered 0, pairwise_map]

theorem applyEditsToContent_eq_ok_iff {summary : AppliedEditsSummary} : applyEditsToContent unicode content edits = .ok summary ↔
    ∃ placed, Locates unicode content edits placed ∧ placed.Pairwise (Apart Placed.start Placed.stop) ∧
      substituted content placed ≠ content ∧
        summary = ⟨substituted content placed, placed.map fun p => lineAt content p.start⟩ := by
  have hLines : ∀ placed : List Placed, (numbered 0 placed).map (fun replacement => lineOf (lineStarts content) replacement.start) =
      placed.map fun p => lineAt content p.start := by
    intro placed
    conv => rhs; rw [← numbered_map 0 placed, map_map]
    exact map_congr_left fun replacement _ => lineOf_eq_lineAt content replacement.start
  unfold applyEditsToContent
  constructor
  · intro h
    obtain ⟨planned, hPlanned, h⟩ := Patch.bind_eq_ok h
    obtain ⟨placed, hPlaced, rfl⟩ := planEdits_eq_ok_iff.mp hPlanned
    dsimp only at h
    split at h
    · cases h
    · next hClear =>
      have hApart := (firstOverlap_numbered hPlaced).mp hClear
      rw [splices_eq_substituted hPlaced hApart, hLines] at h
      split at h
      · cases h
      · next hChg => exact ⟨placed, hPlaced, hApart, hChg, (Except.ok.inj h).symm⟩
  · rintro ⟨placed, hPlaced, hApart, hChg, rfl⟩
    rw [planEdits_eq_ok_iff.mpr ⟨placed, hPlaced, rfl⟩]
    dsimp only [bind, Except.bind]
    rw [(firstOverlap_numbered hPlaced).mpr hApart]
    dsimp only
    rw [splices_eq_substituted hPlaced hApart, if_neg hChg, hLines]
    rfl

/-- The edits in `a`, newline, `b`: one by its text, one by an anchor. -/
def mixedEdits : List EditSpec := [.anchor { anchor := ⟨2, hashLineTag ['b']⟩, newText := ['d'] }, .text ['a'] ['c']]

end Stella.Edit
