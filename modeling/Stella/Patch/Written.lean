import Stella.Library.Search
import Stella.Patch.Planned

/-! # The lines an update writes

A text as a sequence of lines: the empty text has none, and a last newline ends the last line.
-/

namespace Stella.Patch

open List

open Blocks (Apart Ordered byStart byStart_perm mem_rewritten ordered_byStart rewritten rewritten_cons rewritten_of_length_le)
open World (Text)

def linesOf (content : Text) : List Text := if content = [] then [] else fileLines content

def wanted (content : Text) (plan : List Replacement) : List Text :=
  rewritten Replacement.startIdx Replacement.stop Replacement.newLines (linesOf content) 0 (byStart Replacement.startIdx plan)

def Alike (a b : Text) : Prop := trimEnd a = trimEnd b ∨ fuzzyNormalize a = fuzzyNormalize b

/-- How a replacement comes from a hunk: its new lines go to the end of the file, or in place of its old lines, or both go
without a last empty line that stands for the file's last newline. -/
inductive ComesFrom (lines : List Text) (hunk : Hunk) (r : Replacement) : Prop
  | appended (hOld : oldLinesOf hunk = []) (hIs : r = ⟨lines.length, 0, newLinesOf hunk⟩)
  | found (hOld : List.Forall₂ Alike ((lines.drop r.startIdx).take r.oldLen) (oldLinesOf hunk)) (hNew : r.newLines = newLinesOf hunk)
  | trimmed (hLast : (oldLinesOf hunk).getLast? = some [])
      (hOld : List.Forall₂ Alike ((lines.drop r.startIdx).take r.oldLen) (oldLinesOf hunk).dropLast)
      (hNew : r.newLines = if (newLinesOf hunk).getLast? = some [] then (newLinesOf hunk).dropLast else newLinesOf hunk)

/-- What is to remain ends as the text can: some line, where the file has a last newline, and else no empty line at the end. Of
an empty file the one empty line that the splitting makes is taken by a block, or else only empty lines are added. -/
def KeepsEnds (content : Text) (plan : List Replacement) : Prop :=
  if content = [] then
    if ∃ r ∈ plan, 0 < r.oldLen then (wanted content plan).getLast? ≠ some [] else ∀ line ∈ wanted content plan, line = []
  else if endsWithNewline content then wanted content plan ≠ []
  else (wanted content plan).getLast? ≠ some []

variable {lines : List Text}

/-! ## Splitting and joining -/

theorem joinLines_concat {lines : List Text} (hSome : lines ≠ []) (line : Text) :
    joinLines (lines ++ [line]) = joinLines lines ++ '\n' :: line := by
  induction lines with
  | nil => exact absurd rfl hSome
  | cons first rest ih =>
    cases rest with
    | nil => simp [joinLines]
    | cons second rest =>
      have hRest := ih (cons_ne_nil _ _)
      unfold joinLines at hRest ⊢
      rw [cons_append, cons_append, intercalate_cons_cons, ← cons_append, hRest,
        intercalate_cons_cons, append_assoc, append_assoc, append_assoc]

theorem fileLines_concat (hSome : lines ≠ []) (hPlain : ∀ line ∈ lines, '\n' ∉ line) :
    fileLines (joinLines lines ++ ['\n']) = lines := by
  have hAll : ∀ line ∈ lines ++ [[]], '\n' ∉ line := fun line hLine => by
    rcases mem_append.mp hLine with hOld | hBlank
    · exact hPlain line hOld
    · exact mem_singleton.mp hBlank ▸ not_mem_nil
  have hSplit := splitOn_intercalate '\n' hAll (append_ne_nil_of_right_ne_nil _ (cons_ne_nil _ _))
  change (joinLines (lines ++ [[]])).splitOn '\n' = _ at hSplit
  rw [joinLines_concat hSome] at hSplit
  unfold fileLines endsWithNewline
  rw [hSplit, getLast?_concat]
  exact dropLast_concat

theorem linesOf_joinLines (hPlain : ∀ line ∈ lines, '\n' ∉ line) :
    linesOf (joinLines lines) = if lines.getLast? = some [] then lines.dropLast else lines := by
  rcases eq_nil_or_concat lines with rfl | ⟨front, last, rfl⟩
  · rfl
  · rw [concat_eq_append] at hPlain ⊢
    rw [getLast?_concat, dropLast_concat]
    have hFront : ∀ line ∈ front, '\n' ∉ line := fun line hLine => hPlain line (mem_append_left _ hLine)
    have hLast : '\n' ∉ last := hPlain last (mem_append_right _ (mem_singleton.mpr rfl))
    by_cases hBlank : last = []
    · rw [hBlank, if_pos rfl]
      by_cases hNone : front = []
      · rw [hNone]
        rfl
      · rw [joinLines_concat hNone]
        unfold linesOf
        rw [if_neg (append_ne_nil_of_right_ne_nil _ (cons_ne_nil _ _)), fileLines_concat hNone hFront]
    · have hEnd : (joinLines (front ++ [last])).getLast? = last.getLast? := by
        by_cases hNone : front = []
        · simp [hNone, joinLines]
        · rw [joinLines_concat hNone, ← singleton_append, ← append_assoc, getLast?_append_of_ne_nil _ hBlank]
      have hPlainEnd : endsWithNewline (joinLines (front ++ [last])) = false := by
        unfold endsWithNewline
        rw [hEnd, decide_eq_false_iff_not]
        exact fun hNewline => hLast (mem_of_getLast? hNewline)
      have hSome : joinLines (front ++ [last]) ≠ [] := fun hNil => by
        rw [hNil] at hEnd
        exact hBlank (getLast?_eq_none_iff.mp hEnd.symm)
      unfold linesOf fileLines
      rw [if_neg hSome, if_neg (fun hEq => hBlank (Option.some.inj hEq)), hPlainEnd]
      exact splitOn_intercalate '\n' hPlain (append_ne_nil_of_right_ne_nil _ (cons_ne_nil _ _))

/-! ## The replacements and their hunks -/

variable {pattern : List Text}

theorem forall₂_of_matchAt {compare : Text → Text → Bool} (hCompare : ∀ a b, compare a b = true → Alike a b)
    {index : Nat} (hRoom : index + pattern.length ≤ lines.length) (h : matchAt compare lines pattern index = true) :
    List.Forall₂ Alike ((lines.drop index).take pattern.length) pattern := by
  have hLen : ((lines.drop index).take pattern.length).length = pattern.length := by
    rw [length_take, length_drop]
    omega
  refine forall₂_iff_get.mpr ⟨hLen, fun j _ hJ => ?_⟩
  have hHere := hCompare _ _ (all_eq_true.mp h j (mem_range.mpr hJ))
  rw [getD_eq_getElem?_getD, getD_eq_getElem?_getD, getElem?_eq_getElem (by omega), getElem?_eq_getElem hJ] at hHere
  rw [get_eq_getElem, get_eq_getElem, getElem_take, getElem_drop]
  exact hHere

theorem forall₂_of_seekSequence {start found : Nat} {eof : Bool} (hStart : start ≤ lines.length)
    (h : seekSequence lines pattern start eof = some found) :
    List.Forall₂ Alike ((lines.drop found).take pattern.length) pattern := by
  have hRoom := seekSequence_within hStart h
  by_cases hSome : pattern = []
  · rw [hSome]
    exact List.Forall₂.nil
  · unfold seekSequence seekBy at h
    rw [if_neg hSome] at h
    split at h
    · cases h
    · obtain ⟨level, hLevel, hFind⟩ := exists_of_findSome?_eq_some h
      have hMatch := find?_some hFind
      simp only [mem_cons, not_mem_nil, or_false] at hLevel
      rcases hLevel with rfl | rfl | rfl | rfl
      · exact forall₂_of_matchAt (fun a b hEq => .inl (by rw [of_decide_eq_true hEq])) hRoom hMatch
      · exact forall₂_of_matchAt (fun a b hEq => .inl (of_decide_eq_true hEq)) hRoom hMatch
      · exact forall₂_of_matchAt (fun a b hEq => .inr (by unfold fuzzyNormalize; rw [of_decide_eq_true hEq])) hRoom hMatch
      · exact forall₂_of_matchAt (fun a b hEq => .inr (of_decide_eq_true hEq)) hRoom hMatch

variable {cursor next : Nat} {hunk : Hunk} {r : Replacement}

theorem comesFrom_of_place (hCursor : cursor ≤ lines.length)
    (h : place seekSequence lines cursor hunk = .ok (some r, next)) : ComesFrom lines hunk r := by
  obtain ⟨hOld, hIs, -⟩ | ⟨start, -, hStart, -, ⟨r, hLocate, hIs, -⟩ | ⟨-, hNone, -⟩⟩ := place_cases hCursor h
  · exact .appended hOld (Option.some.inj hIs)
  · obtain rfl := Option.some.inj hIs
    obtain ⟨hFound, hLen, hNew⟩ | ⟨-, hLast, hFound, hLen, hNew⟩ := locate_cases hLocate
    · exact .found (hLen ▸ forall₂_of_seekSequence hStart hFound) hNew
    · exact .trimmed hLast (hLen ▸ forall₂_of_seekSequence hStart hFound) hNew
  · cases hNone

theorem exists_of_forall₂ {rel : Hunk → Replacement → Prop} {placed : List Hunk} {plan : List Replacement}
    (h : List.Forall₂ rel placed plan) (hR : r ∈ plan) : ∃ hunk ∈ placed, rel hunk r := by
  induction h with
  | nil => cases hR
  | cons hComes _ ih =>
    rcases mem_cons.mp hR with rfl | hRest
    · exact ⟨_, mem_cons_self, hComes⟩
    · obtain ⟨hunk, hHunk, hHere⟩ := ih hRest
      exact ⟨hunk, mem_cons_of_mem _ hHunk, hHere⟩

theorem comesFrom_of_planFrom {hunks : List Hunk} {plan : List Replacement} {applied : Nat} (hCursor : cursor ≤ lines.length)
    (h : planFrom seekSequence lines cursor hunks = .ok (plan, applied)) :
    ∃ placed, placed.Sublist hunks ∧ placed.length + applied = hunks.length ∧ List.Forall₂ (ComesFrom lines) placed plan := by
  induction hunks generalizing cursor plan applied with
  | nil =>
    obtain ⟨rfl, rfl⟩ := Prod.mk.inj (Except.ok.inj h)
    exact ⟨[], List.Sublist.slnil, rfl, List.Forall₂.nil⟩
  | cons hunk hunks ih =>
    obtain ⟨placed, next, later, skipped, hPlace, hLater, rfl, rfl⟩ := planFrom_cons h
    obtain ⟨rest, hSublist, hLen, hComes⟩ := ih (place_within hCursor hPlace).1 hLater
    cases placed with
    | none =>
      refine ⟨rest, hSublist.cons hunk, ?_, hComes⟩
      rw [length_cons, ← hLen]
      rfl
    | some r =>
      refine ⟨hunk :: rest, hSublist.cons_cons hunk, ?_, List.Forall₂.cons (comesFrom_of_place hCursor hPlace) hComes⟩
      rw [length_cons, length_cons, ← hLen, if_neg (Option.some_ne_none r)]
      exact Nat.succ_add _ _

/-! ## The order of the replacements -/

theorem place_empty {placed : Option Replacement} (hCursor : cursor ≤ lines.length)
    (h : place seekSequence lines cursor hunk = .ok (placed, next)) : cursor ≤ next ∧
      ∀ r ∈ placed, r.oldLen = 0 → cursor ≤ r.startIdx ∧ (lines = [[]] → r.startIdx ≠ 0) := by
  obtain ⟨-, rfl, rfl⟩ | ⟨start, hFrom, hStart, hSome, ⟨r, hLocate, rfl, rfl⟩ | ⟨-, rfl, rfl⟩⟩ := place_cases hCursor h
  · refine ⟨hCursor, fun r hIs _ => ?_⟩
    rw [← Option.some.inj hIs]
    refine ⟨hCursor, fun hLines => ?_⟩
    rw [hLines]
    exact Nat.one_ne_zero
  · have hNext : start ≤ r.stop := by
      unfold Replacement.stop
      cases hEof : hunk.isEndOfFile with
      | false =>
        rw [hEof] at hLocate
        obtain ⟨hFound, -, -⟩ | ⟨-, -, hFound, -, -⟩ := locate_cases hLocate
        · exact (le_of_seekSequence hFound).trans (Nat.le_add_right _ _)
        · exact (le_of_seekSequence hFound).trans (Nat.le_add_right _ _)
      | true =>
        rw [hEof] at hLocate
        have hEnd : ∀ {pattern : List Text}, seekSequence lines pattern start true = some r.startIdx →
            start ≤ r.startIdx + pattern.length := by
          intro pattern hFound
          by_cases hNone : pattern = []
          · rw [hNone] at hFound ⊢
            exact (Option.some.inj hFound).le
          · exact hStart.trans (seekSequence_end hNone hFound).ge
        obtain ⟨hFound, hLen, -⟩ | ⟨-, -, hFound, hLen, -⟩ := locate_cases hLocate
        · exact hLen ▸ hEnd hFound
        · exact hLen ▸ hEnd hFound
    refine ⟨hFrom.trans hNext, fun other hIs hZero => ?_⟩
    obtain rfl := Option.some.inj hIs
    obtain ⟨-, hLen, -⟩ | ⟨hNone, hLast, hFound, hLen, -⟩ := locate_cases hLocate
    · rw [hLen, length_eq_zero_iff] at hZero
      exact absurd hZero hSome
    · rw [hLen, length_eq_zero_iff] at hZero
      have hBlank : oldLinesOf hunk = [[]] := by
        obtain ⟨front, hFront⟩ := getLast?_eq_some_iff.mp hLast
        rw [hFront, dropLast_concat] at hZero
        rw [hFront, hZero]
        rfl
      rw [hZero] at hFound
      obtain hIs : start = r.startIdx := Option.some.inj hFound
      refine ⟨hIs ▸ hFrom, fun hLines hFirst => ?_⟩
      rw [hBlank, hLines, hIs, hFirst] at hNone
      cases hEof : hunk.isEndOfFile with
      | false =>
        rw [hEof] at hNone
        exact absurd hNone (by decide)
      | true =>
        rw [hEof] at hNone
        exact absurd hNone (by decide)
  · exact ⟨hFrom, fun r hIs => by cases hIs⟩

theorem planFrom_empty {hunks : List Hunk} {plan : List Replacement} {applied : Nat} (hCursor : cursor ≤ lines.length)
    (h : planFrom seekSequence lines cursor hunks = .ok (plan, applied)) :
    (∀ r ∈ plan, r.oldLen = 0 → cursor ≤ r.startIdx ∧ (lines = [[]] → r.startIdx ≠ 0)) ∧
      plan.Pairwise fun a b => b.startIdx = b.stop → a.stop ≤ b.startIdx := by
  induction hunks generalizing cursor plan applied with
  | nil =>
    obtain ⟨rfl, -⟩ := Prod.mk.inj (Except.ok.inj h)
    exact ⟨forall_mem_nil _, List.Pairwise.nil⟩
  | cons hunk hunks ih =>
    obtain ⟨placed, next, later, skipped, hPlace, hLater, rfl, -⟩ := planFrom_cons h
    obtain ⟨hNext, hStop⟩ := place_within hCursor hPlace
    obtain ⟨hForward, hEmpty⟩ := place_empty hCursor hPlace
    obtain ⟨hRest, hPairs⟩ := ih hNext hLater
    refine ⟨fun r hMem hZero => ?_, pairwise_append.mpr ⟨?_, hPairs, fun a hA b hB hZero => ?_⟩⟩
    · rcases mem_append.mp hMem with hHere | hThere
      · exact hEmpty r (Option.mem_toList.mp hHere) hZero
      · obtain ⟨hStart, hLines⟩ := hRest r hThere hZero
        exact ⟨hForward.trans hStart, hLines⟩
    · cases placed with
      | none => exact List.Pairwise.nil
      | some r => exact pairwise_singleton _ r
    · rw [hStop a (Option.mem_toList.mp hA)]
      unfold Replacement.stop at hZero
      exact (hRest b hB (by omega)).1

theorem ordered_of_apart {hunks : List Hunk} {plan : List Replacement} {applied : Nat}
    (h : computeReplacements lines hunks = .ok (plan, applied))
    (hApart : plan.Pairwise (Apart Replacement.startIdx Replacement.stop)) :
    Ordered Replacement.startIdx Replacement.stop lines.length (byStart Replacement.startIdx plan) :=
  ordered_byStart (fun _ _ => Nat.le_add_right _ _) (planFrom_within (Nat.zero_le _) h) hApart (planFrom_empty (Nat.zero_le _) h).2

/-! ## The text that is written -/

section Update

variable {content out : Text} {hunks : List Hunk} {plan : List Replacement} {applied : Nat}

theorem newLines_plain {hunk : Hunk} {r : Replacement} (hText : ∀ line ∈ hunk.lines, '\n' ∉ line.text)
    (h : ComesFrom lines hunk r) :
    ∀ line ∈ r.newLines, '\n' ∉ line := by
  have hNew : ∀ line ∈ newLinesOf hunk, '\n' ∉ line := by
    intro line hLine
    obtain ⟨given, hGiven, rfl⟩ := mem_map.mp hLine
    exact hText given (mem_filter.mp hGiven).1
  cases h with
  | appended _ hIs =>
    rw [hIs]
    exact hNew
  | found _ hIs =>
    rw [hIs]
    exact hNew
  | trimmed _ _ hIs =>
    rw [hIs]
    split
    · exact fun line hLine => hNew line (dropLast_subset _ hLine)
    · exact hNew

theorem rewritten_plain (hText : ∀ hunk ∈ hunks, ∀ line ∈ hunk.lines, '\n' ∉ line.text)
    (hPlan : computeReplacements (fileLines content) hunks = .ok (plan, applied)) :
    ∀ line ∈ rewritten Replacement.startIdx Replacement.stop Replacement.newLines (fileLines content) 0
      (byStart Replacement.startIdx plan), '\n' ∉ line := by
  intro line hLine
  rcases mem_rewritten hLine with hKept | ⟨r, hR, hNew⟩
  · unfold fileLines at hKept
    dsimp only at hKept
    split at hKept
    · exact Search.not_mem_of_mem_splitOn (dropLast_subset _ hKept)
    · exact Search.not_mem_of_mem_splitOn hKept
  · obtain ⟨placed, hSublist, -, hComes⟩ := comesFrom_of_planFrom (Nat.zero_le _) hPlan
    obtain ⟨hunk, hHunk, hFrom⟩ := exists_of_forall₂ hComes ((byStart_perm plan).mem_iff.mp hR)
    exact newLines_plain (hText hunk (hSublist.subset hHunk)) hFrom line hNew

theorem rewritten_blank {bs : List Replacement} (h : Ordered Replacement.startIdx Replacement.stop 1 bs)
    (hEmpty : ∀ r ∈ bs, r.oldLen = 0 → r.startIdx ≠ 0) :
    rewritten Replacement.startIdx Replacement.stop Replacement.newLines [[]] 0 bs =
      if ∃ r ∈ bs, 0 < r.oldLen then bs.flatMap Replacement.newLines else [] :: bs.flatMap Replacement.newLines := by
  cases bs with
  | nil => rfl
  | cons r rest =>
    have hWith := h.within r mem_cons_self
    have hFirst := hEmpty r mem_cons_self
    have hOrder := (pairwise_cons.mp h.order).1
    unfold Replacement.stop at hWith hOrder
    have hStop : 1 ≤ r.startIdx + r.oldLen := by omega
    have hRest : ∀ b ∈ rest, 1 ≤ b.startIdx ∧ b.oldLen = 0 := by
      intro b hB
      have hHere := hOrder b hB
      have hThere := h.within b (mem_cons_of_mem _ hB)
      unfold Replacement.stop at hThere
      omega
    have hLater : rewritten Replacement.startIdx Replacement.stop Replacement.newLines [[]] r.stop rest =
        rest.flatMap Replacement.newLines :=
      rewritten_of_length_le hStop fun b hB => (hRest b hB).1.trans (Nat.le_add_right _ _)
    rw [rewritten_cons, hLater, flatMap_cons]
    by_cases hTaken : 0 < r.oldLen
    · obtain hZero : r.startIdx = 0 := by omega
      rw [if_pos ⟨r, mem_cons_self, hTaken⟩, hZero]
      rfl
    · obtain hOne : r.startIdx = 1 := by omega
      rw [if_neg, hOne]
      · rfl
      · rintro ⟨b, hB, hPos⟩
        rcases mem_cons.mp hB with rfl | hOther
        · exact hTaken hPos
        · exact absurd (hRest b hOther).2 hPos.ne'

theorem dropLast_cons_eq_iff {line : Text} {rest : List Text} : (line :: rest).dropLast = rest ↔ ∀ other ∈ rest, other = line := by
  induction rest generalizing line with
  | nil => exact iff_of_true rfl (forall_mem_nil _)
  | cons next rest ih =>
    rw [dropLast_cons_cons, List.cons.injEq, forall_mem_cons]
    constructor
    · rintro ⟨rfl, hRest⟩
      exact ⟨rfl, ih.mp hRest⟩
    · rintro ⟨rfl, hRest⟩
      exact ⟨rfl, ih.mpr hRest⟩

theorem ite_dropLast_eq_iff {kept : List Text} :
    (if kept.getLast? = some [] then kept.dropLast else kept) = kept ↔ kept.getLast? ≠ some [] := by
  split
  · next hBlank =>
    refine iff_of_false (fun hEq => ?_) (not_not.mpr hBlank)
    obtain ⟨front, rfl⟩ := getLast?_eq_some_iff.mp hBlank
    rw [dropLast_concat] at hEq
    simpa using congrArg List.length hEq
  · next hOther => exact iff_of_true rfl hOther

/-- An update writes the lines that its matches say, just where what is to remain ends as the text of the file can. -/
theorem linesOf_written (hText : ∀ hunk ∈ hunks, ∀ line ∈ hunk.lines, '\n' ∉ line.text)
    (hPlan : computeReplacements (fileLines content) hunks = .ok (plan, applied))
    (hApart : plan.Pairwise (Apart Replacement.startIdx Replacement.stop))
    (hWritten : applyUpdate content hunks = .ok (.text out)) :
    (∃ placed, placed.Sublist hunks ∧ placed.length + applied = hunks.length ∧ List.Forall₂ (ComesFrom (fileLines content)) placed plan) ∧
      (linesOf out = wanted content plan ↔ KeepsEnds content plan) := by
  refine ⟨comesFrom_of_planFrom (Nat.zero_le _) hPlan, ?_⟩
  have hOrdered := ordered_of_apart hPlan hApart
  have hPlain := rewritten_plain hText hPlan
  have hOut : out = joinLines (rewritten Replacement.startIdx Replacement.stop Replacement.newLines (fileLines content) 0
      (byStart Replacement.startIdx plan)) ++ if endsWithNewline content then ['\n'] else [] := by
    unfold applyUpdate at hWritten
    rw [hPlan] at hWritten
    unfold Except.map updated at hWritten
    dsimp only at hWritten
    split at hWritten
    · cases hWritten
    · rw [applyReplacements_eq hOrdered] at hWritten
      cases hWritten
      rfl
  unfold KeepsEnds
  by_cases hEmpty : content = []
  · subst hEmpty
    have hWanted : wanted [] plan = (byStart Replacement.startIdx plan).flatMap Replacement.newLines :=
      rewritten_of_length_le (Nat.zero_le _) fun _ _ => Nat.zero_le _
    have hZero := (planFrom_empty (Nat.zero_le _) hPlan).1
    have hMem : ∀ {r}, r ∈ byStart Replacement.startIdx plan ↔ r ∈ plan := (byStart_perm plan).mem_iff
    have hBlank := rewritten_blank hOrdered fun r hR hNone => (hZero r (hMem.mp hR) hNone).2 rfl
    change out = joinLines (rewritten _ _ _ [[]] 0 _) ++ [] at hOut
    change ∀ line ∈ rewritten _ _ _ [[]] 0 _, _ at hPlain
    rw [append_nil] at hOut
    rw [hOut, linesOf_joinLines hPlain, if_pos rfl, hBlank, ← hWanted]
    simp only [hMem]
    split
    · exact ite_dropLast_eq_iff
    · split
      · exact dropLast_cons_eq_iff
      · next hOther =>
        refine iff_of_false (fun hSame => ?_) fun hAll => hOther ?_
        · simpa using congrArg List.length hSame
        · rcases eq_nil_or_concat (wanted [] plan) with hNone | ⟨front, last, hSome⟩
          · rw [hNone]
            rfl
          · rw [concat_eq_append] at hSome
            rw [hSome, ← cons_append, getLast?_concat]
            exact congrArg some (hAll last (hSome ▸ mem_append_right _ (mem_singleton.mpr rfl)))
  · have hLines : linesOf content = fileLines content := if_neg hEmpty
    have hWanted : rewritten Replacement.startIdx Replacement.stop Replacement.newLines (fileLines content) 0
        (byStart Replacement.startIdx plan) = wanted content plan := by
      unfold wanted
      rw [hLines]
    rw [hWanted] at hOut hPlain
    rw [if_neg hEmpty, hOut]
    cases hEnds : endsWithNewline content with
    | false =>
      rw [if_neg Bool.false_ne_true, if_neg Bool.false_ne_true, append_nil, linesOf_joinLines hPlain]
      exact ite_dropLast_eq_iff
    | true =>
      rw [if_pos rfl, if_pos rfl]
      by_cases hNone : wanted content plan = []
      · rw [hNone]
        exact iff_of_false (by decide) (not_not.mpr rfl)
      · unfold linesOf
        rw [if_neg (append_ne_nil_of_right_ne_nil _ (cons_ne_nil _ _)), fileLines_concat hNone hPlain]
        exact iff_of_true rfl hNone

theorem linesOf_written_edit :
    let hunks := [replacing "a" "x", inserting "z"]
    let plan : List Replacement := [⟨0, 1, ["x".toList]⟩, ⟨2, 0, ["z".toList]⟩]
    applyUpdate "a\nb\n".toList hunks = .ok (.text "x\nb\nz\n".toList) ∧
      (linesOf "x\nb\nz\n".toList = wanted "a\nb\n".toList plan ↔ KeepsEnds "a\nb\n".toList plan) := by
  intro hunks plan
  have hPlan : computeReplacements (fileLines "a\nb\n".toList) hunks = .ok (plan, 0) := by decide
  have hWritten : applyUpdate "a\nb\n".toList hunks = .ok (.text "x\nb\nz\n".toList) := by decide
  have hApart : plan.Pairwise (Apart Replacement.startIdx Replacement.stop) := by
    refine pairwise_pair.mpr (Or.inl ?_)
    decide
  exact ⟨hWritten, (linesOf_written (by decide) hPlan hApart hWritten).2⟩

/-- A line added to an empty file, every line of a file removed, and a blank line at the end of a file without a last newline. -/
theorem ends_not_kept :
    let removing : Hunk := { lines := [⟨.remove, "a".toList⟩] }
    (applyUpdate [] [inserting "a"] = .ok (.text "\na".toList) ∧
      computeReplacements (fileLines []) [inserting "a"] = .ok ([⟨1, 0, ["a".toList]⟩], 0) ∧
      linesOf "\na".toList = [[], "a".toList] ∧ wanted [] [⟨1, 0, ["a".toList]⟩] = ["a".toList]) ∧
    (applyUpdate "a\n".toList [removing] = .ok (.text "\n".toList) ∧
      computeReplacements (fileLines "a\n".toList) [removing] = .ok ([⟨0, 1, []⟩], 0) ∧
      linesOf "\n".toList = [[]] ∧ wanted "a\n".toList [⟨0, 1, []⟩] = []) ∧
    (applyUpdate "a".toList [inserting ""] = .ok (.text "a\n".toList) ∧
      computeReplacements (fileLines "a".toList) [inserting ""] = .ok ([⟨1, 0, [[]]⟩], 0) ∧
      linesOf "a\n".toList = ["a".toList] ∧ wanted "a".toList [⟨1, 0, [[]]⟩] = ["a".toList, []]) := by
  refine ⟨⟨by decide, by decide, by decide, by decide⟩, ⟨by decide, by decide, by decide, by decide⟩,
    by decide, by decide, by decide, by decide⟩

end Update

end Stella.Patch
