import Stella.Edit.Batch

/-! # Which text edits are unambiguous

A text edit is accepted if its old text is found once. The search goes on behind what it has
found, so that an occurrence which overlaps the first one is not seen.
-/

namespace Stella.Edit

open Search (OccursAt OccursOnce Overlapping indexOf indexOf_eq_none indexOf_eq_some overlapping_of_occursAt)
open World (Text)

variable {haystack needle : Text}

/-! ## One search -/

theorem findOccurrencesFrom_of_none {cursor : Nat} (h : indexOf haystack needle cursor = none) :
    findOccurrencesFrom haystack needle cursor = [] := by
  rw [findOccurrencesFrom]
  split
  · split
    · rfl
    · next index hIndex => cases h.symm.trans hIndex
  · rfl

section

variable (hSome : needle ≠ [])
include hSome

variable {cursor : Nat}

theorem findOccurrencesFrom_of_some {index : Nat} (h : indexOf haystack needle cursor = some index) :
    findOccurrencesFrom haystack needle cursor = index :: findOccurrencesFrom haystack needle (index + needle.length) := by
  obtain ⟨hCursor, hHere, -⟩ := indexOf_eq_some hSome h
  have hRoom := hHere.le hSome
  have hPos := List.length_pos_of_ne_nil hSome
  rw [findOccurrencesFrom, if_pos (by omega)]
  split
  · next hNone => cases h.symm.trans hNone
  · next found hFound =>
    obtain rfl := Option.some.inj (h.symm.trans hFound)
    rw [max_eq_right hPos]

variable {p : Nat}

theorem not_occursAt_of_nil (h : findOccurrencesFrom haystack needle cursor = [])
    (hCursor : cursor ≤ p) : ¬ OccursAt needle haystack p := by
  cases hIndex : indexOf haystack needle cursor with
  | none => exact indexOf_eq_none hSome hIndex hCursor
  | some index =>
    rw [findOccurrencesFrom_of_some hSome hIndex] at h
    cases h

theorem findOccurrences_eq_nil_iff : findOccurrences haystack needle = [] ↔ includes haystack needle = false := by
  unfold findOccurrences includes
  cases hIndex : indexOf haystack needle 0 with
  | none => simp [findOccurrencesFrom_of_none hIndex]
  | some index => simp [findOccurrencesFrom_of_some hSome hIndex]

theorem findOccurrences_eq_cons {first : Nat} {others : List Nat}
    (h : findOccurrences haystack needle = first :: others) :
    indexOf haystack needle 0 = some first ∧ findOccurrencesFrom haystack needle (first + needle.length) = others := by
  unfold findOccurrences at h
  cases hIndex : indexOf haystack needle 0 with
  | none =>
    rw [findOccurrencesFrom_of_none hIndex] at h
    cases h
  | some index =>
    rw [findOccurrencesFrom_of_some hSome hIndex, List.cons.injEq] at h
    obtain ⟨rfl, hRest⟩ := h
    exact ⟨rfl, hRest⟩

theorem occursAt_of_singleton (h : findOccurrences haystack needle = [p]) :
    OccursAt needle haystack p ∧ ∀ q, OccursAt needle haystack q → p ≤ q ∧ q < p + needle.length := by
  obtain ⟨hIndex, hRest⟩ := findOccurrences_eq_cons hSome h
  obtain ⟨-, hHere, hFirst⟩ := indexOf_eq_some hSome hIndex
  refine ⟨hHere, fun q hThere => ⟨hFirst q (Nat.zero_le q) hThere, ?_⟩⟩
  by_contra hBehind
  exact not_occursAt_of_nil hSome hRest (by omega) hThere

theorem occursOnce_iff (h : findOccurrences haystack needle = [p]) :
    OccursOnce needle haystack ↔ ¬ Overlapping needle haystack := by
  obtain ⟨hHere, hOthers⟩ := occursAt_of_singleton hSome h
  constructor
  · rintro ⟨only, hOnly⟩ hOverlap
    obtain ⟨first, second, hNe, hFirst, hSnd⟩ := hOverlap.occursAt
    exact hNe (((hOnly first).mp hFirst).trans ((hOnly second).mp hSnd).symm)
  · intro hClear
    refine ⟨p, fun q => ⟨fun hThere => ?_, fun hEq => hEq ▸ hHere⟩⟩
    obtain ⟨hLe, hLt⟩ := hOthers q hThere
    by_contra hNe
    exact hClear (overlapping_of_occursAt hHere hThere (by omega) hLt)

end

/-! ## Both levels -/

def matchingLevel (unicode : Unicode) (content oldText : Text) : Text × Text :=
  if includes content oldText then (oldText, content)
  else (normalizeForFuzzyMatch unicode oldText, normalizeForFuzzyMatch unicode content)

def OldTextOnce (unicode : Unicode) (content oldText : Text) : Prop :=
  OccursOnce (matchingLevel unicode content oldText).1 (matchingLevel unicode content oldText).2

def OldTextOverlaps (unicode : Unicode) (content oldText : Text) : Prop :=
  Overlapping (matchingLevel unicode content oldText).1 (matchingLevel unicode content oldText).2

variable {found : FuzzyMatchResult}

theorem findOccurrences_of_found {unicode : Unicode} {content oldText : Text} (hSome : oldText ≠ [])
    (h : fuzzyFindText unicode content oldText = some found) (hOne : ¬ 1 < found.occurrences) :
    (matchingLevel unicode content oldText).1 ≠ [] ∧
      ∃ p, findOccurrences (matchingLevel unicode content oldText).2 (matchingLevel unicode content oldText).1 = [p] := by
  unfold fuzzyFindText at h
  rw [if_neg hSome] at h
  unfold matchingLevel
  split at h
  · next first others hFirst =>
    cases h
    have hIn : includes content oldText = true := by
      by_contra hNot
      rw [Bool.not_eq_true, ← findOccurrences_eq_nil_iff hSome, hFirst] at hNot
      cases hNot
    obtain rfl : others = [] := List.eq_nil_of_length_eq_zero (by simp only [List.length_cons] at hOne; omega)
    rw [if_pos hIn]
    exact ⟨hSome, first, hFirst⟩
  · next hNone =>
    rw [findOccurrences_eq_nil_iff hSome] at hNone
    rw [hNone, if_neg Bool.false_ne_true]
    dsimp only at h
    split at h
    · cases h
    · next hFolded =>
      split at h
      · cases h
      · next first others hFirst =>
        cases h
        obtain rfl : others = [] := List.eq_nil_of_length_eq_zero (by simp only [List.length_cons] at hOne; omega)
        exact ⟨hFolded, first, hFirst⟩

/-! ## Accepted edits -/

variable {unicode : Unicode} {content oldText newText : Text}

theorem occursOnce_of_found (hSome : oldText ≠ []) (h : fuzzyFindText unicode content oldText = some found)
    (hOne : ¬ 1 < found.occurrences) : OldTextOnce unicode content oldText ↔ ¬ OldTextOverlaps unicode content oldText := by
  obtain ⟨hNeedle, p, hFound⟩ := findOccurrences_of_found hSome h hOne
  exact occursOnce_iff hNeedle hFound

theorem found_of_replaced {result : StringReplacementResult}
    (h : applyStringReplacement unicode content oldText newText false = .ok result)
    (hChg : result.noChange = false) : normalizeToLF oldText ≠ [] ∧
      ∃ found, fuzzyFindText unicode content (normalizeToLF oldText) = some found ∧ ¬ 1 < found.occurrences := by
  unfold applyStringReplacement at h
  dsimp only at h
  split at h
  · cases h
  · next hSome =>
    refine ⟨fun hNil => hSome (by rw [hNil]; rfl), ?_⟩
    split at h
    · cases h
      cases hChg
    · split at h
      · cases h
      · rw [if_neg Bool.false_ne_true] at h
        split at h
        · cases h
        · next found hFound =>
          split at h
          · cases h
          · next hOne => exact ⟨found, hFound, hOne⟩

theorem found_of_planEdit {placed : Placed} (h : planEdit unicode content (.text oldText newText) = .ok placed) :
    normalizeToLF oldText ≠ [] ∧
      ∃ found, fuzzyFindText unicode content (normalizeToLF oldText) = some found ∧ ¬ 1 < found.occurrences ∧
        placed = ⟨found.index, found.index + found.matchLength, found.leading ++ normalizeToLF newText ++ found.trailing⟩ := by
  unfold planEdit at h
  dsimp only at h
  split at h
  · cases h
  · next hSome =>
    refine ⟨fun hNil => hSome (by rw [hNil]; rfl), ?_⟩
    split at h
    · cases h
    · next found hFound =>
      split at h
      · cases h
      · next hOne => exact ⟨found, hFound, hOne, (Except.ok.inj h).symm⟩

variable {edits : List EditSpec}

theorem planEdits_mem {index : Nat} {planned : List PlannedReplacement}
    (h : planEdits unicode content index edits = .ok planned) {edit : EditSpec} (hEdit : edit ∈ edits) :
    ∃ placed, planEdit unicode content edit = .ok placed := by
  induction edits generalizing index planned with
  | nil => cases hEdit
  | cons first edits ih =>
    unfold planEdits at h
    split at h
    · cases h
    · next placed hPlaced =>
      rcases List.mem_cons.mp hEdit with rfl | hLater
      · exact ⟨placed, hPlaced⟩
      · cases hRest : planEdits unicode content (index + 1) edits with
        | error error =>
          rw [hRest] at h
          cases h
        | ok rest => exact ih hRest hLater

theorem planEdits_of_applied {summary : AppliedEditsSummary}
    (h : applyEditsToContent unicode content edits = .ok summary) : ∃ planned, planEdits unicode content 0 edits = .ok planned := by
  unfold applyEditsToContent at h
  cases hPlanned : planEdits unicode content 0 edits with
  | error error =>
    rw [hPlanned] at h
    cases h
  | ok planned => exact ⟨planned, rfl⟩

/-- An accepted text edit is at the only place of its old text, unless copies of the old text overlap in the content. -/
theorem oldTextOnce_iff (unicode : Unicode) (content : Text) :
    (∀ oldString newString result, applyStringReplacement unicode content oldString newString false = .ok result →
      result.noChange = false →
        (OldTextOnce unicode content (normalizeToLF oldString) ↔ ¬ OldTextOverlaps unicode content (normalizeToLF oldString))) ∧
    ∀ edits summary, applyEditsToContent unicode content edits = .ok summary → ∀ oldText newText, .text oldText newText ∈ edits →
      (OldTextOnce unicode content (normalizeToLF oldText) ↔ ¬ OldTextOverlaps unicode content (normalizeToLF oldText)) := by
  constructor
  · intro oldString newString result hResult hChange
    obtain ⟨hSome, found, hFound, hOne⟩ := found_of_replaced hResult hChange
    exact occursOnce_of_found hSome hFound hOne
  · intro edits summary hSummary oldText newText hEdit
    obtain ⟨planned, hPlanned⟩ := planEdits_of_applied hSummary
    obtain ⟨placed, hPlaced⟩ := planEdits_mem hPlanned hEdit
    obtain ⟨hSome, found, hFound, hOne, -⟩ := found_of_planEdit hPlaced
    exact occursOnce_of_found hSome hFound hOne

theorem oldTextOnce_iff_dash :
    (OldTextOnce plainUnicode "a-b".toList ['-'] ↔ ¬ OldTextOverlaps plainUnicode "a-b".toList ['-']) ∧
      (OldTextOnce plainUnicode "a-b".toList ['a'] ↔ ¬ OldTextOverlaps plainUnicode "a-b".toList ['a']) := by
  have hOne : applyStringReplacement plainUnicode "a-b".toList ['-'] ['+'] false = .ok { content := "a+b".toList, replacements := 1 } :=
    eq_ok_of_toOption (by decide +kernel)
  have hTwo : applyEditsToContent plainUnicode "a-b".toList [.text ['b'] ['d'], .text ['a'] ['c']] =
      .ok { content := "c-d".toList, lines := [1, 1] } := eq_ok_of_toOption (by decide +kernel)
  exact ⟨(oldTextOnce_iff plainUnicode "a-b".toList).1 ['-'] ['+'] _ hOne rfl,
    (oldTextOnce_iff plainUnicode "a-b".toList).2 _ _ hTwo ['a'] ['c'] (by simp)⟩

/-- An old text that overlaps itself is replaced at the first of two places. -/
theorem overlapped_oldText_replaced :
    (applyStringReplacement plainUnicode "aaa".toList "aa".toList ['b'] false).toOption = some { content := "ba".toList, replacements := 1 } ∧
      ¬ OldTextOnce plainUnicode "aaa".toList (normalizeToLF "aa".toList) := by
  refine ⟨by decide +kernel, ?_⟩
  have hLevel : matchingLevel plainUnicode "aaa".toList (normalizeToLF "aa".toList) = ("aa".toList, "aaa".toList) := by decide +kernel
  unfold OldTextOnce
  rw [hLevel]
  rintro ⟨only, hOnly⟩
  have hFirst := (hOnly 0).mp (by decide)
  have hSecond := (hOnly 1).mp (by decide)
  omega

end Stella.Edit
