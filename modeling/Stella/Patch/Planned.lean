import Stella.Library.Blocks
import Stella.Patch.Agree

/-! # The replacements that are planned

The cursor moves past each replacement, and a search goes on from there, but for one: a hunk
marked as the end of the file is looked for at the end alone, wherever the cursor is.
-/

namespace Stella.Patch

open Blocks (Ordered rewritten byStart foldl_splice)
open World (Text)

variable {lines : List Text}

/-! ## What one search finds -/

variable {pattern : List Text}

theorem seekSequence_atEnd (hSome : pattern ≠ []) (start : Nat) :
    seekSequence lines pattern start true = seekSequence lines pattern 0 true := by
  unfold seekSequence seekBy
  rw [if_neg hSome, if_neg hSome]
  rfl

variable {start found : Nat}

theorem seekSequence_end (hSome : pattern ≠ [])
    (h : seekSequence lines pattern start true = some found) : found + pattern.length = lines.length := by
  unfold seekSequence seekBy at h
  rw [if_neg hSome] at h
  split at h
  · cases h
  · dsimp only at h
    obtain ⟨level, -, hFind⟩ := List.exists_of_findSome?_eq_some h
    have hMem := List.mem_range'_1.mp (List.mem_of_find?_eq_some hFind)
    rw [if_pos rfl] at hMem
    omega

theorem seekSequence_within {eof : Bool} (hStart : start ≤ lines.length)
    (h : seekSequence lines pattern start eof = some found) : found + pattern.length ≤ lines.length := by
  by_cases hSome : pattern = []
  · rw [hSome] at h ⊢
    obtain rfl := Option.some.inj h
    exact hStart
  · cases eof with
    | true => exact (seekSequence_end hSome h).le
    | false => exact (seekSequence_bounds hSome h).2

theorem le_of_seekSequence (h : seekSequence lines pattern start false = some found) :
    start ≤ found := by
  by_cases hSome : pattern = []
  · rw [hSome] at h
    exact (Option.some.inj h).le
  · exact (seekSequence_bounds hSome h).1

/-! ## Hunks at the end of the file -/

def endsWith (lines pattern : List Text) : Bool := (seekSequence lines pattern 0 true).isSome

def ClearAtEnd (lines : List Text) (edge : Nat) (hunk : Hunk) : Prop :=
  let oldLines := oldLinesOf hunk
  hunk.isEndOfFile = true →
    (endsWith lines oldLines = true → edge + oldLines.length ≤ lines.length) ∧
    (endsWith lines oldLines = false → oldLines.getLast? = some [] → endsWith lines oldLines.dropLast = true →
      edge + oldLines.dropLast.length ≤ lines.length)

def Clear (lines : List Text) : Nat → Nat → List Hunk → Prop
  | _, _, [] => True
  | cursor, edge, hunk :: rest => ClearAtEnd lines edge hunk ∧
    match place seekSequence lines cursor hunk with
    | .error _ => True
    | .ok (none, next) => Clear lines next edge rest
    | .ok (some r, next) => Clear lines next r.stop rest

theorem endsWith_iff (start : Nat) :
    endsWith lines pattern = true ↔ ∃ found, seekSequence lines pattern start true = some found := by
  unfold endsWith
  by_cases hSome : pattern = []
  · rw [hSome]
    exact ⟨fun _ => ⟨start, rfl⟩, fun _ => rfl⟩
  · rw [seekSequence_atEnd hSome start, Option.isSome_iff_exists]

theorem endsWith_eq_false (h : seekSequence lines pattern start true = none) :
    endsWith lines pattern = false := by
  rw [Bool.eq_false_iff]
  intro hEnds
  obtain ⟨found, hFound⟩ := (endsWith_iff start).mp hEnds
  rw [h] at hFound
  cases hFound

theorem le_startIdx_iff {edge : Nat} {hunk : Hunk} {r : Replacement} (hEdge : edge ≤ start) (hStart : start ≤ lines.length)
    (h : locate seekSequence lines start hunk.isEndOfFile (oldLinesOf hunk) (newLinesOf hunk) = some r) :
    edge ≤ r.startIdx ↔ ClearAtEnd lines edge hunk := by
  have hRoom : ∀ {pattern : List Text}, seekSequence lines pattern start true = some r.startIdx →
      (edge ≤ r.startIdx ↔ edge + pattern.length ≤ lines.length) := by
    intro pattern hFound
    by_cases hSome : pattern = []
    · rw [hSome] at hFound ⊢
      obtain hIs : start = r.startIdx := Option.some.inj hFound
      rw [← hIs]
      exact iff_of_true hEdge (hEdge.trans hStart)
    · have hEnd := seekSequence_end hSome hFound
      omega
  unfold ClearAtEnd
  cases hEof : hunk.isEndOfFile with
  | false =>
    rw [hEof] at h
    refine iff_of_true (hEdge.trans ?_) (fun hEnd => absurd hEnd Bool.false_ne_true)
    obtain ⟨hFound, -, -⟩ | ⟨-, -, hFound, -, -⟩ := locate_cases h
    · exact le_of_seekSequence hFound
    · exact le_of_seekSequence hFound
  | true =>
    rw [hEof] at h
    obtain ⟨hFound, -, -⟩ | ⟨hNone, hLast, hFound, -, -⟩ := locate_cases h
    · have hEnds := (endsWith_iff start).mpr ⟨_, hFound⟩
      rw [hRoom hFound]
      exact ⟨fun hClear _ => ⟨fun _ => hClear, fun hOther => absurd (hOther.symm.trans hEnds) Bool.false_ne_true⟩,
        fun hAll => (hAll rfl).1 hEnds⟩
    · have hEnds := endsWith_eq_false hNone
      have hRest := (endsWith_iff start).mpr ⟨_, hFound⟩
      rw [hRoom hFound]
      exact ⟨fun hClear _ => ⟨fun hOther => absurd (hEnds.symm.trans hOther) Bool.false_ne_true, fun _ _ _ => hClear⟩,
        fun hAll => (hAll rfl).2 hEnds hLast hRest⟩

theorem clearAtEnd_of_none {edge : Nat} {hunk : Hunk}
    (h : locate seekSequence lines start hunk.isEndOfFile (oldLinesOf hunk) (newLinesOf hunk) = none) :
    ClearAtEnd lines edge hunk := by
  intro hEof
  rw [hEof] at h
  unfold locate at h
  split at h
  · cases h
  · next hNone =>
    have hEnds := endsWith_eq_false hNone
    refine ⟨fun hOther => absurd (hEnds.symm.trans hOther) Bool.false_ne_true, fun _ hLast hRest => ?_⟩
    rw [if_pos hLast, Option.map_eq_none_iff] at h
    exact absurd ((endsWith_eq_false h).symm.trans hRest) Bool.false_ne_true

/-! ## All hunks -/

section Plan

variable {hunks : List Hunk} {plan : List Replacement} {applied : Nat}

variable {cursor : Nat} {hunk : Hunk}

theorem planFrom_cons (h : planFrom seekSequence lines cursor (hunk :: hunks) = .ok (plan, applied)) :
    ∃ placed next later skipped, place seekSequence lines cursor hunk = .ok (placed, next) ∧
      planFrom seekSequence lines next hunks = .ok (later, skipped) ∧ plan = placed.toList ++ later ∧
      applied = if placed = none then skipped + 1 else skipped := by
  unfold planFrom at h
  split at h
  · cases h
  · next placed next hPlace =>
    split at h
    · cases h
    · next later skipped hLater =>
      refine ⟨placed, next, later, skipped, hPlace, hLater, ?_⟩
      cases placed with
      | none =>
        obtain ⟨rfl, rfl⟩ := Prod.mk.inj (Except.ok.inj h)
        exact ⟨rfl, rfl⟩
      | some r =>
        obtain ⟨rfl, rfl⟩ := Prod.mk.inj (Except.ok.inj h)
        exact ⟨rfl, rfl⟩

variable {next : Nat} {placed : Option Replacement}

theorem place_within (hCursor : cursor ≤ lines.length)
    (h : place seekSequence lines cursor hunk = .ok (placed, next)) : next ≤ lines.length ∧ ∀ r ∈ placed, r.stop = next := by
  obtain ⟨-, rfl, rfl⟩ | ⟨start, hFrom, hStart, -, ⟨r, hLocate, rfl, rfl⟩ | ⟨-, rfl, rfl⟩⟩ := place_cases hCursor h
  · refine ⟨le_rfl, fun r hMem => ?_⟩
    rw [← Option.some.inj hMem]
    rfl
  · refine ⟨?_, fun other hMem => by rw [← Option.some.inj hMem]⟩
    unfold Replacement.stop
    obtain ⟨hFound, hLen, -⟩ | ⟨-, -, hFound, hLen, -⟩ := locate_cases hLocate
    · rw [hLen]
      exact seekSequence_within hStart hFound
    · rw [hLen]
      exact seekSequence_within hStart hFound
  · exact ⟨hStart, fun r hMem => by cases hMem⟩

theorem planFrom_within (hCursor : cursor ≤ lines.length)
    (h : planFrom seekSequence lines cursor hunks = .ok (plan, applied)) : ∀ r ∈ plan, r.stop ≤ lines.length := by
  induction hunks generalizing cursor plan applied with
  | nil =>
    obtain ⟨rfl, -⟩ := Prod.mk.inj (Except.ok.inj h)
    exact List.forall_mem_nil _
  | cons hunk hunks ih =>
    obtain ⟨placed, next, later, skipped, hPlace, hLater, rfl, -⟩ := planFrom_cons h
    obtain ⟨hNext, hStop⟩ := place_within hCursor hPlace
    intro r hMem
    rcases List.mem_append.mp hMem with hHere | hRest
    · rw [hStop r (Option.mem_toList.mp hHere)]
      exact hNext
    · exact ih hNext hLater r hRest

theorem place_iff {edge : Nat} (hEdge : edge ≤ cursor)
    (hCursor : cursor ≤ lines.length) (h : place seekSequence lines cursor hunk = .ok (placed, next)) :
    (∀ r ∈ placed, edge ≤ r.startIdx) ↔ ClearAtEnd lines edge hunk := by
  obtain ⟨hNone, rfl, rfl⟩ | ⟨start, hFrom, hStart, -, ⟨r, hLocate, rfl, rfl⟩ | ⟨hLocate, rfl, rfl⟩⟩ := place_cases hCursor h
  · refine iff_of_true (fun r hMem => ?_) fun _ => ⟨fun _ => ?_, fun _ hLast => ?_⟩
    · rw [← Option.some.inj hMem]
      exact hEdge.trans hCursor
    · rw [hNone]
      exact hEdge.trans hCursor
    · rw [hNone] at hLast
      cases hLast
  · rw [← le_startIdx_iff (hEdge.trans hFrom) hStart hLocate]
    exact ⟨fun hAll => hAll r rfl, fun hHere other hMem => Option.some.inj hMem ▸ hHere⟩
  · exact iff_of_true (fun r hMem => by cases hMem) (clearAtEnd_of_none hLocate)

theorem le_next (hCursor : cursor ≤ lines.length)
    (h : place seekSequence lines cursor hunk = .ok (placed, next)) (hNone : placed = none) : cursor ≤ next := by
  obtain ⟨-, rfl, -⟩ | ⟨start, hFrom, -, -, ⟨r, -, rfl, -⟩ | ⟨-, -, rfl⟩⟩ := place_cases hCursor h
  · cases hNone
  · cases hNone
  · exact hFrom

theorem planFrom_iff {edge : Nat} (hEdge : edge ≤ cursor) (hCursor : cursor ≤ lines.length)
    (h : planFrom seekSequence lines cursor hunks = .ok (plan, applied)) :
    ((∀ r ∈ plan, edge ≤ r.startIdx) ∧ plan.Pairwise fun a b => a.stop ≤ b.startIdx) ↔ Clear lines cursor edge hunks := by
  induction hunks generalizing cursor edge plan applied with
  | nil =>
    obtain ⟨rfl, -⟩ := Prod.mk.inj (Except.ok.inj h)
    exact iff_of_true ⟨List.forall_mem_nil _, List.Pairwise.nil⟩ trivial
  | cons hunk hunks ih =>
    obtain ⟨placed, next, later, skipped, hPlace, hLater, rfl, -⟩ := planFrom_cons h
    obtain ⟨hNext, hStop⟩ := place_within hCursor hPlace
    have hHere := place_iff hEdge hCursor hPlace
    unfold Clear
    rw [hPlace, ← hHere]
    cases placed with
    | none =>
      dsimp only
      rw [← ih (hEdge.trans (le_next hCursor hPlace rfl)) hNext hLater]
      exact ⟨fun hAll => ⟨fun r hMem => absurd hMem (Option.not_mem_none r), hAll⟩, And.right⟩
    | some r =>
      dsimp only
      rw [← ih (hStop r rfl).le hNext hLater, Option.toList_some, List.singleton_append, List.forall_mem_cons, List.pairwise_cons]
      constructor
      · rintro ⟨⟨hFirst, -⟩, hRest, hPairs⟩
        exact ⟨fun other hMem => Option.some.inj hMem ▸ hFirst, hRest, hPairs⟩
      · rintro ⟨hFirst, hRest, hPairs⟩
        have hStart := hFirst r rfl
        refine ⟨⟨hStart, fun other hOther => ?_⟩, hRest, hPairs⟩
        exact (hStart.trans (Nat.le_add_right _ _)).trans (hRest other hOther)

theorem applyReplacements_eq (h : Ordered Replacement.startIdx Replacement.stop lines.length (byStart Replacement.startIdx plan)) :
    applyReplacements lines plan =
      rewritten Replacement.startIdx Replacement.stop Replacement.newLines lines 0 (byStart Replacement.startIdx plan) :=
  foldl_splice h

/-- The replacements lie in the file one after the other in the order of the hunks, and applying them replaces their blocks
and no other line, just where no hunk marked as the end of the file goes back before one that was placed. -/
theorem ordered_iff_clear {hunks : List Hunk} (h : computeReplacements lines hunks = .ok (plan, applied)) :
    (Ordered Replacement.startIdx Replacement.stop lines.length plan ∧
      applyReplacements lines plan = rewritten Replacement.startIdx Replacement.stop Replacement.newLines lines 0 plan) ↔
    Clear lines 0 0 hunks := by
  rw [← planFrom_iff le_rfl (Nat.zero_le _) h]
  constructor
  · rintro ⟨hOrdered, -⟩
    exact ⟨fun _ _ => Nat.zero_le _, hOrdered.order⟩
  · rintro ⟨-, hPairs⟩
    have hOrdered : Ordered Replacement.startIdx Replacement.stop lines.length plan :=
      ⟨fun _ _ => Nat.le_add_right _ _, planFrom_within (Nat.zero_le _) h, hPairs⟩
    have hSorted := hOrdered.byStart
    exact ⟨hOrdered, (applyReplacements_eq (hSorted.symm ▸ hOrdered)).trans (by rw [hSorted])⟩

theorem ordered_iff_clear_edit :
    let hunks : List Hunk := [replacing "a" "x", { replacing "b" "y" with isEndOfFile := true }]
    let plan : List Replacement := [⟨0, 1, ["x".toList]⟩, ⟨1, 1, ["y".toList]⟩]
    computeReplacements ["a".toList, "b".toList] hunks = .ok (plan, 0) ∧
      ((Ordered Replacement.startIdx Replacement.stop 2 plan ∧ applyReplacements ["a".toList, "b".toList] plan =
        rewritten Replacement.startIdx Replacement.stop Replacement.newLines ["a".toList, "b".toList] 0 plan) ↔
      Clear ["a".toList, "b".toList] 0 0 hunks) := by
  intro hunks plan
  have hPlan : computeReplacements ["a".toList, "b".toList] hunks = .ok (plan, 0) := by decide
  exact ⟨hPlan, ordered_iff_clear hPlan⟩

/-- A hunk at the end of the file goes over a line that another has replaced, and its own line is lost. -/
theorem endOfFile_overlaps :
    let hunks : List Hunk := [{ lines := [⟨.remove, "a".toList⟩, ⟨.remove, "b".toList⟩, ⟨.add, "x".toList⟩] },
      { lines := [⟨.remove, "b".toList⟩, ⟨.add, "y".toList⟩], isEndOfFile := true }]
    let plan : List Replacement := [⟨0, 2, ["x".toList]⟩, ⟨1, 1, ["y".toList]⟩]
    computeReplacements ["a".toList, "b".toList] hunks = .ok (plan, 0) ∧
      ¬ Ordered Replacement.startIdx Replacement.stop 2 plan ∧ applyReplacements ["a".toList, "b".toList] plan = ["x".toList] := by
  refine ⟨by decide, fun hOrdered => ?_, by decide⟩
  have hStop : 2 ≤ 1 := (List.pairwise_cons.mp hOrdered.order).1 _ List.mem_cons_self
  omega

end Plan

end Stella.Patch
