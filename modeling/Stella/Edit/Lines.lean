import Stella.Edit.Batch
import Stella.Patch.Render

/-! # Lines and offsets

An anchored edit splices lines, a list of edits splices ranges of the content.
-/

namespace Stella.Edit

open List

open Patch (bind_eq_ok joinLines joinLines_cons)
open World (Text)

variable {content text : Text} {lines : List Text} {edit : AnchoredEdit}

/-! ## Texts of lines -/

def ended (lines : List Text) : Text := lines.flatMap fun line => line ++ ['\n']

def begun (lines : List Text) : Text := lines.flatMap fun line => '\n' :: line

def startOffset (lines : List Text) (index : Nat) : Nat := (ended (lines.take index)).length

def endOffset (lines : List Text) (index : Nat) : Nat := (joinLines (lines.take (index + 1))).length

@[simp] theorem ended_nil : ended [] = [] := rfl

@[simp] theorem begun_nil : begun [] = [] := rfl

@[simp] theorem ended_append (front back : List Text) : ended (front ++ back) = ended front ++ ended back := flatMap_append

@[simp] theorem joinLines_nil : joinLines [] = [] := rfl

@[simp] theorem joinLines_singleton (line : Text) : joinLines [line] = line := by simp [joinLines]

theorem joinLines_splitOn (text : Text) : joinLines (text.splitOn '\n') = text := intercalate_splitOn '\n'

theorem begun_eq_cons (hSome : lines ≠ []) : begun lines = '\n' :: joinLines lines := by
  induction lines with
  | nil => exact absurd rfl hSome
  | cons line lines ih =>
    by_cases hLast : lines = []
    · subst hLast
      simp [begun]
    · have hRest := ih hLast
      unfold begun at hRest ⊢
      rw [flatMap_cons, hRest, joinLines_cons hLast, cons_append]

theorem joinLines_ended {back : List Text} (hSome : back ≠ []) (front : List Text) :
    joinLines (front ++ back) = ended front ++ joinLines back := by
  induction front with
  | nil => rfl
  | cons line front ih =>
    rw [cons_append, joinLines_cons (append_ne_nil_of_right_ne_nil _ hSome), ih]
    simp [ended]

theorem joinLines_begun {front : List Text} (hSome : front ≠ []) (back : List Text) :
    joinLines (front ++ back) = joinLines front ++ begun back := by
  obtain ⟨init, last, rfl⟩ := (eq_nil_or_concat' front).resolve_left hSome
  by_cases hBack : back = []
  · simp [hBack]
  · have hFront := joinLines_ended (cons_ne_nil last []) init
    have hWhole := joinLines_ended (cons_ne_nil last back) init
    rw [append_assoc, singleton_append, hWhole, hFront, joinLines_cons hBack, joinLines_singleton, begun_eq_cons hBack,
      append_assoc]

variable {index : Nat}

theorem take_startOffset (h : index < lines.length) :
    (joinLines lines).take (startOffset lines index) = ended (lines.take index) := by
  have hWhole := joinLines_ended (mt drop_eq_nil_iff.mp h.not_ge) (lines.take index)
  rw [take_append_drop] at hWhole
  rw [hWhole, startOffset, take_left]

theorem drop_startOffset (h : index < lines.length) :
    (joinLines lines).drop (startOffset lines index) = joinLines (lines.drop index) := by
  have hWhole := joinLines_ended (mt drop_eq_nil_iff.mp h.not_ge) (lines.take index)
  rw [take_append_drop] at hWhole
  rw [hWhole, startOffset, drop_left]

section

variable (hSome : lines ≠ [])
include hSome

theorem joinLines_take_drop (index : Nat) :
    joinLines lines = joinLines (lines.take (index + 1)) ++ begun (lines.drop (index + 1)) := by
  have hFront : lines.take (index + 1) ≠ [] := fun hNil => (take_eq_nil_iff.mp hNil).elim (Nat.succ_ne_zero index) hSome
  have hWhole := joinLines_begun hFront (lines.drop (index + 1))
  rwa [take_append_drop] at hWhole

theorem take_endOffset (index : Nat) :
    (joinLines lines).take (endOffset lines index) = joinLines (lines.take (index + 1)) := by
  rw [joinLines_take_drop hSome index, endOffset, take_left]

theorem drop_endOffset (index : Nat) :
    (joinLines lines).drop (endOffset lines index) = begun (lines.drop (index + 1)) := by
  rw [joinLines_take_drop hSome index, endOffset, drop_left]

theorem endOffset_le (index : Nat) : endOffset lines index ≤ (joinLines lines).length := by
  rw [joinLines_take_drop hSome index, length_append]
  exact Nat.le_add_right _ _

end

variable {first last : Nat}

theorem startOffset_le_endOffset (hLe : first ≤ last) (hLast : last < lines.length) :
    startOffset lines first ≤ endOffset lines last := by
  have hParts : lines.take (last + 1) = lines.take first ++ (lines.drop first).take (last + 1 - first) := by
    rw [← take_add, Nat.add_sub_cancel' (by omega)]
  have hSome : (lines.drop first).take (last + 1 - first) ≠ [] := by
    apply ne_nil_of_length_pos
    rw [length_take, length_drop]
    omega
  rw [endOffset, hParts, joinLines_ended hSome, length_append]
  exact Nat.le_add_right _ _

theorem startOffset_mono (hLe : first ≤ last) : startOffset lines first ≤ startOffset lines last := by
  have hParts : lines.take last = lines.take first ++ (lines.drop first).take (last - first) := by
    rw [← take_add, Nat.add_sub_cancel' hLe]
  rw [startOffset, startOffset, hParts, ended_append, length_append]
  exact Nat.le_add_right _ _

theorem startOffset_le (h : index < lines.length) : startOffset lines index ≤ (joinLines lines).length :=
  (startOffset_le_endOffset le_rfl h).trans (endOffset_le (ne_nil_of_length_pos (by omega)) index)

/-! ## Where lines start -/

theorem lineStartsFrom_append (index : Nat) (front back : Text) :
    lineStartsFrom index (front ++ back) = lineStartsFrom index front ++ lineStartsFrom (index + front.length) back := by
  induction front generalizing index with
  | nil => rfl
  | cons c front ih =>
    rw [cons_append, lineStartsFrom, lineStartsFrom, ih, length_cons, Nat.add_assoc, Nat.add_comm 1]
    split
    · rfl
    · rfl

theorem lineStartsFrom_plain (index : Nat) (h : '\n' ∉ text) : lineStartsFrom index text = [] := by
  induction text generalizing index with
  | nil => rfl
  | cons c text ih =>
    rw [mem_cons, not_or] at h
    rw [lineStartsFrom, if_neg (Ne.symm h.1), ih _ h.2]

theorem starts_getD (hPlain : ∀ line ∈ lines, '\n' ∉ line) (hIndex : index < lines.length) (offset : Nat) :
    (offset :: lineStartsFrom offset (joinLines lines)).getD index 0 = offset + startOffset lines index := by
  induction lines generalizing offset index with
  | nil => cases hIndex
  | cons line lines ih =>
    rw [forall_mem_cons] at hPlain
    cases index with
    | zero => simp [startOffset]
    | succ index =>
      rw [length_cons, Nat.succ_lt_succ_iff] at hIndex
      have hSome : lines ≠ [] := ne_nil_of_length_pos (by omega)
      have hNext := ih hPlain.2 hIndex (offset + line.length + 1)
      rw [joinLines_cons hSome, lineStartsFrom_append, lineStartsFrom_plain _ hPlain.1, nil_append, lineStartsFrom, if_pos rfl,
        getD_cons_succ, hNext]
      simp only [startOffset, take_succ_cons, ended, flatMap_cons, length_append, length_singleton]
      omega

theorem lineStarts_getD (hIndex : index < (content.splitOn '\n').length) :
    (lineStarts content).getD index 0 = startOffset (content.splitOn '\n') index := by
  have hStart := starts_getD (fun _ => Search.not_mem_of_mem_splitOn) hIndex 0
  rwa [joinLines_splitOn, Nat.zero_add] at hStart

theorem lineStarts_add_length (hIndex : index < (content.splitOn '\n').length) :
    (lineStarts content).getD index 0 + ((content.splitOn '\n').getD index []).length = endOffset (content.splitOn '\n') index := by
  rw [lineStarts_getD hIndex, endOffset, take_succ_eq_append_getElem hIndex, joinLines_ended (by simp), joinLines_singleton,
    length_append, startOffset, getD_eq_getElem?_getD, getElem?_eq_getElem hIndex, Option.getD_some]

/-! ## The range of an edit -/

theorem nearest_lt {hash : Text} {hintIndex : Int} {best : Nat} (h : nearest lines hash hintIndex = some best) :
    best < lines.length := by
  have hAll : ∀ index ∈ nearest lines hash hintIndex, index < lines.length := by
    unfold nearest
    refine List.foldlRecOn _ _ (motive := fun found : Option Nat => ∀ index ∈ found, index < lines.length) (fun _ hNone => nomatch hNone) ?_
    intro found hFound index hIndex
    have hHere : ∀ other ∈ some index, other < lines.length := by
      rintro other ⟨⟩
      exact mem_range.mp hIndex
    split
    · exact hFound
    · split
      · exact hHere
      · split
        · exact hHere
        · exact hFound
  exact hAll best h

theorem resolveAnchor_lt {anchor : HashLineAnchor} (h : resolveAnchor lines anchor = .ok index) : index < lines.length := by
  unfold resolveAnchor at h
  dsimp only at h
  split at h
  · next hHint =>
    cases h
    omega
  · split at h
    · next hBest =>
      cases h
      exact nearest_lt hBest
    · cases h

theorem resolveRange_bounds (h : resolveRange lines edit = .ok (first, last)) :
    first ≤ last ∧ last < lines.length := by
  obtain ⟨start, hStart, h⟩ := bind_eq_ok h
  obtain ⟨stop, hStop, h⟩ := bind_eq_ok h
  have hLen : stop < lines.length := by
    cases hAnchor : edit.endAnchor with
    | none =>
      rw [hAnchor] at hStop
      cases hStop
      exact resolveAnchor_lt hStart
    | some anchor =>
      rw [hAnchor] at hStop
      exact resolveAnchor_lt hStop
  split at h
  · cases h
  · next hLe =>
    cases h
    exact ⟨not_lt.mp hLe, hLen⟩

/-! ## Lines that are spliced -/

theorem joinLines_splice_after {items : List Text} (hIndex : index < lines.length) (hItems : items ≠ []) :
    joinLines (splice lines (index + 1) 0 items) =
      (joinLines lines).take (endOffset lines index) ++ '\n' :: joinLines items ++ (joinLines lines).drop (endOffset lines index) := by
  have hSome : lines ≠ [] := ne_nil_of_length_pos (by omega)
  have hFront : lines.take (index + 1) ≠ [] := fun hNil => (take_eq_nil_iff.mp hNil).elim (Nat.succ_ne_zero index) hSome
  rw [take_endOffset hSome, drop_endOffset hSome, splice, Nat.add_zero, append_assoc, joinLines_begun hFront, begun_eq_cons (by simp [hItems]),
    joinLines_begun hItems]
  simp

theorem joinLines_splice {items : List Text} (hLe : first ≤ last) (hLast : last < lines.length) (hItems : items ≠ []) :
    joinLines (splice lines first (last - first + 1) items) =
      (joinLines lines).take (startOffset lines first) ++ joinLines items ++ (joinLines lines).drop (endOffset lines last) := by
  have hSome : lines ≠ [] := ne_nil_of_length_pos (by omega)
  have hStop : first + (last - first + 1) = last + 1 := by omega
  rw [take_startOffset (by omega), drop_endOffset hSome, splice, hStop, append_assoc, joinLines_ended (by simp [hItems]),
    joinLines_begun hItems, append_assoc]

theorem joinLines_splice_inner (hLe : first ≤ last) (hLast : last + 1 < lines.length) :
    joinLines (splice lines first (last - first + 1) []) =
      (joinLines lines).take (startOffset lines first) ++ (joinLines lines).drop (startOffset lines (last + 1)) := by
  have hStop : first + (last - first + 1) = last + 1 := by omega
  rw [take_startOffset (by omega), drop_startOffset hLast, splice, hStop, append_nil,
    joinLines_ended (mt drop_eq_nil_iff.mp hLast.not_ge)]

theorem joinLines_splice_end {removed : Nat} (hRem : lines.length ≤ first + 1 + removed) (hSome : lines ≠ []) :
    joinLines (splice lines (first + 1) removed []) = (joinLines lines).take (endOffset lines first) := by
  rw [take_endOffset hSome, splice, drop_eq_nil_of_le (by omega), append_nil, append_nil]

theorem planAnchorEdit_agrees (h : resolveRange (content.splitOn '\n') edit = .ok (first, last)) :
    ∃ placed result, planAnchorEdit content (content.splitOn '\n') (lineStarts content) edit = .ok placed ∧
      applyToLines (content.splitOn '\n') (normalizeToLF (stripHashLinePrefixes edit.newText)) edit = .ok result ∧
      placed.start ≤ placed.stop ∧ placed.stop ≤ content.length ∧
      result.content = content.take placed.start ++ placed.text ++ content.drop placed.stop := by
  obtain ⟨hLe, hLast⟩ := resolveRange_bounds h
  have hCont := joinLines_splitOn content
  have hSome : content.splitOn '\n' ≠ [] := splitOn_ne_nil _ _
  have hFirst := hLe.trans_lt hLast
  have hLines : ∀ newText : Text, newText.splitOn '\n' ≠ [] := fun _ => splitOn_ne_nil _ _
  unfold planAnchorEdit applyToLines
  rw [h]
  dsimp only [bind, Except.bind, pure, Except.pure]
  generalize normalizeToLF (stripHashLinePrefixes edit.newText) = newText
  rw [lineStarts_add_length hFirst, lineStarts_add_length hLast, lineStarts_getD hFirst]
  cases hAfter : edit.insertAfter with
  | true =>
    simp only [Bool.not_true, Bool.and_false, Bool.false_eq_true, if_true, if_false]
    refine ⟨_, _, rfl, rfl, le_rfl, ?_, ?_⟩
    · have hBound := endOffset_le hSome first
      rwa [hCont] at hBound
    · have hSplice := joinLines_splice_after hFirst (hLines newText)
      rwa [hCont, joinLines_splitOn] at hSplice
  | false =>
    simp only [Bool.not_false, Bool.and_true, Bool.false_eq_true, if_false, decide_eq_true_eq]
    by_cases hNew : newText = []
    · simp only [hNew, ne_eq, not_true_eq_false, if_false, if_true]
      by_cases hInner : last + 1 < (content.splitOn '\n').length
      · rw [if_pos hInner, lineStarts_getD hInner]
        refine ⟨_, _, rfl, rfl, startOffset_mono (by omega), ?_, ?_⟩
        · have hBound := startOffset_le hInner
          rwa [hCont] at hBound
        · have hSplice := joinLines_splice_inner hLe hInner
          rwa [hCont, ← append_nil (List.take _ _)] at hSplice
      · rw [if_neg hInner]
        rcases first with _ | before
        · refine ⟨_, _, if_neg (lt_irrefl 0), rfl, Nat.zero_le _, le_rfl, ?_⟩
          rw [take_zero, drop_length, splice, take_zero, drop_eq_nil_of_le (by omega)]
          rfl
        · rw [if_pos (Nat.succ_pos before), Nat.add_sub_cancel, lineStarts_add_length (by omega)]
          refine ⟨_, _, rfl, rfl, ?_, le_rfl, ?_⟩
          · have hBound := endOffset_le hSome before
            rwa [hCont] at hBound
          · rw [append_nil, drop_length, append_nil]
            have hRem : (content.splitOn '\n').length ≤ before + 1 + (last - (before + 1) + 1) := by omega
            have hSplice := joinLines_splice_end hRem hSome
            rwa [hCont] at hSplice
    · simp only [hNew, ne_eq, not_false_eq_true, if_true, if_false]
      refine ⟨_, _, rfl, rfl, startOffset_le_endOffset hLe hLast, ?_, ?_⟩
      · have hBound := endOffset_le hSome last
        rwa [hCont] at hBound
      · have hSplice := joinLines_splice hLe hLast (hLines newText)
        rwa [hCont, joinLines_splitOn] at hSplice

end Stella.Edit
