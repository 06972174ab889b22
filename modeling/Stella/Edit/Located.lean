import Mathlib.Data.List.SplitBy
import Stella.Edit.Lines
import Stella.Edit.Unambiguous

/-! # Where edits are located

The range of an edit lies in the content, that of a folded match as well: what the view maps
its characters to are offsets of the content.
-/

namespace Stella.Edit

open List

open Patch (joinLines joinLines_cons)
open Search (indexOf_eq_some)
open World (Text)

variable {unicode : Unicode} {content text line : Text} {lines : List Text} {lineOffset offset size : Nat}

/-! ## Offsets of the view -/

theorem clusterCells_le {parts : List Text} {cell : Char × Option Nat} (hCell : cell ∈ clusterCells unicode lineOffset parts)
    (hOffset : offset ∈ cell.2) : offset ≤ lineOffset + parts.flatten.length := by
  induction parts generalizing lineOffset with
  | nil => cases hCell
  | cons cluster rest ih =>
    rw [flatten_cons, length_append]
    rcases mem_append.mp hCell with hHere | hLater
    · obtain ⟨index, hIndex, rfl⟩ := mem_mapIdx.mp hHere
      dsimp only at hOffset
      split at hOffset
      · cases hOffset
        omega
      · cases hOffset
    · have := ih hLater
      omega

theorem lineCells_le {cell : Char × Option Nat} (hCell : cell ∈ lineCells unicode lineOffset line) (hOffset : offset ∈ cell.2) :
    offset ≤ lineOffset + line.length := by
  unfold lineCells at hCell
  split at hCell
  · obtain ⟨index, hIndex, rfl⟩ := mem_mapIdx.mp hCell
    cases hOffset
    omega
  · have hBound := clusterCells_le hCell hOffset
    rwa [clusters, flatten_splitBy] at hBound

theorem strippedFrom_le (lineOffset : Nat) (line : Text) : strippedFrom unicode lineOffset line ≤ lineOffset + line.length := by
  unfold strippedFrom
  dsimp only
  split
  · next hCell => exact lineCells_le (mem_of_getElem? hCell) rfl
  · exact le_rfl

def Within (size : Nat) (cells : List Cell) : Prop :=
  ∀ cell ∈ cells, (∀ offset ∈ cell.start, offset ≤ size) ∧ ∀ offset ∈ cell.stop, offset ≤ size

theorem keptCells_within (lineOffset : Nat) (line : Text) :
    Within (lineOffset + line.length) (keptCells unicode lineOffset line) := by
  intro cell hCell
  obtain ⟨source, hSrc, rfl⟩ := mem_map.mp hCell
  have hBound : ∀ offset ∈ source.2, offset ≤ lineOffset + line.length := fun _ => lineCells_le (mem_of_mem_take hSrc)
  exact ⟨hBound, hBound⟩

theorem Within.mono {cells : List Cell} {other : Nat} (h : Within size cells) (hLe : size ≤ other) :
    Within other cells := fun cell hCell =>
  ⟨fun offset hOffset => ((h cell hCell).1 offset hOffset).trans hLe, fun offset hOffset => ((h cell hCell).2 offset hOffset).trans hLe⟩

theorem viewLines_within (hSome : lines ≠ []) : Within (lineOffset + (joinLines lines).length) (viewLines unicode lineOffset lines).1 ∧
    (viewLines unicode lineOffset lines).2 ≤ lineOffset + (joinLines lines).length := by
  induction lines generalizing lineOffset with
  | nil => exact absurd rfl hSome
  | cons line lines ih =>
    cases lines with
    | nil =>
      rw [joinLines_singleton]
      exact ⟨keptCells_within lineOffset line, strippedFrom_le lineOffset line⟩
    | cons next rest =>
      obtain ⟨hCells, hLast⟩ := @ih (lineOffset + line.length + 1) (cons_ne_nil next rest)
      have hStripped := @strippedFrom_le unicode lineOffset line
      rw [joinLines_cons (cons_ne_nil next rest), length_append, length_cons, viewLines]
      refine ⟨fun cell hCell => ?_, by dsimp only; omega⟩
      rcases mem_append.mp hCell with hHere | hLater
      · exact (keptCells_within lineOffset line).mono (by omega) cell hHere
      · rcases mem_cons.mp hLater with rfl | hRest
        · constructor
          · rintro offset ⟨⟩
            omega
          · rintro offset ⟨⟩
            omega
        · exact hCells.mono (by omega) cell hRest

theorem view_within (unicode : Unicode) (text : Text) : Within text.length (normalizeForFuzzyMatchWithMap unicode text).cells ∧
    (normalizeForFuzzyMatchWithMap unicode text).strippedFrom ≤ text.length := by
  have hView := @viewLines_within unicode (text.splitOn '\n') 0 (splitOn_ne_nil '\n' text)
  rwa [joinLines_splitOn, Nat.zero_add] at hView

/-! ## Matches -/

theorem lookup_le {offsets : List (Option Nat)} (h : ∀ entry ∈ offsets, ∀ offset ∈ entry, offset ≤ size) (index : Nat) :
    (offsets[index]?.join).getD 0 ≤ size := by
  cases hEnt : offsets[index]? with
  | none => exact Nat.zero_le size
  | some entry =>
    cases entry with
    | none => exact Nat.zero_le size
    | some offset => exact h _ (mem_of_getElem? hEnt) offset rfl

theorem toOriginal_within (unicode : Unicode) (text : Text) (size found : Nat) :
    (toOriginal (normalizeForFuzzyMatchWithMap unicode text) size found).index +
      (toOriginal (normalizeForFuzzyMatchWithMap unicode text) size found).matchLength ≤ text.length := by
  obtain ⟨hCells, hStripped⟩ := view_within unicode text
  have hStarts : ∀ entry ∈ (normalizeForFuzzyMatchWithMap unicode text).startMap, ∀ offset ∈ entry, offset ≤ text.length := by
    intro entry hEnt offset hOffset
    rcases mem_append.mp hEnt with hMap | hEnd
    · obtain ⟨cell, hCell, rfl⟩ := mem_map.mp hMap
      exact (hCells cell hCell).1 offset hOffset
    · obtain rfl := mem_singleton.mp hEnd
      cases hOffset
      exact le_rfl
  have hStops : ∀ entry ∈ (normalizeForFuzzyMatchWithMap unicode text).endMap, ∀ offset ∈ entry, offset ≤ text.length := by
    intro entry hEnt offset hOffset
    rcases mem_append.mp hEnt with hMap | hEnd
    · obtain ⟨cell, hCell, rfl⟩ := mem_map.mp hMap
      exact (hCells cell hCell).2 offset hOffset
    · obtain rfl := mem_singleton.mp hEnd
      cases hOffset
      exact hStripped
  have hStart := lookup_le hStarts (startFrom (normalizeForFuzzyMatchWithMap unicode text).startMap found)
  have hStop := lookup_le hStops (endFrom (normalizeForFuzzyMatchWithMap unicode text).endMap (found + size))
  unfold toOriginal
  dsimp only
  omega

theorem findOccurrences_first {needle : Text} (hSome : needle ≠ []) {first : Nat} {others : List Nat}
    (h : findOccurrences content needle = first :: others) : first + needle.length ≤ content.length :=
  (indexOf_eq_some hSome (findOccurrences_eq_cons hSome h).1).2.1.le hSome

theorem fuzzyFindText_within {oldText : Text} {found : FuzzyMatchResult} (h : fuzzyFindText unicode content oldText = some found) :
    found.index + found.matchLength ≤ content.length := by
  unfold fuzzyFindText at h
  split at h
  · next first others hFirst =>
    cases h
    split at hFirst
    · cases hFirst
    · next hSome => exact findOccurrences_first hSome hFirst
  · dsimp only at h
    split at h
    · cases h
    · split at h
      · cases h
      · cases h
        exact toOriginal_within unicode content _ _

theorem planEdit_within {edit : EditSpec} {placed : Placed} (h : planEdit unicode content edit = .ok placed) :
    placed.start ≤ placed.stop ∧ placed.stop ≤ content.length := by
  cases edit with
  | text oldText newText =>
    obtain ⟨-, found, hFound, -, rfl⟩ := found_of_planEdit h
    exact ⟨Nat.le_add_right _ _, fuzzyFindText_within hFound⟩
  | anchor edit =>
    change planAnchorEdit content (content.splitOn '\n') (lineStarts content) edit = .ok placed at h
    cases hRng : resolveRange (content.splitOn '\n') edit with
    | error error =>
      unfold planAnchorEdit at h
      rw [hRng] at h
      cases h
    | ok range =>
      obtain ⟨other, result, hOther, -, hLe, hWith, -⟩ := planAnchorEdit_agrees hRng
      obtain rfl := Except.ok.inj (hOther.symm.trans h)
      exact ⟨hLe, hWith⟩

end Stella.Edit
