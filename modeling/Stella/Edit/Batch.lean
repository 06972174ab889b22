import Stella.Library.Blocks
import Stella.Edit.Hashline

/-! # Edits of the `Edit` tool

`edit-text.ts`: one replacement, or a list of edits. The edits of a list are all located in the
content as it was, and are applied in one pass.
-/

namespace Stella.Edit

open Patch (trim)
open Search (indexOf)
open World (Text utf16Length)

inductive EditSpec
  | text (oldText newText : Text)
  | anchor (edit : AnchoredEdit)

/-- `includes`. -/
def includes (content text : Text) : Bool := (indexOf content text 0).isSome

/-! ## One replacement -/

structure StringReplacementResult where
  content : Text
  replacements : Nat
  noChange : Bool := false
  deriving DecidableEq

/-- `content.split(separator)`, from a position on, for the places where the separator is. -/
def splitAtPlaces (content separator : Text) : Nat → List Nat → List Text
  | pos, [] => [content.drop pos]
  | pos, place :: places =>
    (content.drop pos).take (place - pos) :: splitAtPlaces content separator (place + separator.length) places

def split (content separator : Text) : List Text := splitAtPlaces content separator 0 (findOccurrences content separator)

def applyStringReplacement (unicode : Unicode) (content oldString newString : Text) (replaceAll : Bool) :
    Except EditError StringReplacementResult :=
  let normalizedOld := normalizeToLF oldString
  let normalizedNew := normalizeToLF newString
  if trim normalizedOld = [] then .error .blankOldString
  else if 8 ≤ utf16Length normalizedNew && includes content normalizedNew &&
      (normalizedOld = normalizedNew || !includes content normalizedOld) then
    .ok { content := content, replacements := 0, noChange := true }
  else
    let exactLocations := findOccurrences content normalizedOld
    if !replaceAll && 1 < exactLocations.length then .error (.duplicateMatch exactLocations.length exactLocations)
    else if replaceAll then
      let occurrences := (split content normalizedOld).length - 1
      if occurrences = 0 then .error .notFound
      else .ok { content := List.intercalate normalizedNew (split content normalizedOld), replacements := occurrences }
    else
      match fuzzyFindText unicode content normalizedOld with
      | none => .error (.missingText normalizedOld)
      | some found =>
        if 1 < found.occurrences then .error (.duplicateMatch found.occurrences found.locations)
        else
          let replaced := content.take found.index ++ found.leading ++ normalizedNew ++ found.trailing ++
            content.drop (found.index + found.matchLength)
          if content = replaced then .error .identicalStrings
          else .ok { content := replaced, replacements := 1 }

/-! ## A list of edits -/

structure Placed where
  start : Nat
  stop : Nat
  text : Text
  deriving DecidableEq

structure PlannedReplacement extends Placed where
  editIndex : Nat

def lineStartsFrom : Nat → Text → List Nat
  | _, [] => []
  | index, c :: text => if c = '\n' then (index + 1) :: lineStartsFrom (index + 1) text else lineStartsFrom (index + 1) text

def lineStarts (content : Text) : List Nat := 0 :: lineStartsFrom 0 content

def planAnchorEdit (content : Text) (lines : List Text) (starts : List Nat) (edit : AnchoredEdit) : Except EditError Placed := do
  let (startIndex, endIndex) ← resolveRange lines edit
  let newText := normalizeToLF (stripHashLinePrefixes edit.newText)
  let lineEnd := fun index => starts.getD index 0 + (lines.getD index []).length
  if edit.insertAfter then
    pure { start := lineEnd startIndex, stop := lineEnd startIndex, text := '\n' :: newText }
  else if newText ≠ [] then
    pure { start := starts.getD startIndex 0, stop := lineEnd endIndex, text := newText }
  -- Deleted lines take one newline with them, that before them if they are the last ones.
  else if endIndex + 1 < lines.length then
    pure { start := starts.getD startIndex 0, stop := starts.getD (endIndex + 1) 0, text := [] }
  else if 0 < startIndex then
    pure { start := lineEnd (startIndex - 1), stop := content.length, text := [] }
  else
    pure { start := 0, stop := content.length, text := [] }

def planEdit (unicode : Unicode) (content : Text) : EditSpec → Except EditError Placed
  | .anchor edit => planAnchorEdit content (content.splitOn '\n') (lineStarts content) edit
  | .text oldText newText =>
    let oldText := normalizeToLF oldText
    if trim oldText = [] then .error .blankOldString
    else
      match fuzzyFindText unicode content oldText with
      | none => .error (.missingText oldText)
      | some found =>
        if 1 < found.occurrences then .error (.duplicateMatch found.occurrences found.locations)
        else .ok {
          start := found.index
          stop := found.index + found.matchLength
          text := found.leading ++ normalizeToLF newText ++ found.trailing }

def planEdits (unicode : Unicode) (content : Text) : Nat → List EditSpec → Except EditError (List PlannedReplacement)
  | _, [] => .ok []
  | editIndex, edit :: edits =>
    match planEdit unicode content edit with
    | .error error => .error (.inEdit editIndex error)
    | .ok placed => (planEdits unicode content (editIndex + 1) edits).map fun planned => ⟨placed, editIndex⟩ :: planned

def PlannedReplacement.before (left right : PlannedReplacement) : Prop :=
  left.start < right.start ∨
    left.start = right.start ∧ (left.stop < right.stop ∨ left.stop = right.stop ∧ left.editIndex ≤ right.editIndex)

instance : DecidableRel PlannedReplacement.before := fun left right =>
  inferInstanceAs (Decidable (left.start < right.start ∨
    left.start = right.start ∧ (left.stop < right.stop ∨ left.stop = right.stop ∧ left.editIndex ≤ right.editIndex)))

def firstOverlap : List PlannedReplacement → Option (Nat × Nat)
  | previous :: current :: rest =>
    if previous.stop > current.start then some (previous.editIndex, current.editIndex) else firstOverlap (current :: rest)
  | _ => none

def lineIndex (starts : List Nat) (offset low high : Nat) : Nat :=
  if low < high then
    let mid := (low + high + 1) / 2
    if starts.getD mid 0 ≤ offset then lineIndex starts offset mid high else lineIndex starts offset low (mid - 1)
  else low
termination_by high - low

def lineOf (starts : List Nat) (offset : Nat) : Nat := lineIndex starts offset 0 (starts.length - 1) + 1

structure AppliedEditsSummary where
  content : Text
  lines : List Nat
  deriving DecidableEq

def applyEditsToContent (unicode : Unicode) (content : Text) (edits : List EditSpec) : Except EditError AppliedEditsSummary := do
  let planned ← planEdits unicode content 0 edits
  let ordered := planned.insertionSort PlannedReplacement.before
  match firstOverlap ordered with
  | some (first, second) => throw (.overlap first second)
  | none =>
    let next := ordered.reverse.foldl
      (Blocks.splice (fun replacement => replacement.start) (fun replacement => replacement.stop) (fun replacement => replacement.text))
      content
    if next = content then throw .identicalContent
    else pure { content := next, lines := planned.map fun replacement => lineOf (lineStarts content) replacement.start }

end Stella.Edit
