import Mathlib.Data.Nat.Digits.Defs
import Stella.Edit.Match

/-! # Edits addressed by anchors

`hashline.ts`, which is there twice: for the `Edit` tool of the desktop, and for the cloud's
world.
-/

namespace Stella.Edit

open Patch (isSpace joinLines trim)
open World (Text)

structure HashLineAnchor where
  line : Nat
  hash : Text

inductive EditError
  | staleAnchor (anchor : HashLineAnchor)
  | endBeforeAnchor (endLine startLine : Nat)
  | blankOldString
  | missingText (oldText : Text)
  | duplicateMatch (occurrences : Nat) (locations : List Nat)
  | notFound
  | identicalStrings
  | inEdit (index : Nat) (error : EditError)
  | overlap (first second : Nat)
  | identicalContent

theorem eq_ok_of_toOption {α : Type} {answer : Except EditError α} {a : α} (h : answer.toOption = some a) : answer = .ok a := by
  cases answer with
  | error error => cases h
  | ok b => exact congrArg Except.ok (Option.some.inj h)

/-! ## Hashes of lines -/

def hashTagLength : Nat := 3

def hashSpace : Nat := 36 ^ hashTagLength

/-- `charCodeAt`, for each UTF-16 unit of a character. -/
def charCodes (c : Char) : List Nat :=
  if c.toNat < 0x10000 then [c.toNat] else [0xd800 + (c.toNat - 0x10000) / 0x400, 0xdc00 + (c.toNat - 0x10000) % 0x400]

def base36Digit (digit : Nat) : Char := if digit < 10 then Char.ofNat (48 + digit) else Char.ofNat (87 + digit)

def hashLineTag (line : Text) : Text :=
  let hash : UInt32 := (line.flatMap charCodes).foldl (fun hash code => (hash ^^^ UInt32.ofNat code) * 0x01000193) 0x811c9dc5
  let digits := (Nat.digits 36 (hash.toNat % hashSpace)).reverse.map base36Digit
  List.replicate (hashTagLength - digits.length) '0' ++ digits

def nearest (lines : List Text) (hash : Text) (hintIndex : Int) : Option Nat :=
  (List.range lines.length).foldl (fun best index =>
    if hashLineTag (lines.getD index []) ≠ hash then best
    else
      match best with
      | none => some index
      | some found => if (index - hintIndex).natAbs < (found - hintIndex).natAbs then some index else best) none

def resolveAnchor (lines : List Text) (anchor : HashLineAnchor) : Except EditError Nat :=
  let hintIndex : Int := anchor.line - 1
  if 0 ≤ hintIndex ∧ hintIndex < lines.length ∧ hashLineTag (lines.getD hintIndex.toNat []) = anchor.hash then .ok hintIndex.toNat
  else
    match nearest lines anchor.hash hintIndex with
    | some best => .ok best
    | none => .error (.staleAnchor anchor)

/-! ## Pasted prefixes -/

def isTagChar (c : Char) : Bool := c.isDigit || c.isLower

/-- What follows the match of `/^\s*\d+(#[0-9a-z]+)?\t/` in a line. -/
def afterPrefix (line : Text) : Option Text :=
  let number := line.dropWhile isSpace
  if number.takeWhile Char.isDigit = [] then none
  else
    match number.dropWhile Char.isDigit with
    | '\t' :: rest => some rest
    | '#' :: tag =>
      if tag.takeWhile isTagChar = [] then none
      else
        match tag.dropWhile isTagChar with
        | '\t' :: rest => some rest
        | _ => none
    | _ => none

def stripHashLinePrefixes (text : Text) : Text :=
  let lines := text.splitOn '\n'
  let meaningful := lines.filter fun line => trim line ≠ []
  if meaningful = [] ∨ ¬ meaningful.all (fun line => (afterPrefix line).isSome) then text
  else joinLines (lines.map fun line => (afterPrefix line).getD line)

/-! ## One anchored edit -/

structure AnchoredEdit where
  anchor : HashLineAnchor
  endAnchor : Option HashLineAnchor := none
  newText : Text
  insertAfter : Bool := false

structure AnchoredEditResult where
  content : Text
  startLine : Nat
  endLine : Nat
  linesRemoved : Nat
  linesAdded : Nat

def resolveRange (lines : List Text) (edit : AnchoredEdit) : Except EditError (Nat × Nat) := do
  let startIndex ← resolveAnchor lines edit.anchor
  let endIndex ← edit.endAnchor.elim (.ok startIndex) (resolveAnchor lines)
  if endIndex < startIndex then throw (.endBeforeAnchor (endIndex + 1) (startIndex + 1))
  else pure (startIndex, endIndex)

def splice (lines : List Text) (start deleteCount : Nat) (items : List Text) : List Text :=
  lines.take start ++ items ++ lines.drop (start + deleteCount)

def applyToLines (lines : List Text) (newText : Text) (edit : AnchoredEdit) : Except EditError AnchoredEditResult := do
  let (startIndex, endIndex) ← resolveRange lines edit
  let replacementLines := if newText = [] && !edit.insertAfter then [] else newText.splitOn '\n'
  if edit.insertAfter then
    pure {
      content := joinLines (splice lines (startIndex + 1) 0 replacementLines)
      startLine := startIndex + 1
      endLine := startIndex + 1
      linesRemoved := 0
      linesAdded := replacementLines.length }
  else
    let removed := endIndex - startIndex + 1
    pure {
      content := joinLines (splice lines startIndex removed replacementLines)
      startLine := startIndex + 1
      endLine := endIndex + 1
      linesRemoved := removed
      linesAdded := replacementLines.length }

def applyAnchoredEdit (content : Text) (edit : AnchoredEdit) : Except EditError AnchoredEditResult :=
  applyToLines (content.splitOn '\n') (normalizeToLF (stripHashLinePrefixes edit.newText)) edit

namespace Cloud

def applyAnchoredEdit (content : Text) (edit : AnchoredEdit) : Except EditError AnchoredEditResult :=
  applyToLines ((normalizeToLF content).splitOn '\n') (stripHashLinePrefixes (normalizeToLF edit.newText)) edit

end Cloud

end Stella.Edit
