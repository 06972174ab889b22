import Mathlib.Data.List.Find
import Mathlib.Data.List.Sort
import Stella.World.Path

/-! # Updating a file from a patch

The Update op of `apply_patch`, twice: `kernel/tools/apply-patch.ts` on the desktop and
`handlePatch` of `world/tools.ts` in the cloud.
-/

namespace Stella.Patch

open World (Text utf16Length)

inductive HunkLineKind
  | context
  | remove
  | add
  deriving DecidableEq

structure HunkLine where
  kind : HunkLineKind
  text : Text

structure Hunk where
  header : Option Text := none
  lines : List HunkLine
  isEndOfFile : Bool := false

inductive PatchError
  | missingContext (header : Text)
  | missingLines (oldLines : List Text)
  deriving DecidableEq

inductive Updated
  | noop
  | text (content : Text)
  deriving DecidableEq

structure Replacement where
  startIdx : Nat
  oldLen : Nat
  newLines : List Text
  deriving DecidableEq

/-- White space and line ends as `trim` and `\s` have them. -/
def isSpace (c : Char) : Bool :=
  c.toNat ∈ [0x9, 0xa, 0xb, 0xc, 0xd, 0x20, 0xa0, 0x1680, 0x2000, 0x2001, 0x2002, 0x2003, 0x2004, 0x2005, 0x2006, 0x2007,
    0x2008, 0x2009, 0x200a, 0x2028, 0x2029, 0x202f, 0x205f, 0x3000, 0xfeff]

def trimEnd (text : Text) : Text := (text.reverse.dropWhile isSpace).reverse

def trim (text : Text) : Text := trimEnd (text.dropWhile isSpace)

def dashes : List Nat := [0x2010, 0x2011, 0x2012, 0x2013, 0x2014, 0x2015, 0x2212]

def singleQuotes : List Nat := [0x2018, 0x2019, 0x201a, 0x201b]

def doubleQuotes : List Nat := [0x201c, 0x201d, 0x201e, 0x201f]

def wideSpaces : List Nat :=
  [0xa0, 0x2002, 0x2003, 0x2004, 0x2005, 0x2006, 0x2007, 0x2008, 0x2009, 0x200a, 0x202f, 0x205f, 0x3000]

def fuzzyChar (ch : Char) : Char :=
  if ch.toNat ∈ dashes then '-'
  else if ch.toNat ∈ singleQuotes then Char.ofNat 0x27
  else if ch.toNat ∈ doubleQuotes then Char.ofNat 0x22
  else if ch.toNat ∈ wideSpaces then ' '
  else ch

def fuzzyNormalize (text : Text) : Text := (trim text).map fuzzyChar

/-- `value.replace(/[…]/gu, …)` for a set of single characters. -/
def replaceAll (inSet : Char → Bool) (put : Char) (value : Text) : Text := value.map (fun c => if inSet c then put else c)

def fuzzy (value : Text) : Text :=
  replaceAll isSpace ' ' (replaceAll (fun c => c.toNat ∈ doubleQuotes) (Char.ofNat 0x22)
    (replaceAll (fun c => c.toNat ∈ singleQuotes) (Char.ofNat 0x27)
      (replaceAll (fun c => c.toNat ∈ dashes) '-' (trim value))))

def matchAt (compare : Text → Text → Bool) (lines pattern : List Text) (index : Nat) : Bool :=
  (List.range pattern.length).all (fun j => compare (lines.getD (index + j) []) (pattern.getD j []))

def matchExact : List Text → List Text → Nat → Bool := matchAt (fun a b => a = b)
def matchTrimEnd : List Text → List Text → Nat → Bool := matchAt (fun a b => trimEnd a = trimEnd b)
def matchTrim : List Text → List Text → Nat → Bool := matchAt (fun a b => trim a = trim b)
def matchFuzzy : List Text → List Text → Nat → Bool := matchAt (fun a b => fuzzyNormalize a = fuzzyNormalize b)

def seekBy (levels : List (List Text → List Text → Nat → Bool)) (lines pattern : List Text) (start : Nat) (eof : Bool) :
    Option Nat :=
  if pattern = [] then some start
  else if lines.length < pattern.length then none
  else
    let upper := lines.length - pattern.length
    let searchStart := if eof then upper else start
    levels.findSome? (fun level => (List.range' searchStart (upper + 1 - searchStart)).find? (level lines pattern))

abbrev Seek := List Text → List Text → Nat → Bool → Option Nat

def seekSequence : Seek := seekBy [matchExact, matchTrimEnd, matchTrim, matchFuzzy]

/-- `seek` of the cloud. -/
def seek : Seek := seekBy [matchExact, matchTrimEnd, matchTrim, matchAt (fun a b => fuzzy a = fuzzy b)]

/-- `findExactSequenceLocations`, and `exactLocations` of the cloud. -/
def findExactSequenceLocations (lines pattern : List Text) : List Nat :=
  if pattern = [] ∨ lines.length < pattern.length then []
  else (List.range (lines.length - pattern.length + 1)).filter (matchExact lines pattern)

def joinLines (lines : List Text) : Text := List.intercalate ['\n'] lines

def isAlreadyAppliedHunk (fileLines oldLines newLines : List Text) : Bool :=
  !(utf16Length (joinLines newLines) < 8 || newLines = []) &&
    0 < (findExactSequenceLocations fileLines newLines).length &&
      (findExactSequenceLocations fileLines oldLines).length = 0

def oldLinesOf (hunk : Hunk) : List Text :=
  (hunk.lines.filter (fun line => line.kind ≠ .add)).map HunkLine.text

def newLinesOf (hunk : Hunk) : List Text :=
  (hunk.lines.filter (fun line => line.kind ≠ .remove)).map HunkLine.text

def locate (seek : Seek) (lines : List Text) (cursor : Nat) (eof : Bool) (oldLines newLines : List Text) :
    Option Replacement :=
  match seek lines oldLines cursor eof with
  | some found => some ⟨found, oldLines.length, newLines⟩
  | none =>
    if oldLines.getLast? = some [] then
      let trimmedReplacement := if newLines.getLast? = some [] then newLines.dropLast else newLines
      (seek lines oldLines.dropLast cursor eof).map (fun found => ⟨found, oldLines.dropLast.length, trimmedReplacement⟩)
    else none

def place (seek : Seek) (lines : List Text) (cursor : Nat) (hunk : Hunk) : Except PatchError (Option Replacement × Nat) :=
  let fromHeader : Except PatchError Nat :=
    match hunk.header.filter (· ≠ []) with
    | none => .ok cursor
    | some header =>
      match seek lines [header] cursor false with
      | none => .error (.missingContext header)
      | some headerIdx => .ok (headerIdx + 1)
  match fromHeader with
  | .error e => .error e
  | .ok cursor =>
    let oldLines := oldLinesOf hunk
    let newLines := newLinesOf hunk
    if oldLines = [] then .ok (some ⟨lines.length, 0, newLines⟩, lines.length)
    else
      match locate seek lines cursor hunk.isEndOfFile oldLines newLines with
      | some replacement => .ok (some replacement, replacement.startIdx + replacement.oldLen)
      | none =>
        if isAlreadyAppliedHunk lines oldLines newLines then .ok (none, cursor) else .error (.missingLines oldLines)

def planFrom (seek : Seek) (lines : List Text) : Nat → List Hunk → Except PatchError (List Replacement × Nat)
  | _, [] => .ok ([], 0)
  | cursor, hunk :: rest =>
    match place seek lines cursor hunk with
    | .error e => .error e
    | .ok (placed, cursor) =>
      match planFrom seek lines cursor rest with
      | .error e => .error e
      | .ok (later, alreadyApplied) =>
        match placed with
        | some replacement => .ok (replacement :: later, alreadyApplied)
        | none => .ok (later, alreadyApplied + 1)

def computeReplacements (fileLines : List Text) (hunks : List Hunk) : Except PatchError (List Replacement × Nat) :=
  planFrom seekSequence fileLines 0 hunks

/-- `lines.splice(startIdx, oldLen, ...newLines)`. -/
def splice (lines : List Text) (r : Replacement) : List Text :=
  lines.take r.startIdx ++ r.newLines ++ lines.drop (r.startIdx + r.oldLen)

def applyReplacements (fileLines : List Text) (replacements : List Replacement) : List Text :=
  (replacements.insertionSort (fun a b => a.startIdx ≤ b.startIdx)).reverse.foldl splice fileLines

def spliceDescending (lines : List Text) (replacements : List Replacement) : List Text :=
  (replacements.insertionSort (fun a b => b.startIdx ≤ a.startIdx)).foldl splice lines

def endsWithNewline (content : Text) : Bool := content.getLast? = some '\n'

def fileLines (content : Text) : List Text :=
  let lines := content.splitOn '\n'
  if endsWithNewline content then lines.dropLast else lines

def updated (apply : List Text → List Replacement → List Text) (content : Text) (plan : List Replacement × Nat) : Updated :=
  if plan.1 = [] ∧ 0 < plan.2 then .noop
  else .text (joinLines (apply (fileLines content) plan.1) ++ if endsWithNewline content then ['\n'] else [])

/-- `applyUpdate` of the desktop, from the text of the file to the text it writes. -/
def applyUpdate (content : Text) (hunks : List Hunk) : Except PatchError Updated :=
  (computeReplacements (fileLines content) hunks).map (updated applyReplacements content)

/-- The Update op of the cloud's `handlePatch`. -/
def handlePatch (content : Text) (hunks : List Hunk) : Except PatchError Updated :=
  (planFrom seek (fileLines content) 0 hunks).map (updated spliceDescending content)

end Stella.Patch
