import Stella.Library.Search
import Stella.Patch.Parse

/-! # Finding the text of an edit

`edit-diff.ts`: the old text is looked for as it is, then in a folded view of the content.
-/

namespace Stella.Edit

open Patch (fuzzyChar isSpace replaceCrlf trim trimEnd)
open Search (indexOf)
open World (Text)

def normalizeToLF (text : Text) : Text := (replaceCrlf text).map fun c => if c = '\r' then '\n' else c

def findOccurrencesFrom (haystack needle : Text) (cursor : Nat) : List Nat :=
  if cursor + needle.length ≤ haystack.length then
    match _h : indexOf haystack needle cursor with
    | none => []
    | some index => index :: findOccurrencesFrom haystack needle (index + max 1 needle.length)
  else []
termination_by haystack.length + 1 - cursor
decreasing_by
  have hMem := List.mem_range'_1.mp (List.mem_of_find?_eq_some _h)
  omega

def findOccurrences (haystack needle : Text) : List Nat := findOccurrencesFrom haystack needle 0

/-! ## The folded view -/

structure Unicode where
  nfkc : Text → Text
  isMark : Char → Bool

def plainUnicode : Unicode := { nfkc := id, isMark := fun _ => false }

/-- A character of the view. It stands at these offsets of the content as the start of a match and as the end of one,
at none within what one cluster was expanded to. -/
structure Cell where
  char : Char
  start : Option Nat
  stop : Option Nat

structure Fuzzy where
  cells : List Cell
  size : Nat
  strippedFrom : Nat

def Fuzzy.text (fuzzy : Fuzzy) : Text := fuzzy.cells.map Cell.char
def Fuzzy.startMap (fuzzy : Fuzzy) : List (Option Nat) := fuzzy.cells.map Cell.start ++ [some fuzzy.size]
def Fuzzy.endMap (fuzzy : Fuzzy) : List (Option Nat) := fuzzy.cells.map Cell.stop ++ [some fuzzy.strippedFrom]

section
variable (unicode : Unicode)

def normalizeFuzzyCluster (cluster : Text) : Text := (unicode.nfkc cluster).map fuzzyChar

def clusters (line : Text) : List Text := line.splitBy fun _ c => unicode.isMark c

def clusterCells : Nat → List Text → List (Char × Option Nat)
  | _, [] => []
  | offset, cluster :: rest =>
    (normalizeFuzzyCluster unicode cluster).mapIdx (fun index c => (c, if index = 0 then some offset else none)) ++
      clusterCells (offset + cluster.length) rest

def lineCells (lineOffset : Nat) (line : Text) : List (Char × Option Nat) :=
  if line.all (fun c => c.toNat ≤ 0x7f) then line.mapIdx (fun index c => (c, some (lineOffset + index)))
  else clusterCells unicode lineOffset (clusters unicode line)

def keptLength (cells : List (Char × Option Nat)) : Nat :=
  let kept := (trimEnd (cells.map Prod.fst)).length
  kept + ((cells.drop kept).takeWhile fun cell => cell.2 = none).length

def keptCells (lineOffset : Nat) (line : Text) : List Cell :=
  let cells := lineCells unicode lineOffset line
  (cells.take (keptLength cells)).map fun cell => ⟨cell.1, cell.2, cell.2⟩

def strippedFrom (lineOffset : Nat) (line : Text) : Nat :=
  let cells := lineCells unicode lineOffset line
  match cells[keptLength cells]? with
  | some (_, some offset) => offset
  | _ => lineOffset + line.length

def viewLines : Nat → List Text → List Cell × Nat
  | lineOffset, [] => ([], lineOffset)
  | lineOffset, [line] => (keptCells unicode lineOffset line, strippedFrom unicode lineOffset line)
  | lineOffset, line :: next :: rest =>
    let view := viewLines (lineOffset + line.length + 1) (next :: rest)
    (keptCells unicode lineOffset line ++ ⟨'\n', some (lineOffset + line.length), some (strippedFrom unicode lineOffset line)⟩ ::
      view.1, view.2)

def normalizeForFuzzyMatchWithMap (text : Text) : Fuzzy :=
  let view := viewLines unicode 0 (text.splitOn '\n')
  { cells := view.1, size := text.length, strippedFrom := view.2 }

def normalizeForFuzzyMatch (text : Text) : Text := (normalizeForFuzzyMatchWithMap unicode text).text

/-! ## Exact, then folded -/

structure FuzzyMatchResult where
  index : Nat
  matchLength : Nat
  usedFuzzyMatch : Bool
  occurrences : Nat
  locations : List Nat
  leading : Text
  trailing : Text

structure Original where
  index : Nat
  matchLength : Nat
  leading : Text
  trailing : Text

def startFrom (startMap : List (Option Nat)) : Nat → Nat
  | 0 => 0
  | start + 1 => if startMap[start + 1]? = some none then startFrom startMap start else start + 1

def endFrom (endMap : List (Option Nat)) (stop : Nat) : Nat :=
  stop + ((endMap.drop stop).takeWhile fun offset => offset = none).length

def toOriginal (fuzzy : Fuzzy) (size normalizedStart : Nat) : Original :=
  let normalizedEnd := normalizedStart + size
  let start := startFrom fuzzy.startMap normalizedStart
  let stop := endFrom fuzzy.endMap normalizedEnd
  let originalStart := (fuzzy.startMap[start]?.join).getD 0
  let originalEnd := max originalStart ((fuzzy.endMap[stop]?.join).getD 0)
  { index := originalStart
    matchLength := originalEnd - originalStart
    leading := (fuzzy.text.take normalizedStart).drop start
    trailing := (fuzzy.text.take stop).drop normalizedEnd }

def maxReportedLocations : Nat := 5

def fuzzyFindText (content oldText : Text) : Option FuzzyMatchResult :=
  match if oldText = [] then [] else findOccurrences content oldText with
  | first :: others => some {
      index := first
      matchLength := oldText.length
      usedFuzzyMatch := false
      occurrences := (first :: others).length
      locations := (first :: others).take maxReportedLocations
      leading := []
      trailing := [] }
  | [] =>
    let fuzzyOldText := normalizeForFuzzyMatch unicode oldText
    if fuzzyOldText = [] then none
    else
      let fuzzy := normalizeForFuzzyMatchWithMap unicode content
      match findOccurrences fuzzy.text fuzzyOldText with
      | [] => none
      | first :: others =>
        let original := toOriginal fuzzy fuzzyOldText.length first
        some {
          index := original.index
          matchLength := original.matchLength
          usedFuzzyMatch := true
          occurrences := (first :: others).length
          locations := ((first :: others).take maxReportedLocations).map fun found => (toOriginal fuzzy fuzzyOldText.length found).index
          leading := original.leading
          trailing := original.trailing }

end

end Stella.Edit
