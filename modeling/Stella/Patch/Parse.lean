import Stella.Patch.Model

/-! # Reading a patch

The parser of `apply_patch`, from the text of a patch to its file operations.
-/

namespace Stella.Patch

open World (Text)

inductive FileOp
  | add (path : Text) (lines : List Text)
  | delete (path : Text)
  | update (path : Text) (moveTo : Option Text) (hunks : List Hunk)

inductive ParseError
  | missingBegin
  | missingPath
  | notAdded (path next : Text)
  | missingHeader (path next : Text)
  | badHunkLine (candidate : Text)
  | emptyHunk (path : Text)
  | noHunks (path : Text)
  | outsideOp (line : Text)
  | missingEnd

def beginPatch : Text := "*** Begin Patch".toList
def endPatch : Text := "*** End Patch".toList
def addFile : Text := "*** Add File: ".toList
def deleteFile : Text := "*** Delete File: ".toList
def updateFile : Text := "*** Update File: ".toList
def moveFile : Text := "*** Move to: ".toList
def endOfFile : Text := "*** End of File".toList
def stars : Text := "*** ".toList
def ats : Text := "@@".toList

def startsWith (marker line : Text) : Bool := marker.isPrefixOf line

/-- `input.replace(/\r\n/g, "\n")`. -/
def replaceCrlf : Text → Text
  | '\r' :: '\n' :: rest => '\n' :: replaceCrlf rest
  | c :: rest => c :: replaceCrlf rest
  | [] => []

def stripHeredocWrapper (text : Text) : Text :=
  let lines := text.splitOn '\n'
  if lines.length < 4 then text
  else if lines.headD [] ∈ ["<<EOF".toList, "<<'EOF'".toList, "<<\"EOF\"".toList] ∧ "EOF".toList.isSuffixOf (lines.getLastD []) then
    joinLines lines.tail.dropLast
  else text

def hunkLineOf : Text → Option HunkLine
  | [] => some ⟨.context, []⟩
  | '+' :: body => some ⟨.add, body⟩
  | '-' :: body => some ⟨.remove, body⟩
  | ' ' :: body => some ⟨.context, body⟩
  | _ => none

def collectHunk : List Text → Except ParseError (List HunkLine × Bool × List Text)
  | [] => .ok ([], false, [])
  | candidate :: rest =>
    if candidate = endOfFile then .ok ([], true, rest)
    else if startsWith stars candidate || startsWith ats candidate then .ok ([], false, candidate :: rest)
    else match hunkLineOf candidate with
      | none => .error (.badHunkLine candidate)
      | some line => (collectHunk rest).map fun found => (line :: found.1, found.2)

def openHunk (path : Text) (first : Bool) (next : Text) (rest : List Text) : Except ParseError (Option Text × List Text) :=
  if startsWith ats next then
    let header := trim (next.drop 2)
    .ok (if header = [] then none else some header, rest)
  else if first then .ok (none, next :: rest)
  else .error (.missingHeader path next)

def nextHunk (path : Text) (first : Bool) (next : Text) (rest : List Text) : Except ParseError (Hunk × List Text) :=
  match openHunk path first next rest with
  | .error e => .error e
  | .ok (header, body) =>
    match collectHunk body with
    | .error e => .error e
    | .ok (lines, isEndOfFile, later) =>
      if lines.isEmpty && !isEndOfFile then .error (.emptyHunk path) else .ok ({ header, lines, isEndOfFile }, later)

variable {input later : List Text}

theorem collectHunk_length {lines : List HunkLine} {eof : Bool}
    (h : collectHunk input = .ok (lines, eof, later)) : later.length + lines.length + eof.toNat = input.length := by
  induction input generalizing lines with
  | nil =>
    cases h
    rfl
  | cons candidate rest ih =>
    unfold collectHunk at h
    split at h
    · cases h
      rfl
    · split at h
      · cases h
        rfl
      · split at h
        · cases h
        · cases hRest : collectHunk rest with
          | error e =>
            rw [hRest] at h
            cases h
          | ok found =>
            obtain ⟨more, marked, after⟩ := found
            rw [hRest] at h
            cases h
            have hLater := ih hRest
            change later.length + (more.length + 1) + eof.toNat = rest.length + 1
            omega

variable {path : Text} {first : Bool}

theorem nextHunk_length {next : Text} {rest : List Text} {hunk : Hunk}
    (h : nextHunk path first next rest = .ok (hunk, later)) : later.length < rest.length + 1 := by
  unfold nextHunk at h
  split at h
  · cases h
  · next header body hOpen =>
    split at h
    · cases h
    · next lines eof after hCollect =>
      have hLen := collectHunk_length hCollect
      split at h
      · cases h
      · next hSome =>
        cases h
        unfold openHunk at hOpen
        split at hOpen
        · cases hOpen
          omega
        · split at hOpen
          · cases hOpen
            rw [List.length_cons] at hLen
            cases lines with
            | nil =>
              cases eof with
              | false => exact absurd rfl hSome
              | true =>
                rw [Bool.toNat_true] at hLen
                omega
            | cons line lines =>
              rw [List.length_cons] at hLen
              omega
          · cases hOpen

def collectHunks (path : Text) (first : Bool) (input : List Text) : Except ParseError (List Hunk × List Text) :=
  match input with
  | [] => .ok ([], [])
  | next :: rest =>
    if startsWith stars next && next ≠ endOfFile then .ok ([], next :: rest)
    else if trim next = [] then collectHunks path first rest
    else match _hNext : nextHunk path first next rest with
      | .error e => .error e
      | .ok (hunk, later) => (collectHunks path false later).map fun found => (hunk :: found.1, found.2)
termination_by input.length
decreasing_by
  · exact Nat.lt_succ_self _
  · exact nextHunk_length _hNext

theorem collectHunks_length {hunks : List Hunk}
    (h : collectHunks path first input = .ok (hunks, later)) : later.length ≤ input.length := by
  induction hSize : input.length using Nat.strong_induction_on generalizing first input hunks with
  | _ size ih =>
    subst hSize
    unfold collectHunks at h
    split at h
    · cases h
      exact Nat.zero_le _
    · next line rest =>
      split at h
      · cases h
        exact le_rfl
      · split at h
        · exact (ih _ (Nat.lt_succ_self _) h rfl).trans (Nat.le_succ _)
        · split at h
          · cases h
          · next hunk after hNext =>
            have hShorter := nextHunk_length hNext
            cases hRest : collectHunks path false after with
            | error e =>
              rw [hRest] at h
              cases h
            | ok found =>
              obtain ⟨others, end'⟩ := found
              rw [hRest] at h
              cases h
              exact (ih _ hShorter hRest rfl).trans hShorter.le

def collectAdded (path : Text) : List Text → Except ParseError (List Text × List Text)
  | [] => .ok ([], [])
  | next :: rest =>
    if startsWith stars next then .ok ([], next :: rest)
    else match next with
      | '+' :: body => (collectAdded path rest).map fun (lines, later) => (body :: lines, later)
      | _ => .error (.notAdded path next)

theorem collectAdded_suffix {lines : List Text} (h : collectAdded path input = .ok (lines, later)) :
    later <:+ input := by
  induction input generalizing lines with
  | nil =>
    cases h
    exact List.suffix_rfl
  | cons next rest ih =>
    unfold collectAdded at h
    split at h
    · cases h
      exact List.suffix_rfl
    · split at h
      · cases hRest : collectAdded path rest with
        | error e =>
          rw [hRest] at h
          cases h
        | ok found =>
          obtain ⟨more, after⟩ := found
          rw [hRest] at h
          cases h
          exact (ih hRest).trans (List.suffix_cons _ _)
      · cases h

section Home

-- How a path is expanded at its home and the variables of the environment.
variable (expandHomePath : Text → Text)

def normalizeRawPath (raw : Text) : Except ParseError Text :=
  let expanded := expandHomePath (trim raw)
  if expanded = [] then .error .missingPath else .ok expanded

def takeMove (input : List Text) : Except ParseError (Option Text × List Text) :=
  match input with
  | [] => .ok (none, [])
  | next :: rest =>
    if startsWith moveFile next then (normalizeRawPath expandHomePath (next.drop moveFile.length)).map fun path => (some path, rest)
    else .ok (none, next :: rest)

def nextOp (line : Text) (rest : List Text) : Except ParseError (Option FileOp × List Text) :=
  if startsWith addFile line then do
    let path ← normalizeRawPath expandHomePath (line.drop addFile.length)
    let (lines, later) ← collectAdded path rest
    .ok (some (.add path lines), later)
  else if startsWith deleteFile line then do
    let path ← normalizeRawPath expandHomePath (line.drop deleteFile.length)
    .ok (some (.delete path), rest)
  else if startsWith updateFile line then do
    let path ← normalizeRawPath expandHomePath (line.drop updateFile.length)
    let (moveTo, body) ← takeMove expandHomePath rest
    let (hunks, later) ← collectHunks path true body
    if hunks.isEmpty then .error (.noHunks path) else .ok (some (.update path moveTo hunks), later)
  else if trim line = [] then .ok (none, rest)
  else .error (.outsideOp line)

theorem bind_eq_ok {ε α β : Type} {x : Except ε α} {f : α → Except ε β} {b : β} (h : x >>= f = .ok b) :
    ∃ a, x = .ok a ∧ f a = .ok b := by
  cases x with
  | error e => cases h
  | ok a => exact ⟨a, rfl, h⟩

theorem takeMove_suffix {input later : List Text} {moveTo : Option Text} (h : takeMove expandHomePath input = .ok (moveTo, later)) :
    later <:+ input := by
  unfold takeMove at h
  split at h
  · cases h
    exact List.suffix_rfl
  · next line rest =>
    split at h
    · cases hPath : normalizeRawPath expandHomePath (line.drop moveFile.length) with
      | error e =>
        rw [hPath] at h
        cases h
      | ok path =>
        rw [hPath] at h
        cases h
        exact List.suffix_cons _ _
    · cases h
      exact List.suffix_rfl

theorem nextOp_length {line : Text} {rest later : List Text} {op : Option FileOp}
    (h : nextOp expandHomePath line rest = .ok (op, later)) : later.length ≤ rest.length := by
  unfold nextOp at h
  split at h
  · obtain ⟨path, -, h⟩ := bind_eq_ok h
    obtain ⟨⟨lines, after⟩, hAdded, h⟩ := bind_eq_ok h
    cases h
    exact (collectAdded_suffix hAdded).length_le
  · split at h
    · obtain ⟨path, -, h⟩ := bind_eq_ok h
      cases h
      exact le_rfl
    · split at h
      · obtain ⟨path, -, h⟩ := bind_eq_ok h
        obtain ⟨⟨moveTo, body⟩, hMove, h⟩ := bind_eq_ok h
        obtain ⟨⟨hunks, after⟩, hHunks, h⟩ := bind_eq_ok h
        dsimp only at h
        split at h
        · cases h
        · cases h
          exact (collectHunks_length hHunks).trans (takeMove_suffix _ hMove).length_le
      · split at h
        · cases h
          exact le_rfl
        · cases h

def parseOps (input : List Text) : Except ParseError (List FileOp) :=
  match input with
  | [] => .error .missingEnd
  | line :: rest =>
    if trim line = endPatch then .ok []
    else match _hNext : nextOp expandHomePath line rest with
      | .error e => .error e
      | .ok (op, later) => (parseOps later).map (op.toList ++ ·)
termination_by input.length
decreasing_by exact Nat.lt_succ_of_le (nextOp_length _ _hNext)

def parsePatch (input : Text) : Except ParseError (List FileOp) :=
  match (stripHeredocWrapper (trim (replaceCrlf input))).splitOn '\n' with
  | [] => .error .missingBegin
  | line :: rest => if trim line = beginPatch then parseOps expandHomePath rest else .error .missingBegin

end Home

end Stella.Patch
