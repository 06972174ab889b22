import Mathlib.Data.List.TakeWhile
import Stella.Patch.Parse
import Stella.Patch.Written

/-! # Patches that are read back

The canonical text of a list of file operations, and that the parser gives the operations back.
-/

namespace Stella.Patch

open List

open World (Text)

def HunkLineKind.mark : HunkLineKind → Char
  | .context => ' '
  | .remove => '-'
  | .add => '+'

def renderLine (line : HunkLine) : Text := line.kind.mark :: line.text

def renderHeader : Option Text → Text
  | none => ats
  | some header => ats ++ ' ' :: header

def renderBody (hunk : Hunk) : List Text := hunk.lines.map renderLine ++ if hunk.isEndOfFile then [endOfFile] else []

/-- `bare` leaves out the `@@` line of a first hunk that has no header. -/
def renderHunks (bare : Bool) : List Hunk → List Text
  | [] => []
  | hunk :: rest => (if bare && hunk.header.isNone then [] else [renderHeader hunk.header]) ++ renderBody hunk ++ renderHunks false rest

def renderOp (bare : Bool) : FileOp → List Text
  | .add path lines => (addFile ++ path) :: lines.map ('+' :: ·)
  | .delete path => [deleteFile ++ path]
  | .update path moveTo hunks => (updateFile ++ path) :: ((moveTo.map (moveFile ++ ·)).toList ++ renderHunks bare hunks)

def renderOps (ops : List (Bool × FileOp)) : List Text := ops.flatMap (fun op => renderOp op.1 op.2) ++ [endPatch]

/-- Each operation comes with whether its first `@@` line is left out. -/
def render (ops : List (Bool × FileOp)) : Text := joinLines (beginPatch :: renderOps ops)

def OneLine (text : Text) : Prop := '\n' ∉ text ∧ text.getLast? ≠ some '\r'

structure PlainPath (expandHomePath : Text → Text) (path : Text) : Prop where
  trimmed : trim path = path
  expanded : expandHomePath path = path
  some : path ≠ []
  line : '\n' ∉ path

structure PlainHunk (hunk : Hunk) : Prop where
  header : ∀ header ∈ hunk.header, header ≠ [] ∧ trim header = header ∧ '\n' ∉ header
  lines : ∀ line ∈ hunk.lines, OneLine line.text
  some : hunk.lines ≠ [] ∨ hunk.isEndOfFile = true

def Canonical (expandHomePath : Text → Text) : FileOp → Prop
  | .add path lines => PlainPath expandHomePath path ∧ ∀ line ∈ lines, OneLine line
  | .delete path => PlainPath expandHomePath path
  | .update path moveTo hunks => PlainPath expandHomePath path ∧ (∀ target ∈ moveTo, PlainPath expandHomePath target) ∧
      hunks ≠ [] ∧ ∀ hunk ∈ hunks, PlainHunk hunk

def StartsVisibly (hunk : Hunk) : Prop := ∀ line ∈ hunk.lines.head?, trim (renderLine line) ≠ []

/-- Where its first `@@` line is left out, the first hunk shows where it begins. -/
def Bared : Bool × FileOp → Prop
  | (true, .update _ _ (hunk :: _)) => hunk.header = none → StartsVisibly hunk
  | _ => True

/-! ## Single lines -/

theorem getLast?_trimEnd (text : Text) : ∀ c ∈ (trimEnd text).getLast?, isSpace c = false := by
  intro c hLast
  unfold trimEnd at hLast
  rw [getLast?_reverse] at hLast
  have hHead := head?_dropWhile_not isSpace text.reverse
  rw [hLast] at hHead
  exact hHead

theorem visible_of_eq_some {o : Option Char} (c : Char) (h : o = some c) (hVis : isSpace c = false) :
    ∀ d ∈ o, isSpace d = false := by
  rintro d hMem
  rw [h] at hMem
  cases hMem
  exact hVis

variable {text : Text}

theorem trim_eq_self (hFirst : ∀ c ∈ text.head?, isSpace c = false) (hLast : ∀ c ∈ text.getLast?, isSpace c = false) :
    trim text = text := by
  have hKept : ∀ {text : Text}, (∀ c ∈ text.head?, isSpace c = false) → text.dropWhile isSpace = text := by
    intro text hText
    cases text with
    | nil => rfl
    | cons c text => exact dropWhile_cons_of_neg (by rw [hText c rfl]; exact Bool.false_ne_true)
  unfold trim trimEnd
  rw [hKept hFirst, hKept (by rwa [head?_reverse]), reverse_reverse]

variable {c : Char}

theorem trim_ne_nil (hFirst : isSpace c = false) : trim (c :: text) ≠ [] := by
  unfold trim trimEnd
  rw [dropWhile_cons_of_neg (by rw [hFirst]; exact Bool.false_ne_true)]
  intro hNil
  have hAll := dropWhile_eq_nil_iff.mp (reverse_eq_nil_iff.mp hNil) c (mem_reverse.mpr mem_cons_self)
  rw [hFirst] at hAll
  cases hAll

variable {expandHomePath : Text → Text}

variable {path : Text}

variable {marker : Text}

theorem trim_marked (hPath : PlainPath expandHomePath path) (hMarker : ∀ c ∈ marker.head?, isSpace c = false)
    (hSome : marker ≠ []) : trim (marker ++ path) = marker ++ path := by
  refine trim_eq_self ?_ ?_
  · rwa [head?_append_of_ne_nil _ hSome]
  · rw [getLast?_append_of_ne_nil _ hPath.some, ← hPath.trimmed]
    exact getLast?_trimEnd _

theorem normalizeRawPath_eq (hPath : PlainPath expandHomePath path) : normalizeRawPath expandHomePath path = .ok path := by
  unfold normalizeRawPath
  rw [hPath.trimmed, hPath.expanded]
  exact if_neg hPath.some

theorem hunkLineOf_renderLine (line : HunkLine) : hunkLineOf (renderLine line) = some line := by
  obtain ⟨kind, text⟩ := line
  cases kind <;> rfl

theorem renderLine_plain (line : HunkLine) : startsWith stars (renderLine line) = false ∧ startsWith ats (renderLine line) = false ∧
    startsWith moveFile (renderLine line) = false ∧ renderLine line ≠ endOfFile := by
  obtain ⟨kind, text⟩ := line
  have hMark : ∀ kind : HunkLineKind, some kind.mark ≠ endOfFile.head? := by
    intro kind
    cases kind <;> decide
  refine ⟨?_, ?_, ?_, fun hEq => hMark kind (congrArg List.head? hEq)⟩ <;> cases kind <;> rfl

def BeginsOp (line : Text) : Prop := startsWith stars line = true ∧ line ≠ endOfFile

def EndsHunk (line : Text) : Prop := BeginsOp line ∨ startsWith ats line = true

theorem renderHeader_ends (header : Option Text) : startsWith ats (renderHeader header) = true ∧
    startsWith stars (renderHeader header) = false ∧ startsWith moveFile (renderHeader header) = false ∧ trim (renderHeader header) ≠ [] := by
  cases header with
  | none => exact ⟨rfl, rfl, rfl, trim_ne_nil rfl⟩
  | some header => exact ⟨rfl, rfl, rfl, trim_ne_nil rfl⟩

theorem beginsOp_endPatch : BeginsOp endPatch := ⟨rfl, by decide⟩

/-! ## The loops -/

variable {next : Text} {rest : List Text}

theorem collectHunk_ends (h : EndsHunk next) : collectHunk (next :: rest) = .ok ([], false, next :: rest) := by
  have hOther : next ≠ endOfFile := by
    rcases h with hOp | hAt
    · exact hOp.2
    · intro hEq
      rw [hEq] at hAt
      cases hAt
  have hStops : (startsWith stars next || startsWith ats next) = true := by
    rcases h with hOp | hAt
    · rw [hOp.1, Bool.true_or]
    · rw [hAt, Bool.or_true]
  unfold collectHunk
  rw [if_neg hOther, if_pos hStops]

theorem collectHunk_body (lines : List HunkLine) (eof : Bool) (h : EndsHunk next) :
    collectHunk (lines.map renderLine ++ (if eof then [endOfFile] else []) ++ next :: rest) = .ok (lines, eof, next :: rest) := by
  induction lines with
  | nil =>
    cases eof with
    | false => exact collectHunk_ends h
    | true => rfl
  | cons line lines ih =>
    obtain ⟨hStars, hAts, -, hOther⟩ := renderLine_plain line
    rw [map_cons, cons_append, cons_append]
    unfold collectHunk
    rw [if_neg hOther, hStars, hAts, Bool.or_self, if_neg Bool.false_ne_true, hunkLineOf_renderLine, ih]
    rfl

variable {first : Bool} {hunk : Hunk} {line : Text} {body : List Text}

theorem nextHunk_of_open (hPlain : PlainHunk hunk)
    (h : EndsHunk next) (hOpen : openHunk path first line body = .ok (hunk.header, renderBody hunk ++ next :: rest)) :
    nextHunk path first line body = .ok (hunk, next :: rest) := by
  unfold nextHunk
  rw [hOpen]
  dsimp only
  unfold renderBody
  rw [collectHunk_body hunk.lines hunk.isEndOfFile h]
  dsimp only
  rw [if_neg]
  rcases hPlain.some with hSome | hEof
  · rw [isEmpty_eq_false_iff.mpr hSome]
    exact Bool.false_ne_true
  · rw [hEof, Bool.not_true, Bool.and_false]
    exact Bool.false_ne_true

theorem openHunk_header (hPlain : PlainHunk hunk) (body : List Text) :
    openHunk path first (renderHeader hunk.header) body = .ok (hunk.header, body) := by
  unfold openHunk
  rw [(renderHeader_ends hunk.header).1, if_pos rfl]
  cases hHeader : hunk.header with
  | none => rfl
  | some header =>
    obtain ⟨hSome, hTrim, -⟩ := hPlain.header header hHeader
    have hRead : trim ((renderHeader (some header)).drop 2) = header := hTrim
    dsimp only
    rw [hRead, if_neg hSome]

theorem nextHunk_bare (path : Text) (hPlain : PlainHunk hunk) (hHeader : hunk.header = none) (rest : List Text)
    (h : EndsHunk next) : ∃ line body, renderBody hunk ++ next :: rest = line :: body ∧
      nextHunk path true line body = .ok (hunk, next :: rest) ∧ startsWith moveFile line = false ∧
      (startsWith stars line && line ≠ endOfFile) = false ∧ (StartsVisibly hunk → trim line ≠ []) := by
  have hShow : ∃ line body, renderBody hunk = line :: body ∧ startsWith ats line = false ∧ startsWith moveFile line = false ∧
      (startsWith stars line && line ≠ endOfFile) = false ∧ (StartsVisibly hunk → trim line ≠ []) := by
    unfold renderBody StartsVisibly
    cases hLines : hunk.lines with
    | nil =>
      have hEof : hunk.isEndOfFile = true := hPlain.some.resolve_left (not_not.mpr hLines)
      rw [hEof]
      exact ⟨endOfFile, [], rfl, rfl, rfl, rfl, fun _ => trim_ne_nil rfl⟩
    | cons line lines =>
      obtain ⟨hStars, hAts, hMove, -⟩ := renderLine_plain line
      refine ⟨renderLine line, _, rfl, hAts, hMove, ?_, fun hVisible => hVisible line rfl⟩
      rw [hStars, Bool.false_and]
  obtain ⟨line, body, hBody, hAts, hMove, hGoes, hVisible⟩ := hShow
  refine ⟨line, body ++ next :: rest, by rw [hBody, cons_append], nextHunk_of_open hPlain h ?_, hMove, hGoes, hVisible⟩
  unfold openHunk
  rw [hAts, if_neg Bool.false_ne_true, if_pos rfl, hBody, hHeader, cons_append]

variable {later : List Text}

theorem collectHunks_cons
    (hGoes : (startsWith stars line && line ≠ endOfFile) = false) (hVis : trim line ≠ [])
    (hNext : nextHunk path first line body = .ok (hunk, later)) :
    collectHunks path first (line :: body) = (collectHunks path false later).map fun found => (hunk :: found.1, found.2) := by
  rw [collectHunks, if_neg (by rw [hGoes]; exact Bool.false_ne_true), if_neg hVis]
  split
  · next e hError =>
    rw [hNext] at hError
    cases hError
  · next other after hOk =>
    rw [hNext] at hOk
    cases hOk
    rfl

theorem collectHunks_ends (h : BeginsOp next) :
    collectHunks path first (next :: rest) = .ok ([], next :: rest) := by
  rw [collectHunks, if_pos]
  rw [h.1, Bool.true_and, decide_eq_true_iff]
  exact h.2

theorem renderHunks_ends (hunks : List Hunk) (rest : List Text) (h : BeginsOp next) :
    ∃ line later, renderHunks false hunks ++ next :: rest = line :: later ∧ EndsHunk line := by
  cases hunks with
  | nil => exact ⟨next, rest, rfl, .inl h⟩
  | cons hunk hunks => exact ⟨_, _, rfl, .inr (renderHeader_ends hunk.header).1⟩

variable {hunks : List Hunk}

variable {bare : Bool}

theorem collectHunks_render (path : Text) (hPlain : ∀ hunk ∈ hunks, PlainHunk hunk)
    (hFirst : bare = true → first = true)
    (hBare : bare = true → ∀ hunk ∈ hunks.head?, hunk.header = none → StartsVisibly hunk) (h : BeginsOp next) :
    collectHunks path first (renderHunks bare hunks ++ next :: rest) = .ok (hunks, next :: rest) := by
  induction hunks generalizing bare first with
  | nil => exact collectHunks_ends h
  | cons hunk hunks ih =>
    rw [forall_mem_cons] at hPlain
    obtain ⟨line, later, hLater, hEnds⟩ := renderHunks_ends hunks rest h
    have hRest : collectHunks path false (renderHunks false hunks ++ next :: rest) = .ok (hunks, next :: rest) :=
      ih hPlain.2 (fun hTrue => hTrue) (fun hTrue => absurd hTrue Bool.false_ne_true)
    unfold renderHunks
    rw [append_assoc, append_assoc, hLater]
    rw [hLater] at hRest
    split
    · next hGone =>
      rw [Bool.and_eq_true, Option.isNone_iff_eq_none] at hGone
      obtain ⟨start, body, hBody, hNext, -, hGoes, hVis⟩ := nextHunk_bare path hPlain.1 hGone.2 later hEnds
      rw [nil_append, hBody, hFirst hGone.1, collectHunks_cons hGoes (hVis (hBare hGone.1 hunk rfl hGone.2)) hNext, hRest]
      rfl
    · obtain ⟨-, hStars, -, hVis⟩ := renderHeader_ends hunk.header
      rw [singleton_append, collectHunks_cons (by rw [hStars, Bool.false_and]) hVis (nextHunk_of_open hPlain.1 hEnds (openHunk_header hPlain.1 _)),
        hRest]
      rfl

theorem collectAdded_render (path : Text) (lines : List Text) (h : BeginsOp next) :
    collectAdded path (lines.map ('+' :: ·) ++ next :: rest) = .ok (lines, next :: rest) := by
  induction lines with
  | nil =>
    unfold collectAdded
    exact if_pos h.1
  | cons line lines ih =>
    have hOther : startsWith stars ('+' :: line) = false := rfl
    rw [map_cons, cons_append, collectAdded, hOther, if_neg Bool.false_ne_true, ih]
    rfl

/-! ## Operations -/

theorem renderOp_begins (bare : Bool) (op : FileOp) : ∃ line body, renderOp bare op = line :: body ∧ BeginsOp line := by
  have hOther : ∀ {marker path : Text}, marker[4]? ≠ endOfFile[4]? → 4 < marker.length → marker ++ path ≠ endOfFile := by
    intro marker path hMark hLong hEq
    rw [← hEq, getElem?_append_left hLong] at hMark
    exact hMark rfl
  cases op with
  | add path lines => exact ⟨_, _, rfl, rfl, hOther (by decide) (by decide)⟩
  | delete path => exact ⟨_, _, rfl, rfl, hOther (by decide) (by decide)⟩
  | update path moveTo hunks => exact ⟨_, _, rfl, rfl, hOther (by decide) (by decide)⟩

theorem renderOps_begins (ops : List (Bool × FileOp)) : ∃ line body, renderOps ops = line :: body ∧ BeginsOp line := by
  cases ops with
  | nil => exact ⟨endPatch, [], rfl, beginsOp_endPatch⟩
  | cons op ops =>
    obtain ⟨line, body, hRender, hBegins⟩ := renderOp_begins op.1 op.2
    refine ⟨line, body ++ renderOps ops, ?_, hBegins⟩
    rw [renderOps, flatMap_cons, hRender, append_assoc]
    rfl

theorem takeMove_render (hSome : hunks ≠ []) (hPlain : ∀ hunk ∈ hunks, PlainHunk hunk) {moveTo : Option Text}
    (hMove : ∀ target ∈ moveTo, PlainPath expandHomePath target) (bare : Bool) (h : BeginsOp next) :
    takeMove expandHomePath ((moveTo.map (moveFile ++ ·)).toList ++ (renderHunks bare hunks ++ next :: rest)) =
      .ok (moveTo, renderHunks bare hunks ++ next :: rest) := by
  cases moveTo with
  | some target =>
    have hStarts : startsWith moveFile (moveFile ++ target) = true := rfl
    have hPath : (moveFile ++ target).drop moveFile.length = target := drop_left
    rw [Option.map_some, Option.toList_some, singleton_append, takeMove, if_pos hStarts, hPath,
      normalizeRawPath_eq (hMove target rfl)]
    rfl
  | none =>
    rw [Option.map_none, Option.toList_none, nil_append]
    have hFirst : ∃ line body, renderHunks bare hunks ++ next :: rest = line :: body ∧ startsWith moveFile line = false := by
      cases hunks with
      | nil => exact absurd rfl hSome
      | cons hunk hunks =>
        unfold renderHunks
        split
        · next hGone =>
          rw [Bool.and_eq_true, Option.isNone_iff_eq_none] at hGone
          obtain ⟨line, later, hLater, hEnds⟩ := renderHunks_ends hunks rest h
          obtain ⟨start, body, hBody, -, hOther, -, -⟩ :=
            nextHunk_bare [] (hPlain hunk mem_cons_self) hGone.2 later hEnds
          refine ⟨start, body, ?_, hOther⟩
          rw [nil_append, append_assoc, hLater, hBody]
        · exact ⟨_, _, rfl, (renderHeader_ends hunk.header).2.2.1⟩
    obtain ⟨line, body, hIs, hOther⟩ := hFirst
    rw [hIs, takeMove, hOther]
    rfl

variable {op : FileOp}

theorem nextOp_render (hOp : Canonical expandHomePath op) (hBare : Bared (bare, op))
    (hRender : renderOp bare op = line :: body) (rest : List Text) (h : BeginsOp next) :
    trim line ≠ endPatch ∧ nextOp expandHomePath line (body ++ next :: rest) = .ok (some op, next :: rest) := by
  have hOther : ∀ {marker path : Text}, PlainPath expandHomePath path → marker[4]? ≠ endPatch[4]? → 4 < marker.length →
      (∀ c ∈ marker.head?, isSpace c = false) → trim (marker ++ path) ≠ endPatch := by
    intro marker path hPath hMark hLong hFirst hSame
    rw [trim_marked hPath hFirst (ne_nil_of_length_pos (by omega))] at hSame
    rw [← hSame, getElem?_append_left hLong] at hMark
    exact hMark rfl
  cases op with
  | add path lines =>
    cases hRender
    refine ⟨hOther hOp.1 (by decide) (by decide) (visible_of_eq_some '*' rfl rfl), ?_⟩
    have hStarts : startsWith addFile (addFile ++ path) = true := rfl
    have hPath : (addFile ++ path).drop addFile.length = path := drop_left
    rw [nextOp, if_pos hStarts, hPath, normalizeRawPath_eq hOp.1]
    change (collectAdded path _ >>= _) = _
    rw [collectAdded_render path lines h]
    rfl
  | delete path =>
    cases hRender
    refine ⟨hOther hOp (by decide) (by decide) (visible_of_eq_some '*' rfl rfl), ?_⟩
    have hAdd : startsWith addFile (deleteFile ++ path) = false := rfl
    have hStarts : startsWith deleteFile (deleteFile ++ path) = true := rfl
    have hPath : (deleteFile ++ path).drop deleteFile.length = path := drop_left
    rw [nextOp, hAdd, if_neg Bool.false_ne_true, if_pos hStarts, hPath, normalizeRawPath_eq hOp]
    rfl
  | update path moveTo hunks =>
    cases hRender
    obtain ⟨hPlainPath, hMove, hSome, hPlain⟩ := hOp
    refine ⟨hOther hPlainPath (by decide) (by decide) (visible_of_eq_some '*' rfl rfl), ?_⟩
    have hAdd : startsWith addFile (updateFile ++ path) = false := rfl
    have hDelete : startsWith deleteFile (updateFile ++ path) = false := rfl
    have hStarts : startsWith updateFile (updateFile ++ path) = true := rfl
    have hPath : (updateFile ++ path).drop updateFile.length = path := drop_left
    have hVisible : bare = true → ∀ hunk ∈ hunks.head?, hunk.header = none → StartsVisibly hunk := by
      rintro rfl hunk hHead
      cases hunks with
      | nil => cases hHead
      | cons first hunks =>
        obtain rfl := Option.some.inj hHead
        exact hBare
    rw [nextOp, hAdd, if_neg Bool.false_ne_true, hDelete, if_neg Bool.false_ne_true, if_pos hStarts, hPath,
      normalizeRawPath_eq hPlainPath, append_assoc]
    change (takeMove expandHomePath _ >>= _) = _
    rw [takeMove_render hSome hPlain hMove bare h]
    change (collectHunks path true _ >>= _) = _
    rw [collectHunks_render path hPlain (fun _ => rfl) hVisible h]
    change (if hunks.isEmpty then _ else _) = _
    rw [isEmpty_eq_false_iff.mpr hSome]
    rfl

theorem parseOps_cons {op : Option FileOp} (hGoes : trim line ≠ endPatch)
    (hNext : nextOp expandHomePath line rest = .ok (op, later)) :
    parseOps expandHomePath (line :: rest) = (parseOps expandHomePath later).map (op.toList ++ ·) := by
  rw [parseOps, if_neg hGoes]
  split
  · next e hError =>
    rw [hNext] at hError
    cases hError
  · next other after hOk =>
    rw [hNext] at hOk
    cases hOk
    rfl

variable {ops : List (Bool × FileOp)}

theorem parseOps_render (hOps : ∀ op ∈ ops, Canonical expandHomePath op.2 ∧ Bared op) :
    parseOps expandHomePath (renderOps ops) = .ok (ops.map Prod.snd) := by
  induction ops with
  | nil =>
    rw [renderOps, flatMap_nil, nil_append, parseOps, if_pos (by decide)]
    rfl
  | cons op ops ih =>
    rw [forall_mem_cons] at hOps
    obtain ⟨next, rest, hRest, hBegins⟩ := renderOps_begins ops
    obtain ⟨line, body, hRender, -⟩ := renderOp_begins op.1 op.2
    obtain ⟨hGoes, hNext⟩ := nextOp_render hOps.1.1 hOps.1.2 hRender rest hBegins
    have hAll : renderOps (op :: ops) = line :: (body ++ next :: rest) := by
      rw [← hRest, renderOps, flatMap_cons, hRender, append_assoc]
      rfl
    rw [hAll, parseOps_cons hGoes hNext, ← hRest, ih hOps.2]
    rfl

/-! ## The text -/

theorem replaceCrlf_cons (h : c = '\r' → text.head? ≠ some '\n') :
    replaceCrlf (c :: text) = c :: replaceCrlf text := by
  rw [replaceCrlf]
  intro rest hReturn hRest
  exact h hReturn (by rw [hRest]; rfl)

theorem replaceCrlf_append (h : OneLine line) (text : Text) :
    replaceCrlf (line ++ '\n' :: text) = line ++ '\n' :: replaceCrlf text := by
  induction line with
  | nil => exact replaceCrlf_cons fun hEq => absurd hEq (by decide)
  | cons c line ih =>
    have hRest : OneLine line := by
      refine ⟨fun hMem => h.1 (mem_cons_of_mem _ hMem), fun hLast => h.2 ?_⟩
      cases line with
      | nil => cases hLast
      | cons d line => exact hLast
    rw [cons_append, replaceCrlf_cons, ih hRest, cons_append]
    rintro rfl
    cases line with
    | nil => exact absurd rfl h.2
    | cons d line =>
      intro hHead
      exact h.1 (mem_cons_of_mem _ (mem_cons.mpr (.inl (Option.some.inj hHead).symm)))

theorem replaceCrlf_of_oneLine (h : '\n' ∉ line) : replaceCrlf line = line := by
  induction line with
  | nil => rfl
  | cons c line ih =>
    rw [replaceCrlf_cons, ih fun hMem => h (mem_cons_of_mem _ hMem)]
    intro _ hHead
    cases line with
    | nil => cases hHead
    | cons d line => exact h (mem_cons_of_mem _ (mem_cons.mpr (.inl (Option.some.inj hHead).symm)))

variable {lines : List Text}

theorem replaceCrlf_joinLines (h : ∀ line ∈ lines, OneLine line) : replaceCrlf (joinLines lines) = joinLines lines := by
  induction lines with
  | nil => rfl
  | cons line lines ih =>
    rw [forall_mem_cons] at h
    cases lines with
    | nil =>
      have hOne : joinLines [line] = line := by simp [joinLines]
      rw [hOne]
      exact replaceCrlf_of_oneLine h.1.1
    | cons next lines =>
      have hRest := ih h.2
      unfold joinLines at hRest ⊢
      rw [intercalate_cons_cons, append_assoc, singleton_append, replaceCrlf_append h.1, hRest]

theorem PlainPath.oneLine (h : PlainPath expandHomePath path) : OneLine path := by
  refine ⟨h.line, fun hLast => ?_⟩
  have hSpace := getLast?_trimEnd (path.dropWhile isSpace)
  change ∀ c ∈ (trim path).getLast?, _ at hSpace
  rw [h.trimmed] at hSpace
  exact absurd (hSpace _ hLast) (by decide)

theorem OneLine.append (hMarker : OneLine marker) (hText : OneLine text) : OneLine (marker ++ text) := by
  refine ⟨fun hMem => ?_, fun hLast => ?_⟩
  · rcases mem_append.mp hMem with hHere | hThere
    · exact hMarker.1 hHere
    · exact hText.1 hThere
  · rw [getLast?_append, Option.or_eq_some_iff] at hLast
    rcases hLast with hThere | ⟨-, hHere⟩
    · exact hText.2 hThere
    · exact hMarker.2 hHere

theorem oneLine_renderLine {line : HunkLine} (h : OneLine line.text) : OneLine (renderLine line) := by
  have hMark : OneLine [line.kind.mark] := by
    cases line.kind <;> exact ⟨by decide, by decide⟩
  exact hMark.append h

theorem oneLine_renderHunks (hPlain : ∀ hunk ∈ hunks, PlainHunk hunk) (bare : Bool) :
    ∀ line ∈ renderHunks bare hunks, OneLine line := by
  induction hunks generalizing bare with
  | nil => exact forall_mem_nil _
  | cons hunk hunks ih =>
    rw [forall_mem_cons] at hPlain
    intro line hLine
    rcases mem_append.mp hLine with hHere | hRest
    · rcases mem_append.mp hHere with hHeader | hBody
      · split at hHeader
        · cases hHeader
        · rw [mem_singleton.mp hHeader]
          have hAts : OneLine ats := ⟨by decide, by decide⟩
          cases hIs : hunk.header with
          | none => exact hAts
          | some header =>
            obtain ⟨-, hTrim, hNewline⟩ := hPlain.1.header header hIs
            have hSpace : OneLine [' '] := ⟨by decide, by decide⟩
            refine hAts.append (hSpace.append ⟨hNewline, fun hLast => ?_⟩)
            have hEnd := getLast?_trimEnd (header.dropWhile isSpace)
            change ∀ c ∈ (trim header).getLast?, _ at hEnd
            rw [hTrim] at hEnd
            exact absurd (hEnd _ hLast) (by decide)
      · rcases mem_append.mp hBody with hLines | hEof
        · obtain ⟨given, hGiven, rfl⟩ := mem_map.mp hLines
          exact oneLine_renderLine (hPlain.1.lines given hGiven)
        · split at hEof
          · rw [mem_singleton.mp hEof]
            exact ⟨by decide, by decide⟩
          · cases hEof
    · exact ih hPlain.2 false line hRest

theorem oneLine_renderOp (hOp : Canonical expandHomePath op) (bare : Bool) : ∀ line ∈ renderOp bare op, OneLine line := by
  cases op with
  | add path lines =>
    refine forall_mem_cons.mpr ⟨OneLine.append ⟨by decide, by decide⟩ hOp.1.oneLine, fun line hLine => ?_⟩
    obtain ⟨given, hGiven, rfl⟩ := mem_map.mp hLine
    have hPlus : OneLine ['+'] := ⟨by decide, by decide⟩
    exact hPlus.append (hOp.2 given hGiven)
  | delete path => exact forall_mem_singleton.mpr (OneLine.append ⟨by decide, by decide⟩ (PlainPath.oneLine hOp))
  | update path moveTo hunks =>
    obtain ⟨hPath, hMove, -, hPlain⟩ := hOp
    refine forall_mem_cons.mpr ⟨OneLine.append ⟨by decide, by decide⟩ hPath.oneLine, fun line hLine => ?_⟩
    rcases mem_append.mp hLine with hTgt | hHunks
    · obtain ⟨target, hIs, rfl⟩ := Option.map_eq_some_iff.mp (Option.mem_toList.mp hTgt)
      exact OneLine.append ⟨by decide, by decide⟩ (hMove target hIs).oneLine
    · exact oneLine_renderHunks hPlain bare line hHunks

theorem oneLine_renderOps (hOps : ∀ op ∈ ops, Canonical expandHomePath op.2) :
    ∀ line ∈ renderOps ops, OneLine line := by
  intro line hLine
  rcases mem_append.mp hLine with hOp | hEnd
  · obtain ⟨op, hMem, hHere⟩ := mem_flatMap.mp hOp
    exact oneLine_renderOp (hOps op hMem) op.1 line hHere
  · rw [mem_singleton.mp hEnd]
    exact ⟨by decide, by decide⟩

theorem joinLines_cons (hSome : lines ≠ []) (line : Text) :
    joinLines (line :: lines) = line ++ '\n' :: joinLines lines := by
  cases lines with
  | nil => exact absurd rfl hSome
  | cons next lines =>
    unfold joinLines
    rw [intercalate_cons_cons, append_assoc]
    rfl

theorem renderOps_concat (ops : List (Bool × FileOp)) :
    ∃ text, render ops = beginPatch ++ text ∧ ∃ front, render ops = front ++ endPatch := by
  refine ⟨_, joinLines_cons (append_ne_nil_of_right_ne_nil _ (cons_ne_nil _ _)) _, ?_⟩
  unfold render renderOps
  rw [← cons_append, joinLines_concat (cons_ne_nil _ _)]
  exact ⟨_, (append_assoc _ ['\n'] endPatch).symm⟩

/-- The canonical text of file operations is read back as those operations. -/
theorem parsePatch_render {ops : List (Bool × FileOp)} (hOps : ∀ op ∈ ops, Canonical expandHomePath op.2 ∧ Bared op) :
    parsePatch expandHomePath (render ops) = .ok (ops.map Prod.snd) := by
  have hLines : ∀ line ∈ beginPatch :: renderOps ops, OneLine line :=
    forall_mem_cons.mpr ⟨⟨by decide, by decide⟩, oneLine_renderOps fun op hOp => (hOps op hOp).1⟩
  have hSplit : (render ops).splitOn '\n' = beginPatch :: renderOps ops :=
    splitOn_intercalate '\n' (fun line hLine => (hLines line hLine).1) (cons_ne_nil _ _)
  have hTrim : trim (render ops) = render ops := by
    obtain ⟨text, hFirst, front, hLast⟩ := renderOps_concat ops
    refine trim_eq_self ?_ ?_
    · rw [hFirst, head?_append_of_ne_nil _ (by decide)]
      exact visible_of_eq_some '*' rfl rfl
    · rw [hLast, getLast?_append_of_ne_nil _ (by decide)]
      exact visible_of_eq_some 'h' rfl rfl
  have hStrip : stripHeredocWrapper (render ops) = render ops := by
    unfold stripHeredocWrapper
    dsimp only
    rw [hSplit, if_neg (c := _ ∧ _)]
    · exact ite_self _
    · rintro ⟨hOpen, -⟩
      change beginPatch ∈ _ at hOpen
      exact absurd hOpen (by decide)
  have hCrlf : replaceCrlf (render ops) = render ops := replaceCrlf_joinLines hLines
  have hBegin : trim beginPatch = beginPatch := by decide
  unfold parsePatch
  rw [hCrlf, hTrim, hStrip, hSplit]
  dsimp only
  rw [if_pos hBegin, parseOps_render hOps]

/-- A file that is added, and one that is moved by an update without its `@@` line. -/
theorem parsePatch_render_two :
    let ops : List (Bool × FileOp) := [(false, .add "/a".toList ["x".toList]),
      (true, .update "/b".toList (some "/c".toList) [{ lines := [⟨.context, "k".toList⟩, ⟨.remove, "x".toList⟩] }])]
    parsePatch id (render ops) = .ok (ops.map Prod.snd) := by
  have hPath : ∀ path ∈ ["/a".toList, "/b".toList, "/c".toList], PlainPath id path := by
    intro path hMem
    simp only [mem_cons, not_mem_nil, or_false] at hMem
    rcases hMem with rfl | rfl | rfl <;> exact ⟨by decide, rfl, by decide, by decide⟩
  refine parsePatch_render (forall_mem_cons.mpr ⟨⟨⟨hPath _ (by decide), ?_⟩, trivial⟩, forall_mem_singleton.mpr
    ⟨⟨hPath _ (by decide), ?_, cons_ne_nil _ _, ?_⟩, fun _ => ?_⟩⟩)
  · exact forall_mem_singleton.mpr ⟨by decide, by decide⟩
  · exact fun target hIs => Option.some.inj hIs ▸ hPath _ (by decide)
  · refine forall_mem_singleton.mpr ⟨fun header hIs => absurd hIs (Option.not_mem_none header), ?_, Or.inl (cons_ne_nil _ _)⟩
    exact forall_mem_cons.mpr ⟨⟨by decide, by decide⟩, forall_mem_singleton.mpr ⟨by decide, by decide⟩⟩
  · intro line hIs
    rw [← Option.some.inj hIs]
    decide

/-- A line that ends in a carriage return loses it, and a hunk without lines is refused. -/
theorem not_read_back :
    parsePatch id (render [(false, .add "/a".toList ["x\r".toList])]) = .ok [.add "/a".toList ["x".toList]] ∧
      parsePatch id (render [(false, .update "/a".toList none [{ lines := [] }])]) = .error (.emptyHunk "/a".toList) := by
  constructor
  · have hLines : (stripHeredocWrapper (trim (replaceCrlf (render [(false, .add "/a".toList ["x\r".toList])])))).splitOn '\n' =
        beginPatch :: renderOps [(false, .add "/a".toList ["x".toList])] := by decide
    have hPath : PlainPath id "/a".toList := ⟨by decide, rfl, by decide, by decide⟩
    unfold parsePatch
    rw [hLines]
    dsimp only
    rw [if_pos (by decide)]
    exact parseOps_render (forall_mem_singleton.mpr ⟨⟨hPath, forall_mem_singleton.mpr ⟨by decide, by decide⟩⟩, trivial⟩)
  · have hLines : (stripHeredocWrapper (trim (replaceCrlf (render [(false, .update "/a".toList none [{ lines := [] }])])))).splitOn '\n' =
        [beginPatch, updateFile ++ "/a".toList, ats, endPatch] := by decide
    have hHunks : collectHunks "/a".toList true [ats, endPatch] = .error (.emptyHunk "/a".toList) := by
      have hNext : nextHunk "/a".toList true ats [endPatch] = .error (.emptyHunk "/a".toList) := rfl
      rw [collectHunks, if_neg (by decide), if_neg (by decide)]
      split
      · next e hError =>
        rw [hNext] at hError
        cases hError
        rfl
      · next hOk =>
        rw [hNext] at hOk
        cases hOk
    have hOp : nextOp id (updateFile ++ "/a".toList) [ats, endPatch] = .error (.emptyHunk "/a".toList) := by
      change (collectHunks "/a".toList true [ats, endPatch] >>= _) = _
      rw [hHunks]
      rfl
    unfold parsePatch
    rw [hLines]
    dsimp only
    rw [if_pos (by decide), parseOps, if_neg (by decide)]
    split
    · next e hError =>
      rw [hOp] at hError
      cases hError
      rfl
    · next hOk =>
      rw [hOp] at hOk
      cases hOk

end Stella.Patch
