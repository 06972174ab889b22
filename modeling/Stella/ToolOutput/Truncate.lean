import Stella.Library.Search
import Stella.ToolOutput.Utf16

/-! # Output cut to whole lines

`truncate.ts`: a text over the line limit or the byte limit keeps its first lines or its last ones.
-/

namespace Stella.ToolOutput

open Within List

def DEFAULT_MAX_LINES : Nat := 2000
def DEFAULT_MAX_BYTES : Nat := 50 * 1024

inductive TruncatedBy
  | lines
  | bytes

structure TruncationResult where
  content : Utf16
  truncated : Bool
  truncatedBy : Option TruncatedBy
  totalLines : Nat
  totalBytes : Nat
  outputLines : Nat
  outputBytes : Nat
  lastLinePartial : Bool
  firstLineExceedsLimit : Bool
  maxLines : Nat
  maxBytes : Nat

structure TruncationOptions where
  maxLines : Option Nat := none
  maxBytes : Option Nat := none

namespace TruncationOptions

variable (options : TruncationOptions)

def lineLimit : Nat := options.maxLines.getD DEFAULT_MAX_LINES
def byteLimit : Nat := options.maxBytes.getD DEFAULT_MAX_BYTES

end TruncationOptions

def newline : UInt16 := 10

def endsWithNewline (content : Utf16) : Bool := content.getLast? = some newline

def splitLinesForCounting (content : Utf16) : List Utf16 :=
  if content.length = 0 then []
  else
    let lines := content.splitOn newline
    if endsWithNewline content then lines.dropLast else lines

def joinLines (lines : List Utf16) : Utf16 := [newline].intercalate lines

def withinLimits (content : Utf16) (maxLines maxBytes : Nat) : Option TruncationResult :=
  let totalBytes := utf8ByteLength content
  let totalLines := (splitLinesForCounting content).length
  if totalLines ≤ maxLines ∧ totalBytes ≤ maxBytes then
    some
      { content, truncated := false, truncatedBy := none, totalLines, totalBytes,
        outputLines := totalLines, outputBytes := totalBytes, lastLinePartial := false,
        firstLineExceedsLimit := false, maxLines, maxBytes }
  else none

structure Output where
  lines : List Utf16 := []
  bytes : Nat := 0
  truncatedBy : TruncatedBy := .lines
  lastLinePartial : Bool := false

def Output.result (output : Output) (content : Utf16) (maxLines maxBytes : Nat) : TruncationResult :=
  let truncatedBy := if maxLines ≤ output.lines.length ∧ output.bytes ≤ maxBytes then .lines else output.truncatedBy
  let outputContent := joinLines output.lines
  { content := outputContent
    truncated := true
    truncatedBy := some truncatedBy
    totalLines := (splitLinesForCounting content).length
    totalBytes := utf8ByteLength content
    outputLines := output.lines.length
    outputBytes := utf8ByteLength outputContent
    lastLinePartial := output.lastLinePartial
    firstLineExceedsLimit := false
    maxLines
    maxBytes }

/-- The loop of `truncateHead`, over the lines left; it has pushed a line at every index before. -/
def headLoop (maxLines maxBytes : Nat) : List Utf16 → Output → Output
  | [], output => output
  | line :: rest, output =>
    if output.lines.length < maxLines then
      let lineBytes := utf8ByteLength line + (if 0 < output.lines.length then 1 else 0)
      if maxBytes < output.bytes + lineBytes then { output with truncatedBy := .bytes }
      else headLoop maxLines maxBytes rest { output with lines := output.lines ++ [line], bytes := output.bytes + lineBytes }
    else output

def truncateHead (content : Utf16) (options : TruncationOptions) : TruncationResult :=
  let maxLines := options.lineLimit
  let maxBytes := options.byteLimit
  match withinLimits content maxLines maxBytes with
  | some fitted => fitted
  | none =>
    let lines := splitLinesForCounting content
    if maxBytes < utf8ByteLength (lines.headD []) then
      { content := []
        truncated := true
        truncatedBy := some .bytes
        totalLines := lines.length
        totalBytes := utf8ByteLength content
        outputLines := 0
        outputBytes := 0
        lastLinePartial := false
        firstLineExceedsLimit := true
        maxLines
        maxBytes }
    else (headLoop maxLines maxBytes lines {}).result content maxLines maxBytes

/-- The loop of `truncateTail`, over the lines left from the last on. -/
def tailLoop (maxLines maxBytes : Nat) : List Utf16 → Output → Output
  | [], output => output
  | line :: earlier, output =>
    if output.lines.length < maxLines then
      let lineBytes := utf8ByteLength line + (if 0 < output.lines.length then 1 else 0)
      if maxBytes < output.bytes + lineBytes then
        if output.lines.length = 0 then
          let truncatedLine := truncateStringToBytesFromEnd line maxBytes
          { lines := [truncatedLine], bytes := utf8ByteLength truncatedLine, truncatedBy := .bytes, lastLinePartial := true }
        else { output with truncatedBy := .bytes }
      else tailLoop maxLines maxBytes earlier { output with lines := line :: output.lines, bytes := output.bytes + lineBytes }
    else output

def truncateTail (content : Utf16) (options : TruncationOptions) : TruncationResult :=
  let maxLines := options.lineLimit
  let maxBytes := options.byteLimit
  match withinLimits content maxLines maxBytes with
  | some fitted => fitted
  | none => (tailLoop maxLines maxBytes (splitLinesForCounting content).reverse {}).result content maxLines maxBytes

/-! ## The lines of a text -/

theorem splitLinesForCounting_snoc (front : Utf16) : splitLinesForCounting (front ++ [newline]) = front.splitOn newline := by
  unfold splitLinesForCounting endsWithNewline
  rw [if_neg (by simp)]
  dsimp only
  rw [if_pos (by simp), splitOn_append_cons_self, splitOn_nil, dropLast_concat]

theorem joinLines_split (content : Utf16) :
    joinLines (splitLinesForCounting content) ++ (if endsWithNewline content then [newline] else []) = content := by
  by_cases hLast : content.getLast? = some newline
  · obtain ⟨front, rfl⟩ := getLast?_eq_some_iff.mp hLast
    have hEnds : endsWithNewline (front ++ [newline]) = true := by
      unfold endsWithNewline
      simp
    rw [splitLinesForCounting_snoc, if_pos hEnds]
    unfold joinLines
    rw [intercalate_splitOn]
  · have hEnds : endsWithNewline content = false := by
      unfold endsWithNewline
      simpa using hLast
    rw [hEnds]
    simp only [Bool.false_eq_true, if_false, append_nil]
    unfold splitLinesForCounting
    split
    · next hEmpty =>
      rw [length_eq_zero_iff.mp hEmpty]
      rfl
    · simp only [hEnds, Bool.false_eq_true, if_false]
      exact intercalate_splitOn newline

theorem joinLines_append {front back : List Utf16} (hFront : front ≠ []) (hBack : back ≠ []) :
    joinLines (front ++ back) = joinLines front ++ newline :: joinLines back := by
  unfold joinLines
  rw [Search.intercalate_append hFront hBack, append_assoc, singleton_append]

theorem prefix_joinLines {kept lines : List Utf16} (h : kept <+: lines) : joinLines kept <+: joinLines lines := by
  obtain ⟨rest, rfl⟩ := h
  by_cases hKept : kept = []
  · rw [hKept]
    exact nil_prefix
  · by_cases hRest : rest = []
    · rw [hRest, append_nil]
    · rw [joinLines_append hKept hRest]
      exact prefix_append _ _

/-! ## The bytes of joined lines -/

def lineBytes (line : Utf16) : Nat := utf8ByteLength line + 1

theorem utf8ByteLength_newline (front back : Utf16) :
    utf8ByteLength (front ++ newline :: back) = utf8ByteLength front + 1 + utf8ByteLength back := by
  have hApart : ∀ unit ∈ front.getLast?, ∀ next ∈ (newline :: back).head?, (isHigh unit && isLow next) = false := by
    intro unit _ next hNext
    have hEq : newline = next := by simpa using hNext
    rw [← hEq, show isLow newline = false by decide, Bool.and_false]
  rw [utf8ByteLength_append hApart, utf8ByteLength_cons (by decide), show unitBytes newline = 1 by decide, Nat.add_assoc]

theorem utf8ByteLength_joinLines {lines : List Utf16} (h : lines ≠ []) :
    utf8ByteLength (joinLines lines) + 1 = total lineBytes lines := by
  induction lines with
  | nil => exact absurd rfl h
  | cons line rest ih =>
    by_cases hRest : rest = []
    · rw [hRest]
      simp [joinLines, lineBytes]
    · have hSplit : joinLines ([line] ++ rest) = joinLines [line] ++ newline :: joinLines rest := joinLines_append (cons_ne_nil _ _) hRest
      have hLine : joinLines [line] = line := by simp [joinLines]
      rw [singleton_append, hLine] at hSplit
      rw [hSplit, utf8ByteLength_newline, total_cons, ← ih hRest, lineBytes]
      omega

theorem joinLines_le_iff (lines : List Utf16) (maxBytes : Nat) :
    utf8ByteLength (joinLines lines) ≤ maxBytes ↔ total lineBytes lines ≤ maxBytes + 1 := by
  by_cases h : lines = []
  · rw [h]
    exact ⟨fun _ => Nat.zero_le _, fun _ => Nat.zero_le _⟩
  · have := utf8ByteLength_joinLines h
    omega

/-! ## The loops -/

structure Output.Counted (maxBytes : Nat) (output : Output) : Prop where
  bytes : output.bytes = total lineBytes output.lines - 1
  within : total lineBytes output.lines ≤ maxBytes + 1

section Loops

variable {maxLines maxBytes : Nat}

theorem Output.counted_empty (maxBytes : Nat) : Output.Counted maxBytes {} where
  bytes := rfl
  within := Nat.zero_le _

variable {output : Output}

theorem Output.Counted.push_bytes (h : output.Counted maxBytes) (line : Utf16) :
    output.bytes + (utf8ByteLength line + (if 0 < output.lines.length then 1 else 0)) + 1 = total lineBytes output.lines + lineBytes line := by
  have hBytes := h.bytes
  rcases hLines : output.lines with _ | ⟨first, rest⟩
  · rw [hLines] at hBytes
    simp only [hBytes, total_nil, length_nil, lt_irrefl, if_false, lineBytes]
    omega
  · rw [hLines, total_cons, lineBytes] at hBytes
    simp only [length_cons, Nat.succ_pos, if_true, total_cons, lineBytes]
    omega

theorem headLoop_eq (maxLines : Nat) (lines : List Utf16) (h : output.Counted maxBytes) :
    (headLoop maxLines maxBytes lines output).lines =
      output.lines ++ takeWithin lineBytes (maxBytes + 1 - total lineBytes output.lines) (lines.take (maxLines - output.lines.length)) ∧
    (headLoop maxLines maxBytes lines output).lastLinePartial = output.lastLinePartial := by
  induction lines generalizing output with
  | nil => simp [headLoop, takeWithin]
  | cons line rest ih =>
    have hPush := h.push_bytes line
    have hWith := h.within
    unfold headLoop
    by_cases hRoom : output.lines.length < maxLines
    · have hTake : maxLines - output.lines.length = maxLines - (output.lines.length + 1) + 1 := by omega
      rw [if_pos hRoom, hTake, take_succ_cons, takeWithin]
      dsimp only
      by_cases hOver : maxBytes < output.bytes + (utf8ByteLength line + (if 0 < output.lines.length then 1 else 0))
      · rw [if_pos hOver, if_neg (by omega), append_nil]
        exact ⟨rfl, rfl⟩
      · have hFits : lineBytes line ≤ maxBytes + 1 - total lineBytes output.lines := by omega
        rw [if_neg hOver, if_pos hFits]
        have hNext : Output.Counted maxBytes { output with
            lines := output.lines ++ [line]
            bytes := output.bytes + (utf8ByteLength line + (if 0 < output.lines.length then 1 else 0)) } := by
          constructor
          · simp only [total_append, total_cons, total_nil]
            omega
          · simp only [total_append, total_cons, total_nil]
            omega
        have hRest := ih hNext
        simp only [total_append, total_cons, total_nil, Nat.add_zero, length_append, length_singleton,
          Nat.sub_add_eq, append_assoc, singleton_append] at hRest
        rw [Nat.sub_add_eq]
        exact hRest
    · rw [if_neg hRoom, Nat.sub_eq_zero_of_le (Nat.le_of_not_lt hRoom), take_zero, takeWithin, append_nil]
      exact ⟨rfl, rfl⟩

theorem tailLoop_eq (maxLines : Nat) (lines : List Utf16) (h : output.Counted maxBytes)
    (hFirst : output.lines = [] → 0 < maxLines → ∀ line ∈ lines.head?, utf8ByteLength line ≤ maxBytes) :
    (tailLoop maxLines maxBytes lines output).lines =
      (takeWithin lineBytes (maxBytes + 1 - total lineBytes output.lines) (lines.take (maxLines - output.lines.length))).reverse ++ output.lines ∧
    (tailLoop maxLines maxBytes lines output).lastLinePartial = output.lastLinePartial := by
  induction lines generalizing output with
  | nil => simp [tailLoop, takeWithin]
  | cons line earlier ih =>
    have hPush := h.push_bytes line
    have hWith := h.within
    unfold tailLoop
    by_cases hRoom : output.lines.length < maxLines
    · have hTake : maxLines - output.lines.length = maxLines - (output.lines.length + 1) + 1 := by omega
      rw [if_pos hRoom, hTake, take_succ_cons, takeWithin]
      dsimp only
      by_cases hOver : maxBytes < output.bytes + (utf8ByteLength line + (if 0 < output.lines.length then 1 else 0))
      · have hSome : ¬ output.lines.length = 0 := by
          intro hNone
          have hEmpty := length_eq_zero_iff.mp hNone
          have hLine := hFirst hEmpty (by omega) line rfl
          simp only [hEmpty, length_nil, lt_irrefl, if_false, total_nil, lineBytes] at hPush hOver
          omega
        rw [if_pos hOver, if_neg hSome, if_neg (by omega)]
        exact ⟨rfl, rfl⟩
      · have hFits : lineBytes line ≤ maxBytes + 1 - total lineBytes output.lines := by omega
        rw [if_neg hOver, if_pos hFits]
        have hNext : Output.Counted maxBytes { output with
            lines := line :: output.lines
            bytes := output.bytes + (utf8ByteLength line + (if 0 < output.lines.length then 1 else 0)) } := by
          constructor
          · simp only [total_cons]
            omega
          · simp only [total_cons]
            omega
        have hRest := ih hNext (fun hNone => absurd hNone (cons_ne_nil _ _))
        simp only [total_cons, length_cons] at hRest
        rw [reverse_cons, append_assoc, singleton_append, Nat.sub_sub, Nat.add_comm (total lineBytes output.lines)]
        exact hRest
    · rw [if_neg hRoom, Nat.sub_eq_zero_of_le (Nat.le_of_not_lt hRoom), take_zero, takeWithin]
      exact ⟨rfl, rfl⟩

end Loops

/-! ## What is kept -/

def Fits (content : Utf16) (maxLines maxBytes : Nat) : Prop :=
  (splitLinesForCounting content).length ≤ maxLines ∧ utf8ByteLength content ≤ maxBytes

structure Counts (content : Utf16) (maxLines maxBytes : Nat) (result : TruncationResult) : Prop where
  totalLines : result.totalLines = (splitLinesForCounting content).length
  totalBytes : result.totalBytes = utf8ByteLength content
  truncated : result.truncated = false ↔ Fits content maxLines maxBytes
  outputBytes : result.outputBytes = utf8ByteLength result.content
  limits : result.maxLines = maxLines ∧ result.maxBytes = maxBytes
  lines_le : result.outputLines ≤ maxLines
  bytes_le : result.outputBytes ≤ maxBytes

structure WholeLines (end_of : List Utf16 → Prop) (maxLines maxBytes : Nat) (result : TruncationResult) (kept : List Utf16) : Prop where
  at_end : end_of kept
  content : result.content = joinLines kept
  outputLines : result.outputLines = kept.length
  longest : ∀ more, end_of more → kept.length < more.length → maxLines < more.length ∨ maxBytes < utf8ByteLength (joinLines more)

/-- The last characters of a line, lone surrogates replaced: with one character more they break the byte limit. -/
structure PartialLine (line : Utf16) (maxBytes : Nat) (result : TruncationResult) (kept : List Utf16) : Prop where
  at_end : kept <:+ characters line
  content : result.content = replaceUnpairedSurrogates kept.flatten
  outputLines : result.outputLines = 1
  longest : ∀ more, more <:+ characters line → kept.length < more.length → maxBytes < total characterBytes more

def LastLineOver (content : Utf16) (maxLines maxBytes : Nat) : Prop :=
  0 < maxLines ∧ ∃ line ∈ (splitLinesForCounting content).getLast?, maxBytes < utf8ByteLength line

structure HeadSlice (content : Utf16) (maxLines maxBytes : Nat) (result : TruncationResult) : Prop where
  counts : Counts content maxLines maxBytes result
  whole : result.lastLinePartial = false
  in_text : result.content <+: content
  fits : Fits content maxLines maxBytes → result.content = content ∧ result.outputLines = result.totalLines
  cut : ¬ Fits content maxLines maxBytes → ∃ kept, WholeLines (· <+: splitLinesForCounting content) maxLines maxBytes result kept

structure TailSlice (content : Utf16) (maxLines maxBytes : Nat) (result : TruncationResult) : Prop where
  counts : Counts content maxLines maxBytes result
  partial_iff : result.lastLinePartial = true ↔ ¬ Fits content maxLines maxBytes ∧ LastLineOver content maxLines maxBytes
  fits : Fits content maxLines maxBytes → result.content = content ∧ result.outputLines = result.totalLines
  cut : ¬ Fits content maxLines maxBytes → ¬ LastLineOver content maxLines maxBytes →
    ∃ kept, WholeLines (· <:+ splitLinesForCounting content) maxLines maxBytes result kept
  cut_line : ¬ Fits content maxLines maxBytes → LastLineOver content maxLines maxBytes →
    ∃ line ∈ (splitLinesForCounting content).getLast?, ∃ kept, PartialLine line maxBytes result kept

section Slices

variable {content : Utf16} {maxLines maxBytes : Nat}

theorem withinLimits_fits (h : Fits content maxLines maxBytes) :
    ∃ fitted, withinLimits content maxLines maxBytes = some fitted ∧ Counts content maxLines maxBytes fitted ∧
      fitted.content = content ∧ fitted.outputLines = fitted.totalLines ∧ fitted.lastLinePartial = false := by
  refine ⟨_, if_pos h, ?_, rfl, rfl, rfl⟩
  exact { totalLines := rfl, totalBytes := rfl, truncated := ⟨fun _ => h, fun _ => rfl⟩, outputBytes := rfl,
          limits := ⟨rfl, rfl⟩, lines_le := h.1, bytes_le := h.2 }

theorem withinLimits_over (h : ¬ Fits content maxLines maxBytes) : withinLimits content maxLines maxBytes = none := if_neg h

def keptLines (maxLines maxBytes : Nat) (lines : List Utf16) : List Utf16 := takeWithin lineBytes (maxBytes + 1) (lines.take maxLines)

theorem prefix_keptLines (lines : List Utf16) : keptLines maxLines maxBytes lines <+: lines :=
  (prefix_takeWithin _ _).trans (List.take_prefix _ _)

theorem length_keptLines_le (lines : List Utf16) : (keptLines maxLines maxBytes lines).length ≤ maxLines :=
  (prefix_takeWithin _ _).length_le.trans (length_take_le _ _)

theorem over_of_longer (maxBytes : Nat) {lines more : List Utf16} (h : more <+: lines)
    (hLonger : (keptLines maxLines maxBytes lines).length < more.length) :
    maxLines < more.length ∨ maxBytes + 1 < total lineBytes more := by
  by_cases hLines : maxLines < more.length
  · exact .inl hLines
  · have hTaken : more <+: lines.take maxLines := prefix_take_iff.mpr ⟨h, Nat.le_of_not_lt hLines⟩
    exact .inr (lt_total_of_longer hTaken hLonger)

theorem keptLines_nil_of_over {lines : List Utf16} (h : ∀ line ∈ lines.head?, maxBytes < utf8ByteLength line) :
    keptLines maxLines maxBytes lines = [] := by
  unfold keptLines
  cases lines with
  | nil => rw [take_nil, takeWithin]
  | cons line rest =>
    have hLine := h line rfl
    cases maxLines with
    | zero => rw [take_zero, takeWithin]
    | succ maxLines => rw [take_succ_cons, takeWithin, if_neg (by unfold lineBytes; omega)]

theorem Output.counts_result {output : Output} (h : ¬ Fits content maxLines maxBytes) (hLines : output.lines.length ≤ maxLines)
    (hBytes : utf8ByteLength (joinLines output.lines) ≤ maxBytes) :
    Counts content maxLines maxBytes (output.result content maxLines maxBytes) where
  totalLines := rfl
  totalBytes := rfl
  truncated := ⟨fun hNot => Bool.noConfusion hNot, fun hFits => absurd hFits h⟩
  outputBytes := rfl
  limits := ⟨rfl, rfl⟩
  lines_le := hLines
  bytes_le := hBytes

theorem joinLines_keptLines (lines : List Utf16) : utf8ByteLength (joinLines (keptLines maxLines maxBytes lines)) ≤ maxBytes :=
  (joinLines_le_iff _ _).mpr (total_takeWithin _ _)

variable {result : TruncationResult}

theorem headLines_wholeLines (hCont : result.content = joinLines (keptLines maxLines maxBytes (splitLinesForCounting content)))
    (hLines : result.outputLines = (keptLines maxLines maxBytes (splitLinesForCounting content)).length) :
    WholeLines (· <+: splitLinesForCounting content) maxLines maxBytes result (keptLines maxLines maxBytes (splitLinesForCounting content)) where
  at_end := prefix_keptLines _
  content := hCont
  outputLines := hLines
  longest := by
    intro more hMore hLonger
    apply (over_of_longer maxBytes hMore hLonger).imp_right
    intro hOver
    exact Nat.lt_of_not_le fun hFits => absurd ((joinLines_le_iff _ _).mp hFits) (Nat.not_le.mpr hOver)

theorem truncateHead_over (options : TruncationOptions) (h : ¬ Fits content options.lineLimit options.byteLimit) :
    Counts content options.lineLimit options.byteLimit (truncateHead content options) ∧
      (truncateHead content options).lastLinePartial = false ∧
      (truncateHead content options).content = joinLines (keptLines options.lineLimit options.byteLimit (splitLinesForCounting content)) ∧
      (truncateHead content options).outputLines = (keptLines options.lineLimit options.byteLimit (splitLinesForCounting content)).length := by
  unfold truncateHead
  simp only [withinLimits_over h]
  split
  · next hFirst =>
    have hNone : keptLines options.lineLimit options.byteLimit (splitLinesForCounting content) = [] := by
      apply keptLines_nil_of_over
      intro line hLine
      rwa [headD_eq_head?_getD, Option.mem_def.mp hLine] at hFirst
    rw [hNone]
    refine ⟨?_, rfl, rfl, rfl⟩
    exact { totalLines := rfl, totalBytes := rfl, truncated := ⟨fun hNot => Bool.noConfusion hNot, fun hFits => absurd hFits h⟩,
            outputBytes := rfl, limits := ⟨rfl, rfl⟩, lines_le := Nat.zero_le _, bytes_le := Nat.zero_le _ }
  · obtain ⟨hLines, hPartial⟩ :=
      headLoop_eq options.lineLimit (splitLinesForCounting content) (Output.counted_empty options.byteLimit)
    change _ = keptLines options.lineLimit options.byteLimit (splitLinesForCounting content) at hLines
    refine ⟨Output.counts_result h ?_ ?_, hPartial, ?_, ?_⟩
    · rw [hLines]
      exact length_keptLines_le _
    · rw [hLines]
      exact joinLines_keptLines _
    · exact congrArg joinLines hLines
    · exact congrArg List.length hLines

theorem truncateHead_slice (content : Utf16) (options : TruncationOptions) :
    HeadSlice content options.lineLimit options.byteLimit (truncateHead content options) := by
  by_cases h : Fits content options.lineLimit options.byteLimit
  · obtain ⟨fitted, hFitted, hCounts, hCont, hLines, hPartial⟩ := withinLimits_fits h
    have hEq : truncateHead content options = fitted := by
      unfold truncateHead
      simp only [hFitted]
    rw [hEq]
    exact { counts := hCounts, whole := hPartial, in_text := hCont ▸ prefix_rfl, fits := fun _ => ⟨hCont, hLines⟩,
            cut := fun hNot => absurd h hNot }
  · obtain ⟨hCounts, hPartial, hCont, hLines⟩ := truncateHead_over options h
    refine { counts := hCounts, whole := hPartial, in_text := ?_, fits := fun hFits => absurd hFits h, cut := fun _ => ⟨_, headLines_wholeLines hCont hLines⟩ }
    rw [hCont]
    refine (prefix_joinLines (prefix_keptLines _)).trans ?_
    exact ⟨_, joinLines_split content⟩

/-! ## From the end -/

theorem tailLines_wholeLines
    (hCont : result.content = joinLines (keptLines maxLines maxBytes (splitLinesForCounting content).reverse).reverse)
    (hLines : result.outputLines = (keptLines maxLines maxBytes (splitLinesForCounting content).reverse).reverse.length) :
    WholeLines (· <:+ splitLinesForCounting content) maxLines maxBytes result
      (keptLines maxLines maxBytes (splitLinesForCounting content).reverse).reverse where
  at_end := by
    rw [← List.reverse_prefix, reverse_reverse]
    exact prefix_keptLines _
  content := hCont
  outputLines := hLines
  longest := by
    intro more hMore hLonger
    have hOver := over_of_longer maxBytes (List.reverse_prefix.mpr hMore) (by simpa using hLonger)
    rw [length_reverse, total_reverse] at hOver
    apply hOver.imp_right
    intro hTotal
    exact Nat.lt_of_not_le fun hFits => absurd ((joinLines_le_iff _ _).mp hFits) (Nat.not_le.mpr hTotal)

theorem keptFromEnd_partialLine (line : Utf16) (hCont : result.content = truncateStringToBytesFromEnd line maxBytes)
    (hLines : result.outputLines = 1) : PartialLine line maxBytes result (keptFromEnd line maxBytes) where
  at_end := keptFromEnd_suffix line maxBytes
  content := hCont.trans (truncateStringToBytesFromEnd_eq line maxBytes)
  outputLines := hLines
  longest := by
    intro more hMore hLonger
    unfold keptFromEnd at hLonger
    rw [length_reverse, ← more.length_reverse] at hLonger
    rw [← total_reverse]
    exact lt_total_of_longer (List.reverse_prefix.mpr hMore) hLonger

theorem tailLoop_lastLineOver (h : LastLineOver content maxLines maxBytes) :
    ∃ line ∈ (splitLinesForCounting content).getLast?,
      (tailLoop maxLines maxBytes (splitLinesForCounting content).reverse {}).lines = [truncateStringToBytesFromEnd line maxBytes] ∧
      (tailLoop maxLines maxBytes (splitLinesForCounting content).reverse {}).lastLinePartial = true := by
  obtain ⟨hRoom, line, hLine, hOver⟩ := h
  refine ⟨line, hLine, ?_⟩
  obtain ⟨front, hFront⟩ := getLast?_eq_some_iff.mp hLine
  rw [hFront, reverse_append, reverse_singleton, singleton_append]
  unfold tailLoop
  simp [hRoom, hOver]

theorem truncateTail_slice (content : Utf16) (options : TruncationOptions) :
    TailSlice content options.lineLimit options.byteLimit (truncateTail content options) := by
  by_cases h : Fits content options.lineLimit options.byteLimit
  · obtain ⟨fitted, hFitted, hCounts, hCont, hLines, hPartial⟩ := withinLimits_fits h
    have hEq : truncateTail content options = fitted := by
      unfold truncateTail
      simp only [hFitted]
    rw [hEq]
    exact { counts := hCounts, partial_iff := by simp [hPartial, h], fits := fun _ => ⟨hCont, hLines⟩,
            cut := fun hNot => absurd h hNot, cut_line := fun hNot => absurd h hNot }
  · have hEq : truncateTail content options =
        (tailLoop options.lineLimit options.byteLimit (splitLinesForCounting content).reverse {}).result content options.lineLimit options.byteLimit := by
      unfold truncateTail
      simp only [withinLimits_over h]
    rw [hEq]
    by_cases hOver : LastLineOver content options.lineLimit options.byteLimit
    · obtain ⟨line, hLine, hLines, hPartial⟩ := tailLoop_lastLineOver hOver
      have hJoin : joinLines (tailLoop options.lineLimit options.byteLimit (splitLinesForCounting content).reverse {}).lines =
          truncateStringToBytesFromEnd line options.byteLimit := by
        rw [hLines]
        simp [joinLines]
      have hCounts := Output.counts_result h (by rw [hLines]; exact hOver.1) (by rw [hJoin]; exact utf8ByteLength_truncated _ _)
      exact { counts := hCounts, partial_iff := ⟨fun _ => ⟨h, hOver⟩, fun _ => hPartial⟩, fits := fun hFits => absurd hFits h,
              cut := fun _ hNot => absurd hOver hNot,
              cut_line := fun _ _ => ⟨line, hLine, _, keptFromEnd_partialLine line hJoin (congrArg List.length hLines)⟩ }
    · have hFirst : (∅ : List Utf16) = [] → 0 < options.lineLimit →
          ∀ line ∈ (splitLinesForCounting content).reverse.head?, utf8ByteLength line ≤ options.byteLimit := by
        intro _ hRoom line hLine
        rw [head?_reverse] at hLine
        exact Nat.le_of_not_lt fun hLong => hOver ⟨hRoom, line, hLine, hLong⟩
      obtain ⟨hLines, hPartial⟩ := tailLoop_eq options.lineLimit (splitLinesForCounting content).reverse (Output.counted_empty options.byteLimit) hFirst
      rw [append_nil] at hLines
      change _ = (keptLines options.lineLimit options.byteLimit (splitLinesForCounting content).reverse).reverse at hLines
      have hCounts : Counts content options.lineLimit options.byteLimit
          ((tailLoop options.lineLimit options.byteLimit (splitLinesForCounting content).reverse {}).result content options.lineLimit options.byteLimit) := by
        apply Output.counts_result h
        · rw [hLines, length_reverse]
          exact length_keptLines_le _
        · rw [hLines, joinLines_le_iff, total_reverse]
          exact total_takeWithin _ _
      exact { counts := hCounts, partial_iff := ⟨fun hTrue => Bool.noConfusion (hPartial.symm.trans hTrue), fun hBoth => absurd hBoth.2 hOver⟩,
              fits := fun hFits => absurd hFits h,
              cut := fun _ _ => ⟨_, tailLines_wholeLines (congrArg joinLines hLines) (congrArg List.length hLines)⟩,
              cut_line := fun _ hLast => absurd hLast hOver }

end Slices

/-- Both ends are kept as whole lines, the most that fit, and the counts are those of the full text. -/
theorem truncate_slices (content : Utf16) (options : TruncationOptions) :
    HeadSlice content options.lineLimit options.byteLimit (truncateHead content options) ∧
    TailSlice content options.lineLimit options.byteLimit (truncateTail content options) :=
  ⟨truncateHead_slice content options, truncateTail_slice content options⟩

end Stella.ToolOutput
