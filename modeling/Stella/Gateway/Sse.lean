import Stella.ToolOutput.Utf16

/-! # Server-sent events in chunks

The parser of `sse.ts` gets a text in chunks and gives the frames that each chunk completes. What
it gives altogether is compared with the framing of the whole text.
-/

namespace Stella.Gateway.Sse

open List
open ToolOutput (Utf16)

def cr : UInt16 := 13
def lf : UInt16 := 10
def bom : UInt16 := 0xfeff
def colon : UInt16 := 58
def space : UInt16 := 32

def units (text : String) : Utf16 := text.toList.map fun c => c.val.toUInt16

structure SseFrame where
  event : Option Utf16
  data : Utf16
  id : Option Utf16
deriving DecidableEq

structure Fields where
  event : Option Utf16 := none
  id : Option Utf16 := none
  dataLines : List Utf16 := []
  hasData : Bool := false

def dispatch (fields : Fields) : Fields × List SseFrame :=
  ({ id := fields.id }, if fields.hasData then [⟨fields.event, [lf].intercalate fields.dataLines, fields.id⟩] else [])

def consumeLine (fields : Fields) (line : Utf16) : Fields × List SseFrame :=
  if line = [] then dispatch fields
  else if line.head? = some colon then (fields, [])
  else
    let field := line.takeWhile (· ≠ colon)
    let value := (line.dropWhile (· ≠ colon)).drop 1
    let value := if value.head? = some space then value.drop 1 else value
    if field = units "data" then ({ fields with dataLines := fields.dataLines ++ [value], hasData := true }, [])
    else if field = units "event" then ({ fields with event := some value }, [])
    else if field = units "id" then (if 0 ∈ value then fields else { fields with id := some value }, [])
    else (fields, [])

def consumeLines (fields : Fields) : List Utf16 → Fields × List SseFrame
  | [] => (fields, [])
  | line :: rest =>
    let (next, frames) := consumeLine fields line
    let (last, others) := consumeLines next rest
    (last, frames ++ others)

def takeLines (flush : Bool) (line : Utf16) : Utf16 → List Utf16 × Utf16
  | [] => ([], line)
  | [c] => if c = lf ∨ c = cr ∧ flush = true then ([line], []) else ([], line ++ [c])
  | c :: next :: rest =>
    if c = cr ∧ next = lf then (takeLines flush [] rest).map (line :: ·) id
    else if c = cr ∨ c = lf then (takeLines flush [] (next :: rest)).map (line :: ·) id
    else takeLines flush (line ++ [c]) (next :: rest)

def dropBom (text : Utf16) : Utf16 := if text.head? = some bom then text.drop 1 else text

structure Parser where
  buffer : Utf16 := []
  sawBom : Bool := false
  fields : Fields := {}

def drain (parser : Parser) (flush : Bool) : Parser × List SseFrame :=
  let buffer := if parser.sawBom then parser.buffer else dropBom parser.buffer
  let (lines, left) := takeLines flush [] buffer
  let lines := if flush = true ∧ left ≠ [] then lines ++ [left] else lines
  let (fields, frames) := consumeLines parser.fields lines
  (⟨if flush then [] else left, parser.sawBom || !buffer.isEmpty, fields⟩, frames)

def push (parser : Parser) (text : Utf16) : Parser × List SseFrame := drain { parser with buffer := parser.buffer ++ text } false

def finish (parser : Parser) : List SseFrame :=
  let (parser, frames) := drain parser true
  frames ++ (dispatch parser.fields).2

def parse (parser : Parser) : List Utf16 → List SseFrame
  | [] => finish parser
  | text :: rest => (push parser text).2 ++ parse (push parser text).1 rest

/-! ## The framing of a whole text -/

def lines (line : Utf16) : Utf16 → List Utf16
  | [] => if line = [] then [] else [line]
  | [c] => if c = cr ∨ c = lf then [line] else [line ++ [c]]
  | c :: next :: rest =>
    if c = cr ∧ next = lf then line :: lines [] rest
    else if c = cr ∨ c = lf then line :: lines [] (next :: rest)
    else lines (line ++ [c]) (next :: rest)

def framed (fields : Fields) (text : Utf16) : List SseFrame :=
  let (fields, frames) := consumeLines fields (lines [] text)
  frames ++ (dispatch fields).2

def frames (text : Utf16) : List SseFrame := framed {} (dropBom text)

/-! ## A cut changes nothing -/

theorem consumeLines_append (fields : Fields) (front back : List Utf16) :
    consumeLines fields (front ++ back) =
      ((consumeLines (consumeLines fields front).1 back).1, (consumeLines fields front).2 ++ (consumeLines (consumeLines fields front).1 back).2) := by
  induction front generalizing fields with
  | nil => rfl
  | cons line rest ih => simp [consumeLines, ih]

variable {line : Utf16} {c : UInt16}

theorem lines_char (hCr : c ≠ cr) (hLf : c ≠ lf) (rest : Utf16) : lines line (c :: rest) = lines (line ++ [c]) rest := by
  cases rest with
  | nil => simp [lines, hCr, hLf]
  | cons next rest => simp [lines, hCr, hLf]

theorem lines_lf (rest : Utf16) : lines line (lf :: rest) = line :: lines [] rest := by
  cases rest with
  | nil => simp [lines]
  | cons next rest => simp [lines, show lf ≠ cr by decide]

theorem lines_plain (h : cr ∉ line ∧ lf ∉ line) (front more : Utf16) : lines front (line ++ more) = lines (front ++ line) more := by
  induction line generalizing front with
  | nil => rw [nil_append, append_nil]
  | cons c rest ih =>
    rw [mem_cons, not_or, mem_cons, not_or] at h
    rw [cons_append, lines_char (Ne.symm h.1.1) (Ne.symm h.2.1), ih ⟨h.1.2, h.2.2⟩, append_assoc, singleton_append]

theorem lines_takeLines (h : cr ∉ line ∧ lf ∉ line) (buffer more : Utf16) :
    lines line (buffer ++ more) = (takeLines false line buffer).1 ++ lines [] ((takeLines false line buffer).2 ++ more) := by
  have hNil : cr ∉ ([] : Utf16) ∧ lf ∉ ([] : Utf16) := ⟨not_mem_nil, not_mem_nil⟩
  induction line, buffer using takeLines.induct false with
  | case1 line => exact (lines_plain h [] more).symm
  | case2 line c hEnd =>
    obtain rfl : c = lf := by simpa using hEnd
    rw [takeLines, if_pos hEnd]
    exact lines_lf more
  | case3 line c hEnd =>
    rw [takeLines, if_neg hEnd, nil_append, append_assoc, lines_plain h [], nil_append]
  | case4 line c next rest hBoth ih =>
    rw [takeLines, if_pos hBoth, cons_append, cons_append, lines, if_pos hBoth, ih hNil]
    rfl
  | case5 line c next rest hBoth hEnd ih =>
    rw [takeLines, if_neg hBoth, if_pos hEnd, cons_append, cons_append, lines, if_neg hBoth, if_pos hEnd, ← cons_append, ih hNil]
    rfl
  | case6 line c next rest hBoth hEnd ih =>
    rw [not_or] at hEnd
    rw [takeLines, if_neg hBoth, if_neg (not_or.mpr hEnd), cons_append, lines_char hEnd.1 hEnd.2, ih]
    simpa [Ne.symm hEnd.1, Ne.symm hEnd.2] using h

theorem lines_flush (line buffer : Utf16) :
    lines line buffer = (takeLines true line buffer).1 ++ if (takeLines true line buffer).2 ≠ [] then [(takeLines true line buffer).2] else [] := by
  induction line, buffer using takeLines.induct true with
  | case1 line =>
    rw [takeLines, lines, nil_append]
    split <;> simp_all
  | case2 line c hEnd =>
    rw [takeLines, if_pos hEnd, lines, if_pos (by simpa [or_comm] using hEnd)]
    rfl
  | case3 line c hEnd =>
    rw [takeLines, if_neg hEnd, lines, if_neg (by simpa [or_comm] using hEnd)]
    simp
  | case4 line c next rest hBoth ih =>
    rw [takeLines, if_pos hBoth, lines, if_pos hBoth, ih]
    rfl
  | case5 line c next rest hBoth hEnd ih =>
    rw [takeLines, if_neg hBoth, if_pos hEnd, lines, if_neg hBoth, if_pos hEnd, ih]
    rfl
  | case6 line c next rest hBoth hEnd ih =>
    rw [takeLines, if_neg hBoth, if_neg hEnd, lines, if_neg hBoth, if_neg hEnd, ih]

def Parser.scanned (parser : Parser) (text : Utf16) : Utf16 :=
  if parser.sawBom then parser.buffer ++ text else dropBom (parser.buffer ++ text)

theorem framed_push (parser : Parser) (text more : Utf16) :
    framed parser.fields (parser.scanned text ++ more) =
      (push parser text).2 ++ framed (push parser text).1.fields ((push parser text).1.buffer ++ more) := by
  have hLines := @lines_takeLines [] ⟨not_mem_nil, not_mem_nil⟩ (parser.scanned text) more
  unfold framed
  rw [hLines, consumeLines_append]
  dsimp only
  rw [append_assoc]
  simp [push, drain, Parser.scanned]

theorem finish_eq (parser : Parser) : finish parser = framed parser.fields (parser.scanned []) := by
  have hIf (front : List Utf16) (left : Utf16) : (if left ≠ [] then front ++ [left] else front) = front ++ if left ≠ [] then [left] else [] := by
    split
    · rfl
    · exact (append_nil front).symm
  unfold framed finish
  rw [lines_flush, ← hIf]
  simp [drain, Parser.scanned]

/-! ## Chunks -/

def SingleBom (chunks : List Utf16) : Prop :=
  ∀ front back, chunks = front ++ back → front.flatten = [bom] → back.flatten.head? ≠ some bom

theorem singleBom_of_head {chunks : List Utf16} (h : chunks.flatten.head? ≠ some bom) : SingleBom chunks := by
  rintro front back rfl hFront
  rw [flatten_append, hFront] at h
  exact absurd rfl h

theorem dropBom_append {text : Utf16} (h : text ≠ []) (more : Utf16) : dropBom (text ++ more) = dropBom text ++ more := by
  cases text with
  | nil => exact absurd rfl h
  | cons c rest =>
    unfold dropBom
    rw [cons_append, head?_cons, head?_cons]
    split <;> rfl

theorem dropBom_eq_nil {text : Utf16} (h : dropBom text = []) : text = [] ∨ text = [bom] := by
  unfold dropBom at h
  split at h
  · next hBom =>
    cases text with
    | nil => exact Or.inl rfl
    | cons c rest =>
      rw [head?_cons, Option.some.injEq] at hBom
      rw [hBom, show rest = [] from h]
      exact Or.inr rfl
  · exact Or.inl h

theorem push_unseen {parser : Parser} {text : Utf16} (h : (push parser text).1.sawBom = false) :
    parser.sawBom = false ∧ dropBom (parser.buffer ++ text) = [] ∧ push parser text = ({ parser with buffer := [] }, []) := by
  have hParts : parser.sawBom = false ∧ dropBom (parser.buffer ++ text) = [] := by
    cases hSaw : parser.sawBom with
    | true => simp [push, drain, hSaw] at h
    | false => simpa [push, drain, hSaw] using h
  refine ⟨hParts.1, hParts.2, ?_⟩
  simp [push, drain, hParts, takeLines, consumeLines]

theorem parse_eq (chunks : List Utf16) (parser : Parser) (h : parser.sawBom = false → parser.buffer = [] ∧ SingleBom chunks) :
    parse parser chunks = framed parser.fields (parser.scanned chunks.flatten) := by
  induction chunks generalizing parser with
  | nil => exact finish_eq parser
  | cons text rest ih =>
    cases hSaw : (push parser text).1.sawBom with
    | true =>
      have hScanned : parser.scanned (text ++ rest.flatten) = parser.scanned text ++ rest.flatten := by
        unfold Parser.scanned
        split
        · rw [append_assoc]
        · next hNot =>
          obtain ⟨hEmpty, -⟩ := h (by simpa using hNot)
          rw [hEmpty, nil_append, nil_append]
          apply dropBom_append
          rintro rfl
          simp [push, drain, hNot, hEmpty, dropBom] at hSaw
      rw [flatten_cons, parse, hScanned, framed_push, ih _ (by simp [hSaw])]
      simp [Parser.scanned, hSaw]
    | false =>
      obtain ⟨hUnseen, hDrop, hPush⟩ := push_unseen hSaw
      obtain ⟨hEmpty, hSingle⟩ := h hUnseen
      rw [hEmpty, nil_append] at hDrop
      have hRest : SingleBom rest ∧ dropBom (text ++ rest.flatten) = dropBom rest.flatten := by
        rcases dropBom_eq_nil hDrop with rfl | rfl
        · exact ⟨fun front back hParts => hSingle ([] :: front) back (congrArg _ hParts), rfl⟩
        · have hHead : rest.flatten.head? ≠ some bom := hSingle [[bom]] rest rfl rfl
          refine ⟨singleBom_of_head hHead, ?_⟩
          conv_rhs => rw [dropBom, if_neg hHead]
          rfl
      rw [flatten_cons, parse, hPush, nil_append, ih _ fun _ => ⟨rfl, hRest.1⟩]
      simp [Parser.scanned, hUnseen, hEmpty, hRest.2]

theorem parse_chunks (chunks : List Utf16) (h : SingleBom chunks) : parse {} chunks = frames chunks.flatten :=
  parse_eq chunks {} fun _ => ⟨rfl, h⟩

theorem parse_chunks_crlf : parse {} [units "data: x\r", units "\n\n"] = frames (units "data: x\r" ++ units "\n\n") := by
  simpa using parse_chunks [units "data: x\r", units "\n\n"] (singleBom_of_head (by decide))

theorem second_bom_dropped : parse {} [[bom], bom :: units "data: x\n\n"] ≠ frames [[bom], bom :: units "data: x\n\n"].flatten := by
  decide

end Stella.Gateway.Sse
