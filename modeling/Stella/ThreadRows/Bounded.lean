import Stella.Library.Search
import Stella.ThreadRows.Model

/-! # How large a stored row is

The stages shorten the content and nothing else. The last one leaves one preview, so that a row is
over the limit only by its other fields.
-/

namespace Stella.ThreadRows

open ToolOutput List

/-! ## The bytes of a JSON text -/

theorem hexUnit_ascii {n : Nat} (h : n < 16) : (hexUnit n).toNat ≤ 0x7f := by
  unfold hexUnit
  split
  · rw [UInt16.toNat_ofNat_of_lt' (by change _ < 65536; omega)]
    omega
  · rw [UInt16.toNat_ofNat_of_lt' (by change _ < 65536; omega)]
    omega

theorem utf8ByteLength_escapeUnit (unit : UInt16) : utf8ByteLength (escapeUnit unit) ≤ 6 := by
  have hUnit : unit.toNat < 65536 := unit.toNat_lt
  unfold escapeUnit
  dsimp only
  split_ifs
  · decide
  · decide
  · decide
  · decide
  · decide
  · decide
  · decide
  · rw [utf8ByteLength_of_ascii]
    · exact Nat.le_refl 6
    · intro escaped hEscaped
      rcases mem_append.mp hEscaped with hLead | hDigits
      · have hMarks : ascii "\\u" = [0x5c, 0x75] := rfl
        have hAscii : ∀ mark ∈ ascii "\\u", mark.toNat ≤ 0x7f := by simp [hMarks]
        exact hAscii escaped hLead
      · simp only [mem_cons, not_mem_nil, or_false] at hDigits
        rcases hDigits with rfl | rfl | rfl | rfl
        · exact hexUnit_ascii (by omega)
        · exact hexUnit_ascii (by omega)
        · exact hexUnit_ascii (by omega)
        · exact hexUnit_ascii (by omega)
  · have := unitBytes_le unit
    change unitBytes unit ≤ 6
    omega

theorem utf8ByteLength_escapeUnits (text : Utf16) : utf8ByteLength (escapeUnits text) ≤ 6 * text.length := by
  induction text using escapeUnits.induct with
  | case1 => exact Nat.le_refl _
  | case2 unit => exact utf8ByteLength_escapeUnit unit
  | case3 unit next rest hPair ih =>
    rw [escapeUnits, if_pos hPair, utf8ByteLength, if_pos hPair, length_cons, length_cons]
    omega
  | case4 unit next rest hPair ih =>
    have hUnit := utf8ByteLength_escapeUnit unit
    have hBoth := utf8ByteLength_append_le (escapeUnit unit) (escapeUnits (next :: rest))
    rw [escapeUnits, if_neg hPair, length_cons]
    omega

theorem utf8ByteLength_quote (text : Utf16) : utf8ByteLength (quote text) ≤ 6 * text.length + 2 := by
  have hText := utf8ByteLength_escapeUnits text
  have hOpen := utf8ByteLength_append_le (ascii "\"") (escapeUnits text)
  have hClose := utf8ByteLength_append_le (ascii "\"" ++ escapeUnits text) (ascii "\"")
  have hMark : utf8ByteLength (ascii "\"") = 1 := by decide
  unfold quote
  omega

/-! ## The previews -/

/-- `MAX_SAFE_INTEGER`, which no length of a string exceeds. -/
def MAX_STRING_LENGTH : Nat := 2 ^ 53 - 1

theorem length_ascii (text : String) : (ascii text).length = text.toList.length := length_map _

theorem length_decimal {n : Nat} (h : n ≤ MAX_STRING_LENGTH) : (decimal n).length ≤ 16 := by
  unfold decimal
  rw [length_map]
  apply (Nat.length_toDigits_le_iff (by decide) (by decide)).mpr
  exact lt_of_le_of_lt h (by decide)

theorem length_truncatePreview (value : Utf16) : (truncatePreview value).length ≤ 503 := by
  unfold truncatePreview THREAD_ROW_PREVIEW_CHARS
  split
  · omega
  · rw [length_append, length_take, length_ascii]
    change _ + 3 ≤ 503
    omega

variable {text : Utf16}

theorem length_truncateTextBlock (h : text.length ≤ MAX_STRING_LENGTH) (label : String) :
    (truncateTextBlockForStorage text label).length ≤ label.toList.length + 600 := by
  have hLen := length_decimal h
  have hShown := length_decimal (n := min text.length THREAD_ROW_PREVIEW_CHARS) ((Nat.min_le_left _ _).trans h)
  have hPreview := length_truncatePreview text
  have hFixed : (" truncated for storage (".toList.length = 24) ∧ " chars). First ".toList.length = 15 ∧ " chars: ".toList.length = 8 := by decide
  have hMarks : "[".toList.length = 1 ∧ "]".toList.length = 1 := by decide
  unfold truncateTextBlockForStorage
  simp only [length_append, length_ascii, hFixed, hMarks]
  omega

theorem length_truncateToolOutput (h : text.length ≤ MAX_STRING_LENGTH) :
    (truncateToolOutputForStorage text).length ≤ 660 := by
  have hLen := length_decimal h
  have hPreview := length_truncatePreview text
  have hFront : "This tool output was too large to persist in storage (".toList.length = 54 := by decide
  have hBack : " chars). If the user asks about this data, suggest re-running the tool. Preview: ".toList.length = 81 := by decide
  unfold truncateToolOutputForStorage
  simp only [length_append, length_ascii, hFront, hBack]
  omega

theorem utf8ByteLength_textBlock (text : Utf16) : utf8ByteLength (blocksJson [.text text []]) ≤ 6 * text.length + 30 := by
  have hQuote := utf8ByteLength_quote text
  have hShape : blocksJson [.text text []] = ascii "[\x7b\"type\":\"text\",\"text\":" ++ quote text ++ ascii "\x7d]" := by
    have hType : (stringField "type" (ascii "text")).text = ascii "\"type\":\"text\"" := by decide
    have hText : (stringField "text" text).text = ascii "\"text\":" ++ quote text := by
      have hName : quote (ascii "text") ++ ascii ":" = ascii "\"text\":" := by decide
      unfold stringField Field.text
      rw [hName]
    unfold blocksJson arrayText Block.json objectText
    simp only [map_cons, map_nil, intercalate_singleton]
    rw [intercalate_cons_cons, intercalate_singleton, hType, hText]
    have hLead : ascii "[\x7b\"type\":\"text\",\"text\":" = ascii "[" ++ (ascii "\x7b" ++ (ascii "\"type\":\"text\"" ++ (ascii "," ++ ascii "\"text\":"))) := by decide
    have hClose : ascii "\x7d]" = ascii "\x7d" ++ ascii "]" := by decide
    rw [hLead, hClose]
    simp only [append_assoc]
  have hFront := utf8ByteLength_append_le (ascii "[\x7b\"type\":\"text\",\"text\":") (quote text)
  have hBack := utf8ByteLength_append_le (ascii "[\x7b\"type\":\"text\",\"text\":" ++ quote text) (ascii "\x7d]")
  have hOpen : utf8ByteLength (ascii "[\x7b\"type\":\"text\",\"text\":") = 23 := by decide
  have hEnd : utf8ByteLength (ascii "\x7d]") = 2 := by decide
  rw [hShape]
  omega

/-! ## A row and its content -/

theorem rowText_eq (around : Around) : ∃ front back, (∀ unit ∈ front.getLast?, isHigh unit = false) ∧
    ∀ content, around.rowText content = front ++ content ++ back := by
  have hField (content : JsonText) : Field.text ⟨ascii "content", content⟩ = ascii "\"content\":" ++ content := by
    have hName : quote (ascii "content") ++ ascii ":" = ascii "\"content\":" := by decide
    unfold Field.text
    rw [hName]
  have hBehind : ∃ back, ∀ content, (ascii ",").intercalate (Field.text ⟨ascii "content", content⟩ :: around.back.map Field.text) =
      ascii "\"content\":" ++ content ++ back := by
    by_cases hBack : around.back.map Field.text = []
    · refine ⟨[], fun content => ?_⟩
      rw [hBack, intercalate_singleton, hField, append_nil]
    · refine ⟨ascii "," ++ (ascii ",").intercalate (around.back.map Field.text), fun content => ?_⟩
      rw [intercalate_cons_of_ne_nil hBack, hField]
      simp only [append_assoc]
  obtain ⟨back, hBack⟩ := hBehind
  have hColon : ∀ lead : Utf16, ∀ unit ∈ (lead ++ ascii "\"content\":").getLast?, isHigh unit = false := by
    intro lead unit hUnit
    rw [getLast?_append_of_ne_nil _ (by decide)] at hUnit
    have hLast : (ascii "\"content\":").getLast? = some 0x3a := by decide
    rw [hLast] at hUnit
    cases hUnit
    decide
  by_cases hFront : around.front.map Field.text = []
  · refine ⟨ascii "\x7b" ++ ascii "\"content\":", back ++ ascii "\x7d", hColon _, fun content => ?_⟩
    unfold Around.rowText objectText
    rw [map_append, hFront, nil_append, map_cons, hBack]
    simp only [append_assoc]
  · refine ⟨ascii "\x7b" ++ (ascii ",").intercalate (around.front.map Field.text) ++ ascii "," ++ ascii "\"content\":", back ++ ascii "\x7d", hColon _,
      fun content => ?_⟩
    unfold Around.rowText objectText
    rw [map_append, map_cons, Search.intercalate_append hFront (cons_ne_nil _ _), hBack]
    simp only [append_assoc]

theorem utf8ByteLength_rowText (around : Around) (content : JsonText) :
    utf8ByteLength (around.rowText content) ≤ utf8ByteLength (around.rowText (arrayText [])) + utf8ByteLength content := by
  obtain ⟨front, back, hFront, hRow⟩ := rowText_eq around
  have hEmpty : arrayText [] = ascii "[]" := by decide
  rw [hRow, hRow, hEmpty]
  have hLead := utf8ByteLength_append_le front content
  have hWhole := utf8ByteLength_append_le (front ++ content) back
  have hOpen : utf8ByteLength (front ++ ascii "[]") = utf8ByteLength front + utf8ByteLength (ascii "[]") := by
    apply utf8ByteLength_append
    intro unit hUnit next _
    rw [hFront unit hUnit, Bool.false_and]
  have hClose : utf8ByteLength (front ++ ascii "[]" ++ back) = utf8ByteLength (front ++ ascii "[]") + utf8ByteLength back := by
    apply utf8ByteLength_append
    intro unit hUnit next _
    rw [getLast?_append_of_ne_nil _ (by decide)] at hUnit
    have hLast : (ascii "[]").getLast? = some 0x5d := by decide
    rw [hLast] at hUnit
    cases hUnit
    rfl
  omega

variable {around : Around}

theorem length_field_le {field : Field} (h : field ∈ around.back) (content : JsonText) :
    field.json.length ≤ utf8ByteLength (around.rowText content) := by
  apply le_trans _ (length_le_utf8ByteLength _)
  obtain ⟨lead, rest, hBack⟩ := append_of_mem h
  have hSome : (around.front ++ ⟨ascii "content", content⟩ :: lead).map Field.text ≠ [] := by simp
  unfold Around.rowText objectText
  have hSplit : (around.front ++ ⟨ascii "content", content⟩ :: around.back).map Field.text =
      (around.front ++ ⟨ascii "content", content⟩ :: lead).map Field.text ++ (field :: rest).map Field.text := by
    rw [← map_append, hBack]
    simp
  have hField : field.json.length ≤ ((ascii ",").intercalate ((field :: rest).map Field.text)).length := by
    have hText : field.json.length ≤ field.text.length := by
      unfold Field.text
      rw [length_append]
      omega
    by_cases hRest : rest.map Field.text = []
    · rw [map_cons, hRest, intercalate_singleton]
      exact hText
    · rw [map_cons, intercalate_cons_of_ne_nil hRest, length_append, length_append]
      omega
  rw [hSplit, Search.intercalate_append hSome (by simp)]
  simp only [length_append]
  omega

/-! ## What is stored -/

def PREVIEW_MAX_BYTES : Nat := 4096

def Payload.emptiedByteLength (payload : Payload) : Nat := utf8ByteLength (payloadText payload.role payload.around (arrayText []))

def StoredCustomMessage.emptiedByteLength (message : StoredCustomMessage) : Nat := utf8ByteLength (message.around.rowText (arrayText []))

def Block.toolCallId : Block → Option Utf16
  | .toolCall id _ _ _ => some id
  | _ => none

def Payload.toolCallIds : Payload → List Utf16
  | .assistant content _ => content.filterMap Block.toolCallId
  | _ => []

def Payload.shortened : Payload → Payload
  | .assistant content around => .assistant (content.map shortenAssistantBlock) around
  | payload => payload

structure PayloadStored (payload stored : Payload) : Prop where
  fits : payloadByteLength payload ≤ THREAD_ROW_MAX_BYTES → stored = payload
  role : stored.role = payload.role
  around : stored.around = payload.around
  bounded : payloadByteLength stored ≤ max THREAD_ROW_MAX_BYTES (payload.emptiedByteLength + PREVIEW_MAX_BYTES)
  calls : payloadByteLength payload ≤ THREAD_ROW_MAX_BYTES ∨ payloadByteLength payload.shortened ≤ THREAD_ROW_MAX_BYTES →
    stored.toolCallIds = payload.toolCallIds

structure CustomStored (message stored : StoredCustomMessage) : Prop where
  fits : message.byteLength ≤ THREAD_ROW_MAX_BYTES → stored = message
  customType : stored.customType = message.customType
  display : stored.display = message.display
  eventId : stored.eventId = message.eventId
  bounded : stored.byteLength ≤ max THREAD_ROW_MAX_BYTES (message.emptiedByteLength + PREVIEW_MAX_BYTES)

theorem PayloadStored.of_over {payload stored : Payload} (hOver : ¬ payloadByteLength payload ≤ THREAD_ROW_MAX_BYTES)
    (hRole : stored.role = payload.role) (hAround : stored.around = payload.around) (hCalls : stored.toolCallIds = payload.toolCallIds)
    (hBounded : payloadByteLength stored ≤ max THREAD_ROW_MAX_BYTES (payload.emptiedByteLength + PREVIEW_MAX_BYTES)) :
    PayloadStored payload stored where
  fits hAll := absurd hAll hOver
  role := hRole
  around := hAround
  bounded := hBounded
  calls _ := hCalls

theorem CustomStored.of_over {message stored : StoredCustomMessage} (hOver : ¬ message.byteLength ≤ THREAD_ROW_MAX_BYTES)
    (hType : stored.customType = message.customType) (hDisplay : stored.display = message.display)
    (hEvent : stored.eventId = message.eventId)
    (hBounded : stored.byteLength ≤ max THREAD_ROW_MAX_BYTES (message.emptiedByteLength + PREVIEW_MAX_BYTES)) :
    CustomStored message stored where
  fits hAll := absurd hAll hOver
  customType := hType
  display := hDisplay
  eventId := hEvent
  bounded := hBounded

theorem length_le_escapeUnits (text : Utf16) : text.length ≤ (escapeUnits text).length := by
  have hUnit : ∀ unit, 1 ≤ (escapeUnit unit).length := by
    intro unit
    unfold escapeUnit
    dsimp only
    split_ifs <;> simp [length_ascii]
  induction text using escapeUnits.induct with
  | case1 => exact Nat.le_refl _
  | case2 unit => exact hUnit unit
  | case3 unit next rest hPair ih =>
    rw [escapeUnits, if_pos hPair]
    simp only [length_cons]
    omega
  | case4 unit next rest hPair ih =>
    have := hUnit unit
    rw [escapeUnits, if_neg hPair, length_append, length_cons]
    omega

theorem length_le_quote (text : Utf16) : text.length ≤ (quote text).length := by
  have := length_le_escapeUnits text
  unfold quote
  rw [length_append, length_append]
  omega

theorem rowText_preview (around : Around) {content : JsonText} (h : utf8ByteLength content ≤ PREVIEW_MAX_BYTES) :
    utf8ByteLength (around.rowText content) ≤ max THREAD_ROW_MAX_BYTES (utf8ByteLength (around.rowText (arrayText [])) + PREVIEW_MAX_BYTES) :=
  le_max_of_le_right ((utf8ByteLength_rowText around content).trans (Nat.add_le_add_left h _))

theorem textBlock_preview (h : text.length ≤ 660) : utf8ByteLength (blocksJson [.text text []]) ≤ PREVIEW_MAX_BYTES := by
  have := utf8ByteLength_textBlock text
  unfold PREVIEW_MAX_BYTES
  omega

theorem quote_preview (h : text.length ≤ 660) : utf8ByteLength (quote text) ≤ PREVIEW_MAX_BYTES := by
  have := utf8ByteLength_quote text
  unfold PREVIEW_MAX_BYTES
  omega

theorem length_labelled (h : text.length ≤ MAX_STRING_LENGTH) {label : String} (hLabel : label.toList.length ≤ 60) :
    (truncateTextBlockForStorage text label).length ≤ 660 := by
  have := length_truncateTextBlock h label
  omega

theorem toolCallId_shortenAssistantBlock (block : Block) : (shortenAssistantBlock block).toolCallId = block.toolCallId := by
  cases block with
  | text text rest =>
    unfold shortenAssistantBlock
    dsimp only
    split <;> rfl
  | thinking thinking rest =>
    unfold shortenAssistantBlock
    dsimp only
    split <;> rfl
  | toolCall id name arguments rest =>
    unfold shortenAssistantBlock
    dsimp only
    split <;> rfl
  | image data mimeType sourcePath rest => rfl
  | other type rest => rfl

theorem stored_user {content : Content} (hLen : content.json.length ≤ MAX_STRING_LENGTH)
    (hOver : ¬ payloadByteLength (.user content around) ≤ THREAD_ROW_MAX_BYTES) :
    PayloadStored (.user content around) (enforceThreadPayloadRowSizeLimit (.user content around)) := by
  unfold enforceThreadPayloadRowSizeLimit
  rw [if_neg hOver]
  cases content with
  | string text =>
    refine .of_over hOver rfl rfl rfl ?_
    exact rowText_preview _ (quote_preview (length_labelled ((length_le_quote text).trans hLen) (by decide)))
  | blocks items =>
    dsimp only
    split
    · next hFits => exact .of_over hOver rfl rfl rfl (le_max_of_le_left hFits)
    · split
      · next hFits => exact .of_over hOver rfl rfl rfl (le_max_of_le_left hFits)
      · refine .of_over hOver rfl rfl rfl ?_
        exact rowText_preview _ (textBlock_preview (length_labelled hLen (by decide)))

theorem stored_assistant {content : List Block} (hLen : (blocksJson content).length ≤ MAX_STRING_LENGTH)
    (hOver : ¬ payloadByteLength (.assistant content around) ≤ THREAD_ROW_MAX_BYTES) :
    PayloadStored (.assistant content around) (enforceThreadPayloadRowSizeLimit (.assistant content around)) := by
  unfold enforceThreadPayloadRowSizeLimit
  rw [if_neg hOver]
  dsimp only
  split
  · next hFits =>
    refine .of_over hOver rfl rfl ?_ (le_max_of_le_left hFits)
    change (content.map shortenAssistantBlock).filterMap Block.toolCallId = content.filterMap Block.toolCallId
    rw [filterMap_map]
    exact filterMap_congr fun block _ => toolCallId_shortenAssistantBlock block
  · next hLong =>
    refine { fits := fun hAll => absurd hAll hOver, role := rfl, around := rfl, bounded := ?_, calls := ?_ }
    · exact rowText_preview _ (textBlock_preview (length_labelled hLen (by decide)))
    · rintro (hFits | hShort)
      · exact absurd hFits hOver
      · exact absurd hShort hLong

theorem stored_toolResult {content : List Block} (hLen : (blocksJson content).length ≤ MAX_STRING_LENGTH)
    (hOver : ¬ payloadByteLength (.toolResult content around) ≤ THREAD_ROW_MAX_BYTES) :
    PayloadStored (.toolResult content around) (enforceThreadPayloadRowSizeLimit (.toolResult content around)) := by
  unfold enforceThreadPayloadRowSizeLimit
  rw [if_neg hOver]
  dsimp only
  split
  · next hFits => exact .of_over hOver rfl rfl rfl (le_max_of_le_left hFits)
  · split
    · next hFits => exact .of_over hOver rfl rfl rfl (le_max_of_le_left hFits)
    · refine .of_over hOver rfl rfl rfl ?_
      exact rowText_preview _ (textBlock_preview (length_truncateToolOutput hLen))

theorem stored_payload (payload : Payload) (hLen : payload.contentJson.length ≤ MAX_STRING_LENGTH) :
    PayloadStored payload (enforceThreadPayloadRowSizeLimit payload) := by
  by_cases hFits : payloadByteLength payload ≤ THREAD_ROW_MAX_BYTES
  · have hEq : enforceThreadPayloadRowSizeLimit payload = payload := if_pos hFits
    rw [hEq]
    exact { fits := fun _ => rfl, role := rfl, around := rfl, bounded := le_max_of_le_left hFits, calls := fun _ => rfl }
  · cases payload with
    | user content around => exact stored_user hLen hFits
    | assistant content around => exact stored_assistant hLen hFits
    | toolResult content around => exact stored_toolResult hLen hFits

theorem stored_custom (message : StoredCustomMessage) (hLen : message.content.json.length ≤ MAX_STRING_LENGTH) :
    CustomStored message (enforceCustomMessageRowSizeLimit message) := by
  by_cases hFits : message.byteLength ≤ THREAD_ROW_MAX_BYTES
  · have hEq : enforceCustomMessageRowSizeLimit message = message := if_pos hFits
    rw [hEq]
    exact { fits := fun _ => rfl, customType := rfl, display := rfl, eventId := rfl, bounded := le_max_of_le_left hFits }
  · obtain ⟨customType, content, display, eventId⟩ := message
    unfold enforceCustomMessageRowSizeLimit
    rw [if_neg hFits]
    cases content with
    | string text =>
      refine .of_over hFits rfl rfl rfl ?_
      exact rowText_preview _ (quote_preview (length_labelled ((length_le_quote text).trans hLen) (by decide)))
    | blocks items =>
      dsimp only
      split
      · next hShort => exact .of_over hFits rfl rfl rfl (le_max_of_le_left hShort)
      · split
        · next hShort => exact .of_over hFits rfl rfl rfl (le_max_of_le_left hShort)
        · refine .of_over hFits rfl rfl rfl ?_
          exact rowText_preview _ (textBlock_preview (length_labelled hLen (by decide)))

def hello : Payload := .assistant [.text (ascii "hi") [], .toolCall (ascii "c1") (ascii "Read") none []] ⟨[], []⟩

def note : StoredCustomMessage := { customType := ascii "note", content := .string (ascii "hi"), display := true, eventId := none }

def failed : Payload :=
  .assistant [.toolCall (ascii "c1") (ascii "Read") none []] ⟨[], [stringField "errorMessage" (List.replicate 6000001 0x61)]⟩

theorem over_of_errorMessage (content : List Block) : THREAD_ROW_MAX_BYTES < payloadByteLength (.assistant content failed.around) := by
  have hField : stringField "errorMessage" (List.replicate 6000001 0x61) ∈
      ({ failed.around with front := stringField "role" (ascii Role.assistant.name) :: failed.around.front : Around }).back := mem_cons_self
  have hLen := length_field_le hField (blocksJson content)
  have hQuote := length_le_quote (List.replicate 6000001 0x61)
  rw [length_replicate] at hQuote
  exact lt_of_lt_of_le (by decide) (hQuote.trans hLen)

end Stella.ThreadRows
