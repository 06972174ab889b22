import Stella.ToolOutput.Utf16

/-! # The rows of a thread

`view.ts`: a message is stored as its JSON text. A row over `THREAD_ROW_MAX_BYTES` is shortened
in stages.
-/

namespace Stella.ThreadRows

open ToolOutput (Utf16 isHigh isLow utf8ByteLength)

abbrev JsonText := Utf16

def ascii (text : String) : Utf16 := text.toList.map fun c => UInt16.ofNat c.toNat

def decimal (n : Nat) : Utf16 := (Nat.toDigits 10 n).map fun c => UInt16.ofNat c.toNat

def hexUnit (n : Nat) : UInt16 := UInt16.ofNat (if n < 10 then 0x30 + n else 0x57 + n)

/-- A unit that is not one of a surrogate pair, as `JSON.stringify` writes it. -/
def escapeUnit (unit : UInt16) : Utf16 :=
  let n := unit.toNat
  if n = 0x22 then ascii "\\\""
  else if n = 0x5c then ascii "\\\\"
  else if n = 0x8 then ascii "\\b"
  else if n = 0x9 then ascii "\\t"
  else if n = 0xa then ascii "\\n"
  else if n = 0xc then ascii "\\f"
  else if n = 0xd then ascii "\\r"
  else if n < 0x20 ∨ isHigh unit = true ∨ isLow unit = true then
    ascii "\\u" ++ [hexUnit (n / 4096), hexUnit (n / 256 % 16), hexUnit (n / 16 % 16), hexUnit (n % 16)]
  else [unit]

def escapeUnits : Utf16 → Utf16
  | [] => []
  | [unit] => escapeUnit unit
  | unit :: next :: rest =>
    if isHigh unit && isLow next then unit :: next :: escapeUnits rest else escapeUnit unit ++ escapeUnits (next :: rest)

def quote (text : Utf16) : JsonText := ascii "\"" ++ escapeUnits text ++ ascii "\""

structure Field where
  name : Utf16
  json : JsonText

def Field.text (field : Field) : JsonText := quote field.name ++ ascii ":" ++ field.json

def objectText (fields : List Field) : JsonText := ascii "\x7b" ++ (ascii ",").intercalate (fields.map Field.text) ++ ascii "\x7d"

def arrayText (items : List JsonText) : JsonText := ascii "[" ++ (ascii ",").intercalate items ++ ascii "]"

/-- A content block; `rest` are the fields that no function here reads. -/
inductive Block
  | text (text : Utf16) (rest : List Field)
  | thinking (thinking : Utf16) (rest : List Field)
  | toolCall (id name : Utf16) (arguments : Option JsonText) (rest : List Field)
  | image (data mimeType sourcePath : Option Utf16) (rest : List Field)
  | other (type : Utf16) (rest : List Field)

def stringField (name : String) (value : Utf16) : Field := ⟨ascii name, quote value⟩

def optionField (name : String) (value : Option Utf16) : List Field := value.toList.map (stringField name)

namespace Block

def json : Block → JsonText
  | .text value rest => objectText (stringField "type" (ascii "text") :: stringField "text" value :: rest)
  | .thinking value rest => objectText (stringField "type" (ascii "thinking") :: stringField "thinking" value :: rest)
  | .toolCall id name arguments rest =>
    objectText (stringField "type" (ascii "toolCall") :: stringField "id" id :: stringField "name" name ::
      (arguments.toList.map fun value => ⟨ascii "arguments", value⟩) ++ rest)
  | .image data mimeType sourcePath rest =>
    objectText (stringField "type" (ascii "image") :: optionField "data" data ++ optionField "mimeType" mimeType ++
      optionField "sourcePath" sourcePath ++ rest)
  | .other type rest => objectText (stringField "type" type :: rest)

end Block

def blocksJson (blocks : List Block) : JsonText := arrayText (blocks.map Block.json)

inductive Content
  | string (text : Utf16)
  | blocks (blocks : List Block)

def Content.json : Content → JsonText
  | .string value => quote value
  | .blocks items => blocksJson items

structure Around where
  front : List Field
  back : List Field

def Around.rowText (around : Around) (content : JsonText) : JsonText :=
  objectText (around.front ++ ⟨ascii "content", content⟩ :: around.back)

inductive Payload
  | user (content : Content) (around : Around)
  | assistant (content : List Block) (around : Around)
  | toolResult (content : List Block) (around : Around)

inductive Role
  | user
  | assistant
  | toolResult

namespace Payload

def role : Payload → Role
  | user _ _ => .user
  | assistant _ _ => .assistant
  | toolResult _ _ => .toolResult

def around : Payload → Around
  | user _ around | assistant _ around | toolResult _ around => around

def contentJson : Payload → JsonText
  | user content _ => content.json
  | assistant content _ | toolResult content _ => blocksJson content

end Payload

def Role.name : Role → String
  | .user => "user"
  | .assistant => "assistant"
  | .toolResult => "toolResult"

def payloadText (role : Role) (around : Around) (content : JsonText) : JsonText :=
  { around with front := stringField "role" (ascii role.name) :: around.front : Around }.rowText content

def payloadByteLength (payload : Payload) : Nat := utf8ByteLength (payloadText payload.role payload.around payload.contentJson)

structure StoredCustomMessage where
  customType : Utf16
  content : Content
  display : Bool
  eventId : Option Utf16

namespace StoredCustomMessage

variable (message : StoredCustomMessage)

def around : Around where
  front := [stringField "customType" message.customType]
  back := ⟨ascii "display", ascii (if message.display then "true" else "false")⟩ :: optionField "eventId" message.eventId

def byteLength : Nat := utf8ByteLength (message.around.rowText message.content.json)

end StoredCustomMessage

/-! ## Shortening -/

def THREAD_ROW_MAX_BYTES : Nat := 6000000
def THREAD_ROW_MAX_TEXT_CHARS : Nat := 1000
def THREAD_ROW_PREVIEW_CHARS : Nat := 500

def truncatePreview (value : Utf16) : Utf16 :=
  if value.length ≤ THREAD_ROW_PREVIEW_CHARS then value else value.take THREAD_ROW_PREVIEW_CHARS ++ ascii "..."

def truncateTextBlockForStorage (text : Utf16) (label : String) : Utf16 :=
  ascii "[" ++ ascii label ++ ascii " truncated for storage (" ++ decimal text.length ++ ascii " chars). First " ++
    decimal (min text.length THREAD_ROW_PREVIEW_CHARS) ++ ascii " chars: " ++ truncatePreview text ++ ascii "]"

def truncateToolOutputForStorage (text : Utf16) : Utf16 :=
  ascii "This tool output was too large to persist in storage (" ++ decimal text.length ++
    ascii " chars). If the user asks about this data, suggest re-running the tool. Preview: " ++ truncatePreview text

def truncateObjectForStorage (json : JsonText) (label : Utf16) : JsonText :=
  objectText [stringField "__truncated"
    (label ++ ascii " truncated for storage (" ++ decimal json.length ++ ascii " chars). Preview: " ++ truncatePreview json)]

/-- White space and line ends, as `trim` has them. -/
def isSpace (unit : UInt16) : Bool :=
  unit.toNat ∈ [0x9, 0xa, 0xb, 0xc, 0xd, 0x20, 0xa0, 0x1680, 0x2000, 0x2001, 0x2002, 0x2003, 0x2004, 0x2005, 0x2006, 0x2007,
    0x2008, 0x2009, 0x200a, 0x2028, 0x2029, 0x202f, 0x205f, 0x3000, 0xfeff]

def trim (text : Utf16) : Utf16 := ((text.dropWhile isSpace).reverse.dropWhile isSpace).reverse

/-- `Math.round(length * 0.75 / 1024)`. -/
def approximateKb (data : Option Utf16) : Nat := (3 * (data.getD []).length + 2048) / 4096

def strippedNote (data mimeType : Option Utf16) : Block :=
  .text (ascii "[image content block stripped for storage: mime=" ++ mimeType.getD (ascii "image/png") ++ ascii " approx_kb=" ++
    decimal (approximateKb data) ++ ascii "]") []

def strippedImageStorageNote (data mimeType sourcePath : Option Utf16) : Block :=
  let path := trim (sourcePath.getD [])
  if path ≠ [] then
    .text (ascii "<image_reference>\n" ++ path ++
      ascii "\nUse the Read tool with file_path set to this absolute path to inspect the image.\n</image_reference>") []
  else strippedNote data mimeType

def stripImage : Block → Block
  | .image data mimeType sourcePath _ => strippedImageStorageNote data mimeType sourcePath
  | block => block

def stripCustomImage : Block → Block
  | .image data mimeType _ _ => strippedNote data mimeType
  | block => block

def shortenText (shorten : Utf16 → Utf16) : Block → Block
  | .text text rest => if THREAD_ROW_MAX_TEXT_CHARS < text.length then .text (shorten text) rest else .text text rest
  | block => block

def shortenAssistantBlock : Block → Block
  | .text text rest =>
    if THREAD_ROW_MAX_TEXT_CHARS < text.length then .text (truncateTextBlockForStorage text "Text") rest else .text text rest
  | .thinking thinking rest =>
    if THREAD_ROW_MAX_TEXT_CHARS < thinking.length then .thinking (truncateTextBlockForStorage thinking "Reasoning") rest
    else .thinking thinking rest
  | .toolCall id name arguments rest =>
    let argsJson := arguments.getD (ascii "\x7b\x7d")
    if THREAD_ROW_MAX_TEXT_CHARS < argsJson.length then
      .toolCall id name (some (truncateObjectForStorage argsJson (name ++ ascii " arguments"))) rest
    else .toolCall id name arguments rest
  | block => block

def enforceThreadPayloadRowSizeLimit (payload : Payload) : Payload :=
  if payloadByteLength payload ≤ THREAD_ROW_MAX_BYTES then payload
  else
    match payload with
    -- a text has no images, so all stages store the same
    | .user (.string text) around => .user (.string (truncateTextBlockForStorage text "User content")) around
    | .user (.blocks blocks) around =>
      let content := blocks.map (shortenText (truncateTextBlockForStorage · "User content"))
      let candidate := Payload.user (.blocks content) around
      if payloadByteLength candidate ≤ THREAD_ROW_MAX_BYTES then candidate
      else
        let withoutImageData := Payload.user (.blocks (content.map stripImage)) around
        if payloadByteLength withoutImageData ≤ THREAD_ROW_MAX_BYTES then withoutImageData
        else .user (.blocks [.text (truncateTextBlockForStorage (blocksJson blocks) "User content") []]) around
    | .assistant blocks around =>
      let compacted := Payload.assistant (blocks.map shortenAssistantBlock) around
      if payloadByteLength compacted ≤ THREAD_ROW_MAX_BYTES then compacted
      else .assistant [.text (truncateTextBlockForStorage (blocksJson blocks) "Assistant message") []] around
    | .toolResult blocks around =>
      let content := blocks.map (shortenText truncateToolOutputForStorage)
      let compacted := Payload.toolResult content around
      if payloadByteLength compacted ≤ THREAD_ROW_MAX_BYTES then compacted
      else
        let withoutImageData := Payload.toolResult (content.map stripImage) around
        if payloadByteLength withoutImageData ≤ THREAD_ROW_MAX_BYTES then withoutImageData
        else .toolResult [.text (truncateToolOutputForStorage (blocksJson blocks)) []] around

def enforceCustomMessageRowSizeLimit (message : StoredCustomMessage) : StoredCustomMessage :=
  if message.byteLength ≤ THREAD_ROW_MAX_BYTES then message
  else
    match message.content with
    | .string text => { message with content := .string (truncateTextBlockForStorage text "Custom message") }
    | .blocks blocks =>
      let content := blocks.map (shortenText (truncateTextBlockForStorage · "Custom message"))
      let compacted := { message with content := .blocks content }
      if compacted.byteLength ≤ THREAD_ROW_MAX_BYTES then compacted
      else
        let withoutImageData := { message with content := .blocks (content.map stripCustomImage) }
        if withoutImageData.byteLength ≤ THREAD_ROW_MAX_BYTES then withoutImageData
        else { message with content := .blocks [.text (truncateTextBlockForStorage (blocksJson blocks) "Custom message") []] }

end Stella.ThreadRows
