import Framewise.Json.Parser
import Framewise.Service.FormText
import Framewise.Service.MediaType
import Framewise.Service.Request

/-!
# The document in a body

A body of JSON text and a body that is a form as text hold a document; any other body, and an
empty one, counts as the empty object. JSON must be an object or an array.

A body that cannot be read is refused, whatever its request asks for. Which reason is given when
there are several: the character set, then the size, then the text.
-/

namespace Framewise.Service

/-- Why a body is refused. -/
inductive Refusal where
  | malformed
  | tooLarge
  | tooManyParameters
  | charset (name : String)
deriving DecidableEq, Repr

namespace Refusal

/-- The status of the answer to a refused body. -/
def status : Refusal → Nat
  | .malformed => 400
  | .tooLarge => 413
  | .tooManyParameters => 413
  | .charset _ => 415

/-- What a refusal says. What is wrong with JSON text is not told. -/
def message : Refusal → String
  | .malformed => "<json>"
  | .tooLarge => "request entity too large"
  | .tooManyParameters => "too many parameters"
  | .charset name => "unsupported charset \"" ++ Text.upper name ++ "\""

end Refusal

/-- The most bytes that JSON may have. -/
def maxJsonBytes : Nat := 10 * 1024 * 1024

/-- The most bytes that a form may have. -/
def maxFormBytes : Nat := 100 * 1024

/-- The most pieces that a form may have. -/
def maxFormPieces : Nat := 1000

/-- The document of a body without one. -/
def emptyDocument : Json := .object []

/-- A text without one byte order mark at its beginning. -/
def dropMark : List Char → List Char
  | '\uFEFF' :: cs => cs
  | cs => cs

/-- Character sets that are known but cannot hold the text of a body here. -/
def wideCharsets : List String :=
  ["utf-16", "utf-16le", "utf-16be", "utf-32", "utf-32le", "utf-32be"]

/-- Read JSON text. -/
def readJson (charset : String) (data : Text.Chunk) : Except Refusal Json :=
  let text := dropMark data.decode.toList
  if !charset.startsWith "utf-" then .error (.charset charset)
  else if data.size > maxJsonBytes then .error .tooLarge
  else if charset ≠ "utf-8" && !wideCharsets.contains charset then .error (.charset charset)
  else if text = [] then .ok emptyDocument
  else if charset ≠ "utf-8" then .error .malformed
  else match Json.parse? (String.ofList text) with
    | some (.object fields) => .ok (.object fields)
    | some (.array items) => .ok (.array items)
    | _ => .error .malformed

/-- Read a form that is one text. -/
def readForm (charset : String) (data : Text.Chunk) : Except Refusal Json :=
  let text := dropMark data.decode.toList
  if charset ≠ "utf-8" then .error (.charset charset)
  else if data.size > maxFormBytes then .error .tooLarge
  else if text.count '&' ≥ maxFormPieces then .error .tooManyParameters
  else .ok (FormText.parse text)

/-- The document that a body holds. -/
def Body.read : Body → Except Refusal Json
  | .absent => .ok emptyDocument
  | .form _ => .ok emptyDocument
  | .content type data =>
    match MediaType.parse? type with
    | none => .ok emptyDocument
    | some t =>
      if t.name = "application/json" then readJson t.charset data
      else if t.name = "application/x-www-form-urlencoded" then readForm t.charset data
      else .ok emptyDocument

end Framewise.Service
