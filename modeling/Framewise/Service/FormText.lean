import Framewise.Json.Value
import Framewise.Text.Units
import Framewise.Text.Utf8

/-!
# Forms as text

A form may be written as one text: pieces `name=value` between ampersands, in which a plus
stands for a space and `%41` for the byte 0x41. Empty pieces are skipped, and a piece without
an equals sign has the empty value.

A name that occurs once has its value as a string, one that occurs several times has the array
of its values.

Percent signs that begin no byte are lenient: a text with some readable byte is then read byte
by byte, all other characters by the low eight bits of their units; a text without any is taken
as it stands.
-/

namespace Framewise.Service.FormText

/-- What percent decoding reads: a byte that is spelled out, or a character. -/
inductive Piece where
  | byte (b : UInt8)
  | char (c : Char)
deriving DecidableEq, Repr

/-- Whether a character is a hexadecimal digit. -/
def isHexDigit (c : Char) : Bool :=
  Number.isDigitOf 16 c

/-- Spell bytes out where a percent sign and two digits stand. -/
def percentPieces : List Char → List Piece
  | '%' :: a :: b :: cs =>
    if isHexDigit a && isHexDigit b then
      .byte (UInt8.ofNat (Number.digitValue a * 16 + Number.digitValue b)) :: percentPieces cs
    else .char '%' :: percentPieces (a :: b :: cs)
  | c :: cs => .char c :: percentPieces cs
  | [] => []

/-- Whether a piece is a byte. -/
def Piece.isByte : Piece → Bool
  | .byte _ => true
  | .char _ => false

/-- The bytes of a piece, a character in UTF-8. -/
def Piece.bytes : Piece → List UInt8
  | .byte b => [b]
  | .char c => Text.Utf8.encode (String.singleton c)

/-- The bytes of a piece, of a character the low eight bits of its units. -/
def Piece.lowBytes : Piece → List UInt8
  | .byte b => [b]
  | .char c => (Text.charUnits c).map UInt8.ofNat

/-- The text of bytes that are UTF-8. -/
def decodeStrict? (bytes : List UInt8) : Option (List Char) :=
  let text := Text.Utf8.decode bytes
  if Text.Utf8.encode (String.ofList text) = bytes then some text else none

/-- Read a name or a value. -/
def unescape (cs : List Char) : String :=
  let cs := cs.map fun c => if c = '+' then ' ' else c
  let pieces := percentPieces cs
  if !pieces.any Piece.isByte then String.ofList cs
  else
    let strict := if .char '%' ∈ pieces then none else decodeStrict? (pieces.flatMap Piece.bytes)
    String.ofList (strict.getD (Text.Utf8.decode (pieces.flatMap Piece.lowBytes)))

/-- Add a value to a form. -/
def addValue (fields : List (String × List String)) (name value : String) :
    List (String × List String) :=
  upsert name ((valueOf? name fields).getD [] ++ [value]) fields

/-- Add a piece to a form. -/
def addPiece (fields : List (String × List String)) (piece : List Char) :
    List (String × List String) :=
  if piece = [] then fields
  else addValue fields (unescape (piece.takeWhile (· != '=')))
    (unescape ((piece.dropWhile (· != '=')).drop 1))

/-- The values of a name: one alone, or several as an array. -/
def valuesDocument : List String → Json
  | [value] => .string value
  | values => Json.strings values

/-- The fields that a form names. -/
def parse (text : List Char) : Json :=
  .object (((Text.pieces (· == '&') text).foldl addPiece []).map fun f =>
    (f.1, valuesDocument f.2))

example : unescape "a+b%20c%C3%A9".toList = "a b cé" ∧ unescape "50%".toList = "50%" ∧
    unescape "%zz%41".toList = "%zzA" := by decide +kernel

end Framewise.Service.FormText
