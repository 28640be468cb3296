import Framewise.Text.Blank
import Framewise.Text.LetterCase

/-!
# Media types

What a header says about a body: a name, `application/json` say, and parameters that go with
it. The header of a part of a form is written in the same way, so both are read here: a head,
and after it pieces `name=value`, each behind a semicolon.

A value is a token, or a text in quotes, in which a backslash takes the meaning from a quote or
a backslash. Names of types and parameters are read in lower case. Of two parameters with one
name the later one counts.
-/

namespace Framewise.Service

/-- A character of an unquoted name or value. -/
def isTokenChar (c : Char) : Bool :=
  c.isAlphanum || "!#$%&'*+-.^_`|~".toList.contains c

/-- A text without the spaces and tabs at its two ends. -/
def trimSpaces (cs : List Char) : List Char :=
  let isSpace := fun c : Char => c == ' ' || c == '\t'
  Text.dropTail isSpace (cs.dropWhile isSpace)

/-- Put characters in front of the first piece. -/
def prependPiece (cs : List Char) : List (List Char) → List (List Char)
  | [] => [cs]
  | p :: ps => (cs ++ p) :: ps

/-- The pieces between the semicolons that stand outside quotes. -/
def semicolonPieces : Bool → List Char → List (List Char)
  | _, [] => [[]]
  | true, '\\' :: c :: cs => prependPiece ['\\', c] (semicolonPieces true cs)
  | false, ';' :: cs => [] :: semicolonPieces false cs
  | quoted, c :: cs => prependPiece [c] (semicolonPieces (quoted != (c == '"')) cs)

/-- The text between quotes, after the opening one. Nothing may follow the closing one. -/
def unquote? : List Char → Option (List Char)
  | [] => none
  | ['"'] => some []
  | '"' :: _ => none
  | '\\' :: '"' :: cs => (unquote? cs).map ('"' :: ·)
  | '\\' :: '\\' :: cs => (unquote? cs).map ('\\' :: ·)
  | c :: cs => (unquote? cs).map (c :: ·)

/-- A token. -/
def token? (cs : List Char) : Option String :=
  if cs ≠ [] ∧ cs.all isTokenChar then some (String.ofList cs) else none

/-- The value of a parameter. -/
def parameterValue? : List Char → Option String
  | '"' :: cs => (unquote? cs).map String.ofList
  | cs => token? cs

/-- A parameter. -/
def parameter? (piece : List Char) : Option (String × String) :=
  match (trimSpaces piece).dropWhile (· != '=') with
  | '=' :: value =>
    (token? (trimSpaces ((trimSpaces piece).takeWhile (· != '=')))).bind fun name =>
      (parameterValue? (trimSpaces value)).map (Text.lower name, ·)
  | _ => none

/-- A header value: its head, in lower case, and its parameters. -/
structure HeaderValue where
  head : String
  parameters : List (String × String) := []
deriving DecidableEq, Repr

namespace HeaderValue

/-- Read a header value. -/
def parse? (text : String) : Option HeaderValue :=
  match semicolonPieces false text.toList with
  | [] => none
  | head :: more =>
    (more.mapM parameter?).map fun parameters =>
      ⟨Text.lower (String.ofList (trimSpaces head)), parameters⟩

/-- The value of a parameter. -/
def parameter? (v : HeaderValue) (name : String) : Option String :=
  (v.parameters.reverse.find? (·.1 = name)).map Prod.snd

/-- The two parts of a media type. -/
def kind? (v : HeaderValue) : Option (String × String) :=
  match Text.pieces (· == '/') v.head.toList with
  | [a, b] => (token? a).bind fun a => (token? b).map (a, ·)
  | _ => none

end HeaderValue

/-- A media type. -/
structure MediaType where
  kind : String
  subkind : String
  parameters : HeaderValue
deriving DecidableEq, Repr

namespace MediaType

/-- Read a media type. -/
def parse? (text : String) : Option MediaType :=
  (HeaderValue.parse? text).bind fun v =>
    v.kind?.map fun (kind, subkind) => ⟨kind, subkind, v⟩

/-- The name of the type, without parameters. -/
def name (t : MediaType) : String :=
  t.kind ++ "/" ++ t.subkind

/-- The character set that a body is said to be in, UTF-8 if nothing is said. -/
def charset (t : MediaType) : String :=
  Text.lower (((t.parameters.parameter? "charset").filter (· ≠ "")).getD "utf-8")

end MediaType

example : (MediaType.parse? "Application/JSON ; Charset=\"UTF-8\"").map
    (fun t => (t.name, t.charset)) = some ("application/json", "utf-8") := by decide +kernel

example : (MediaType.parse? "application/json;").isNone = true ∧
    (MediaType.parse? "text").isNone = true := by decide +kernel

end Framewise.Service
