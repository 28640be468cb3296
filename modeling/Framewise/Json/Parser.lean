import Framewise.Json.Value
import Framewise.Text.Units

/-!
# Reading JSON text

`parse?` reads a text that is one JSON value with blanks around it, and nothing else. Blanks
are space, tab, LF and CR. A number is rounded once, to the nearest double; one beyond all
doubles becomes infinite. Of two fields with the same name the later one counts, at the place
of the earlier. An escaped half of a character pair that has no other half is read as U+FFFD.

Each function takes a bound on the nesting and length of what it reads; the length of the text
is always enough.
-/

namespace Framewise.Json

/-- White space between JSON tokens. -/
def isSpace (c : Char) : Bool :=
  c == ' ' || c == '\t' || c == '\n' || c == '\r'

/-- A text without the white space at its beginning. -/
def skipSpace (cs : List Char) : List Char :=
  cs.dropWhile isSpace

/-! ### Strings -/

/-- The number that four hexadecimal digits denote. -/
def hexValue? (ds : List Char) : Option Nat :=
  Number.naturalOf? 16 ds

/-- The character after a backslash. -/
def escaped? : Char → Option Char
  | '"' => some '"'
  | '\\' => some '\\'
  | '/' => some '/'
  | 'b' => some '\x08'
  | 'f' => some '\x0c'
  | 'n' => some '\n'
  | 'r' => some '\r'
  | 't' => some '\t'
  | _ => none

/-- A string after its opening quote, as 16-bit units in reverse before `read`, and what
follows its closing quote. -/
def stringUnits? (read : List Nat) : List Char → Option (List Nat × List Char)
  | [] => none
  | '"' :: cs => some (read.reverse, cs)
  | '\\' :: 'u' :: a :: b :: c :: d :: cs =>
    (hexValue? [a, b, c, d]).bind fun n => stringUnits? (n :: read) cs
  | '\\' :: c :: cs =>
    (escaped? c).bind fun e => stringUnits? (e.toNat :: read) cs
  | c :: cs =>
    if c.toNat < 0x20 ∨ c = '\\' then none
    else stringUnits? ((Text.charUnits c).reverse ++ read) cs

/-- Whether a unit is the first of a pair. -/
def isLead (n : Nat) : Bool := 0xD800 ≤ n && n < 0xDC00

/-- Whether a unit is the second of a pair. -/
def isTrail (n : Nat) : Bool := 0xDC00 ≤ n && n < 0xE000

/-- The characters of a list of 16-bit units. -/
def ofUnits : List Nat → List Char
  | [] => []
  | [n] => [if isLead n || isTrail n then '\uFFFD' else Char.ofNat n]
  | n :: m :: rest =>
    if isLead n && isTrail m then
      Char.ofNat (0x10000 + (n - 0xD800) * 0x400 + (m - 0xDC00)) :: ofUnits rest
    else (if isLead n || isTrail n then '\uFFFD' else Char.ofNat n) :: ofUnits (m :: rest)

/-- A string after its opening quote, and what follows its closing quote. -/
def string? (cs : List Char) : Option (String × List Char) :=
  (stringUnits? [] cs).map fun (units, rest) => (String.ofList (ofUnits units), rest)

/-! ### Numbers -/

/-- The digits after a point, if a point follows, and the rest. A point needs a digit. -/
def fraction? : List Char → Option (List Char × List Char)
  | '.' :: cs =>
    let ds := Number.leadingDigits cs
    if ds = [] then none else some (ds, Number.afterDigits cs)
  | cs => some ([], cs)

/-- The exponent after its mark, if a mark follows, and the rest. A mark needs a digit. -/
def exponent? : List Char → Option (Int × List Char)
  | [] => some (0, [])
  | c :: cs =>
    if c = 'e' ∨ c = 'E' then
      let (negative, body) := Number.takeSign cs
      let ds := Number.leadingDigits body
      if ds = [] then none
      else some (Number.signedInt negative (Number.digitsValue ds), Number.afterDigits body)
    else some (0, c :: cs)

/-- An unsigned number, and what follows it. Its whole part has no needless zeros. -/
def magnitude? (cs : List Char) : Option (Float × List Char) :=
  let whole := match cs with
    | '0' :: _ => ['0']
    | _ => Number.leadingDigits cs
  if whole = [] then none
  else
    (fraction? (cs.drop whole.length)).bind fun (ds, cs) =>
    (exponent? cs).map fun (e, cs) =>
    (Number.ofDecimal (Number.digitsValue (whole ++ ds)) (e - ds.length), cs)

/-- A number, and what follows it. -/
def number? : List Char → Option (Float × List Char)
  | '-' :: cs => (magnitude? cs).map fun (x, rest) => (-x, rest)
  | cs => magnitude? cs

/-! ### Values -/

/-- What follows `word` in a text that begins with it. -/
def afterWord? (word : String) (cs : List Char) : Option (List Char) :=
  if word.toList.isPrefixOf cs then some (cs.drop word.toList.length) else none

mutual

/-- A value at the beginning of a text, and what follows it. -/
def value? : Nat → List Char → Option (Json × List Char)
  | 0, _ => none
  | bound + 1, cs =>
    match cs with
    | [] => none
    | '"' :: cs => (string? cs).map fun (s, rest) => (.string s, rest)
    | '[' :: cs =>
      match skipSpace cs with
      | ']' :: rest => some (.array [], rest)
      | cs => (items? bound [] cs).map fun (vs, rest) => (.array vs, rest)
    | '\x7b' :: cs =>
      match skipSpace cs with
      | '\x7d' :: rest => some (.object [], rest)
      | cs => (fields? bound [] cs).map fun (fs, rest) => (.object fs, rest)
    | 'n' :: _ => (afterWord? "null" cs).map fun rest => (.null, rest)
    | 't' :: _ => (afterWord? "true" cs).map fun rest => (.bool true, rest)
    | 'f' :: _ => (afterWord? "false" cs).map fun rest => (.bool false, rest)
    | cs => (number? cs).map fun (x, rest) => (.number x, rest)

/-- Items up to the closing bracket, after those read before in reverse. -/
def items? : Nat → List Json → List Char → Option (List Json × List Char)
  | 0, _, _ => none
  | bound + 1, read, cs =>
    (value? bound (skipSpace cs)).bind fun (v, rest) =>
      match skipSpace rest with
      | ',' :: rest => items? bound (v :: read) rest
      | ']' :: rest => some ((v :: read).reverse, rest)
      | _ => none

/-- Fields up to the closing brace, after those read before. -/
def fields? : Nat → List (String × Json) → List Char → Option (List (String × Json) × List Char)
  | 0, _, _ => none
  | bound + 1, read, cs =>
    match skipSpace cs with
    | '"' :: cs =>
      (string? cs).bind fun (name, rest) =>
        match skipSpace rest with
        | ':' :: rest =>
          (value? bound (skipSpace rest)).bind fun (v, rest) =>
            match skipSpace rest with
            | ',' :: rest => fields? bound (upsert name v read) rest
            | '\x7d' :: rest => some (upsert name v read, rest)
            | _ => none
        | _ => none
    | _ => none

end

/-- The value that a text denotes. -/
def parse? (text : String) : Option Json :=
  let cs := text.toList
  (value? (cs.length + 1) (skipSpace cs)).bind fun (v, rest) =>
    if skipSpace rest = [] then some v else none

end Framewise.Json
