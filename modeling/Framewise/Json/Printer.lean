import Framewise.Json.Value

/-!
# JSON text

Two ways to write a value: `compact` without any space between tokens, `pretty` with one item
or field on a line, indented by two spaces for each level. An empty array or object is written
as its two brackets. Numbers that JSON lacks are written `null`.

In strings, the quote, the backslash and the control characters are escaped, and nothing else.
-/

namespace Framewise.Json

/-- Four hexadecimal digits. -/
def hexDigits (n : Nat) : List Char :=
  [n / 0x1000 % 0x10, n / 0x100 % 0x10, n / 0x10 % 0x10, n % 0x10].map Nat.digitChar

/-- A character inside a string. -/
def escapeChar (c : Char) : List Char :=
  if c = '"' then ['\\', '"']
  else if c = '\\' then ['\\', '\\']
  else if c = '\n' then ['\\', 'n']
  else if c = '\r' then ['\\', 'r']
  else if c = '\t' then ['\\', 't']
  else if c = '\x08' then ['\\', 'b']
  else if c = '\x0c' then ['\\', 'f']
  else if c.toNat < 0x20 then '\\' :: 'u' :: hexDigits c.toNat
  else [c]

/-- A string with its quotes. -/
def quote (s : String) : List Char :=
  '"' :: s.toList.flatMap escapeChar ++ ['"']

/-- A number, or `null` for one that JSON lacks. -/
def numberText (x : Float) : List Char :=
  if x.isFinite then Number.chars x else "null".toList

/-! ### Compact text -/

mutual

/-- A value without spaces, in front of `rest`. -/
def compactBefore (rest : List Char) : Json → List Char
  | .null => "null".toList ++ rest
  | .bool true => "true".toList ++ rest
  | .bool false => "false".toList ++ rest
  | .number x => numberText x ++ rest
  | .string s => quote s ++ rest
  | .array [] => '[' :: ']' :: rest
  | .array (v :: vs) => '[' :: compactBefore (compactItems (']' :: rest) vs) v
  | .object [] => '\x7b' :: '\x7d' :: rest
  | .object ((k, v) :: fs) =>
    '\x7b' :: (quote k ++ ':' :: compactBefore (compactFields ('\x7d' :: rest) fs) v)

/-- The items after the first, each behind a comma. -/
def compactItems (rest : List Char) : List Json → List Char
  | [] => rest
  | v :: vs => ',' :: compactBefore (compactItems rest vs) v

/-- The fields after the first, each behind a comma. -/
def compactFields (rest : List Char) : List (String × Json) → List Char
  | [] => rest
  | (k, v) :: fs => ',' :: (quote k ++ ':' :: compactBefore (compactFields rest fs) v)

end

/-- A value without spaces. -/
def compact (v : Json) : String :=
  String.ofList (compactBefore [] v)

/-! ### Indented text -/

/-- A new line at the level `depth`. -/
def newLine (depth : Nat) : List Char :=
  '\n' :: List.replicate (2 * depth) ' '

mutual

/-- A value at the level `depth`, in front of `rest`. -/
def prettyBefore (depth : Nat) (rest : List Char) : Json → List Char
  | .null => "null".toList ++ rest
  | .bool true => "true".toList ++ rest
  | .bool false => "false".toList ++ rest
  | .number x => numberText x ++ rest
  | .string s => quote s ++ rest
  | .array [] => '[' :: ']' :: rest
  | .array (v :: vs) =>
    '[' :: (newLine (depth + 1) ++
      prettyBefore (depth + 1) (prettyItems depth (newLine depth ++ ']' :: rest) vs) v)
  | .object [] => '\x7b' :: '\x7d' :: rest
  | .object ((k, v) :: fs) =>
    '\x7b' :: (newLine (depth + 1) ++ quote k ++ ':' :: ' ' ::
      prettyBefore (depth + 1) (prettyFields depth (newLine depth ++ '\x7d' :: rest) fs) v)

/-- The items after the first, each on a line of its own. -/
def prettyItems (depth : Nat) (rest : List Char) : List Json → List Char
  | [] => rest
  | v :: vs =>
    ',' :: (newLine (depth + 1) ++ prettyBefore (depth + 1) (prettyItems depth rest vs) v)

/-- The fields after the first, each on a line of its own. -/
def prettyFields (depth : Nat) (rest : List Char) : List (String × Json) → List Char
  | [] => rest
  | (k, v) :: fs =>
    ',' :: (newLine (depth + 1) ++ quote k ++ ':' :: ' ' ::
      prettyBefore (depth + 1) (prettyFields depth rest fs) v)

end

/-- A value with one item or field on a line. -/
def pretty (v : Json) : String :=
  String.ofList (prettyBefore 0 [] v)

end Framewise.Json
