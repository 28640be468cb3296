import Framewise.Text.Blank
import Framewise.Number.Binary

/-!
# Numerals

The numbers that logs and command lines may hold, as texts.

* A log value (`parse?`) is an integer, a decimal numeral or one of the words `inf`, `infinity`
  and `nan` in any letter case, with an optional sign and blanks around it.
* A scale (`parseLiteral?`) is a decimal numeral with an optional sign, or an unsigned one in
  base two, eight or sixteen behind `0b`, `0o` or `0x`.
* A bound (`parseInteger?`) is a run of digits with an optional sign.
* A port (`leadingInteger?`) is what a text begins with, read as a bound.

A decimal numeral is read exactly, as `significand * 10 ^ exponent`, and rounded once.
-/

namespace Framewise.Number

/-- A numeral as written, apart from the spelling. -/
inductive Numeral where
  | decimal (negative : Bool) (significand : Nat) (exponent : Int)
  | infinite (negative : Bool)
  | notANumber
deriving DecidableEq, Repr

/-- The number `x`, negated or not. -/
def signed (negative : Bool) (x : Float) : Float :=
  if negative then -x else x

/-- The double nearest to a numeral. -/
def Numeral.value : Numeral → Float
  | .decimal negative m e => signed negative (ofDecimal m e)
  | .infinite negative => signed negative infinity
  | .notANumber => Number.notANumber

/-! ### Parts of a numeral -/

/-- A sign, if there is one, and what follows it. -/
def takeSign : List Char → Bool × List Char
  | '-' :: cs => (true, cs)
  | '+' :: cs => (false, cs)
  | cs => (false, cs)

/-- The leading digits. -/
def leadingDigits (cs : List Char) : List Char :=
  cs.takeWhile Char.isDigit

/-- What follows the leading digits. -/
def afterDigits (cs : List Char) : List Char :=
  cs.dropWhile Char.isDigit

/-- The number that a run of decimal digits denotes. -/
def digitsValue (ds : List Char) : Nat :=
  Nat.ofDigitChars 10 ds 0

/-- The number `n`, negated or not. -/
def signedInt (negative : Bool) (n : Nat) : Int :=
  if negative then -(n : Int) else n

/-- A text that is digits alone, at least one. -/
def natural? (cs : List Char) : Option Nat :=
  if cs ≠ [] ∧ cs.all Char.isDigit then some (digitsValue cs) else none

/-- A text that is digits with an optional sign. -/
def integer? (cs : List Char) : Option Int :=
  let (negative, body) := takeSign cs
  (natural? body).map (signedInt negative)

/-- The exponent part, up to the end of the numeral; an absent one is zero. -/
def exponent? : List Char → Option Int
  | [] => some 0
  | c :: cs => if c = 'e' ∨ c = 'E' then integer? cs else none

/-- An unsigned decimal numeral: digits with at most one point and at least one digit, then
the exponent part. The result is its significand and its exponent. -/
def decimal? (cs : List Char) : Option (Nat × Int) :=
  let whole := leadingDigits cs
  match afterDigits cs with
  | '.' :: rest =>
    let fraction := leadingDigits rest
    if whole = [] ∧ fraction = [] then none
    else (exponent? (afterDigits rest)).map fun e =>
      (digitsValue (whole ++ fraction), e - fraction.length)
  | rest =>
    if whole = [] then none else (exponent? rest).map fun e => (digitsValue whole, e)

/-! ### Log values -/

/-- The words that stand for numbers, in lower case, with what they denote under a sign. -/
def wordNumerals : List (List Char × (Bool → Numeral)) :=
  [("inf".toList, .infinite), ("infinity".toList, .infinite), ("nan".toList, fun _ => .notANumber)]

/-- A numeral without blanks around it. Three readings are tried in turn: digits alone, a decimal
numeral, and a word. -/
def numeral? (cs : List Char) : Option Numeral :=
  let (negative, body) := takeSign cs
  (natural? body).map (.decimal negative · 0) <|>
    (decimal? body).map (fun (m, e) => .decimal negative m e) <|>
    (wordNumerals.lookup (body.map Char.toLower)).map (· negative)

/-- The number that a log value denotes. -/
def parse? (token : String) : Option Float :=
  (numeral? (Text.trim token.toList)).map Numeral.value

/-! ### Command line numbers -/

/-- The digit that a character stands for in bases up to sixteen. -/
def digitValue (c : Char) : Nat :=
  if c.isDigit then c.toNat - '0'.toNat
  else if c.isUpper then c.toNat - 'A'.toNat + 10
  else c.toNat - 'a'.toNat + 10

/-- Whether a character is a digit of a base up to sixteen. -/
def isDigitOf (base : Nat) (c : Char) : Bool :=
  c.isAlphanum && digitValue c < base

/-- A text that is digits of the base alone, at least one. -/
def naturalOf? (base : Nat) (cs : List Char) : Option Nat :=
  if cs ≠ [] ∧ cs.all (isDigitOf base) then
    some (cs.foldl (fun n c => n * base + digitValue c) 0)
  else none

/-- A literal without blanks around it. -/
def literal? : List Char → Option Numeral
  | '0' :: 'x' :: cs | '0' :: 'X' :: cs => (naturalOf? 16 cs).map (.decimal false · 0)
  | '0' :: 'o' :: cs | '0' :: 'O' :: cs => (naturalOf? 8 cs).map (.decimal false · 0)
  | '0' :: 'b' :: cs | '0' :: 'B' :: cs => (naturalOf? 2 cs).map (.decimal false · 0)
  | cs =>
    let (negative, body) := takeSign cs
    (decimal? body).map fun (m, e) => .decimal negative m e

/-- The finite number that a text denotes, blanks around it aside. -/
def parseLiteral? (text : String) : Option Float :=
  ((literal? (Text.trim text.toList)).map Numeral.value).filter Float.isFinite

/-- The integer that a text denotes, blanks around it aside. -/
def parseInteger? (text : String) : Option Float :=
  let (negative, body) := takeSign (Text.trim text.toList)
  (natural? body).map fun n => signed negative (ofDecimal n 0)

/-- The integer at the beginning of a text, blanks before it aside. Whatever follows its
digits is passed over. -/
def leadingInteger? (text : String) : Option Int :=
  let (negative, body) := takeSign (text.toList.dropWhile Text.isBlank)
  (natural? (leadingDigits body)).map (signedInt negative)

example : numeral? "-.5e+3".toList = some (.decimal true 5 2) ∧ numeral? ".".toList = none ∧
    numeral? "-INFinity".toList = some (.infinite true) ∧ numeral? "1_000".toList = none := by
  decide

example : literal? "0x1F".toList = some (.decimal false 31 0) ∧ literal? "-0x1F".toList = none ∧
    leadingInteger? "+8.5" = some 8 := by decide

end Framewise.Number
