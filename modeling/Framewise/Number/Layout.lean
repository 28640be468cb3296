import Framewise.Number.Binary
import Framewise.Number.Shortest

/-!
# Numbers as text

The text of a double: its shortest digits, laid out. A `Layout` says up to which size numbers
are written out in full; beyond it they take an exponent. All numbers that this library
prints use `plain`.
-/

namespace Framewise.Number

/-- The digits of `n` in base ten, without leading zeros. -/
def digits (n : Nat) : List Char :=
  Nat.toDigits 10 n

/-- The text of a natural number. -/
def natText (n : Nat) : String :=
  String.ofList (digits n)

/-- How far numbers are written without an exponent. -/
structure Layout where
  /-- The greatest number of digits before the point. -/
  wholeDigits : Int
  /-- The greatest number of zeros between the point and the first other digit, plus one. -/
  fractionZeros : Int
deriving DecidableEq, Repr

/-- Numbers are written in full from a millionth up to twenty-one digits before the point. -/
def plain : Layout := ⟨21, 6⟩

/-- The exponent `e` with its mark and its sign. -/
def exponentText (e : Int) : List Char :=
  'e' :: (if e < 0 then '-' else '+') :: digits e.natAbs

/-- Lay out the number with the digits `ds` and the point after the first `point` of them; a
point outside the digits counts zeros. -/
def Layout.place (layout : Layout) (ds : List Char) (point : Int) : List Char :=
  let size : Int := ds.length
  if size ≤ point ∧ point ≤ layout.wholeDigits then
    ds ++ List.replicate (point - size).toNat '0'
  else if 0 < point ∧ point ≤ layout.wholeDigits then
    ds.take point.toNat ++ '.' :: ds.drop point.toNat
  else if -layout.fractionZeros < point ∧ point ≤ 0 then
    '0' :: '.' :: List.replicate (-point).toNat '0' ++ ds
  else
    let mantissa := match ds with
      | [] => []
      | [d] => [d]
      | d :: more => d :: '.' :: more
    mantissa ++ exponentText (point - 1)

/-- The text of the positive decimal `c * 10 ^ p`. -/
def Layout.decimal (layout : Layout) (c : Nat) (p : Int) : List Char :=
  layout.place (digits c) ((digits c).length + p)

/-- A text with a minus sign before it, or not. -/
def withSign (negative : Bool) (cs : List Char) : List Char :=
  if negative then '-' :: cs else cs

/-- The text of a double, as characters. Zero has no sign. -/
def chars (x : Float) : List Char :=
  match read x with
  | .notANumber => "NaN".toList
  | .infinite negative => withSign negative "Infinity".toList
  | .finite negative m e =>
    if m = 0 then ['0']
    else
      let (c, p) := shortest m e
      withSign negative (plain.decimal c p)

/-- The text of a double. -/
def text (x : Float) : String :=
  String.ofList (chars x)

example : chars 1e21 = "1e+21".toList ∧ chars 123456789012345680000 = "123456789012345680000".toList ∧
    chars 1e-6 = "0.000001".toList ∧ chars (-1.5e-7) = "-1.5e-7".toList ∧
    chars (-0.0) = ['0'] := by decide +kernel

end Framewise.Number
