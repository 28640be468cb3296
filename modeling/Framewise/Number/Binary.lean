/-!
# Doubles as exact numbers

A finite double is a sign and a dyadic number `significand * 2 ^ exponent`. `read` takes this
form from the bits; what follows from it exactly, without a rounding operation, stands here:
whether a double is an integer, its integer part, and its nearest multiple of a power of ten.
-/

namespace Framewise.Number

/-- A power of two. -/
abbrev twoPow (n : Nat) : Nat := Nat.pow 2 n

/-- A power of ten. -/
abbrev tenPow (n : Nat) : Nat := Nat.pow 10 n

/-- The positive infinite double. -/
def infinity : Float := Float.ofBits 0x7FF0000000000000

/-- The double that is not a number. -/
def notANumber : Float := Float.ofBits 0x7FF8000000000000

/-- What a double denotes. A finite one is `significand * 2 ^ exponent`, negated or not; its
significand is below `2 ^ 53`, and below `2 ^ 52` only at the least exponent. -/
inductive Reading where
  | notANumber
  | infinite (negative : Bool)
  | finite (negative : Bool) (significand : Nat) (exponent : Int)
deriving DecidableEq, Repr

/-- The least exponent of a double. -/
def minExponent : Int := -1074

/-- Read a double from its bits. -/
def read (x : Float) : Reading :=
  let bits := x.toBits.toNat
  let negative := twoPow 63 ≤ bits
  let biased : Nat := bits / twoPow 52 % twoPow 11
  let fraction := bits % twoPow 52
  if biased = twoPow 11 - 1 then
    if fraction = 0 then .infinite negative else .notANumber
  else if biased = 0 then .finite negative fraction minExponent
  else .finite negative (twoPow 52 + fraction) ((biased : Int) - 1 + minExponent)

/-- The integer part of `m * 2 ^ e`. -/
def wholePart (m : Nat) (e : Int) : Nat :=
  m * twoPow e.toNat / twoPow (-e).toNat

/-- Whether `m * 2 ^ e` is an integer. -/
def isWhole (m : Nat) (e : Int) : Bool :=
  m * twoPow e.toNat % twoPow (-e).toNat = 0

/-- Whether a double is an integer. Infinities are none. -/
def isInteger (x : Float) : Bool :=
  match read x with
  | .finite _ m e => isWhole m e
  | _ => false

/-- A finite double without its fraction digits. -/
def truncate? (x : Float) : Option Int :=
  match read x with
  | .finite negative m e => some (if negative then -(wholePart m e : Int) else wholePart m e)
  | _ => none

/-- The quotient of `a` and `b` to the nearest natural number, a half going up. -/
def divNearest (a b : Nat) : Nat :=
  (2 * a + b) / (2 * b)

/-- The nearest integer to `m * 2 ^ e * 10 ^ places`, a half going up. -/
def scaleNearest (places m : Nat) (e : Int) : Nat :=
  divNearest (m * tenPow places * twoPow e.toNat) (twoPow (-e).toNat)

/-- The double nearest to `m * 10 ^ e`. -/
def ofDecimal (m : Nat) (e : Int) : Float :=
  Float.ofScientific m (e < 0) e.natAbs

/-- A finite double rounded to `places` decimal places and read back as a double; a half is
rounded away from zero. The others stay as they are. -/
def roundAt (places : Nat) (x : Float) : Float :=
  match read x with
  | .finite negative m e =>
    let rounded := ofDecimal (scaleNearest places m e) (-places)
    if negative then -rounded else rounded
  | _ => x

/-- The rounded quotient is within half a unit of the quotient, a half going up. -/
theorem divNearest_bounds {b : Nat} (hb : 0 < b) (a : Nat) :
    2 * (b * divNearest a b) ≤ 2 * a + b ∧ 2 * a < 2 * (b * divNearest a b) + b := by
  have h := Nat.div_add_mod (2 * a + b) (2 * b)
  have hlt := Nat.mod_lt (2 * a + b) (show 0 < 2 * b by omega)
  unfold divNearest
  generalize (2 * a + b) / (2 * b) = q at *
  rw [Nat.mul_assoc] at h
  omega

example : read 1.0 = .finite false (twoPow 52) (-52) ∧ read (-0.0) = .finite true 0 (-1074) ∧
    read (0.0 / 0.0) = .notANumber ∧ read (-1.0 / 0.0) = .infinite true := by decide +kernel

example : divNearest 5 2 = 3 ∧ divNearest 7 3 = 2 ∧ isInteger 1e300 ∧ !isInteger 0.5 := by
  decide +kernel

end Framewise.Number
