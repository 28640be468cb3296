import Framewise.Number.Binary

/-!
# Shortest decimals

Every decimal close enough to a double reads back as that double. `shortest` picks the one
with the fewest digits: the decimals `c * 10 ^ p` for one `p` form a grid, and the coarsest
grid that meets the double's interval holds the answer. Of two points of that grid the nearer
is taken, of two equally near ones the even.

All comparisons are exact, in natural numbers. The interval of `m * 2 ^ e` is counted in
quarter units `2 ^ (e - 2)`; its ends read back as the double exactly when `m` is even.
-/

namespace Framewise.Number

/-- The lower end of the interval of `m * 2 ^ e` in quarter units. Below a power of two the
doubles lie twice as close. -/
def lowEnd (m : Nat) (e : Int) : Nat :=
  if m = twoPow 52 ∧ -1074 < e then 4 * m - 1 else 4 * m - 2

/-- The upper end of the interval of `m * 2 ^ e` in quarter units. -/
def highEnd (m : Nat) : Nat :=
  4 * m + 2

/-- Of two neighbouring points, the one nearer to `middle`, where `step` is the distance of
points; the even one if `middle` lies halfway. -/
def nearer (middle step below : Nat) : Nat :=
  let distBelow := middle - below * step
  let distAbove := (below + 1) * step - middle
  if distBelow < distAbove then below
  else if distAbove < distBelow then below + 1
  else if below % 2 = 0 then below else below + 1

/-- The point of the grid `10 ^ p` that lies in the interval of `m * 2 ^ e`, nearest to it. -/
def gridPoint? (m : Nat) (e p : Int) : Option Nat :=
  let tens := tenPow p.toNat * twoPow (2 - e).toNat
  let twos := tenPow (-p).toNat * twoPow (e - 2).toNat
  let inside := fun c : Nat =>
    if m % 2 = 0 then lowEnd m e * twos ≤ c * tens && c * tens ≤ highEnd m * twos
    else lowEnd m e * twos < c * tens && c * tens < highEnd m * twos
  let below := 4 * m * twos / tens
  match inside below, inside (below + 1) with
  | true, true => some (nearer (4 * m * twos) tens below)
  | true, false => some below
  | false, true => some (below + 1)
  | false, false => none

/-- A grid that is too coarse for `m * 2 ^ e`, by no more than three powers of ten. The factor
is the decimal logarithm of two, rounded up. -/
def coarseGrid (m : Nat) (e : Int) : Int :=
  ((m.log2 : Int) + 2 + e) * 30103 / 100000 + 1

/-- The first hit on the grids `p`, `p - 1`, … -/
def searchGrids (m : Nat) (e : Int) : Nat → Int → Option (Nat × Int)
  | 0, _ => none
  | tries + 1, p =>
    match gridPoint? m e p with
    | some c => some (c, p)
    | none => searchGrids m e tries (p - 1)

/-- The digits `c` and the exponent `p` of the shortest decimal `c * 10 ^ p` that reads back as
the double `m * 2 ^ e`, for positive `m`. Seventeen digits always suffice, so the search ends
among the grids that it tries. -/
def shortest (m : Nat) (e : Int) : Nat × Int :=
  (searchGrids m e 24 (coarseGrid m e)).getD (m, e)

example : shortest 1 (-1074) = (5, -324) ∧ shortest (twoPow 52) (-52) = (1, 0) ∧
    shortest 0x1999999999999A (-56) = (1, -1) ∧ shortest (twoPow 53 - 1) 971 =
      (17976931348623157, 292) := by decide +kernel

/-- Halfway between two sixteen-digit decimals the even one is taken. -/
example : shortest 4503599627370497 (-2) = (11258999068426242, -1) := by decide +kernel

end Framewise.Number
